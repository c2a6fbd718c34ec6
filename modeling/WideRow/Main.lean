import WideRow.CommandLine.Session

/-!
# The program

Reads the files that a command can name into a store, runs the command on it, and brings what has
changed back to the files.
-/

namespace WideRow.Main

open CommandLine Files

/-! ## Loading -/

/-- The path of a location. -/
def pathOf (l : Location) : String := "/" ++ "/".intercalate l

/-- The text of a file, if there is one. -/
def text? (path : String) : IO (Option String) := do
  try
    return some (← IO.FS.readFile path)
  catch _ => return none

/-- The names in a folder, if it is one. -/
def names? (path : String) : IO (Option (List String)) := do
  let entry : IO.FS.DirEntry := ⟨path, "."⟩
  try
    return some ((← entry.path.readDir).toList.map (·.fileName))
  catch _ => return none

/-- A store with what lies at a location, and at the locations below it down to a depth. -/
def load (depth : Nat) (l : Location) (s : Store) : IO Store := do
  match ← names? (pathOf l) with
  | some names =>
    let s := s.putFolder l
    match depth with
    | 0 => return s
    | depth + 1 => names.foldlM (fun s name => load depth (l ++ [name]) s) s
  | none =>
    match ← text? (pathOf l) with
    | some text => return s.putFile l text
    | none => return s

/-- A store with what lies on the way along pieces, and the location they lead to. -/
def loadAlong (s : Store) (l : Location) : List String → IO (Store × Location)
  | [] => return (s, l)
  | piece :: rest => do
    let next := if Path.isIdle piece then l
      else if piece = ".." then l.dropLast
      else l ++ [piece]
    loadAlong (← load 0 next s) next rest

/-- The depth to which folders are loaded for a piece that stands for all folders below. -/
def deepest : Nat := 64

/-- A store with what a path, or a pattern of paths, can lead to. -/
def loadPattern (s : Store) (pattern : String) : IO Store := do
  let pieces := Path.pieces pattern
  let plain := pieces.takeWhile fun piece => !Glob.isPattern piece
  let others := pieces.drop plain.length
  let (s, l) ← loadAlong s (s.startOf pattern) plain
  if others.isEmpty then return s
  else if others.contains "**" then load deepest l s
  else load others.length l s

/-- The paths that a command names. -/
def pathsIn : Command → List String
  | .schema r => r.sources.patterns ++ r.out.toList
  | .render r => r.sources.patterns ++ r.template.toList ++ r.outDir.toList
  | .project r | .reconstruct r => r.sources.patterns

/-- The store that a command runs on. -/
def storeFor (c : Command) : IO Store := do
  let home := (Path.pieces (← IO.currentDir).toString).filter (!·.isEmpty)
  (pathsIn c).foldlM loadPattern (Store.empty home)

/-! ## Saving -/

/-- Brings what has changed in a store back to the files. -/
def save (after before : Store) : IO Unit := do
  for l in after.folders do
    if !before.hasFolder l then IO.FS.createDirAll (pathOf l)
  for (l, text) in after.changedFiles before do
    IO.FS.writeFile (pathOf l) text

/-! ## Running -/

/-- How the program is called. -/
def usage : String :=
  "usage: wide-row COMMAND -i FILES [--jq-expr FILTER]\n" ++
    "  schema       [--package NAME] [--deny-ambiguous] [-o FILE]\n" ++
    "  render       [--package NAME] [--deny-ambiguous] [--template FILE] [--non-null-hints]\n" ++
    "               [--out-dir FOLDER]\n" ++
    "  project      [--sum-type NAME] --value JSON\n" ++
    "  reconstruct  [--sum-type NAME] --value JSON\n"

/-- The wording of a mistake. -/
def misuseText : Misuse → String
  | .nothing | .helpWanted | .versionWanted => usage
  | .unknownCommand => "error: unrecognized subcommand\n"
  | .unknownOption => "error: unexpected argument\n"
  | .incomplete => "error: a required argument was not provided\n"
  | .badValue => "error: a value is required\n"
  | .repeated => "error: an argument cannot be used multiple times\n"
  | .strayValue => "error: unexpected value\n"

/-- A mistake is reported, a wish for help is granted. -/
def report (e : Misuse) : IO UInt32 := do
  if e = .helpWanted ∨ e = .versionWanted then
    IO.print (misuseText e)
    return 0
  else
    IO.eprint (misuseText e)
    return 2

/-- A command run on the files. -/
def runOnFiles (c : Command) : IO UInt32 := do
  let before ← storeFor c
  let (outcome, session) := c.execute before
  save session.store before
  IO.print session.output
  IO.eprint session.complaints
  match outcome with
  | .ok _ => return 0
  | .error e =>
    IO.eprintln ("error: " ++ e.message)
    return 1

end WideRow.Main

/-- The program. -/
def main (words : List String) : IO UInt32 :=
  match WideRow.CommandLine.Command.parse words with
  | .ok c => WideRow.Main.runOnFiles c
  | .error e => WideRow.Main.report e
