import WideRow.Files.Path

/-!
# Files

Texts in files and files in folders. A path is followed from the folder that relative paths begin
in, piece by piece: each piece but the last must lead to a folder.

Main definitions:
* `Store`: the files and the folders;
* `Store.read`, `Store.write`, `Store.makeFolders`: what can be done by path;
* `Store.changes`: the files that one store has and another has not.
-/

namespace WideRow.Files

/-- The names that lead from the root to a file or a folder. -/
abbrev Location := List String

/-- Why nothing can be done with a path. -/
inductive Refusal where
  | missing
  | exists
  | notFolder
  | isFolder
  deriving DecidableEq, Inhabited

/-- The wording of a refusal, with its number. -/
def Refusal.message : Refusal → String
  | .missing => "No such file or directory (os error 2)"
  | .exists => "File exists (os error 17)"
  | .notFolder => "Not a directory (os error 20)"
  | .isFolder => "Is a directory (os error 21)"

/-- Files with their texts, and folders. Relative paths begin in the folder `home`. -/
structure Store where
  files : List (Location × String)
  folders : List Location
  home : Location
  deriving Inhabited

namespace Store

/-! ## Contents -/

/-- The text of the file at a location. -/
def fileAt? (s : Store) (l : Location) : Option String := s.files.lookup l

/-- There is a folder at a location. The root is one. -/
def hasFolder (s : Store) (l : Location) : Bool := l.isEmpty || s.folders.contains l

/-- There is a file or a folder at a location. -/
def has (s : Store) (l : Location) : Bool := (s.fileAt? l).isSome || s.hasFolder l

/-- A list of files with the text of one set. -/
def setFile (l : Location) (text : String) : List (Location × String) → List (Location × String)
  | [] => [(l, text)]
  | (k, old) :: rest => if k = l then (k, text) :: rest else (k, old) :: setFile l text rest

/-- A store with the text of a file set. -/
def putFile (s : Store) (l : Location) (text : String) : Store :=
  { s with files := setFile l text s.files }

/-- A store with a folder. -/
def putFolder (s : Store) (l : Location) : Store :=
  if s.hasFolder l then s else { s with folders := s.folders ++ [l] }

/-- A store with the folders on the way to a location. -/
def putFoldersTo (s : Store) (l : Location) : Store :=
  (List.range l.length).foldl (fun s n => s.putFolder (l.take n)) s

/-- The names in a folder, in order. -/
def namesIn (s : Store) (l : Location) : List String :=
  let inside (m : Location) : Option String :=
    if m.dropLast = l then m.getLast? else none
  (((s.files.map (·.1)) ++ s.folders).filterMap inside).eraseDups.mergeSort fun a b => a ≤ b

/-- A store with an empty home. -/
def empty (home : Location) : Store := (Store.mk [] [] home).putFoldersTo home |>.putFolder home

/-- A store with a file, by its path from the home, and the folders on the way to it. -/
def withFile (s : Store) (path text : String) : Store :=
  let l := s.home ++ Path.pieces path
  (s.putFoldersTo l).putFile l text

/-! ## Following paths -/

/-- The location that pieces lead to. -/
def walk (s : Store) (l : Location) : List String → Except Refusal Location
  | [] => .ok l
  | piece :: rest =>
    if !s.hasFolder l then .error .notFolder
    else if Path.isIdle piece then walk s l rest
    else if piece = ".." then walk s l.dropLast rest
    else if s.has (l ++ [piece]) then walk s (l ++ [piece]) rest
    else .error .missing

/-- The location that a path begins at. -/
def startOf (s : Store) (path : String) : Location := if Path.isAbsolute path then [] else s.home

/-- The location that a path leads to. -/
def locate (s : Store) (path : String) : Except Refusal Location :=
  if path.isEmpty then .error .missing else s.walk (s.startOf path) (Path.pieces path)

/-- A path leads to a folder. -/
def isFolder (s : Store) (path : String) : Bool :=
  match s.locate path with
  | .ok l => s.hasFolder l
  | .error _ => false

/-- The last step of a path: the folder it is taken in, its piece, and whether a slash follows. -/
structure LastStep where
  folder : Location
  piece : String
  slash : Bool

/-- The last step of a path. The pieces in front of it must lead to a folder. -/
def lastStep (s : Store) (path : String) : Except Refusal LastStep :=
  if path.isEmpty then .error .missing
  else
    let reversed := (Path.pieces path).reverse
    let trimmed := reversed.dropWhile (·.isEmpty)
    match trimmed with
    | [] => .ok ⟨[], ".", true⟩
    | piece :: front => do
      let folder ← s.walk (s.startOf path) (front.reverse ++ ["."])
      return ⟨folder, piece, trimmed.length < reversed.length⟩

/-- The last piece names no file or folder of its own. -/
def LastStep.isDots (step : LastStep) : Bool := step.piece == "." || step.piece == ".."

/-- The location of the last piece. -/
def LastStep.location (step : LastStep) : Location := step.folder ++ [step.piece]

/-! ## Reading and writing -/

/-- The text of the file that a path leads to. -/
def read (s : Store) (path : String) : Except Refusal String := do
  let l ← s.locate path
  match s.fileAt? l with
  | some text => return text
  | none => throw .isFolder

/-- A store after a text has been written to a path. -/
def write (s : Store) (path text : String) : Except Refusal Store := do
  let step ← s.lastStep path
  if step.slash || step.isDots || s.hasFolder step.location then throw .isFolder
  return s.putFile step.location text

/-- A store with a folder made at a path. -/
def makeFolder (s : Store) (path : String) : Except Refusal Store := do
  let step ← s.lastStep path
  if step.isDots || s.has step.location then throw .exists
  return s.putFolder step.location

/-- A store with a folder at a path, made unless it is there. -/
def ensureFolder (s : Store) (path : String) : Except Refusal Store :=
  match s.makeFolder path with
  | .ok s => .ok s
  | .error e => if s.isFolder path then .ok s else .error e

/-- A store with the folders of paths, of which each lies in the next. Where the folder around is
missing, it is made first. -/
def ensureAll (s : Store) : List String → Except Refusal Store
  | [] => .ok s
  | path :: above =>
    if path.isEmpty then .ok s
    else match s.makeFolder path with
      | .ok s => .ok s
      | .error .missing => do
        let s ← s.ensureAll above
        s.ensureFolder path
      | .error e => if s.isFolder path then .ok s else .error e

/-- A store with the folder of a path and all folders around it. -/
def makeFolders (s : Store) (path : String) : Except Refusal Store :=
  s.ensureAll (Path.ancestors path)

/-! ## Changes -/

/-- The files of a store that another store does not have with the same text. -/
def changedFiles (after before : Store) : List (Location × String) :=
  after.files.filter fun (l, text) => before.fileAt? l != some text

/-- The changed files below the home, by their paths from the home, in order. -/
def changes (after before : Store) : List (String × String) :=
  let below := (after.changedFiles before).filterMap fun (l, text) =>
    if after.home.isPrefixOf l then
      some ("/".intercalate (l.drop after.home.length), text)
    else none
  below.mergeSort fun a b => a.1 ≤ b.1

end Store

end WideRow.Files
