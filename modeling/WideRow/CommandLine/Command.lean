import WideRow.CommandLine.Options
import WideRow.CommandLine.Outline

/-!
# Commands

What can be asked of the program: the schema of sum types, their adapters, the row of an instance
and the instance of a row.

Main definitions:
* `Command.parse`: the command that words stand for;
* `Command.outline`: a command written out.
-/

namespace WideRow.CommandLine

/-! ## Commands -/

/-- Where descriptions come from. -/
structure Sources where
  /-- a filter for each document -/
  filter : Option String
  /-- paths of files, or patterns of paths -/
  patterns : List String
  deriving DecidableEq, Inhabited

/-- What is chosen for all sum types. -/
structure Settings where
  package : Option String
  denyAmbiguous : Bool
  deriving DecidableEq, Inhabited

/-- The schemas of sum types, printed or written to a file. -/
structure SchemaRequest where
  sources : Sources
  settings : Settings
  out : Option String
  /-- whether only the command itself is written out -/
  dry : Bool
  deriving DecidableEq, Inhabited

/-- The adapters of sum types, printed or written below a folder. -/
structure RenderRequest where
  sources : Sources
  settings : Settings
  template : Option String
  nonNullHints : Bool
  outDir : Option String
  /-- whether only the command itself is written out -/
  dry : Bool
  deriving DecidableEq, Inhabited

/-- An instance or a row of one sum type. -/
structure ProbeRequest where
  sources : Sources
  sumType : Option String
  value : String
  deriving DecidableEq, Inhabited

/-- A command of the program. -/
inductive Command where
  | schema (request : SchemaRequest)
  | render (request : RenderRequest)
  | project (request : ProbeRequest)
  | reconstruct (request : ProbeRequest)
  deriving DecidableEq, Inhabited

/-! ## Options of the commands -/

/-- The options of all commands. -/
def commonRules : List OptionRule :=
  [⟨"jq-expr", none, .text⟩, ⟨"input", some 'i', .texts⟩, ⟨"help", some 'h', .help⟩]

/-- The options of the commands that treat all sum types. -/
def settingRules : List OptionRule :=
  [⟨"package", none, .text⟩, ⟨"deny-ambiguous", none, .nothing⟩, ⟨"no-op", none, .nothing⟩]

/-- The options of the command for schemas. -/
def schemaRules : List OptionRule :=
  commonRules ++ settingRules ++ [⟨"out", some 'o', .path⟩]

/-- The options of the command for adapters. -/
def renderRules : List OptionRule :=
  commonRules ++ settingRules ++
    [⟨"template", none, .path⟩, ⟨"non-null-hints", none, .nothing⟩, ⟨"out-dir", none, .path⟩]

/-- The options of the commands for a single value. -/
def probeRules : List OptionRule :=
  commonRules ++ [⟨"sum-type", none, .text⟩, ⟨"value", none, .text⟩]

/-- The options in front of a command. -/
def outerRules : List OptionRule :=
  [⟨"help", some 'h', .help⟩, ⟨"version", some 'V', .version⟩]

/-! ## Reading commands -/

namespace Command

/-- The sources among options. There must be some. -/
def sourcesOf (g : Given) : Except Misuse Sources :=
  if g.has "input" then .ok ⟨g.value? "jq-expr", g.values "input"⟩ else .error .incomplete

/-- The settings among options. -/
def settingsOf (g : Given) : Settings := ⟨g.value? "package", g.has "deny-ambiguous"⟩

/-- A request for schemas. -/
def schemaOf (words : List String) : Except Misuse SchemaRequest := do
  let g ← readOptions schemaRules words
  return ⟨← sourcesOf g, settingsOf g, g.value? "out", g.has "no-op"⟩

/-- A request for adapters. -/
def renderOf (words : List String) : Except Misuse RenderRequest := do
  let g ← readOptions renderRules words
  return ⟨← sourcesOf g, settingsOf g, g.value? "template", g.has "non-null-hints",
    g.value? "out-dir", g.has "no-op"⟩

/-- A request for a single value. -/
def probeOf (words : List String) : Except Misuse ProbeRequest := do
  let g ← readOptions probeRules words
  let sources ← sourcesOf g
  match g.value? "value" with
  | some value => return ⟨sources, g.value? "sum-type", value⟩
  | none => throw .incomplete

/-- The names of the commands. -/
def names : List String := ["schema", "render", "project", "reconstruct", "help"]

/-- The words after `help` name a command or nothing. -/
def helpOn : List String → Misuse
  | [] => .helpWanted
  | [name] => if names.contains name then .helpWanted else .unknownCommand
  | _ => .unknownCommand

/-- What is wrong with a first word that names no command, and with the words after it. -/
def misuseOf (word : String) (rest : List String) : Misuse :=
  match word.toList, rest with
  | ['-', '-'], [] => .nothing
  | ['-', '-'], next :: _ => if names.contains next then .unknownOption else .unknownCommand
  | '-' :: _ :: _, _ =>
    match readOptions outerRules [word] with
    | .error e => e
    | .ok _ => .nothing
  | _, _ => .unknownCommand

/-- The command that words stand for. -/
def parse : List String → Except Misuse Command
  | [] => .error .nothing
  | "schema" :: words => .schema <$> schemaOf words
  | "render" :: words => .render <$> renderOf words
  | "project" :: words => .project <$> probeOf words
  | "reconstruct" :: words => .reconstruct <$> probeOf words
  | "help" :: words => .error (helpOn words)
  | word :: rest => .error (misuseOf word rest)

/-! ## Writing commands out -/

/-- A text that may be missing. -/
def optional (s : Option String) : Outline := .ofOption (s.map .text)

/-- Sources written out. -/
def sourcesOutline (s : Sources) : Outline :=
  .record "InputSettings"
    [("jq_expr", optional s.filter), ("input", .listed (s.patterns.map .text))]

/-- Settings written out. -/
def settingsOutline (s : Settings) : Outline :=
  .record "GenerateSettings"
    [("package", optional s.package), ("deny_ambiguous", .flag s.denyAmbiguous)]

/-- A request for a single value written out. -/
def probeOutline (r : ProbeRequest) : Outline :=
  .record "ProbeArgs"
    [("input_settings", sourcesOutline r.sources), ("sum_type", optional r.sumType),
      ("value", .text r.value)]

/-- The request of a command written out. -/
def requestOutline : Command → Outline
  | .schema r => .applied "Schema" [.record "SchemaOut"
      [("input_settings", sourcesOutline r.sources),
        ("generate_settings", settingsOutline r.settings), ("out", optional r.out),
        ("no_op", .flag r.dry)]]
  | .render r => .applied "Render" [.record "RenderOut"
      [("input_settings", sourcesOutline r.sources),
        ("generate_settings", settingsOutline r.settings), ("template", optional r.template),
        ("non_null_hints", .flag r.nonNullHints), ("out_dir", optional r.outDir),
        ("no_op", .flag r.dry)]]
  | .project r => .applied "Project" [probeOutline r]
  | .reconstruct r => .applied "Reconstruct" [probeOutline r]

/-- A command written out. -/
def outline (c : Command) : Outline := .record "CommandLineInterface" [("cmd", c.requestOutline)]

end Command

end WideRow.CommandLine
