import WideRow.CommandLine.Command
import WideRow.Description.Wire
import WideRow.Files.Glob
import WideRow.Filter
import WideRow.Generation

/-!
# Sessions

What a command does: it reads descriptions from files, and prints, or writes files. What has been
printed and written stays so when the command fails later on. Documents can be led through a filter
before descriptions are looked for in them, and whatever the language of filters is, the rest is the
same.

Main definitions:
* `descriptionsOf`: the descriptions that a command works on;
* `Command.run`: a command with its effects;
* `Command.execute`: a command as the program runs it, with filters in `Filter.jq`.
-/

namespace WideRow.CommandLine

open Files (Store Refusal)

/-! ## Failures -/

/-- Why a command fails. -/
inductive Failure where
  | badPattern (e : Files.PatternError)
  | noMatch (pattern : String)
  | unreadFile (path : String) (e : Refusal)
  | unreadTemplate (path : String) (e : Refusal)
  | badTemplate (origin : String) (e : TemplateError)
  | notJson (path : String) (f : Json.Fault)
  | badFilter (path filter : String) (f : Filter.Fault)
  | notDescription (path : String) (f : Json.Fault)
  | notInstance (f : Json.Fault)
  | notRow (f : Json.Fault)
  | severalSumTypes (count : Nat)
  | noSumType (name : String)
  | unbuilt (e : StructuralError)
  | unplanned (e : PlanError)
  | unanalyzed (sumType : String) (e : GenerateError)
  | ungenerated (failed count : Nat)
  | unmadeFolder (path : String) (e : Refusal)
  | unwrittenFile (path : String) (e : Refusal)
  deriving Inhabited

/-- The wording of a failure, with its causes. -/
def Failure.message : Failure → String
  | .badPattern e => "failed to resolve input file paths: " ++ e.message
  | .noMatch pattern =>
    "failed to resolve input file paths: glob pattern matched no files: " ++ pattern
  | .unreadFile path e => "failed to read description file " ++ path ++ ": " ++ e.message
  | .unreadTemplate path e => "failed to read template " ++ path ++ ": " ++ e.message
  | .badTemplate origin e => "invalid template " ++ origin ++ ": " ++ e.message
  | .notJson path f => "failed to parse JSON file (" ++ path ++ "): " ++ f.bareMessage
  | .badFilter path filter f =>
    "failed to apply jq expression to " ++ path ++ ": " ++ f.message filter
  | .notDescription path f => "invalid description in " ++ path ++ ": " ++ f.message
  | .notInstance f => "--value must be an instance object: " ++ f.bareMessage
  | .notRow f => "--value must be a JSON array: " ++ f.bareMessage
  | .severalSumTypes count =>
    "input holds " ++ toString count ++ " sum types; pick one with --sum-type"
  | .noSumType name => "no sum type named " ++ name ++ " in the input"
  | .unbuilt e => e.message
  | .unplanned e => e.message
  | .unanalyzed sumType e => "sum type " ++ sumType ++ ": " ++ e.message
  | .ungenerated failed count =>
    toString failed ++ " of " ++ toString count ++ " sum types failed to generate"
  | .unmadeFolder path e => "failed to create " ++ path ++ ": " ++ e.message
  | .unwrittenFile path e => "failed to write " ++ path ++ ": " ++ e.message

/-! ## What a command reads -/

/-- The paths that a pattern stands for: itself if it has no signs of patterns. -/
def pathsOf (s : Store) (pattern : String) : Except Failure (List String) :=
  if Files.Glob.isPattern pattern then do
    let paths ← (Files.Glob.paths s pattern).mapError .badPattern
    if paths.isEmpty then throw (.noMatch pattern)
    return paths
  else .ok [pattern]

/-- The template at a path, or the bundled one. -/
def templateOf (s : Store) : Option String → Except Failure Template
  | none => (Template.parse bundledTemplate).mapError (.badTemplate "<bundled>")
  | some path => do
    let text ← (s.read path).mapError (.unreadTemplate path)
    (Template.parse text).mapError (.badTemplate path)

/-- The description that is asked for: the one of a name, or the only one. -/
def pick (sumType : Option String) (ds : List Description) : Except Failure Description :=
  match sumType, ds with
  | none, [d] => .ok d
  | none, ds => .error (.severalSumTypes ds.length)
  | some name, ds =>
    match ds.find? (·.name == name) with
    | some d => .ok d
    | none => .error (.noSumType name)

section Filtered

variable (l : Filter.Language)

/-- The JSON values of a file: its own, or what a filter makes of it. -/
def documentsOf (s : Store) (filter : Option String) (path : String) :
    Except Failure (List Json.Value) := do
  let text ← (s.read path).mapError (.unreadFile path)
  let v ← (Json.Value.read text).mapError (.notJson path)
  match filter with
  | none => return [v]
  | some filter => (l.run filter v).mapError (.badFilter path filter)

/-- The descriptions of a file. -/
def descriptionsIn (s : Store) (filter : Option String) (path : String) :
    Except Failure (List Description) := do
  let documents ← documentsOf l s filter path
  let lists ← documents.mapM fun v =>
    (Description.listOfValue v).mapError (Failure.notDescription path)
  return lists.flatten

/-- The descriptions of all sources, in their order. All paths are found before a file is read. -/
def descriptionsOf (s : Store) (sources : Sources) : Except Failure (List Description) := do
  let paths ← sources.patterns.mapM (pathsOf s)
  let lists ← paths.flatten.mapM (descriptionsIn l s sources.filter)
  return lists.flatten

/-- The planner of the sum type that is asked for. -/
def plannerOf (s : Store) (r : ProbeRequest) : Except Failure Planner := do
  let d ← pick r.sumType (← descriptionsOf l s r.sources)
  let d ← d.build.mapError .unbuilt
  return Planner.of d d.schema

/-- The row of the instance that a request holds. -/
def rowOf (s : Store) (r : ProbeRequest) : Except Failure Row := do
  let i ← (Json.decodeWhole Instance.decode r.value).mapError .notInstance
  let p ← plannerOf l s r
  (p.project i).mapError .unplanned

/-- The instance of the row that a request holds. -/
def instanceOf (s : Store) (r : ProbeRequest) : Except Failure Instance := do
  let row ← (Json.decodeWhole Row.decode r.value).mapError .notRow
  let p ← plannerOf l s r
  (p.reconstruct row).mapError .unplanned

/-- The reports of the sum types of a request. -/
def reportsOf (s : Store) (r : SchemaRequest) : Except Failure (List SchemaReport) := do
  let ds ← descriptionsOf l s r.sources
  let options : Options := ⟨false, r.settings.package, r.settings.denyAmbiguous⟩
  ds.mapM fun d => (analyze d options).outcome.mapError (Failure.unanalyzed d.name)

end Filtered

/-! ## What a command does -/

/-- The files, and what has been printed. -/
structure Session where
  store : Store
  output : String
  complaints : String
  deriving Inhabited

/-- A step of a command. -/
abbrev Action (α : Type) := ExceptT Failure (StateM Session) α

/-- A value that is read, or the failure of the command. -/
def consult {α : Type} (f : Store → Except Failure α) : Action α := do
  ExceptT.mk (pure (f (← get).store))

/-- A line on the output. -/
def printLine (text : String) : Action Unit :=
  modify fun s => { s with output := s.output ++ text ++ "\n" }

/-- A line beside the output. -/
def complain (text : String) : Action Unit :=
  modify fun s => { s with complaints := s.complaints ++ text ++ "\n" }

/-- A change of the files, or the failure of the command. -/
def change (f : Store → Except Failure Store) : Action Unit := do
  let s ← consult f
  modify fun session => { session with store := s }

/-- A text written to a path, with the folders around it. -/
def writeFile (path text : String) : Action Unit := do
  if let some folder := Files.Path.parent? path then
    change fun s => (s.makeFolders folder).mapError (.unmadeFolder folder)
  change fun s => (s.write path text).mapError (.unwrittenFile path)

/-- A text written to a path or printed. -/
def writeOrPrint (path : Option String) (text : String) : Action Unit :=
  match path with
  | some path => writeFile path text
  | none => printLine text

/-- An adapter written below a folder or printed. -/
def deliver (root : Option String) (a : Adapter) : Action Unit := do
  match root with
  | none => printLine a.source
  | some root =>
    let path := pushPath root a.relativePath
    writeFile path a.source
    complain ("✅ " ++ path)

/-- The adapters of sum types, one after the other, and the number of sum types without one. -/
def deliverAll (root : Option String) :
    List (Description × Except GenerateError Adapter) → Action Nat
  | [] => return 0
  | (_, .ok a) :: rest => do
    deliver root a
    deliverAll root rest
  | (d, .error e) :: rest => do
    complain ("❌ " ++ d.name ++ ": " ++ e.message)
    return (← deliverAll root rest) + 1

/-- The request for adapters. -/
def renderAdapters (l : Filter.Language) (r : RenderRequest) : Action Unit := do
  let t ← consult fun s => templateOf s r.template
  let ds ← consult fun s => descriptionsOf l s r.sources
  let options : Options := ⟨r.nonNullHints, r.settings.package, r.settings.denyAmbiguous⟩
  let failed ← deliverAll r.outDir (ds.zip (generateAll ds t options))
  if failed ≠ 0 then throw (.ungenerated failed ds.length)

namespace Command

/-- The command is only to be written out. -/
def isDry : Command → Bool
  | .schema r => r.dry
  | .render r => r.dry
  | .project _ | .reconstruct _ => false

/-- A command with its effects, in a language of filters. -/
def run (l : Filter.Language) (c : Command) : Action Unit :=
  if c.isDry then complain c.outline.render
  else match c with
    | .schema r => do
      let reports ← consult fun s => reportsOf l s r
      writeOrPrint r.out (Json.Value.array (reports.map SchemaReport.toJson)).pretty
    | .render r => renderAdapters l r
    | .project r => do printLine (← consult fun s => rowOf l s r).toJson.pretty
    | .reconstruct r => do printLine (← consult fun s => instanceOf l s r).toJson.pretty

/-- The outcome of a command over a store, and the session after it. -/
def executeIn (l : Filter.Language) (c : Command) (s : Store) : Except Failure Unit × Session :=
  (c.run l).run ⟨s, "", ""⟩

/-- The outcome of a command as the program runs it. -/
def execute (c : Command) (s : Store) : Except Failure Unit × Session := c.executeIn Filter.jq s

end Command

end WideRow.CommandLine
