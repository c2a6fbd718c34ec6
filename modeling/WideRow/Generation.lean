import WideRow.Adapter.Bundled
import WideRow.Adapter.Emission

/-!
# Generation

From a description to its adapter, and to a report of what was derived for it. Each stops at the
first failure: the structure of the description, alternatives that cannot be told apart (if that is
to be denied), and a missing package. What happens on the way is recorded as events, also when the
outcome is a failure.

Main definitions:
* `generate`, `generateAll`: adapters;
* `analyze`: the report.
-/

namespace WideRow

/-! ## Events -/

/-- What happens while a sum type is treated. -/
inductive Event where
  | unified (sumType : String) (width common : Nat)
  | built (sumType : String) (alternatives : Nat)
  | collision (sumType field : String) (types : List String)
  | identical (sumType first second : String)
  | emitted (sumType adapter : String) (bytes : Nat)
  deriving DecidableEq, Inhabited

namespace Event

/-- The event is a warning. -/
def isWarning : Event → Bool
  | .collision .. | .identical .. => true
  | _ => false

/-- The wording of an event. -/
def message : Event → String
  | .unified .. => "unified"
  | .built .. => "built definition"
  | .collision .. => "field name declared with several types; each type gets its own column"
  | .identical .. => "alternatives have identical field sets; their rows cannot be read back"
  | .emitted .. => "emitted"

/-- The named details of an event. -/
def details : Event → List (String × String)
  | .unified sumType width common =>
    [("sum_type", sumType), ("width", toString width), ("common", toString common)]
  | .built sumType alternatives =>
    [("sum_type", sumType), ("alternatives", toString alternatives)]
  | .collision sumType field types =>
    [("sum_type", sumType), ("field", field), ("types", Text.quotedList types)]
  | .identical sumType first second =>
    [("sum_type", sumType), ("first", first), ("second", second)]
  | .emitted sumType adapter bytes =>
    [("sum_type", sumType), ("adapter", adapter), ("bytes", toString bytes)]

end Event

/-! ## Failures -/

/-- Why there is no adapter. -/
inductive GenerateError where
  | structural (e : StructuralError)
  | ambiguousAlternatives (sumType : String) (pairs : List (String × String))
  deriving DecidableEq, Inhabited

/-- The wording of a failure. -/
def GenerateError.message : GenerateError → String
  | .structural e => e.message
  | .ambiguousAlternatives sumType pairs =>
    "`" ++ sumType ++ "` has alternatives with identical field sets: " ++
      String.intercalate "; " (pairs.map fun pair => pair.1 ++ " = " ++ pair.2)

/-! ## Recorded runs -/

/-- The outcome of a run and the events on the way to it. -/
structure Run (α : Type) where
  events : List Event
  outcome : Except GenerateError α

namespace Run

/-- A run that has come to a value. -/
def pure {α : Type} (a : α) : Run α := ⟨[], .ok a⟩

/-- A run that goes on with the value of another, and ends with its failure. -/
def bind {α β : Type} (r : Run α) (f : α → Run β) : Run β :=
  match r.outcome with
  | .error e => ⟨r.events, .error e⟩
  | .ok a => ⟨r.events ++ (f a).events, (f a).outcome⟩

instance : Monad Run where
  pure := pure
  bind := bind

/-- A run that records events. -/
def record (events : List Event) : Run Unit := ⟨events, .ok ()⟩

/-- A run without events. -/
def structural {α : Type} (outcome : Except StructuralError α) : Run α :=
  ⟨[], outcome.mapError .structural⟩

end Run

/-! ## Options and results -/

/-- What can be chosen for the generation. -/
structure Options where
  /-- whether fields that no row lacks are marked as not nullable -/
  nonNullHints : Bool
  /-- a package for all adapters -/
  package : Option String
  /-- whether alternatives with the same fields are a failure -/
  denyAmbiguous : Bool
  deriving DecidableEq, Inhabited

/-- A generated adapter. -/
structure Adapter where
  sumType : String
  package : String
  typeName : String
  relativePath : String
  source : String
  deriving DecidableEq, Inhabited

/-- What is derived for a sum type short of its adapter. -/
structure SchemaReport where
  sumType : String
  adapter : String
  embeddable : String
  unified : Unified
  order : List Alternative
  ambiguous : List (String × String)
  deriving DecidableEq, Inhabited

/-- An alternative in a report, as JSON. -/
def Alternative.toJson (a : Alternative) : Json.Value :=
  .object [("alternative", .string a.name), ("arity", .ofNat a.arity),
    ("fields", .array (a.fields.map Field.toJson))]

/-- A report as JSON. -/
def SchemaReport.toJson (r : SchemaReport) : Json.Value :=
  .object ([("sum_type", .string r.sumType), ("adapter", .string r.adapter),
      ("embeddable", .string r.embeddable)] ++ r.unified.members ++
    [("order", .array (r.order.map Alternative.toJson)),
      ("ambiguous", .array (r.ambiguous.map fun pair =>
        .array [.string pair.1, .string pair.2]))])

/-! ## Stages -/

/-- The warnings about names with several types. -/
def collisionEvents (d : Definition) (u : Unified) : List Event :=
  u.schema.collisions.map fun entry => .collision d.name entry.1 entry.2

/-- The pairs of alternatives that cannot be told apart: a failure or warnings. -/
def checkAmbiguity (d : Definition) (p : Planner) (deny : Bool) : Run (List (String × String)) :=
  let pairs := p.ambiguousPairs
  if deny && !pairs.isEmpty then ⟨[], .error (.ambiguousAlternatives d.name pairs)⟩
  else ⟨pairs.map fun pair => .identical d.name pair.1 pair.2, .ok pairs⟩

/-- The report of a description. -/
def analyze (description : Description) (options : Options) : Run SchemaReport := do
  let d ← Run.structural description.build
  let u := d.unify
  Run.record [.unified d.name u.schema.width u.common.toList.length]
  Run.record (collisionEvents d u)
  let p := Planner.of d u.schema
  let ambiguous ← checkAmbiguity d p options.denyAmbiguous
  let n ← Run.structural (Naming.of? d options.package)
  return {
    sumType := d.name
    adapter := n.adapter
    embeddable := n.embeddable
    unified := u
    order := p.order.map (·.alternative)
    ambiguous := ambiguous }

/-- The adapter of a description. -/
def generate (description : Description) (t : Template) (options : Options) : Run Adapter := do
  let d ← Run.structural description.build
  Run.record [.built d.name d.alternatives.length]
  let u := d.unify
  Run.record (collisionEvents d u)
  let _ ← checkAmbiguity d (Planner.of d u.schema) options.denyAmbiguous
  let n ← Run.structural (Naming.of? d options.package)
  let source := emit d u n t options.nonNullHints
  Run.record [.emitted d.name n.adapter source.utf8ByteSize]
  return {
    sumType := d.name
    package := n.package
    typeName := n.adapter
    relativePath := n.relativePath
    source := source }

/-- The outcomes for several descriptions, in their order. -/
def generateAll (descriptions : List Description) (t : Template) (options : Options) :
    List (Except GenerateError Adapter) :=
  descriptions.map fun d => (generate d t options).outcome

end WideRow
