import WideRow.Schema
import WideRow.Row

/-!
# Projection and reconstruction

How an instance is laid out over the wide row of a schema, and how the alternative of a row is found
again without a column that names it.

The candidates are tried by arity, largest first, and then by name. A row belongs to the first
candidate all of whose cells are populated, provided that no other candidate fits the row as well
without lying inside the first: a later one that needs a further cell is a rival, and one that
occupies the same cells is a tie.

Main definitions:
* `Planner.project`: instance to row;
* `Planner.resolve`, `Planner.reconstruct`: row to alternative and to instance.
-/

namespace WideRow

open Json

/-! ## Failures -/

/-- Why an instance has no row, or a row no instance. -/
inductive PlanError where
  | undeclared (alternative : String)
  | strayField (alternative field : String)
  | wrongWidth (cells positions : Nat)
  | incomplete
  | ambiguous (matched : List String)
  deriving DecidableEq, Inhabited

/-- The wording of a failure. -/
def PlanError.message : PlanError → String
  | .undeclared alternative => "unknown alternative: `" ++ alternative ++ "` is not declared"
  | .strayField alternative field =>
    "unknown alternative: `" ++ alternative ++ "` has no field `" ++ field ++ "`"
  | .wrongWidth cells positions =>
    "unknown alternative: row has " ++ toString cells ++ " cells but the schema has " ++
      toString positions ++ " positions"
  | .incomplete => "unknown alternative: no alternative has all of its fields populated"
  | .ambiguous matched =>
    "row matches incomparable alternatives: " ++ String.intercalate ", " matched

/-! ## Candidates -/

/-- An alternative with the positions of its fields in the row, in the order of declaration. -/
structure Candidate where
  alternative : Alternative
  slots : List (Field × Nat)
  deriving DecidableEq, Inhabited

namespace Candidate

/-- The candidate of an alternative over a schema. A field without a column is left out. -/
def of (schema : Schema) (a : Alternative) : Candidate :=
  ⟨a, a.fields.filterMap fun f => (schema.positionOf? f).map fun p => (f, p)⟩

/-- The name of the alternative. -/
def name (c : Candidate) : String := c.alternative.name

/-- The number of fields that are declared. -/
def arity (c : Candidate) : Nat := c.alternative.arity

/-- The fields with their positions, in the order of the positions. -/
def slotsByPosition (c : Candidate) : List (Field × Nat) :=
  c.slots.mergeSort fun a b => a.2 ≤ b.2

/-- A position belongs to the candidate. -/
def occupies (c : Candidate) (position : Nat) : Bool := c.slots.any (·.2 == position)

/-- Every position of the first candidate belongs to the second. -/
def isCoveredBy (c d : Candidate) : Bool := c.slots.all fun slot => d.occupies slot.2

/-- Two candidates occupy the same positions. -/
def ties (c d : Candidate) : Bool := c.isCoveredBy d && d.isCoveredBy c

/-- All positions of the candidate are populated in a row. -/
def fits (c : Candidate) (row : Row) : Bool := c.slots.all fun slot => row.isPopulated slot.2

/-- The fields of a second candidate at positions that the first does not occupy, in the order of
the positions. -/
def beyond (c d : Candidate) : List (Field × Nat) :=
  d.slotsByPosition.filter fun slot => !c.occupies slot.2

/-- A candidate comes before another: it has more fields, or as many and a smaller name. -/
def precedes (c d : Candidate) : Bool :=
  d.arity < c.arity || (c.arity == d.arity && c.name ≤ d.name)

/-- The candidates of a list that need positions which the given one does not occupy, each with
those positions. -/
def rivals (c : Candidate) (later : List Candidate) : List (Candidate × List (Field × Nat)) :=
  (later.map fun d => (d, c.beyond d)).filter fun entry => !entry.2.isEmpty

end Candidate

/-! ## The planner -/

/-- The candidates of a sum type in the order in which they are tried, over a schema. -/
structure Planner where
  schema : Schema
  order : List Candidate
  deriving Inhabited

namespace Planner

/-- The planner of a definition. The schema should be that of the definition. -/
def of (d : Definition) (schema : Schema) : Planner :=
  ⟨schema, (d.alternatives.map (Candidate.of schema)).mergeSort Candidate.precedes⟩

/-- The number of cells of a row. -/
def width (p : Planner) : Nat := p.schema.width

/-- The first candidate of a name. -/
def candidate? (p : Planner) (alternative : String) : Option Candidate :=
  p.order.find? (·.name = alternative)

/-- The candidates that occupy the same positions as a given one. -/
def tiesOf (p : Planner) (c : Candidate) : List Candidate := p.order.filter (c.ties ·)

/-- The candidates that occupy the same positions as the one at an index. -/
def ties? (p : Planner) (index : Nat) : Option (List Candidate) := p.order[index]?.map p.tiesOf

/-- The later candidates that need positions which the one at an index does not occupy. -/
def rivals? (p : Planner) (index : Nat) : Option (List (Candidate × List (Field × Nat))) :=
  p.order[index]?.map fun c => c.rivals (p.order.drop (index + 1))

/-- The pairs of a candidate with the later ones of the same positions. Only candidates of equal
arity stand next to each other, so the search ends at the first of another arity. -/
def pairsFrom : List Candidate → List (Candidate × Candidate)
  | [] => []
  | c :: later =>
    ((later.takeWhile fun d => c.arity == d.arity).filter (c.ties ·)).map (fun d => (c, d)) ++
      pairsFrom later

/-- The pairs of alternatives with the same field set: a row of one fits the other just as well. -/
def ambiguousPairs (p : Planner) : List (String × String) :=
  (pairsFrom p.order).map fun pair => (pair.1.name, pair.2.name)

/-! ### Projection -/

/-- The cell of an instance at a position, for its candidate. -/
def cellAt (c : Candidate) (fields : Members) (position : Nat) : Value :=
  match c.slots.find? (·.2 == position) with
  | some (field, _) => (fields.get? field.name).getD .null
  | none => .null

/-- The row of an instance: its alternative must be declared and have every field that the instance
carries. -/
def project (p : Planner) (i : Instance) : Except PlanError Row :=
  match p.candidate? i.alternative with
  | none => .error (.undeclared i.alternative)
  | some c =>
    match i.fields.find? fun entry => (c.alternative.field? entry.1).isNone with
    | some (stray, _) => .error (.strayField i.alternative stray)
    | none => .ok ⟨(List.range p.width).map (cellAt c i.fields)⟩

/-! ### Reconstruction -/

/-- The first candidate that fits a row, with those that come after it. -/
def firstFit (row : Row) : List Candidate → Option (Candidate × List Candidate)
  | [] => none
  | c :: later => if c.fits row then some (c, later) else firstFit row later

/-- The candidate that a row belongs to. -/
def resolve (p : Planner) (row : Row) : Except PlanError Candidate :=
  if row.width ≠ p.width then .error (.wrongWidth row.width p.width)
  else match firstFit row p.order with
    | none => .error .incomplete
    | some (winner, later) =>
      let rivals := ((winner.rivals later).map (·.1)).filter (·.fits row)
      let ties := p.tiesOf winner
      if !rivals.isEmpty then .error (.ambiguous (winner.name :: rivals.map (·.name)))
      else if 1 < ties.length then .error (.ambiguous (ties.map (·.name)))
      else .ok winner

/-- The instance that a candidate reads off a row. -/
def readOff (c : Candidate) (row : Row) : Instance :=
  c.slots.foldl (fun i slot => i.set slot.1.name (row.cells[slot.2]?.getD .null)) (.empty c.name)

/-- The instance that a row was laid out from. -/
def reconstruct (p : Planner) (row : Row) : Except PlanError Instance := do
  let c ← p.resolve row
  return readOff c row

end Planner

end WideRow
