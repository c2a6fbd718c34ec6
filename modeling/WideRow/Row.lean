import WideRow.Json.Decoding

/-!
# Rows and instances

A row has one cell for each column of a schema; `null` is the absent cell. An instance is a value of
a sum type: the name of its alternative and the values of its fields in the order in which they were
given.

Main definitions:
* `Row`, `Instance`;
* `Row.decode`, `Instance.decode`: both from JSON.
-/

namespace WideRow

open Json

/-! ## Rows -/

/-- The cells of a wide row. -/
structure Row where
  cells : List Value
  deriving Inhabited

namespace Row

/-- A row of absent cells. -/
def absent (width : Nat) : Row := ⟨List.replicate width .null⟩

/-- The number of cells. -/
def width (r : Row) : Nat := r.cells.length

/-- The cell at a position holds a value. A position outside the row holds none. -/
def isPopulated (r : Row) (position : Nat) : Bool :=
  match r.cells[position]? with
  | some cell => !cell.isNull
  | none => false

/-- A row as JSON. -/
def toJson (r : Row) : Value := .array r.cells

/-- A row from JSON: an array. -/
def decode (n : Node) : Decoded Row := Row.mk <$> n.asItems Node.asValue

end Row

/-! ## Instances -/

/-- A value of a sum type. -/
structure Instance where
  alternative : String
  fields : Members
  deriving Inhabited

namespace Instance

/-- An instance without fields. -/
def empty (alternative : String) : Instance := ⟨alternative, []⟩

/-- An instance with one field set, in its place if it is there already. -/
def set (i : Instance) (field : String) (v : Value) : Instance :=
  { i with fields := i.fields.insert field v }

/-- An instance as JSON. -/
def toJson (i : Instance) : Value :=
  .object [("alternative", .string i.alternative), ("fields", .object i.fields)]

/-- A field of an instance while it is read: of a repeated one the last value counts. -/
def takeField : MemberStep Members := fun fields key =>
  .ok fun n => do
    let v ← n.asValue
    return fields.insert key.text v

/-- The fields of an instance: an object. -/
def decodeFields (n : Node) : Decoded Members :=
  match n with
  | .object _ members ending => walkMembers takeField [] members ending
  | n => .error (n.wrongType "a map")

/-- An instance while its members are read. -/
structure Draft where
  alternative : Option String
  fields : Option Members

/-- A member of an instance. -/
def Draft.take : MemberStep Draft := fun draft key =>
  match key.text with
  | "alternative" =>
    takeOnce key draft.alternative Node.asString fun v => { draft with alternative := some v }
  | "fields" => takeOnce key draft.fields decodeFields fun v => { draft with fields := some v }
  | _ => .ok fun n => do
    n.pass
    return draft

/-- What an instance is called where something else was found. -/
def expected : String := "struct Instance"

/-- An instance from JSON: an object, or an array of the name and the fields. -/
def decode (n : Node) : Decoded Instance :=
  match n with
  | .object span members ending => do
    let draft ← walkMembers Draft.take ⟨none, none⟩ members ending
    match draft.alternative with
    | none => throw ⟨[], .missingField "alternative", span.stop⟩
    | some alternative => return ⟨alternative, draft.fields.getD []⟩
  | .array span items ending => do
    match items, ending with
    | [], none => throw (tooShort span 0 (expected ++ " with 2 elements"))
    | [], some b => throw b.wanted.fault
    | first :: rest, _ =>
      let alternative ← within (.index 0) first.asString
      let (fields, rest) ← nextOrDefault decodeFields [] 1 rest ending
      beyondLast 2 rest ending
      return ⟨alternative, fields⟩
  | n => .error (n.wrongType expected)

end Instance

end WideRow
