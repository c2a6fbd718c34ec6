import WideRow.Definition
import WideRow.Json.Value

/-!
# The flattened schema

The columns of the one wide row that holds every alternative of a sum type: the union of all field
sets, in order, each field at its own position. The fields that every alternative has are the common
fields. Neither depends on the order in which alternatives or fields are declared.

Main definitions:
* `Schema`, `Schema.positionOf?`: the columns and the position of a field;
* `Definition.schema`, `Definition.commonFields`: union and intersection of the field sets;
* `Schema.collisions`: the names that have several types.
-/

namespace WideRow

/-! ## Columns -/

/-- A column: a field and its position in the row. -/
structure Column where
  position : Nat
  field : Field
  deriving DecidableEq, Inhabited

/-- The columns of a wide row, given by the set of their fields. -/
structure Schema where
  fields : FieldSet
  deriving DecidableEq, Inhabited

namespace Schema

/-- The number of columns. -/
def width (s : Schema) : Nat := s.fields.toList.length

/-- The columns in the order of their positions. -/
def columns (s : Schema) : List Column := s.fields.toList.mapIdx Column.mk

/-- The position of a field, name and type together. -/
def positionOf? (s : Schema) (f : Field) : Option Nat := s.fields.toList.idxOf? f

/-- The types under which a name stands in the schema. -/
def typesOf (s : Schema) (name : String) : List String :=
  (s.fields.toList.filter (·.name = name)).map (·.type.text)

/-- The names that stand under more than one type, with their types. Each such name has several
columns. -/
def collisions (s : Schema) : List (String × List String) :=
  let names := (s.fields.toList.map (·.name)).eraseDups
  (names.map fun name => (name, s.typesOf name)).filter fun entry => 1 < entry.2.length

end Schema

/-! ## Union and intersection -/

/-- The schema of a sum type: the fields of all alternatives. -/
def Definition.schema (d : Definition) : Schema :=
  ⟨(d.alternatives.map Alternative.fieldSet).foldl FieldSet.union .empty⟩

/-- The fields that every alternative has; none if there is no alternative. -/
def Definition.commonFields (d : Definition) : FieldSet :=
  match d.alternatives.map Alternative.fieldSet with
  | [] => .empty
  | first :: rest => rest.foldl FieldSet.inter first

/-- The schema of a sum type together with its common fields. -/
structure Unified where
  schema : Schema
  common : FieldSet
  deriving DecidableEq, Inhabited

/-- The schema and the common fields of a sum type. -/
def Definition.unify (d : Definition) : Unified := ⟨d.schema, d.commonFields⟩

/-! ## JSON -/

/-- The members that spell a field. -/
def Field.members (f : Field) : List (String × Json.Value) :=
  [("name", .string f.name), ("type", .string f.type.text)]

/-- A field as JSON. -/
def Field.toJson (f : Field) : Json.Value := .object f.members

/-- A column as JSON. -/
def Column.toJson (c : Column) : Json.Value :=
  .object (("position", .ofNat c.position) :: c.field.members)

/-- A schema as JSON: its columns. -/
def Schema.toJson (s : Schema) : Json.Value := .array (s.columns.map Column.toJson)

/-- The members that spell a schema and its common fields. -/
def Unified.members (u : Unified) : List (String × Json.Value) :=
  [("schema", u.schema.toJson), ("common", .array (u.common.toList.map Field.toJson))]

end WideRow
