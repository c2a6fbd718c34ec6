import WideRow.Field
import WideRow.Name

/-!
# Definitions of sum types

A sum type whose alternatives are products: each has a name and its fields in the order in which its
constructor takes them. The types here promise nothing about names and repetitions; `build` makes
definitions that keep the rules.
-/

namespace WideRow

/-- An alternative of a sum type. The order of its fields is that of the constructor. -/
structure Alternative where
  name : String
  fields : List Field
  deriving DecidableEq, Inhabited

namespace Alternative

/-- The number of fields. -/
def arity (a : Alternative) : Nat := a.fields.length

/-- The name without the path to it. -/
def simpleName (a : Alternative) : String := Name.simpleName a.name

/-- The first field of a name. -/
def field? (a : Alternative) (name : String) : Option Field := a.fields.find? (·.name = name)

/-- The fields as a set. -/
def fieldSet (a : Alternative) : FieldSet := .ofList a.fields

end Alternative

/-- A sum type with its alternatives. -/
structure Definition where
  name : String
  package : Option String
  alternatives : List Alternative
  deriving DecidableEq, Inhabited

namespace Definition

/-- The name without the path to it. -/
def simpleName (d : Definition) : String := Name.simpleName d.name

/-- The first alternative of a name. -/
def alternative? (d : Definition) (name : String) : Option Alternative :=
  d.alternatives.find? (·.name = name)

end Definition

end WideRow
