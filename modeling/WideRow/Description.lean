/-!
# Descriptions of sum types

What is known of a sum type before anything has been checked: its name, a package if one was given,
whether its alternatives are fixed, and the alternatives with their shapes.
-/

namespace WideRow

/-- A field as it is described: nothing is known of either text. -/
structure FieldDescription where
  name : String
  type : String
  deriving DecidableEq, Inhabited

/-- A shape with the name of the alternative that has it. -/
structure Named (α : Type) where
  name : String
  shape : α
  deriving Inhabited

/-- How an alternative is made up. -/
inductive Shape where
  /-- a record of named, typed fields -/
  | record (fields : List FieldDescription)
  /-- a sum type of its own -/
  | sum (alternatives : List (Named Shape))
  /-- neither a record nor a sum -/
  | other
  deriving Inhabited

/-- An alternative as it is described. -/
abbrev AlternativeDescription := Named Shape

/-- A sum type as it is described. -/
structure Description where
  name : String
  package : Option String
  closed : Bool
  alternatives : List AlternativeDescription
  deriving Inhabited

end WideRow
