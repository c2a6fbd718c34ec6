import WideRow.Definition
import WideRow.Description

/-!
# Building definitions

A description becomes a definition if it is a closed sum of records: at least one alternative, all
names well formed and distinct, and every field named by an identifier and given a type. The checks
go through the description in order, and the first violation is reported.

Main definitions:
* `StructuralError`: the violations;
* `Description.build`: the definition of a description.
-/

namespace WideRow

/-! ## Violations -/

/-- Why an alternative is not a product of named, typed fields. -/
inductive ProductFlaw where
  | noFields
  | badFieldName (field : String)
  | noType (field : String)
  | repeatedField (field : String)
  deriving DecidableEq, Inhabited

/-- The wording of a flaw. -/
def ProductFlaw.message : ProductFlaw → String
  | .noFields => "it has no named, typed fields"
  | .badFieldName field => "`" ++ field ++ "` is not a field name"
  | .noType field => "field `" ++ field ++ "` has no type"
  | .repeatedField field => "field `" ++ field ++ "` is declared twice"

/-- Why a description has no definition, or a definition no place for its adapter. -/
inductive StructuralError where
  | noAlternatives (sumType : String)
  | notClosed (sumType : String)
  | invalidTypeName (name : String)
  | duplicateAlternative (sumType alternative : String)
  | nestedSum (alternative : String)
  | notAProduct (alternative : String) (flaw : ProductFlaw)
  | noPackage (sumType : String)
  | reservedFieldName (alternative field : String)
  deriving DecidableEq, Inhabited

/-- The wording of a violation. -/
def StructuralError.message : StructuralError → String
  | .noAlternatives sumType =>
    "`" ++ sumType ++ "` must be a closed sum with at least one alternative"
  | .notClosed sumType => "`" ++ sumType ++ "` is not closed; its alternative set must be fixed"
  | .invalidTypeName name => "`" ++ name ++ "` is not a qualified type name"
  | .duplicateAlternative sumType alternative =>
    "alternative `" ++ alternative ++ "` is declared more than once in `" ++ sumType ++ "`"
  | .nestedSum alternative =>
    "alternative `" ++ alternative ++ "` is itself a sum type; nested sums are not supported"
  | .notAProduct alternative flaw =>
    "alternative `" ++ alternative ++ "` is not a product type: " ++ flaw.message
  | .noPackage sumType => "`" ++ sumType ++ "` has no package to generate its adapter into"
  | .reservedFieldName alternative field =>
    "field `" ++ field ++ "` of `" ++ alternative ++ "` is a Java keyword"

/-! ## Building -/

/-- The fields of a record, none of which may have one of the names seen before. -/
def buildFields (alternative : String) (seen : List String) :
    List FieldDescription → Except StructuralError (List Field)
  | [] => .ok []
  | f :: rest =>
    if ¬ Name.isIdentifier f.name then .error (.notAProduct alternative (.badFieldName f.name))
    else if Name.isReserved f.name then .error (.reservedFieldName alternative f.name)
    else if Text.isAllBlank f.type then .error (.notAProduct alternative (.noType f.name))
    else if seen.contains f.name then .error (.notAProduct alternative (.repeatedField f.name))
    else do
      let others ← buildFields alternative (f.name :: seen) rest
      return .of f.name f.type :: others

/-- An alternative, which must be a record. -/
def buildAlternative (a : AlternativeDescription) : Except StructuralError Alternative :=
  if ¬ Name.isQualified a.name then .error (.invalidTypeName a.name)
  else match a.shape with
    | .record fields => do return ⟨a.name, ← buildFields a.name [] fields⟩
    | .sum _ => .error (.nestedSum a.name)
    | .other => .error (.notAProduct a.name .noFields)

/-- The alternatives of a sum type, none of which may have one of the names seen before. -/
def buildAlternatives (sumType : String) (seen : List String) :
    List AlternativeDescription → Except StructuralError (List Alternative)
  | [] => .ok []
  | a :: rest =>
    if seen.contains a.name then .error (.duplicateAlternative sumType a.name)
    else do
      let first ← buildAlternative a
      let others ← buildAlternatives sumType (a.name :: seen) rest
      return first :: others

/-- The definition of a description. -/
def Description.build (d : Description) : Except StructuralError Definition :=
  if ¬ Name.isQualified d.name then .error (.invalidTypeName d.name)
  else if ¬ d.closed then .error (.notClosed d.name)
  else if d.alternatives.isEmpty then .error (.noAlternatives d.name)
  else do return ⟨d.name, d.package, ← buildAlternatives d.name [] d.alternatives⟩

end WideRow
