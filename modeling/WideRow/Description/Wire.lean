import WideRow.Description
import WideRow.Json.Decoding
import WideRow.Text.Blank

/-!
# The wire form of descriptions

Descriptions as JSON, written and read. A document holds one description or an array of them. Where
an object is expected for a description or for a field, an array of its values in order is read as
well.

An alternative is read in two passes: its members are held first, since the one that tells its kind
may come last, and then its shape is read from them. So the faults of a shape are those of the whole
alternative.

Main definitions:
* `Description.toJson`: the written form;
* `Description.listOfText`, `Description.listOfValue`: the descriptions of a document.
-/

namespace WideRow

open Json

/-! ## Writing -/

/-- A field as JSON. -/
def FieldDescription.toJson (f : FieldDescription) : Value :=
  .object [("name", .string f.name), ("type", .string f.type)]

mutual

/-- The members of an alternative that give its shape. -/
def Shape.members : Shape → List (String × Value)
  | .record fields =>
    [("kind", .string "record"), ("fields", .array (fields.map FieldDescription.toJson))]
  | .sum alternatives =>
    [("kind", .string "sum"), ("alternatives", .array (Shape.itemsOf alternatives))]
  | .other => [("kind", .string "opaque")]

/-- An alternative as JSON. -/
def Shape.itemOf : Named Shape → Value
  | ⟨name, shape⟩ => .object (("name", .string name) :: shape.members)

/-- The alternatives of a sum as JSON. -/
def Shape.itemsOf : List (Named Shape) → List Value
  | [] => []
  | a :: rest => Shape.itemOf a :: itemsOf rest

end

/-- A description as JSON. A missing package is left out. -/
def Description.toJson (d : Description) : Value :=
  let package := match d.package with
    | some p => [("package", Value.string p)]
    | none => []
  .object ([("name", .string d.name)] ++ package ++
    [("closed", .bool d.closed), ("alternatives", .array (Shape.itemsOf d.alternatives))])

/-! ## Shapes from held members -/

/-- What a held value is, where something else was expected. -/
def foundIn : Value → Found
  | .null => .null
  | .bool b => .bool b
  | .number n => .number n
  | .string s => .string s
  | .array _ => .array
  | .object _ => .object

/-- The decoding of a held value: its faults have no place of their own. -/
abbrev Shaped := Except Cause

/-- A text. -/
def shapedString : Value → Shaped String
  | .string s => .ok s
  | v => .error (.wrongType (foundIn v) "a string")

/-- The name and the type of a field, as far as they have been read. -/
def FieldDescription.ofHeldMembers (name type : Option String) :
    List (String × Value) → Shaped FieldDescription
  | [] =>
    match name, type with
    | some name, some type => .ok ⟨name, type⟩
    | none, _ => .error (.missingField "name")
    | some _, none => .error (.missingField "type")
  | (key, v) :: rest =>
    if key = "name" then
      match name with
      | some _ => .error (.repeatedField key)
      | none => do ofHeldMembers (some (← shapedString v)) type rest
    else if key = "type" then
      match type with
      | some _ => .error (.repeatedField key)
      | none => do ofHeldMembers name (some (← shapedString v)) rest
    else ofHeldMembers name type rest

/-- What a field is called where something else was found. -/
def FieldDescription.expected : String := "struct FieldDescription"

/-- A field from a held value. -/
def FieldDescription.ofHeld : Value → Shaped FieldDescription
  | .object members => ofHeldMembers none none members
  | .array items =>
    match items with
    | [] => .error (.wrongLength 0 (expected ++ " with 2 elements"))
    | [name] => do
      let _ ← shapedString name
      throw (.wrongLength 1 (expected ++ " with 2 elements"))
    | name :: type :: rest => do
      let field : FieldDescription := ⟨← shapedString name, ← shapedString type⟩
      if rest.isEmpty then return field
      else throw (.wrongLength (2 + rest.length) "2 elements in sequence")
  | v => .error (.wrongType (foundIn v) expected)

/-- The fields of a record, from a held value. -/
def shapedFields : Value → Shaped (List FieldDescription)
  | .array items => items.mapM FieldDescription.ofHeld
  | v => .error (.wrongType (foundIn v) "a sequence")

/-- The kinds of shapes, in the order of their indexes. -/
inductive ShapeKind where
  | record
  | sum
  | other

/-- The names of the kinds. -/
def ShapeKind.names : List String := ["record", "sum", "opaque"]

/-- A kind from a held value: its name or its index. -/
def ShapeKind.ofHeld : Value → Shaped ShapeKind
  | .string "record" => .ok .record
  | .string "sum" => .ok .sum
  | .string "opaque" => .ok .other
  | .string s => .error (.unknownVariant s names)
  | .number (.integer 0) => .ok .record
  | .number (.integer 1) => .ok .sum
  | .number (.integer 2) => .ok .other
  | .number (.integer n) =>
    if n < 0 then .error (.wrongType (.number (.integer n)) "variant identifier")
    else .error (.variantOutOfRange n names.length)
  | v => .error (.wrongType (foundIn v) "variant identifier")

/-- The kind among held members, which must be there once. -/
def ShapeKind.find (kind : Option ShapeKind) : List (String × Value) → Shaped ShapeKind
  | [] =>
    match kind with
    | some kind => .ok kind
    | none => .error (.missingField "kind")
  | (key, v) :: rest =>
    if key = "kind" then
      match kind with
      | some _ => .error (.repeatedField key)
      | none => do find (some (← ShapeKind.ofHeld v)) rest
    else find kind rest

/-- The fields among held members, which may be there once. -/
def findFields (fields : Option (List FieldDescription)) :
    List (String × Value) → Shaped (List FieldDescription)
  | [] => .ok (fields.getD [])
  | (key, v) :: rest =>
    if key = "fields" then
      match fields with
      | some _ => .error (.repeatedField key)
      | none => do findFields (some (← shapedFields v)) rest
    else findFields fields rest

/-- The name among held members, which must be there once. -/
def findName (name : Option String) : List (String × Value) → Shaped String
  | [] =>
    match name with
    | some name => .ok name
    | none => .error (.missingField "name")
  | (key, v) :: rest =>
    if key = "name" then
      match name with
      | some _ => .error (.repeatedField key)
      | none => do findName (some (← shapedString v)) rest
    else findName name rest

/-- What an alternative is called where something else was found. -/
def alternativeExpected : String := "struct AlternativeDescription"

mutual

/-- An alternative from a held value. -/
def Shape.ofHeld : Value → Shaped (Named Shape)
  | .object members => do
    let name ← findName none members
    return ⟨name, ← Shape.ofMembers members⟩
  | v => .error (.wrongType (foundIn v) alternativeExpected)

/-- Alternatives from held values. -/
def Shape.ofHeldItems : List Value → Shaped (List (Named Shape))
  | [] => .ok []
  | v :: rest => do
    let first ← Shape.ofHeld v
    let others ← ofHeldItems rest
    return first :: others

/-- The shape that the held members of an alternative give. -/
def Shape.ofMembers (members : List (String × Value)) : Shaped Shape := do
  match ← ShapeKind.find none members with
  | .record => return .record (← findFields none members)
  | .sum => return .sum (← Shape.findAlternatives none members)
  | .other => return .other

/-- The alternatives among held members, which may be there once. -/
def Shape.findAlternatives (found : Option (List (Named Shape))) :
    List (String × Value) → Shaped (List (Named Shape))
  | [] => .ok (found.getD [])
  | (key, v) :: rest => do
    if key = "alternatives" then
      if found.isSome then throw (.repeatedField key)
      match v with
      | .array items => findAlternatives (some (← Shape.ofHeldItems items)) rest
      | v => throw (.wrongType (foundIn v) "a sequence")
    else findAlternatives found rest

end

/-! ## Reading -/

/-- An alternative while its members are read: its name, and all other members. -/
structure AlternativeDraft where
  name : Option String
  others : List (String × Value)

/-- A member of an alternative. -/
def AlternativeDraft.take : MemberStep AlternativeDraft := fun draft key =>
  if key.text = "name" then
    takeOnce key draft.name Node.asString fun name => { draft with name := some name }
  else
    .ok fun n => do
      let v ← n.held
      return { draft with others := draft.others ++ [(key.text, v)] }

/-- An alternative. -/
def AlternativeDescription.decode (n : Node) : Decoded AlternativeDescription :=
  match n with
  | .object span members ending => do
    let draft ← walkMembers AlternativeDraft.take ⟨none, []⟩ members ending
    let fault (cause : Cause) : Fault := ⟨[], cause, span.stop⟩
    match draft.name with
    | none => throw (fault (.missingField "name"))
    | some name => return ⟨name, ← (Shape.ofMembers draft.others).mapError fault⟩
  | n => .error (n.wrongType alternativeExpected)

/-- A description while its members are read. -/
structure DescriptionDraft where
  name : Option String
  package : Option (Option String)
  closed : Option Bool
  alternatives : Option (List AlternativeDescription)

/-- A draft of which nothing has been read. -/
def DescriptionDraft.empty : DescriptionDraft := ⟨none, none, none, none⟩

/-- A member of a description. -/
def DescriptionDraft.take : MemberStep DescriptionDraft := fun draft key =>
  match key.text with
  | "name" => takeOnce key draft.name Node.asString fun v => { draft with name := some v }
  | "package" =>
    takeOnce key draft.package Node.asOptionalString fun v => { draft with package := some v }
  | "closed" => takeOnce key draft.closed Node.asBool fun v => { draft with closed := some v }
  | "alternatives" =>
    takeOnce key draft.alternatives (Node.asItems AlternativeDescription.decode)
      fun v => { draft with alternatives := some v }
  | _ => .ok fun n => do
    n.pass
    return draft

/-- The description of a draft with a name: closed unless it says otherwise. -/
def DescriptionDraft.finish (draft : DescriptionDraft) (name : String) : Description :=
  ⟨name, draft.package.getD none, draft.closed.getD true, draft.alternatives.getD []⟩

/-- What a description is called where something else was found. -/
def Description.expected : String := "struct SumTypeDescription"

/-- A description. -/
def Description.decode (n : Node) : Decoded Description :=
  match n with
  | .object span members ending => do
    let draft ← walkMembers DescriptionDraft.take .empty members ending
    match draft.name with
    | none => throw ⟨[], .missingField "name", span.stop⟩
    | some name => return draft.finish name
  | .array span items ending => do
    match items, ending with
    | [], none => throw (tooShort span 0 (expected ++ " with 4 elements"))
    | [], some b => throw b.wanted.fault
    | first :: rest, _ =>
      let name ← within (.index 0) first.asString
      let (package, rest) ← nextOrDefault Node.asOptionalString none 1 rest ending
      let (closed, rest) ← nextOrDefault Node.asBool true 2 rest ending
      let (alternatives, rest) ←
        nextOrDefault (Node.asItems AlternativeDescription.decode) [] 3 rest ending
      beyondLast 4 rest ending
      return ⟨name, package, closed, alternatives⟩
  | n => .error (n.wrongType expected)

/-- A list of descriptions. -/
def Description.decodeList (n : Node) : Decoded (List Description) :=
  Node.asItems Description.decode n

/-- A field while its members are read. -/
structure FieldDraft where
  name : Option String
  type : Option String

/-- A member of a field. -/
def FieldDraft.take : MemberStep FieldDraft := fun draft key =>
  match key.text with
  | "name" => takeOnce key draft.name Node.asString fun v => { draft with name := some v }
  | "type" => takeOnce key draft.type Node.asString fun v => { draft with type := some v }
  | _ => .ok fun n => do
    n.pass
    return draft

/-- A field. -/
def FieldDescription.decode (n : Node) : Decoded FieldDescription :=
  match n with
  | .object span members ending => do
    let draft ← walkMembers FieldDraft.take ⟨none, none⟩ members ending
    match draft.name, draft.type with
    | some name, some type => return ⟨name, type⟩
    | none, _ => throw ⟨[], .missingField "name", span.stop⟩
    | some _, none => throw ⟨[], .missingField "type", span.stop⟩
  | .array span items ending => do
    match items, ending with
    | [], none => throw (tooShort span 0 (expected ++ " with 2 elements"))
    | [], some b => throw b.wanted.fault
    | first :: rest, _ =>
      let name ← within (.index 0) first.asString
      match rest, ending with
      | [], none => throw (tooShort span 1 (expected ++ " with 2 elements"))
      | [], some b => throw b.wanted.fault
      | second :: rest, _ =>
        let type ← within (.index 1) second.asString
        beyondLast 2 rest ending
        return ⟨name, type⟩
  | n => .error (n.wrongType expected)

/-! ## Documents -/

/-- A text whose first character that is not blank opens an array. -/
def opensArray (s : String) : Bool :=
  (s.toList.dropWhile Text.isBlank).head? == some '['

/-- The descriptions of a text: a single one, or an array of them. -/
def Description.listOfText (s : String) : Decoded (List Description) :=
  if opensArray s then decodeFirst Description.decodeList s
  else (fun d => [d]) <$> decodeFirst Description.decode s

/-- The descriptions of a value: a single one, or an array of them. -/
def Description.listOfValue (v : Value) : Decoded (List Description) :=
  match v with
  | .array _ => Description.decodeList (.ofValue v)
  | v => (fun d => [d]) <$> Description.decode (.ofValue v)

end WideRow
