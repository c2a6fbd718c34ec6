import WideRow.Json.Reader
import WideRow.Json.Printer
import WideRow.Text.Quoted

/-!
# Decoding JSON

What the decoders of particular types share: the faults they report, with the path to the element
at fault and its place in the text, and the walk over the items of an array and the members of an
object in the order of the text.

Main definitions:
* `Cause.message`, `Fault.message`: the wording of faults;
* `Node.asString`, `Node.asBool`, `Node.asItems`: values of simple types;
* `nextOrDefault`, `beyondLast`: arrays that stand for objects;
* `walkMembers`: the members of an object, one after the other;
* `Node.held`: any value.
-/

namespace WideRow.Json

/-! ## Faults -/

/-- What was found where something else was expected. -/
inductive Found where
  | null
  | bool (b : Bool)
  | number (n : Number)
  | string (s : String)
  | array
  | object
  deriving Inhabited

/-- The wording of what was found. -/
def Found.message : Found → String
  | .null => "null"
  | .bool b => "boolean `" ++ (if b then "true" else "false") ++ "`"
  | .number (.integer n) => "integer `" ++ toString n ++ "`"
  | .number (.double x) => "floating point `" ++ (Number.double x).render ++ "`"
  | .string s => "string " ++ Text.quoted s
  | .array => "sequence"
  | .object => "map"

/-- Why an element cannot be decoded. -/
inductive Cause where
  /-- the text is not JSON -/
  | notJson (reason : Reason)
  | wrongType (found : Found) (expected : String)
  | missingField (name : String)
  | repeatedField (name : String)
  | wrongLength (length : Nat) (expected : String)
  | unknownVariant (name : String) (expected : List String)
  | variantOutOfRange (index : Int) (count : Nat)
  deriving Inhabited

/-- Names between backticks, with commas between them. -/
def backticked (names : List String) : String :=
  String.intercalate ", " (names.map fun name => "`" ++ name ++ "`")

/-- The wording of a cause. -/
def Cause.message : Cause → String
  | .notJson reason => reason.message
  | .wrongType found expected => "invalid type: " ++ found.message ++ ", expected " ++ expected
  | .missingField name => "missing field `" ++ name ++ "`"
  | .repeatedField name => "duplicate field `" ++ name ++ "`"
  | .wrongLength length expected =>
    "invalid length " ++ toString length ++ ", expected " ++ expected
  | .unknownVariant name expected =>
    "unknown variant `" ++ name ++ "`, expected one of " ++ backticked expected
  | .variantOutOfRange index count =>
    "invalid value: integer `" ++ toString index ++ "`, expected variant index 0 <= i < " ++
      toString count

/-- A step from a value to one inside it. -/
inductive Step where
  | key (name : String)
  | index (n : Nat)
  /-- a member whose key is not known -/
  | unknown
  deriving DecidableEq, Inhabited

/-- A fault of a document: the steps to the element at fault, the cause, and the place. -/
structure Fault where
  path : List Step
  cause : Cause
  place : Mark
  deriving Inhabited

/-- The fault, seen from the value that holds the one it was seen from. -/
def Fault.within (step : Step) (f : Fault) : Fault := { f with path := step :: f.path }

/-- The fault of a text that is not JSON. -/
def Complaint.fault (c : Complaint) : Fault := ⟨[], .notJson c.reason, c.place⟩

/-- The steps of a path after the first: names are set off by a point. -/
def pathRest : List Step → String
  | [] => ""
  | .key name :: rest => "." ++ name ++ pathRest rest
  | .index n :: rest => "[" ++ toString n ++ "]" ++ pathRest rest
  | .unknown :: rest => ".?" ++ pathRest rest

/-- The text of a path; a point is the document itself. -/
def pathText : List Step → String
  | [] => "."
  | .key name :: rest => name ++ pathRest rest
  | .index n :: rest => "[" ++ toString n ++ "]" ++ pathRest rest
  | .unknown :: rest => "?" ++ pathRest rest

/-- The wording of a place at the end of a message. What stands in no text has none. -/
def Mark.message (m : Mark) : String :=
  if m.line = 0 then ""
  else " at line " ++ toString m.line ++ " column " ++ toString m.column

/-- The wording of a fault without its path. -/
def Fault.bareMessage (f : Fault) : String := f.cause.message ++ f.place.message

/-- The wording of a fault. -/
def Fault.message (f : Fault) : String :=
  "at JSON path " ++ pathText f.path ++ " → " ++ f.bareMessage

/-! ## Decoding -/

/-- The decoding of a document or of a part of it. -/
abbrev Decoded := Except Fault

/-- A decoding with its faults seen from the value around it. -/
def within {α : Type} (step : Step) (d : Decoded α) : Decoded α := d.mapError (Fault.within step)

/-- The fault of a node that is not of the expected type. A scalar is at fault at its end, a bracket
just before it. What cannot be held at all is at fault for that. -/
def Node.wrongType (n : Node) (expected : String) : Fault :=
  let wrong (found : Found) (place : Mark) : Fault := ⟨[], .wrongType found expected, place⟩
  match n with
  | .scalar span .null => wrong .null span.stop
  | .scalar span (.bool b) => wrong (.bool b) span.stop
  | .scalar span (.number x) => wrong (.number x) span.stop
  | .scalar span (.string s) => wrong (.string s) span.stop
  | .array span _ _ => wrong .array span.start
  | .object span _ _ => wrong .object span.start
  | .unheld _ complaint => complaint.fault
  | .broken _ b => b.wanted.fault

/-- A text. -/
def Node.asString (n : Node) : Decoded String :=
  match n with
  | .scalar _ (.string s) => .ok s
  | n => .error (n.wrongType "a string")

/-- A text that may be `null`. -/
def Node.asOptionalString (n : Node) : Decoded (Option String) :=
  match n with
  | .scalar _ .null => .ok none
  | n => some <$> n.asString

/-- A truth value. -/
def Node.asBool (n : Node) : Decoded Bool :=
  match n with
  | .scalar _ (.bool b) => .ok b
  | n => .error (n.wrongType "a boolean")

/-- The items of an array, decoded one after the other from a first index on. -/
def decodeItems {α : Type} (decode : Node → Decoded α) (index : Nat) : List Node → Decoded (List α)
  | [] => .ok []
  | n :: rest => do
    let first ← within (.index index) (decode n)
    let others ← decodeItems decode (index + 1) rest
    return first :: others

/-- An array of which every item is decoded alike. -/
def Node.asItems {α : Type} (decode : Node → Decoded α) (n : Node) : Decoded (List α) :=
  match n with
  | .array _ items ending => do
    let decoded ← decodeItems decode 0 items
    match ending with
    | none => return decoded
    | some b => throw b.wanted.fault
  | n => .error (n.wrongType "a sequence")

/-! ## Arrays in place of objects -/

/-- The fault of an array that ends before its values are complete. -/
def tooShort (span : Span) (length : Nat) (expected : String) : Fault :=
  ⟨[], .wrongLength length expected, span.stop⟩

/-- What is wrong after the last value that an array of fixed length can hold. A value from no text
is measured as a whole; in a text, anything but the closing bracket is text after the value. -/
def beyondLast (length : Nat) (rest : List Node) (ending : Option Break) : Decoded Unit :=
  match rest, ending with
  | [], none => .ok ()
  | [], some b =>
    let reason := match b.wanted.reason with
      | .endInValue => .textAfterValue
      | .expectedCommaOrBracket => .textAfterValue
      | reason => reason
    .error (Complaint.fault ⟨reason, b.wanted.place⟩)
  | n :: _, _ =>
    if n.start.line = 0 then
      .error ⟨[], .wrongLength (length + rest.length) "fewer elements in array", .nowhere⟩
    else .error (Complaint.fault ⟨.textAfterValue, n.start.next⟩)

/-- The items of an array after the one at an index: if there is an item it is decoded, and if the
array has ended the default is taken. -/
def nextOrDefault {α : Type} (decode : Node → Decoded α) (default : α) (index : Nat)
    (items : List Node) (ending : Option Break) : Decoded (α × List Node) :=
  match items, ending with
  | [], none => .ok (default, [])
  | [], some b => .error b.wanted.fault
  | n :: rest, _ => do
    let v ← within (.index index) (decode n)
    return (v, rest)

/-! ## The members of an object -/

/-- What to do with a member: its key is judged first, and its value only if the key is fine. -/
abbrev MemberStep (σ : Type) := σ → Key → Decoded (Node → Decoded σ)

/-- The members of an object, taken in order. -/
def walkMembers {σ : Type} (step : MemberStep σ) (s : σ) : List (Key × Node) → Ending → Decoded σ
  | [], .closed => .ok s
  | [], .broken b => .error (b.wanted.fault.within .unknown)
  | [], .noColon key b => do
    if let some flaw := key.flaw then throw (flaw.fault.within .unknown)
    let _ ← step s key
    throw b.wanted.fault
  | (key, value) :: rest, ending => do
    if let some flaw := key.flaw then throw (flaw.fault.within .unknown)
    let take ← step s key
    let s ← within (.key key.text) (take value)
    walkMembers step s rest ending

/-- The fault of a key that has been there before. -/
def Key.repeated (key : Key) : Fault := ⟨[], .repeatedField key.text, key.refused⟩

/-- A slot for the value of a key that may occur once. -/
def takeOnce {α σ : Type} (key : Key) (slot : Option α) (decode : Node → Decoded α) (fill : α → σ) :
    Decoded (Node → Decoded σ) :=
  match slot with
  | some _ => .error key.repeated
  | none => .ok fun n => fill <$> decode n

/-! ## Passing over -/

mutual

/-- The first fault for who passes over a value. -/
def Node.passFault? : Node → Option Complaint
  | .scalar .. => none
  | .unheld .. => none
  | .broken _ b => some b.passed
  | .array _ items ending => Node.passItems ending items
  | .object _ members ending => Node.passMembers ending members

/-- The first fault in the items of an array and at its end. -/
def Node.passItems (ending : Option Break) : List Node → Option Complaint
  | [] => ending.map (·.passed)
  | n :: rest => n.passFault? <|> passItems ending rest

/-- The first fault in the members of an object and at its end. -/
def Node.passMembers (ending : Ending) : List (Key × Node) → Option Complaint
  | [] => match ending with
    | .closed => none
    | .broken b => some b.passed
    | .noColon _ b => some b.passed
  | (_, n) :: rest => n.passFault? <|> passMembers ending rest

end

/-- A value that is not looked at; only the text has to be JSON. -/
def Node.pass (n : Node) : Decoded Unit :=
  match n.passFault? with
  | none => .ok ()
  | some complaint => .error complaint.fault

/-! ## Any value -/

/-- A scalar as a value. -/
def Scalar.value : Scalar → Value
  | .null => .null
  | .bool b => .bool b
  | .number n => .number n
  | .string s => .string s

mutual

/-- The value of a node, with all members of its objects, also the repeated ones. -/
def Node.held : Node → Decoded Value
  | .scalar _ s => .ok s.value
  | .unheld _ complaint => .error complaint.fault
  | .broken _ b => .error b.wanted.fault
  | .array _ items ending => .array <$> Node.heldItems ending 0 items
  | .object _ members ending => .object <$> Node.heldMembers ending members

/-- The values of the items from an index on. -/
def Node.heldItems (ending : Option Break) (index : Nat) : List Node → Decoded (List Value)
  | [] => match ending with
    | none => .ok []
    | some b => .error b.wanted.fault
  | n :: rest => do
    let first ← within (.index index) n.held
    let others ← heldItems ending (index + 1) rest
    return first :: others

/-- The keys and values of the members. -/
def Node.heldMembers (ending : Ending) : List (Key × Node) → Decoded (List (String × Value))
  | [] => match ending with
    | .closed => .ok []
    | .broken b => .error (b.wanted.fault.within .unknown)
    | .noColon key b =>
      match key.flaw with
      | some flaw => .error (flaw.fault.within .unknown)
      | none => .error b.wanted.fault
  | (key, n) :: rest => do
    if let some flaw := key.flaw then throw (flaw.fault.within .unknown)
    let first ← within (.key key.text) n.held
    let others ← heldMembers ending rest
    return (key.text, first) :: others

end

/-- The value of a node. Of a repeated key the last value counts. -/
def Node.asValue (n : Node) : Decoded Value := Value.merged <$> n.held

/-! ## Whole documents -/

/-- A decoding of the first value of a text. -/
def decodeFirst {α : Type} (decode : Node → Decoded α) (s : String) : Decoded α :=
  decode (Node.read s)

/-- A decoding of a text that holds one value and nothing else. -/
def decodeWhole {α : Type} (decode : Node → Decoded α) (s : String) : Decoded α := do
  let (n, after) := Node.readWhole s
  let decoded ← decode n
  if let some complaint := after then throw complaint.fault
  return decoded

/-- The only value of a text. -/
def Value.read (s : String) : Decoded Value := decodeWhole Node.asValue s

end WideRow.Json
