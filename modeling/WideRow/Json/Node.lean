import WideRow.Json.Value

/-!
# JSON values with their places in a text

What a reader finds in a text: values with the places where they begin and end, and, where the text
stops being JSON, the place and the reason. Nothing is thrown away by a fault further on, so whoever
uses the nodes decides which fault comes first.

A fault is judged twice: by who wants the value, and by who only passes over it. The latter does
not mind a number that is too large, a surrogate that stands alone or brackets nested too deep.

Main definitions:
* `Node`: a value with its places;
* `Node.ofValue`: a value that comes from no text.
-/

namespace WideRow.Json

/-! ## Places -/

/-- A place between two bytes of a text: the line, counted from 1, and the number of bytes before
the place on that line. Line 0 is no place at all. -/
structure Mark where
  line : Nat
  column : Nat
  deriving DecidableEq, Inhabited

/-- The place of something that stands in no text. -/
def Mark.nowhere : Mark := ⟨0, 0⟩

/-- The beginning of a text. -/
def Mark.start : Mark := ⟨1, 0⟩

/-- The place after a character. -/
def Mark.after (m : Mark) (c : Char) : Mark :=
  if c = '\n' then ⟨m.line + 1, 0⟩ else ⟨m.line, m.column + c.utf8Size⟩

/-- The place after the first byte of a character. -/
def Mark.afterByte (m : Mark) (c : Char) : Mark :=
  if c = '\n' then ⟨m.line + 1, 0⟩ else ⟨m.line, m.column + 1⟩

/-- The place one byte further on the line. -/
def Mark.next (m : Mark) : Mark := ⟨m.line, m.column + 1⟩

/-- Where something begins and ends. -/
structure Span where
  start : Mark
  stop : Mark
  deriving Inhabited

/-! ## Faults of the text -/

/-- Why a text is not JSON, or not JSON that can be held. -/
inductive Reason where
  | endInArray
  | endInObject
  | endInString
  | endInValue
  | expectedColon
  | expectedCommaOrBracket
  | expectedCommaOrBrace
  | expectedWord
  | expectedValue
  | invalidEscape
  | invalidNumber
  | numberTooLarge
  | controlCharacter
  | keyNotString
  | loneSurrogate
  | unpairedSurrogate
  | commaBeforeClose
  | textAfterValue
  | tooDeep
  deriving DecidableEq, Inhabited

/-- The wording of a fault of the text. -/
def Reason.message : Reason → String
  | .endInArray => "EOF while parsing a list"
  | .endInObject => "EOF while parsing an object"
  | .endInString => "EOF while parsing a string"
  | .endInValue => "EOF while parsing a value"
  | .expectedColon => "expected `:`"
  | .expectedCommaOrBracket => "expected `,` or `]`"
  | .expectedCommaOrBrace => "expected `,` or `\x7d`"
  | .expectedWord => "expected ident"
  | .expectedValue => "expected value"
  | .invalidEscape => "invalid escape"
  | .invalidNumber => "invalid number"
  | .numberTooLarge => "number out of range"
  | .controlCharacter => "control character (\\u0000-\\u001F) found while parsing a string"
  | .keyNotString => "key must be a string"
  | .loneSurrogate => "lone leading surrogate in hex escape"
  | .unpairedSurrogate => "unexpected end of hex escape"
  | .commaBeforeClose => "trailing comma"
  | .textAfterValue => "trailing characters"
  | .tooDeep => "recursion limit exceeded"

/-- A fault with the place just after the byte that shows it. -/
structure Complaint where
  reason : Reason
  place : Mark
  deriving Inhabited

/-- A fault that ends the reading, as it is reported by who wants the value and by who passes over
it. -/
structure Break where
  wanted : Complaint
  passed : Complaint
  deriving Inhabited

/-- A break that both report alike. -/
def Break.both (reason : Reason) (place : Mark) : Break := ⟨⟨reason, place⟩, ⟨reason, place⟩⟩

/-! ## Nodes -/

/-- A value that holds no others. -/
inductive Scalar where
  | null
  | bool (b : Bool)
  | number (n : Number)
  | string (s : String)
  deriving Inhabited

/-- The key of a member. -/
structure Key where
  text : String
  /-- What is wrong with the spelling of the key, for who wants it. -/
  flaw : Option Complaint
  /-- Where reading stands once the key has been refused: after the white space that follows it,
  and after the closing brace if one comes next. -/
  refused : Mark
  deriving Inhabited

/-- How the members of an object end. -/
inductive Ending where
  /-- with the closing brace -/
  | closed
  /-- with a break, or inside the value of the last member -/
  | broken (b : Break)
  /-- with a key that no colon follows -/
  | noColon (key : Key) (b : Break)
  deriving Inhabited

/-- A value with its places, as far as the text is readable. -/
inductive Node where
  | scalar (span : Span) (value : Scalar)
  /-- a complete value that cannot be held -/
  | unheld (span : Span) (complaint : Complaint)
  /-- an array that ends with its bracket or, if there is one, with a break -/
  | array (span : Span) (items : List Node) (ending : Option Break)
  | object (span : Span) (members : List (Key × Node)) (ending : Ending)
  /-- no value can be read here -/
  | broken (start : Mark) (b : Break)
  deriving Inhabited

/-- Where a node begins. -/
def Node.start : Node → Mark
  | .scalar span _ => span.start
  | .unheld span _ => span.start
  | .array span _ _ => span.start
  | .object span _ _ => span.start
  | .broken start _ => start

/-! ## Values from no text -/

/-- The span of something that stands in no text. -/
def Span.nowhere : Span := ⟨.nowhere, .nowhere⟩

/-- A key that stands in no text. -/
def Key.ofText (s : String) : Key := ⟨s, none, .nowhere⟩

mutual

/-- A value as a node without places. -/
def Node.ofValue : Value → Node
  | .null => .scalar .nowhere .null
  | .bool b => .scalar .nowhere (.bool b)
  | .number n => .scalar .nowhere (.number n)
  | .string s => .scalar .nowhere (.string s)
  | .array items => .array .nowhere (Node.ofItems items) none
  | .object members => .object .nowhere (Node.ofMembers members) .closed

/-- The items of an array as nodes without places. -/
def Node.ofItems : List Value → List Node
  | [] => []
  | v :: rest => Node.ofValue v :: ofItems rest

/-- The members of an object with nodes without places. -/
def Node.ofMembers : List (String × Value) → List (Key × Node)
  | [] => []
  | (key, v) :: rest => (.ofText key, Node.ofValue v) :: ofMembers rest

end

end WideRow.Json
