import WideRow.Json.Value

/-!
# JSON text

The compact text of a value, without white space, and its pretty text, indented by two spaces.

Main definitions:
* `Value.compact`, `Value.pretty`.
-/

namespace WideRow.Json

/-! ## Numbers and strings -/

/-- Doubles are written positionally for the exponents -5 to 15, and otherwise with a signed
exponent. Of two shortest numbers the one with an even last digit is written. -/
def numberLayout : Decimal.Layout := ⟨-5, 15, true, .toEven⟩

/-- The text of a number. -/
def Number.render : Number → String
  | .integer n => toString n
  | .double x => numberLayout.render x

/-- A hexadecimal digit, in lower case. -/
def hexDigit (n : Nat) : Char := Nat.digitChar n

/-- The spelling of a character in a JSON string: only quotes, backslashes and control characters
below U+0020 are escaped. -/
def escape (c : Char) : List Char :=
  match c with
  | '"' => ['\\', '"']
  | '\\' => ['\\', '\\']
  | '\x08' => ['\\', 'b']
  | '\x0c' => ['\\', 'f']
  | '\n' => ['\\', 'n']
  | '\r' => ['\\', 'r']
  | '\t' => ['\\', 't']
  | c =>
    if c.toNat < 0x20 then
      ['\\', 'u', '0', '0', hexDigit (c.toNat / 16), hexDigit (c.toNat % 16)]
    else [c]

/-- A text as a JSON string. -/
def quote (s : String) : String :=
  "\"" ++ String.ofList (s.toList.flatMap escape) ++ "\""

/-! ## Compact text -/

mutual

/-- The text of a value without white space. -/
def Value.compact : Value → String
  | .null => "null"
  | .bool true => "true"
  | .bool false => "false"
  | .number n => n.render
  | .string s => quote s
  | .array [] => "[]"
  | .array (v :: rest) => "[" ++ v.compact ++ Value.compactItems rest
  | .object [] => "\x7b\x7d"
  | .object ((key, v) :: rest) =>
    "\x7b" ++ quote key ++ ":" ++ v.compact ++ Value.compactMembers rest

/-- The items after the first, with the closing bracket. -/
def Value.compactItems : List Value → String
  | [] => "]"
  | v :: rest => "," ++ v.compact ++ compactItems rest

/-- The members after the first, with the closing bracket. -/
def Value.compactMembers : List (String × Value) → String
  | [] => "\x7d"
  | (key, v) :: rest => "," ++ quote key ++ ":" ++ v.compact ++ compactMembers rest

end

/-! ## Pretty text -/

/-- The start of a new line at a depth of nesting. -/
def newLine (depth : Nat) : String :=
  "\n" ++ String.ofList (List.replicate (2 * depth) ' ')

mutual

/-- The indented text of a value that stands at a depth of nesting. -/
def Value.prettyAt (depth : Nat) : Value → String
  | .null => "null"
  | .bool true => "true"
  | .bool false => "false"
  | .number n => n.render
  | .string s => quote s
  | .array [] => "[]"
  | .array (v :: rest) =>
    "[" ++ newLine (depth + 1) ++ v.prettyAt (depth + 1) ++ Value.prettyItems depth rest
  | .object [] => "\x7b\x7d"
  | .object ((key, v) :: rest) =>
    "\x7b" ++ newLine (depth + 1) ++ quote key ++ ": " ++ v.prettyAt (depth + 1) ++
      Value.prettyMembers depth rest

/-- The items after the first, with the closing bracket on a line of its own. -/
def Value.prettyItems (depth : Nat) : List Value → String
  | [] => newLine depth ++ "]"
  | v :: rest =>
    "," ++ newLine (depth + 1) ++ v.prettyAt (depth + 1) ++ prettyItems depth rest

/-- The members after the first, with the closing bracket on a line of its own. -/
def Value.prettyMembers (depth : Nat) : List (String × Value) → String
  | [] => newLine depth ++ "\x7d"
  | (key, v) :: rest =>
    "," ++ newLine (depth + 1) ++ quote key ++ ": " ++ v.prettyAt (depth + 1) ++
      prettyMembers depth rest

end

/-- The text of a value, indented by two spaces for each level of nesting. -/
def Value.pretty (v : Value) : String := v.prettyAt 0

end WideRow.Json
