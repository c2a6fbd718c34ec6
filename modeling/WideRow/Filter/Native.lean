import WideRow.Filter.Datum
import WideRow.Text.Blank

/-!
# Native filters

The filters that are functions of data: each output depends on the input and on one output of each
argument.

Main definitions:
* `Native`: a function with its number of arguments;
* `Native.of?`: the native filter of a name and a number of arguments.
-/

namespace WideRow.Filter

/-- A function of the input and the arguments of a filter. -/
inductive Native where
  | nullary (run : Datum → Datum.Result)
  | unary (run : Datum → Datum → Datum.Result)
  | binary (run : Datum → Datum → Datum → Datum.Result)

namespace Native

open Datum (Result fail failAs)

/-! ## Kinds of data -/

/-- The name of the kind of a datum. -/
def typeName : Datum → String
  | .null => "null"
  | .bool _ => "boolean"
  | .int _ => "number"
  | .float _ => "number"
  | .numeral _ => "number"
  | .string _ => "string"
  | .array _ => "array"
  | .object _ => "object"

/-- The filter that tells a kind of data. -/
def isKind (kind : String) : Native := .nullary fun d => .ok (.bool (typeName d == kind))

/-- A filter of texts. -/
def ofText (f : String → Datum) : Native :=
  .nullary fun
    | .string s => .ok (f s)
    | d => failAs d "string"

/-- A filter of texts with a text as its argument. The input is looked at first. -/
def ofTexts (f : String → String → Datum) : Native :=
  .unary fun
    | .string a, .string s => .ok (f a s)
    | a, .string _ => failAs a "string"
    | _, d => failAs d "string"

/-- A filter of arrays. -/
def ofItems (f : List Datum → Datum) : Native :=
  .nullary fun
    | .array items => .ok (f items)
    | d => failAs d "array"

/-! ## Sizes and keys -/

/-- The size of a datum: of a text the number of its characters, of a number its absolute value. -/
def length (d : Datum) : Result :=
  match d.calculated with
  | .null => .ok (.int 0)
  | .bool b => fail ((Datum.bool b).text ++ " has no length")
  | .int n => .ok (Datum.wrapped n.natAbs)
  | .float x => .ok (.float x.abs)
  | .string s => .ok (.int s.length)
  | .array items => .ok (.int items.length)
  | .object members => .ok (.int members.length)
  | d => fail (d.text ++ " has no length")

/-- The keys of a datum as it has them. -/
def keysUnsorted : Datum → Result
  | .array items => .ok (.array ((List.range items.length).map fun (i : Nat) => .int i))
  | .object members => .ok (.array (members.map fun m => .string m.1))
  | d => failAs d Datum.iterable

/-- The keys of a datum in order. -/
def keys : Datum → Result
  | .object members => keysUnsorted (.object (Datum.sortMembers members))
  | d => keysUnsorted d

/-- A datum has a key. A position from the end is no key. -/
def has (key d : Datum) : Result :=
  match d, key with
  | .array items, .int n =>
    if 0 ≤ n then .ok (.bool (n < items.length)) else Datum.failIndex d key
  | .object members, .string k => .ok (.bool (Datum.member? k members).isSome)
  | d, key => Datum.failIndex d key

mutual

/-- A datum contains another: texts as parts, arrays and objects by their elements. -/
def contains (fuel : Nat) (d part : Datum) : Bool :=
  match fuel with
  | 0 => false
  | fuel + 1 =>
    match d, part with
    | .string s, .string t => t.isEmpty || (s.splitOn t).length != 1
    | .array items, .array parts => parts.all fun p => items.any fun i => contains fuel i p
    | .object members, .object parts => containsMembers fuel members parts
    | d, part => d.equals part

/-- An object contains the members of another. -/
def containsMembers (fuel : Nat) (members parts : List (String × Datum)) : Bool :=
  match fuel with
  | 0 => false
  | fuel + 1 =>
    parts.all fun (key, p) =>
      match Datum.member? key members with
      | some d => contains fuel d p
      | none => false

end

/-- The depth to which data are compared by their elements. -/
def containsDepth : Nat := 10000

/-! ## Texts -/

/-- The text of a datum: texts stand for themselves. -/
def plainText : Datum → String
  | .string s => s
  | d => d.text

/-- The pieces of a text between separators. -/
def split (separator d : Datum) : Result :=
  match d, separator with
  | .string s, .string t => .ok (.array ((Datum.splitText s t).map .string))
  | _, _ => fail "split input and separator must be strings"

/-- The number that a text spells. -/
def toNumber (d : Datum) : Result :=
  match d with
  | .string s =>
    match Json.Value.read s with
    | .ok (.number n) => .ok (Datum.ofValue (.number n))
    | _ => failAs d "number"
  | .int n => .ok (.int n)
  | .float x => .ok (.float x)
  | .numeral t => .ok (.numeral t)
  | d => failAs d "number"

/-- The datum whose JSON text is given. -/
def fromJson (d : Datum) : Result :=
  match d with
  | .string s =>
    match Json.Value.read s with
    | .ok v => .ok (Datum.ofValue v)
    | .error _ => fail ("cannot parse " ++ d.text ++ " as JSON")
  | d => failAs d "string"

/-- The text without a beginning. -/
def stripStart (start s : String) : String :=
  if start.toList.isPrefixOf s.toList then String.ofList (s.toList.drop start.length) else s

/-- The text without an ending. -/
def stripEnd (ending s : String) : String :=
  if ending.toList.isSuffixOf s.toList then
    String.ofList (s.toList.take (s.length - ending.length))
  else s

/-- A filter that changes a text by another and leaves all other data alone. -/
def ofMatchingTexts (f : String → String → String) : Native :=
  .unary fun
    | .string a, .string s => .ok (.string (f a s))
    | _, d => .ok d

/-- The text of character codes. -/
def implode (items : List Datum) : Result := do
  let cs ← items.mapM fun
    | .int n =>
      if h : 0 ≤ n ∧ n.toNat.isValidChar then .ok (Char.ofNatAux n.toNat h.2)
      else fail ("cannot use " ++ toString n ++ " as character")
    | d => failAs d "integer"
  return .string (String.ofList cs)

/-- The positions in a list at which another list starts. -/
def positionsOf {α : Type} (same : α → α → Bool) (part : List α) (l : List α) : List Nat :=
  (List.range l.length).filter fun i =>
    ((l.drop i).take part.length).length == part.length &&
      (List.zipWith same (l.drop i) part).all id

/-- The positions at which a part occurs: of an array in an array, of a text in a text, of any other
datum as an element. -/
def indices (part d : Datum) : Result :=
  let answer (positions : List Nat) : Result := .ok (.array (positions.map fun (i : Nat) => .int i))
  match d, part with
  | .string s, .string t =>
    answer (if t.isEmpty then [] else positionsOf (· == ·) t.toList s.toList)
  | .array items, .array parts =>
    answer (if parts.isEmpty then [] else positionsOf Datum.equals parts items)
  | .array items, part => answer (positionsOf Datum.equals [part] items)
  | d, part => Datum.failIndex d part

/-! ## Numbers -/

/-- A float as an integer if it is one of 64 bits. -/
def ofFloat (x : Float) : Datum :=
  if x.isFinite && x.abs < 9.0e18 then .int (x.toInt64.toInt) else .float x

/-- A filter that makes integers of numbers. -/
def rounded (f : Float → Float) : Native :=
  .nullary fun d =>
    match d.calculated with
    | .int n => .ok (.int n)
    | .float x => .ok (ofFloat (f x))
    | d => failAs d "number"

/-- A filter of numbers that gives floats. -/
def ofNumber (f : Float → Float) : Native :=
  .nullary fun d =>
    match d.calculated with
    | .int n => .ok (.float (f (Datum.floatOfInt n)))
    | .float x => .ok (.float (f x))
    | d => failAs d "number"

/-- The float of a number. -/
def floatOf (d : Datum) : Except Datum.Failure Float :=
  match d.calculated with
  | .int n => .ok (Datum.floatOfInt n)
  | .float x => .ok x
  | d => failAs d "number"

/-! ## Formats -/

/-- A text with some characters replaced. -/
def escape (table : Char → Option String) (s : String) : String :=
  String.join (s.toList.map fun c => (table c).getD (String.singleton c))

/-- The escapes of markup. -/
def markupEscape : Char → Option String
  | '<' => some "&lt;"
  | '>' => some "&gt;"
  | '&' => some "&amp;"
  | '\'' => some "&#39;"
  | '"' => some "&quot;"
  | _ => none

/-- The escape of a quote inside single quotes. -/
def shellEscape : Char → Option String
  | '\'' => some "'\\''"
  | _ => none

/-- The escapes of columns between tabs. -/
def tabEscape : Char → Option String
  | '\n' => some "\\n"
  | '\r' => some "\\r"
  | '\t' => some "\\t"
  | '\\' => some "\\\\"
  | _ => none

/-- A text in quotes that are doubled inside. -/
def doubleQuoted (s : String) : String :=
  "\"" ++ escape (fun c => if c = '"' then some "\"\"" else none) s ++ "\""

/-- The hexadecimal digit of a number below sixteen, in capitals. -/
def hexCapital (n : Nat) : Char := "0123456789ABCDEF".toList.getD n '0'

/-- A text with all bytes but those of letters, digits and `-_.~` written with percent signs. -/
def percentEncoded (s : String) : String :=
  String.join (s.toUTF8.toList.map fun b =>
    let c := Char.ofNat b.toNat
    if b < 128 ∧ (c.isAlphanum ∨ "-_.~".contains c) then String.singleton c
    else String.ofList ['%', hexCapital (b.toNat / 16), hexCapital (b.toNat % 16)])

/-- The character of a number below sixty-four. -/
def base64Digit (n : Nat) : Char :=
  "ABCDEFGHIJKLMNOPQRSTUVWXYZabcdefghijklmnopqrstuvwxyz0123456789+/".toList.getD n '='

/-- Bytes in groups of three, written as four characters each. -/
def base64 : List UInt8 → List Char
  | [] => []
  | [a] => [base64Digit (a.toNat / 4), base64Digit (a.toNat % 4 * 16), '=', '=']
  | [a, b] =>
    [base64Digit (a.toNat / 4), base64Digit (a.toNat % 4 * 16 + b.toNat / 16),
      base64Digit (b.toNat % 16 * 4), '=']
  | a :: b :: c :: rest =>
    base64Digit (a.toNat / 4) :: base64Digit (a.toNat % 4 * 16 + b.toNat / 16) ::
      base64Digit (b.toNat % 16 * 4 + c.toNat / 64) :: base64Digit (c.toNat % 64) :: base64 rest

/-- The elements of an array as columns, or the datum itself as the only one. -/
def columnsOf : Datum → List Datum
  | .array items => items
  | d => [d]

/-- A row of columns. -/
def joinColumns (separator : String) (column : Datum → Result) (d : Datum) : Result :=
  match d with
  | .array items => do
    let columns ← items.mapM column
    return .string (separator.intercalate (columns.map plainText))
  | d => failAs d "array"

/-- A column between tabs or commas. Arrays and objects cannot stand in it. -/
def columnOf (text : String → String) : Datum → Result
  | .null => .ok (.string "")
  | .string s => .ok (.string (text s))
  | .array items => failAs (.array items) "scalar"
  | .object members => failAs (.object members) "scalar"
  | d => .ok (.string d.text)

/-- A word of a command line. -/
def shellWord : Datum → Result
  | .string s => .ok (.string ("'" ++ escape shellEscape s ++ "'"))
  | .array items => failAs (.array items) "scalar"
  | .object members => failAs (.object members) "scalar"
  | d => .ok (.string d.text)

/-- A format that replaces characters. -/
def escaping (f : String → String) : Native := .nullary fun d => .ok (.string (f (plainText d)))

/-! ## The table -/

/-- The native filters with their names. -/
def table : List (String × Native) :=
  [("null", .nullary fun _ => .ok .null),
    ("true", .nullary fun _ => .ok (.bool true)),
    ("false", .nullary fun _ => .ok (.bool false)),
    ("error", .nullary fun d => .error (.raised d)),
    ("type", .nullary fun d => .ok (.string (typeName d))),
    ("isboolean", isKind "boolean"),
    ("isnumber", isKind "number"),
    ("isstring", isKind "string"),
    ("isarray", isKind "array"),
    ("isobject", isKind "object"),
    ("length", .nullary length),
    ("utf8bytelength", ofText fun s => .int s.utf8ByteSize),
    ("keys", .nullary keys),
    ("keys_unsorted", .nullary keysUnsorted),
    ("has", .unary has),
    ("contains", .unary fun part d => .ok (.bool (contains containsDepth d part))),
    ("tostring", .nullary fun d => .ok (.string (plainText d))),
    ("tojson", .nullary fun d => .ok (.string d.text)),
    ("fromjson", .nullary fromJson),
    ("tonumber", .nullary toNumber),
    ("reverse", ofItems fun items => .array items.reverse),
    ("split", .unary split),
    ("startswith", ofTexts fun start s => .bool (start.toList.isPrefixOf s.toList)),
    ("endswith", ofTexts fun ending s => .bool (ending.toList.isSuffixOf s.toList)),
    ("ltrimstr", ofMatchingTexts stripStart),
    ("rtrimstr", ofMatchingTexts stripEnd),
    ("trim", ofText fun s => .string (Text.trim s)),
    ("ltrim", ofText fun s => .string (String.ofList (s.toList.dropWhile Text.isBlank))),
    ("rtrim", ofText fun s => .string (Text.trimEnd s)),
    ("ascii_downcase", ofText fun s => .string (s.map Char.toLower)),
    ("ascii_upcase", ofText fun s => .string (s.map Char.toUpper)),
    ("explode", ofText fun s => .array (s.toList.map fun c => .int c.toNat)),
    ("implode", .nullary fun
      | .array items => implode items
      | d => failAs d "array"),
    ("indices", .unary indices),
    ("floor", rounded Float.floor),
    ("round", rounded Float.round),
    ("ceil", rounded Float.ceil),
    ("sqrt", ofNumber Float.sqrt),
    ("fabs", ofNumber Float.abs),
    ("trunc", ofNumber fun x => if x < 0.0 then x.ceil else x.floor),
    ("exp", ofNumber Float.exp),
    ("exp2", ofNumber Float.exp2),
    ("log", ofNumber Float.log),
    ("log2", ofNumber Float.log2),
    ("log10", ofNumber Float.log10),
    ("pow", .binary fun base exponent _ => do
      return .float ((← floatOf base).pow (← floatOf exponent))),
    ("@text", .nullary fun d => .ok (.string (plainText d))),
    ("@json", .nullary fun d => .ok (.string d.text)),
    ("@html", escaping (escape markupEscape)),
    ("@uri", escaping percentEncoded),
    ("@base64", escaping fun s => String.ofList (base64 s.toUTF8.toList)),
    ("@csv", .nullary (joinColumns "," (columnOf doubleQuoted))),
    ("@tsv", .nullary (joinColumns "\t" (columnOf (escape tabEscape)))),
    ("@sh", .nullary fun d => joinColumns " " shellWord (.array (columnsOf d)))]

/-- The number of arguments of a native filter. -/
def arity : Native → Nat
  | .nullary _ => 0
  | .unary _ => 1
  | .binary _ => 2

/-- The native filter of a name and a number of arguments. -/
def of? (name : String) (arity : Nat) : Option Native :=
  (table.find? fun entry => entry.1 == name && entry.2.arity == arity).map (·.2)

/-- The output of a native filter. -/
def run (f : Native) (arguments : List Datum) (d : Datum) : Result :=
  match f, arguments with
  | .nullary f, [] => f d
  | .unary f, [a] => f a d
  | .binary f, [a, b] => f a b d
  | _, _ => fail "wrong number of arguments"

end Native

end WideRow.Filter
