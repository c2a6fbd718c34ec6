import WideRow.Filter.Outputs
import WideRow.Json.Decoding

/-!
# Data of the filter language

The values that filters work on. Unlike JSON values they keep a number that is no 64-bit integer in
its spelling until it is calculated with, and their numbers can be infinite or undefined. A datum
becomes a JSON value through its text.

Main definitions:
* `Datum.compare`: the order of all data;
* `Datum.text`: the JSON text;
* `Datum.add` and the other operations.
-/

namespace WideRow.Filter

/-! ## Data -/

/-- A value of the filter language. -/
inductive Datum where
  | null
  | bool (b : Bool)
  | int (n : Int)
  | float (x : Float)
  /-- a number in its spelling -/
  | numeral (text : String)
  | string (s : String)
  | array (items : List Datum)
  | object (members : List (String × Datum))
  deriving Inhabited

namespace Datum

/-- An integer fits into 64 bits with a sign. -/
def isMachineInt (n : Int) : Bool := -(Nat.pow 2 63 : Nat) ≤ n && n < (Nat.pow 2 63 : Nat)

/-- The integer of 64 bits with a sign that is a number modulo `2 ^ 64`. -/
def wrapped (n : Int) : Datum := .int (n.bmod (Nat.pow 2 64))

/-- The float of an integer. -/
def floatOfInt (n : Int) : Float := Float.ofInt n

/-- The float nearest to a number with digits before and after the point and an exponent. -/
def floatOfDigits (whole fraction : List Char) (exponent : Int) : Float :=
  let mantissa := Decimal.natOfDigits (whole ++ fraction)
  let e := exponent - fraction.length
  if mantissa = 0 then 0
  else if e < -400 - (whole.length + fraction.length : Nat) then 0
  else if 400 < e then 1.0 / 0.0
  else Float.ofScientific mantissa (e < 0) e.natAbs

/-- The exponent of a spelling, from its mark on. -/
def exponentOf (mark : List Char) : Int :=
  match mark.drop 1 with
  | '-' :: digits => -(Decimal.natOfDigits digits : Int)
  | '+' :: digits => Decimal.natOfDigits digits
  | digits => Decimal.natOfDigits digits

/-- The magnitude that a spelling without a sign stands for. Zeros in front count for nothing. -/
def magnitudeOf (cs : List Char) : Float :=
  let (whole, rest) := cs.span Char.isDigit
  let (fraction, rest) := match rest with
    | '.' :: rest => rest.span Char.isDigit
    | rest => ([], rest)
  floatOfDigits whole fraction (exponentOf rest)

/-- The float that a spelling stands for. -/
def floatOfNumeral (text : String) : Float :=
  match text.toList with
  | '-' :: cs => -magnitudeOf cs
  | cs => magnitudeOf cs

/-- A datum with a number in its spelling turned into a float. -/
def calculated : Datum → Datum
  | .numeral text => .float (floatOfNumeral text)
  | d => d

/-! ## From JSON -/

mutual

/-- A JSON value as a datum. -/
def ofValue : Json.Value → Datum
  | .null => .null
  | .bool b => .bool b
  | .number (.integer n) => if isMachineInt n then .int n else .numeral (toString n)
  | .number (.double x) => .numeral (Json.Number.double x).render
  | .string s => .string s
  | .array items => .array (ofItems items)
  | .object members => .object (ofMembers members)

/-- The items of an array as data. -/
def ofItems : List Json.Value → List Datum
  | [] => []
  | v :: rest => ofValue v :: ofItems rest

/-- The members of an object as data. -/
def ofMembers : List (String × Json.Value) → List (String × Datum)
  | [] => []
  | (key, v) :: rest => (key, ofValue v) :: ofMembers rest

end

/-! ## Text -/

/-- Floats are written positionally for the exponents -4 to 15. Of two shortest numbers the greater
one is written. -/
def floatLayout : Decimal.Layout := ⟨-4, 15, false, .up⟩

/-- The text of a float. What is not a number to JSON is written as `null`. -/
def floatText (x : Float) : String := if x.isFinite then floatLayout.render x else "null"

/-- The spelling of a character in a quoted text: tabs and the ends of lines have an escape of their
own, and all other control characters of ASCII are written by their code. -/
def escape (c : Char) : List Char :=
  match c with
  | '"' => ['\\', '"']
  | '\\' => ['\\', '\\']
  | '\n' => ['\\', 'n']
  | '\r' => ['\\', 'r']
  | '\t' => ['\\', 't']
  | c =>
    if c.toNat < 0x20 ∨ c.toNat = 0x7f then
      ['\\', 'u', '0', '0', Json.hexDigit (c.toNat / 16), Json.hexDigit (c.toNat % 16)]
    else [c]

/-- A text in quotes. -/
def quote (s : String) : String := "\"" ++ String.ofList (s.toList.flatMap escape) ++ "\""

mutual

/-- The JSON text of a datum. -/
def text : Datum → String
  | .null => "null"
  | .bool true => "true"
  | .bool false => "false"
  | .int n => toString n
  | .float x => floatText x
  | .numeral t => t
  | .string s => quote s
  | .array [] => "[]"
  | .array (d :: rest) => "[" ++ d.text ++ textItems rest
  | .object [] => "\x7b\x7d"
  | .object ((key, d) :: rest) => "\x7b" ++ quote key ++ ":" ++ d.text ++ textMembers rest

/-- The items after the first, with the closing bracket. -/
def textItems : List Datum → String
  | [] => "]"
  | d :: rest => "," ++ d.text ++ textItems rest

/-- The members after the first, with the closing bracket. -/
def textMembers : List (String × Datum) → String
  | [] => "\x7d"
  | (key, d) :: rest => "," ++ quote key ++ ":" ++ d.text ++ textMembers rest

end

/-! ## Order -/

/-- The members of an object in the order of their keys. -/
def sortMembers (members : List (String × Datum)) : List (String × Datum) :=
  members.mergeSort fun a b => a.1 ≤ b.1

mutual

/-- A datum ready to be compared: its objects are sorted by key, and its numbers are calculated. -/
def normal : Datum → Datum
  | .array items => .array (normalItems items)
  | .object members => .object (sortMembers (normalMembers members))
  | d => d.calculated

/-- The items of an array ready to be compared. -/
def normalItems : List Datum → List Datum
  | [] => []
  | d :: rest => d.normal :: normalItems rest

/-- The members of an object ready to be compared. -/
def normalMembers : List (String × Datum) → List (String × Datum)
  | [] => []
  | (key, d) :: rest => (key, d.normal) :: normalMembers rest

end

/-- The order of floats. The two zeros are equal, and what is no number comes before all numbers,
itself included. -/
def compareFloats (x y : Float) : Ordering :=
  if x.isNaN then .lt
  else if y.isNaN then .gt
  else if x < y then .lt
  else if x == y then .eq
  else .gt

/-- The kinds of data in their order. -/
def rank : Datum → Nat
  | .null => 0
  | .bool _ => 1
  | .int _ => 2
  | .float _ => 2
  | .numeral _ => 2
  | .string _ => 3
  | .array _ => 4
  | .object _ => 5

mutual

/-- The order of normal data: by kind, then by value. Objects are ordered by their keys and then by
their values. -/
def compareNormal : Datum → Datum → Ordering
  | .bool a, .bool b => compare a.toNat b.toNat
  | .int a, .int b => compare a b
  | .int a, .float b => compareFloats (floatOfInt a) b
  | .float a, .int b => compareFloats a (floatOfInt b)
  | .float a, .float b => compareFloats a b
  | .string a, .string b => compare a b
  | .array a, .array b => compareItems a b
  | .object a, .object b =>
    (compareKeys (a.map (·.1)) (b.map (·.1))).then (compareMembers a b)
  | a, b => compare a.rank b.rank

/-- The order of lists of data. -/
def compareItems : List Datum → List Datum → Ordering
  | [], [] => .eq
  | [], _ :: _ => .lt
  | _ :: _, [] => .gt
  | a :: as, b :: bs => (compareNormal a b).then (compareItems as bs)

/-- The order of the values of members with the same keys. -/
def compareMembers : List (String × Datum) → List (String × Datum) → Ordering
  | [], [] => .eq
  | [], _ :: _ => .lt
  | _ :: _, [] => .gt
  | (_, a) :: as, (_, b) :: bs => (compareNormal a b).then (compareMembers as bs)

/-- The order of lists of keys. -/
def compareKeys : List String → List String → Ordering
  | [], [] => .eq
  | [], _ :: _ => .lt
  | _ :: _, [] => .gt
  | a :: as, b :: bs => (compare a b).then (compareKeys as bs)

end

/-- The order of data. -/
def compare (a b : Datum) : Ordering := compareNormal a.normal b.normal

/-- Two data are equal. -/
def equals (a b : Datum) : Bool := compare a b == .eq

/-- A datum is less than another. -/
def less (a b : Datum) : Bool := compare a b == .lt

/-- A datum is less than another or equal to it. -/
def atMost (a b : Datum) : Bool := compare a b != .gt

/-- A datum counts as true: all but `null` and `false` do. -/
def isTrue : Datum → Bool
  | .null => false
  | .bool b => b
  | _ => true

/-! ## Failures -/

/-- Why a filter has no output. -/
inductive Failure where
  /-- an error with its value, which can be caught -/
  | raised (d : Datum)
  /-- the way out to a label -/
  | broke (label : Nat)
  /-- the bound on the depth of evaluation is reached -/
  | exhausted
  deriving Inhabited

/-- An output or a failure in its place. -/
abbrev Result := Except Failure Datum

/-- An error with a message. -/
def fail {α : Type} (message : String) : Except Failure α := .error (.raised (.string message))

/-- The error of a datum that cannot be used as something. -/
def failAs {α : Type} (d : Datum) (expected : String) : Except Failure α :=
  fail ("cannot use " ++ d.text ++ " as " ++ expected)

/-- The name of what has elements. -/
def iterable : String := "iterable (array or object)"

/-- The error of an index that does not fit. -/
def failIndex {α : Type} (d index : Datum) : Except Failure α :=
  fail ("cannot index " ++ d.text ++ " with " ++ index.text)

/-! ## Access -/

/-- The value of a key. -/
def member? (key : String) : List (String × Datum) → Option Datum
  | [] => none
  | (k, d) :: rest => if k = key then some d else member? key rest

/-- The members with one key set: in its place if it is present, at the end otherwise. -/
def setMember (key : String) (d : Datum) : List (String × Datum) → List (String × Datum)
  | [] => [(key, d)]
  | (k, old) :: rest => if k = key then (k, d) :: rest else (k, old) :: setMember key d rest

/-- A position counted from the end if it is negative. -/
def position? (n : Int) (length : Nat) : Option Nat :=
  let i := if n < 0 then n + length else n
  if 0 ≤ i ∧ i < length then some i.toNat else none

/-- The element at an index. -/
def index (d i : Datum) : Result :=
  match d, i with
  | .array items, .int n =>
    .ok (((position? n items.length).bind fun i => items[i]?).getD .null)
  | .object members, .string key => .ok ((member? key members).getD .null)
  | .array _, _ => failIndex d i
  | .object _, _ => failIndex d i
  | _, _ => failAs d iterable

/-- A bound of a slice, as a position. -/
def bound (b : Option Datum) (length default : Nat) : Except Failure Nat :=
  match b with
  | none => .ok default
  | some (.int n) =>
    if n < 0 then .ok (n + length).toNat else .ok (min n.toNat length)
  | some d => failAs d "integer"

/-- A part of an array or of a text. -/
def slice (d : Datum) (start stop : Option Datum) : Result :=
  match d with
  | .array items => do
    let start ← bound start items.length 0
    let stop ← bound stop items.length items.length
    return .array ((items.drop start).take (stop - start))
  | .string s => do
    let cs := s.toList
    let start ← bound start cs.length 0
    let stop ← bound stop cs.length cs.length
    return .string (String.ofList ((cs.drop start).take (stop - start)))
  | d => failAs d "rangeable (array or string)"

/-- The elements of an array or an object. -/
def elements (d : Datum) : Except Failure (List Datum) :=
  match d with
  | .array items => .ok items
  | .object members => .ok (members.map (·.2))
  | d => failAs d iterable

/-! ## Calculation -/

/-- The operations on numbers, of which some also work on other data. -/
inductive Operation where
  | add
  | sub
  | mul
  | div
  | rem
  deriving DecidableEq, Inhabited

/-- The sign of an operation. -/
def Operation.sign : Operation → String
  | .add => "+"
  | .sub => "-"
  | .mul => "*"
  | .div => "/"
  | .rem => "%"

/-- The error of an operation on data that it does not work on. -/
def failCalculation (op : Operation) (a b : Datum) : Result :=
  fail ("cannot calculate " ++ a.text ++ " " ++ op.sign ++ " " ++ b.text)

/-- The remainder of two magnitudes, which a double always holds exactly: on the finer grid of the
two it is a remainder of natural numbers. -/
def remainderOf (a b : Decimal.Binary) : Float :=
  let e := min a.exponent b.exponent
  let onGrid (c : Decimal.Binary) : Nat := c.mantissa * Nat.pow 2 (c.exponent - e).toNat
  (Float.ofNat (onGrid a % onGrid b)).scaleB e

/-- The remainder of floats, with the sign of the dividend. -/
def floatRemainder (x y : Float) : Float :=
  if x.isNaN || y.isNaN || x.isInf || y == 0.0 then 0.0 / 0.0
  else if y.isInf then x
  else
    let r := remainderOf (.ofFloat x) (.ofFloat y)
    if x.toBits.toNat < Nat.pow 2 63 then r else -r

/-- The pieces of a text between the places where another text occurs. An empty text has no pieces,
and an empty separator leaves the single characters. -/
def splitText (s separator : String) : List String :=
  if s.isEmpty then []
  else if separator.isEmpty then s.toList.map fun c => String.ofList [c]
  else s.splitOn separator

mutual

/-- Two objects merged: objects at the same key are merged as well. -/
def mergeObjects (fuel : Nat) (a b : List (String × Datum)) : List (String × Datum) :=
  match fuel with
  | 0 => a
  | fuel + 1 => b.foldl (mergeMember fuel) a

/-- One member merged into an object. -/
def mergeMember (fuel : Nat) (members : List (String × Datum)) (entry : String × Datum) :
    List (String × Datum) :=
  match fuel with
  | 0 => setMember entry.1 entry.2 members
  | fuel + 1 =>
    match member? entry.1 members, entry.2 with
    | some (.object old), .object new =>
      setMember entry.1 (.object (mergeObjects fuel old new)) members
    | _, d => setMember entry.1 d members

end

/-- The depth to which objects are merged. -/
def mergeDepth : Nat := 10000

/-- An operation on calculated data. -/
def operate (op : Operation) (a b : Datum) : Result :=
  match op, a, b with
  | .add, .null, d => .ok d
  | .add, d, .null => .ok d
  | .add, .int m, .int n => .ok (wrapped (m + n))
  | .add, .int m, .float y => .ok (.float (floatOfInt m + y))
  | .add, .float x, .int n => .ok (.float (x + floatOfInt n))
  | .add, .float x, .float y => .ok (.float (x + y))
  | .add, .string s, .string t => .ok (.string (s ++ t))
  | .add, .array s, .array t => .ok (.array (s ++ t))
  | .add, .object s, .object t =>
    .ok (.object (t.foldl (fun ms entry => setMember entry.1 entry.2 ms) s))
  | .sub, .int m, .int n => .ok (wrapped (m - n))
  | .sub, .int m, .float y => .ok (.float (floatOfInt m - y))
  | .sub, .float x, .int n => .ok (.float (x - floatOfInt n))
  | .sub, .float x, .float y => .ok (.float (x - y))
  | .sub, .array s, .array t => .ok (.array (s.filter fun d => !t.any d.equals))
  | .mul, .int m, .int n => .ok (wrapped (m * n))
  | .mul, .int m, .float y => .ok (.float (floatOfInt m * y))
  | .mul, .float x, .int n => .ok (.float (x * floatOfInt n))
  | .mul, .float x, .float y => .ok (.float (x * y))
  | .mul, .string s, .int n =>
    .ok (if 0 < n then .string (String.join (List.replicate n.toNat s)) else .null)
  | .mul, .int n, .string s =>
    .ok (if 0 < n then .string (String.join (List.replicate n.toNat s)) else .null)
  | .mul, .object s, .object t => .ok (.object (mergeObjects mergeDepth s t))
  | .div, .int m, .int n => .ok (.float (floatOfInt m / floatOfInt n))
  | .div, .int m, .float y => .ok (.float (floatOfInt m / y))
  | .div, .float x, .int n => .ok (.float (x / floatOfInt n))
  | .div, .float x, .float y => .ok (.float (x / y))
  | .div, .string s, .string t => .ok (.array ((splitText s t).map .string))
  | .rem, .int m, .int n => if n = 0 then failCalculation op a b else .ok (.int (m.tmod n))
  | .rem, .int m, .float y => .ok (.float (floatRemainder (floatOfInt m) y))
  | .rem, .float x, .int n => .ok (.float (floatRemainder x (floatOfInt n)))
  | .rem, .float x, .float y => .ok (.float (floatRemainder x y))
  | op, a, b => failCalculation op a b

/-- An operation on data. -/
def apply (op : Operation) (a b : Datum) : Result :=
  match op, a, b with
  | .add, .null, d => .ok d
  | .add, d, .null => .ok d
  | op, a, b => operate op a.calculated b.calculated

/-- A number with the other sign. -/
def negate (d : Datum) : Result :=
  match d.calculated with
  | .int n => .ok (wrapped (-n))
  | .float x => .ok (.float (-x))
  | d => failAs d "number"

end Datum

end WideRow.Filter
