import WideRow.Json.Node
import WideRow.Decimal.Scaled

/-!
# Reading JSON

The reader of a text into nodes. It follows the grammar of JSON: white space is blanks, tabs and
line ends; after a value nothing is looked at. Brackets may be nested 127 deep for a value that is
to be held.

Main definitions:
* `Node.read`: the first value of a text;
* `Node.readWhole`: the only value of a text, with a complaint about what follows it.
-/

namespace WideRow.Json

/-! ## The rest of a text -/

/-- The rest of a text and where it begins. -/
structure Cursor where
  rest : List Char
  place : Mark
  deriving Inhabited

/-- The rest of a text after its first character. -/
def Cursor.past (c : Char) (rest : List Char) (place : Mark) : Cursor := ⟨rest, place.after c⟩

/-- The white space of JSON. -/
def isSpace (c : Char) : Bool := c == ' ' || c == '\t' || c == '\n' || c == '\r'

/-- The rest of a text from its first character that is no white space. -/
def skipSpace : List Char → Mark → Cursor
  | [], place => ⟨[], place⟩
  | c :: rest, place => if isSpace c then skipSpace rest (place.after c) else ⟨c :: rest, place⟩

/-- The cursor moved to its next character that is no white space. -/
def Cursor.skip (c : Cursor) : Cursor := skipSpace c.rest c.place

/-- What was found, and where reading goes on or why it cannot. -/
structure Reading (α : Type) where
  found : α
  stop : Except Break Cursor

/-- The reading of a place where no value can be read. -/
def Reading.broken (start : Mark) (b : Break) : Reading Node := ⟨.broken start b, .error b⟩

/-! ## Words -/

/-- The rest of a word of which the first letter has been read. -/
def readWord : List Char → List Char → Mark → Except Break Cursor
  | [], rest, place => .ok ⟨rest, place⟩
  | _ :: _, [], place => .error (.both .endInValue place)
  | e :: word, c :: rest, place =>
    if c = e then readWord word rest (place.after c)
    else .error (.both .expectedWord (place.afterByte c))

/-- A scalar spelled as a word. -/
def readScalarWord (word : List Char) (value : Scalar) (start : Mark) (rest : List Char) :
    Reading Node :=
  match readWord word rest start.next with
  | .ok c => ⟨.scalar ⟨start, c.place⟩ value, .ok c⟩
  | .error b => .broken start b

/-! ## Strings -/

/-- The value of a hexadecimal digit. -/
def hexValue? (c : Char) : Option Nat :=
  if '0' ≤ c ∧ c ≤ '9' then some (c.toNat - '0'.toNat)
  else if 'a' ≤ c ∧ c ≤ 'f' then some (c.toNat - 'a'.toNat + 10)
  else if 'A' ≤ c ∧ c ≤ 'F' then some (c.toNat - 'A'.toNat + 10)
  else none

/-- The value of four hexadecimal digits. -/
def hexValue4? (a b c d : Char) : Option Nat := do
  let a ← hexValue? a
  let b ← hexValue? b
  let c ← hexValue? c
  let d ← hexValue? d
  return ((a * 16 + b) * 16 + c) * 16 + d

/-- The character of a short escape. -/
def shortEscape? : Char → Option Char
  | '"' => some '"'
  | '\\' => some '\\'
  | '/' => some '/'
  | 'b' => some '\x08'
  | 'f' => some '\x0c'
  | 'n' => some '\n'
  | 'r' => some '\r'
  | 't' => some '\t'
  | _ => none

/-- The place a number of bytes further on, if the text is that long. -/
def afterBytes : Nat → List Char → Mark → Option Mark
  | 0, _, place => some place
  | _ + 1, [], _ => none
  | n + 1, c :: rest, place =>
    if c.utf8Size ≤ n + 1 then afterBytes (n + 1 - c.utf8Size) rest (place.after c)
    else some ⟨place.line, place.column + n + 1⟩

/-- The place where a text ends. -/
def endOf (rest : List Char) (place : Mark) : Mark := rest.foldl Mark.after place

/-- What a string holds so far: its characters in reverse order, a leading surrogate that waits for
its partner, and the first flaw for who wants the string. -/
structure TextSoFar where
  chars : List Char
  leading : Option Nat
  flaw : Option Complaint

/-- The empty string. -/
def TextSoFar.empty : TextSoFar := ⟨[], none, none⟩

/-- The string where something else than an escaped code unit follows: a surrogate that waits has
no partner. -/
def TextSoFar.settle (t : TextSoFar) (unpaired : Complaint) : TextSoFar :=
  match t.leading with
  | none => t
  | some _ => { t with leading := none, flaw := t.flaw <|> some unpaired }

/-- The string with one more character, which does not come from a code unit. -/
def TextSoFar.push (t : TextSoFar) (c : Char) (unpaired : Complaint) : TextSoFar :=
  let t := t.settle unpaired
  { t with chars := c :: t.chars }

/-- A code unit, escaped so that its last digit ends at a place. -/
def TextSoFar.pushUnit (t : TextSoFar) (unit : Nat) (stop : Mark) : TextSoFar :=
  let lone : Complaint := ⟨.loneSurrogate, stop⟩
  let trailing := 0xDC00 ≤ unit ∧ unit ≤ 0xDFFF
  match t.leading with
  | some high =>
    if trailing then
      ⟨Char.ofNat (0x10000 + (high - 0xD800) * 0x400 + (unit - 0xDC00)) :: t.chars, none, t.flaw⟩
    else ⟨t.chars, none, t.flaw <|> some lone⟩
  | none =>
    if trailing then { t with flaw := t.flaw <|> some lone }
    else if 0xD800 ≤ unit ∧ unit ≤ 0xDBFF then { t with leading := some unit }
    else { t with chars := Char.ofNat unit :: t.chars }

/-- The break of a string. A flaw before it comes first for who wants the string. -/
def TextSoFar.break (t : TextSoFar) (b : Break) : Break :=
  match t.flaw with
  | some flaw => ⟨flaw, b.passed⟩
  | none => b

/-- A string as it was read: its characters and its flaw. -/
structure HeldText where
  text : String
  flaw : Option Complaint
  deriving Inhabited

/-- The characters of a string after its opening quote. -/
def readText (t : TextSoFar) : List Char → Mark → Reading HeldText
  | [], place => ⟨default, .error (t.break (.both .endInString place))⟩
  | c :: rest, place =>
    if c = '"' then
      let t := t.settle ⟨.unpairedSurrogate, place.next⟩
      ⟨⟨String.ofList t.chars.reverse, t.flaw⟩, .ok ⟨rest, place.next⟩⟩
    else if c = '\\' then
      match rest with
      | [] => ⟨default, .error (t.break (.both .endInString place.next))⟩
      | 'u' :: rest =>
        let digits := place.next.next
        match rest with
        | a :: b :: c :: d :: rest' =>
          match hexValue4? a b c d with
          | some unit =>
            let stop := ⟨digits.line, digits.column + 4⟩
            readText (t.pushUnit unit stop) rest' stop
          | none =>
            match afterBytes 4 rest digits with
            | some stop => ⟨default, .error (t.break (.both .invalidEscape stop))⟩
            | none => ⟨default, .error (t.break (.both .endInString (endOf rest digits)))⟩
        | _ =>
          match afterBytes 4 rest digits with
          | some stop => ⟨default, .error (t.break (.both .invalidEscape stop))⟩
          | none => ⟨default, .error (t.break (.both .endInString (endOf rest digits)))⟩
      | e :: rest =>
        let unpaired : Complaint := ⟨.unpairedSurrogate, place.next.afterByte e⟩
        match shortEscape? e with
        | some c => readText (t.push c unpaired) rest (place.next.after e)
        | none =>
          let b := Break.both .invalidEscape (place.next.afterByte e)
          ⟨default, .error ((t.settle unpaired).break b)⟩
    else
      let unpaired : Complaint := ⟨.unpairedSurrogate, place.afterByte c⟩
      if c.toNat < 0x20 then
        let b : Break := ⟨⟨.controlCharacter, place.afterByte c⟩, ⟨.controlCharacter, place⟩⟩
        ⟨default, .error ((t.settle unpaired).break b)⟩
      else readText (t.push c unpaired) rest (place.after c)

/-- A string after its opening quote, as a value. -/
def readString (start : Mark) (rest : List Char) : Reading Node :=
  let r := readText .empty rest start.next
  match r.stop with
  | .error b => .broken start b
  | .ok c =>
    match r.found.flaw with
    | none => ⟨.scalar ⟨start, c.place⟩ (.string r.found.text), .ok c⟩
    | some flaw => ⟨.unheld ⟨start, c.place⟩ flaw, .ok c⟩

/-! ## Numbers -/

/-- The spelling of a number. -/
structure Numeral where
  negative : Bool
  whole : List Char
  fraction : Option (List Char)
  /-- whether the exponent is negative, and its digits -/
  exponent : Option (Bool × List Char)

/-- The digits at the front of a text, and the rest. -/
def digitsOf (rest : List Char) : List Char × List Char := rest.span Char.isDigit

/-- The place after a number of characters of one byte. -/
def Mark.skip (m : Mark) (n : Nat) : Mark := ⟨m.line, m.column + n⟩

/-- The break where a digit is missing: who wants the number hears at the end of the text that it
ends in a value. -/
def missingDigit : List Char → Mark → Break
  | [], place => ⟨⟨.endInValue, place⟩, ⟨.invalidNumber, place⟩⟩
  | c :: _, place => .both .invalidNumber (place.afterByte c)

/-- The digits before the point: no zero before others. -/
def readWhole : List Char → Mark → Except Break (List Char × Cursor)
  | '0' :: rest, place =>
    match rest with
    | d :: _ =>
      if d.isDigit then .error (.both .invalidNumber (place.next.afterByte d))
      else .ok (['0'], ⟨rest, place.next⟩)
    | [] => .ok (['0'], ⟨[], place.next⟩)
  | rest, place =>
    match digitsOf rest with
    | ([], rest) => .error (missingDigit rest place)
    | (digits, rest) => .ok (digits, ⟨rest, place.skip digits.length⟩)

/-- The digits after the point, if there is a point. -/
def readFraction (c : Cursor) : Except Break (Option (List Char) × Cursor) :=
  match c.rest with
  | '.' :: rest =>
    match digitsOf rest with
    | ([], rest) => .error (missingDigit rest c.place.next)
    | (digits, rest) => .ok (some digits, ⟨rest, c.place.skip (digits.length + 1)⟩)
  | _ => .ok (none, c)

/-- The exponent, if there is one. -/
def readExponent (c : Cursor) : Except Break (Option (Bool × List Char) × Cursor) :=
  match c.rest with
  | e :: rest =>
    if e = 'e' ∨ e = 'E' then
      let (negative, signs, rest) : Bool × Nat × List Char := match rest with
        | '+' :: rest => (false, 1, rest)
        | '-' :: rest => (true, 1, rest)
        | _ => (false, 0, rest)
      match digitsOf rest with
      | ([], rest) => .error (missingDigit rest (c.place.skip (1 + signs)))
      | (digits, rest) =>
        .ok (some (negative, digits), ⟨rest, c.place.skip (1 + signs + digits.length)⟩)
    else .ok (none, c)
  | [] => .ok (none, c)

/-- The spelling of the number at the front of a text. -/
def readNumeral (rest : List Char) (place : Mark) : Except Break (Numeral × Cursor) := do
  let (negative, c) : Bool × Cursor := match rest with
    | '-' :: rest => (true, ⟨rest, place.next⟩)
    | _ => (false, ⟨rest, place⟩)
  let (whole, c) ← readWhole c.rest c.place
  let (fraction, c) ← readFraction c
  let (exponent, c) ← readExponent c
  return (⟨negative, whole, fraction, exponent⟩, c)

/-- The number of leading digits of an exponent up to the one with which it leaves 32 bits. -/
def digitsToOverflow (value : Nat) : List Char → Option Nat
  | [] => none
  | c :: rest =>
    let next := 10 * value + Decimal.digitValue c
    if next < Nat.pow 2 31 then (digitsToOverflow next rest).map (· + 1) else some 1

/-- A double with a sign. -/
def signed (negative : Bool) (x : Float) : Number := .double (if negative then -x else x)

/-- The number of a spelling. If it is too large, the number of characters that are left when that
shows. -/
def Numeral.value (n : Numeral) : Except Nat Number :=
  let s := Decimal.Significand.ofDigits n.whole (n.fraction.getD [])
  let scaled (s : Decimal.Significand) : Except Nat Number :=
    match Decimal.scale? s with
    | some x => .ok (signed n.negative x)
    | none => .error 0
  match n.exponent with
  | some (negative, digits) =>
    match digitsToOverflow 0 digits with
    | some count =>
      if s.value = 0 ∨ negative then .ok (signed n.negative 0) else .error (digits.length - count)
    | none =>
      let e : Int := Decimal.natOfDigits digits
      scaled ⟨s.value, if negative then s.exponent - e else s.exponent + e⟩
  | none =>
    if n.fraction.isSome ∨ s.exponent ≠ 0 then scaled s
    else if n.negative then
      if s.value = 0 ∨ Nat.pow 2 63 < s.value then scaled s else .ok (.integer (-s.value))
    else .ok (.integer s.value)

/-- A number as a value. -/
def readNumber (start : Mark) (rest : List Char) : Reading Node :=
  match readNumeral rest start with
  | .error b => .broken start b
  | .ok (n, c) =>
    match n.value with
    | .ok x => ⟨.scalar ⟨start, c.place⟩ (.number x), .ok c⟩
    | .error left =>
      let place : Mark := ⟨c.place.line, c.place.column - left⟩
      ⟨.unheld ⟨start, c.place⟩ ⟨.numberTooLarge, place⟩, .ok c⟩

/-! ## Arrays and objects -/

/-- The deepest nesting of brackets in a value that is held. -/
def deepest : Nat := 127

/-- A node with its brackets, unless it is nested too deep to be held. -/
def nested (depth : Nat) (start : Mark) (stop : Except Break Cursor) (node : Span → Node) :
    Reading Node :=
  let complaint : Complaint := ⟨.tooDeep, start.next⟩
  match stop with
  | .ok c =>
    if depth < deepest then ⟨node ⟨start, c.place⟩, stop⟩
    else ⟨.unheld ⟨start, c.place⟩ complaint, stop⟩
  | .error b =>
    if depth < deepest then ⟨node ⟨start, .nowhere⟩, stop⟩
    else .broken start ⟨complaint, b.passed⟩

/-- Where reading stands when a key has been refused. -/
def refusedAfter (c : Cursor) : Mark :=
  let c := c.skip
  match c.rest with
  | '}' :: _ => c.place.next
  | _ => c.place

mutual

/-- The next value, at a depth of brackets. -/
def readNode (fuel depth : Nat) (c : Cursor) : Reading Node :=
  match fuel with
  | 0 => .broken c.place (.both .endInValue c.place)
  | fuel + 1 =>
    let c := c.skip
    match c.rest with
    | [] => .broken c.place (.both .endInValue c.place)
    | 'n' :: rest => readScalarWord ['u', 'l', 'l'] .null c.place rest
    | 't' :: rest => readScalarWord ['r', 'u', 'e'] (.bool true) c.place rest
    | 'f' :: rest => readScalarWord ['a', 'l', 's', 'e'] (.bool false) c.place rest
    | '"' :: rest => readString c.place rest
    | '[' :: rest =>
      let r := readItems fuel (depth + 1) ⟨rest, c.place.next⟩
      let ending := match r.stop with
        | .ok _ => none
        | .error b => some b
      nested depth c.place r.stop fun span => .array span r.found ending
    | '{' :: rest =>
      let r := readMembers fuel (depth + 1) ⟨rest, c.place.next⟩
      nested depth c.place r.stop fun span => .object span r.found.1 r.found.2
    | first :: _ =>
      if first = '-' ∨ first.isDigit then readNumber c.place c.rest
      else .broken c.place (.both .expectedValue (c.place.afterByte first))

/-- The items of an array after its opening bracket. -/
def readItems (fuel depth : Nat) (c : Cursor) : Reading (List Node) :=
  match fuel with
  | 0 => ⟨[], .error (.both .endInArray c.place)⟩
  | fuel + 1 =>
    let c := c.skip
    match c.rest with
    | [] => ⟨[], .error (.both .endInArray c.place)⟩
    | ']' :: rest => ⟨[], .ok ⟨rest, c.place.next⟩⟩
    | _ => readItem fuel depth c

/-- An item of an array and all that follow it. -/
def readItem (fuel depth : Nat) (c : Cursor) : Reading (List Node) :=
  match fuel with
  | 0 => ⟨[], .error (.both .endInArray c.place)⟩
  | fuel + 1 =>
    let item := readNode fuel depth c
    match item.stop with
    | .error b => ⟨[item.found], .error b⟩
    | .ok c =>
      let c := c.skip
      match c.rest with
      | [] => ⟨[item.found], .error (.both .endInArray c.place)⟩
      | ']' :: rest => ⟨[item.found], .ok ⟨rest, c.place.next⟩⟩
      | ',' :: rest =>
        let c := Cursor.skip ⟨rest, c.place.next⟩
        match c.rest with
        | [] => ⟨[item.found], .error (.both .endInValue c.place)⟩
        | ']' :: _ =>
          let place := c.place.next
          ⟨[item.found], .error ⟨⟨.commaBeforeClose, place⟩, ⟨.expectedValue, place⟩⟩⟩
        | _ =>
          let r := readItem fuel depth c
          ⟨item.found :: r.found, r.stop⟩
      | other :: _ =>
        ⟨[item.found], .error (.both .expectedCommaOrBracket (c.place.afterByte other))⟩

/-- The members of an object after its opening brace. -/
def readMembers (fuel depth : Nat) (c : Cursor) : Reading (List (Key × Node) × Ending) :=
  match fuel with
  | 0 => ⟨([], .closed), .error (.both .endInObject c.place)⟩
  | fuel + 1 =>
    let c := c.skip
    let broken (b : Break) : Reading (List (Key × Node) × Ending) := ⟨([], .broken b), .error b⟩
    match c.rest with
    | [] => broken (.both .endInObject c.place)
    | '}' :: rest => ⟨([], .closed), .ok ⟨rest, c.place.next⟩⟩
    | '"' :: rest => readMember fuel depth ⟨rest, c.place.next⟩
    | other :: _ => broken (.both .keyNotString (c.place.afterByte other))

/-- A member of an object, after the opening quote of its key, and all that follow it. -/
def readMember (fuel depth : Nat) (c : Cursor) : Reading (List (Key × Node) × Ending) :=
  match fuel with
  | 0 => ⟨([], .closed), .error (.both .endInObject c.place)⟩
  | fuel + 1 =>
    let key := readText .empty c.rest c.place
    match key.stop with
    | .error b => ⟨([], .broken b), .error b⟩
    | .ok c =>
      let key : Key := ⟨key.found.text, key.found.flaw, refusedAfter c⟩
      let noColon (b : Break) : Reading (List (Key × Node) × Ending) :=
        ⟨([], .noColon key b), .error b⟩
      let c := c.skip
      match c.rest with
      | [] => noColon (.both .endInObject c.place)
      | ':' :: rest =>
        let value := readNode fuel depth ⟨rest, c.place.next⟩
        let last (ending : Ending) (stop : Except Break Cursor) :
            Reading (List (Key × Node) × Ending) := ⟨([(key, value.found)], ending), stop⟩
        match value.stop with
        | .error b => last (.broken b) (.error b)
        | .ok c =>
          let c := c.skip
          match c.rest with
          | [] =>
            let b := Break.both .endInObject c.place
            last (.broken b) (.error b)
          | '}' :: rest => last .closed (.ok ⟨rest, c.place.next⟩)
          | ',' :: rest =>
            let c := Cursor.skip ⟨rest, c.place.next⟩
            match c.rest with
            | [] =>
              let b : Break := ⟨⟨.endInValue, c.place⟩, ⟨.endInObject, c.place⟩⟩
              last (.broken b) (.error b)
            | '"' :: rest =>
              let r := readMember fuel depth ⟨rest, c.place.next⟩
              ⟨((key, value.found) :: r.found.1, r.found.2), r.stop⟩
            | '}' :: _ =>
              let place := c.place.next
              let b : Break := ⟨⟨.commaBeforeClose, place⟩, ⟨.keyNotString, place⟩⟩
              last (.broken b) (.error b)
            | other :: _ =>
              let b := Break.both .keyNotString (c.place.afterByte other)
              last (.broken b) (.error b)
          | other :: _ =>
            let b := Break.both .expectedCommaOrBrace (c.place.afterByte other)
            last (.broken b) (.error b)
      | other :: _ => noColon (.both .expectedColon (c.place.afterByte other))

end

/-! ## Documents -/

/-- The first value of a text. No character takes more than three steps: an opening bracket is
followed by the list of items, the first item and its value. -/
def readFirst (s : String) : Reading Node :=
  let cs := s.toList
  readNode (3 * cs.length + 3) 0 ⟨cs, .start⟩

/-- The first value of a text; what follows it is not looked at. -/
def Node.read (s : String) : Node := (readFirst s).found

/-- The complaint about text after the value. -/
def textAfter (c : Cursor) : Option Complaint :=
  let c := c.skip
  match c.rest with
  | [] => none
  | other :: _ => some ⟨.textAfterValue, c.place.afterByte other⟩

/-- The only value of a text, with a complaint if more than white space follows it. -/
def Node.readWhole (s : String) : Node × Option Complaint :=
  let r := readFirst s
  match r.stop with
  | .ok c => (r.found, textAfter c)
  | .error _ => (r.found, none)

end WideRow.Json
