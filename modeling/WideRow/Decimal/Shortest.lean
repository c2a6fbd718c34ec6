/-!
# Shortest decimal text of a double

A finite double stands for every real that rounds to it. Of the decimal numbers in that interval
the shortest is taken, and of several of that length the one nearest to the double. Where two are as
near, the writer of the text decides which one it is. All is done in exact arithmetic on
`mantissa * 2 ^ exponent`.

Main definitions:
* `shortest`: the digits of a double;
* `Layout.render`: its text, either positionally or with an exponent.
-/

namespace WideRow.Decimal

/-! ## The interval of a double -/

/-- The number `mantissa * 2 ^ exponent`. -/
structure Binary where
  mantissa : Nat
  exponent : Int

/-- The magnitude of a finite double. -/
def Binary.ofFloat (x : Float) : Binary :=
  let bits := x.toBits.toNat % Nat.pow 2 63
  let fraction := bits % Nat.pow 2 52
  match bits / Nat.pow 2 52 with
  | 0 => ⟨fraction, -1074⟩
  | field => ⟨Nat.pow 2 52 + fraction, field - 1075⟩

/-- The position of a binary number on the grid of multiples of `10 ^ k`: it lies at
`value / step` grid points, and the reals that round to it lie within `below` and `above` of it. -/
structure GridView where
  value : Nat
  step : Nat
  below : Nat
  above : Nat
  endsIncluded : Bool

/-- How a binary number lies on the grid of multiples of `10 ^ k`. The gap below is half as wide as
the one above where the mantissa is the least of its exponent. -/
def Binary.onGrid (b : Binary) (k : Int) : GridView :=
  let quarter := Nat.pow 2 b.exponent.toNat * Nat.pow 10 (-k).toNat
  { value := 4 * b.mantissa * quarter
    step := 4 * Nat.pow 2 (-b.exponent).toNat * Nat.pow 10 k.toNat
    below := if b.mantissa = Nat.pow 2 52 ∧ b.exponent ≠ -1074 then quarter else 2 * quarter
    above := 2 * quarter
    endsIncluded := b.mantissa % 2 = 0 }

/-- The grid point `n` rounds to the viewed number. -/
def GridView.readsBack (g : GridView) (n : Nat) : Bool :=
  let point := n * g.step
  if g.endsIncluded then g.value ≤ point + g.below && point ≤ g.value + g.above
  else g.value < point + g.below && point < g.value + g.above

/-- Which of two numbers that are as near is taken. -/
inductive Tie where
  | toEven
  | up
  deriving DecidableEq, Inhabited

/-- The choice between a grid point and the one above it where both are as near. -/
def Tie.choose : Tie → Nat → Nat
  | .toEven, lower => if lower % 2 = 0 then lower else lower + 1
  | .up, lower => lower + 1

/-- The nearer of the two grid points around the viewed number, among those that read back. -/
def GridView.nearest? (g : GridView) (tie : Tie) : Option Nat :=
  let lower := g.value / g.step
  let upper := lower + 1
  match g.readsBack lower, g.readsBack upper with
  | true, true =>
    let below := g.value - lower * g.step
    let above := upper * g.step - g.value
    if below < above then some lower else if above < below then some upper
    else some (tie.choose lower)
  | true, false => some lower
  | false, true => some upper
  | false, false => none

/-! ## The shortest digits -/

/-- A decimal number: its digits, of which the first stands before the point, times
`10 ^ exponent`. -/
structure Digits where
  digits : List Char
  exponent : Int
  deriving DecidableEq

/-- The decimal exponent of a positive binary number. -/
def Binary.decimalExponent (b : Binary) : Int :=
  let estimate := ((Nat.log2 b.mantissa + b.exponent) * 30103) / 100000
  let g := b.onGrid (estimate + 1)
  if g.step ≤ g.value then estimate + 1 else estimate

/-- The decimal number `n * 10 ^ k`, without zeros at its end. -/
def Digits.ofGridPoint (n : Nat) (k : Int) : Digits :=
  let all := Nat.toDigits 10 n
  let kept := (all.reverse.dropWhile (· == '0')).reverse
  ⟨kept, k + all.length - 1⟩

/-- The first hit on the grids of `count` digits and more. Seventeen digits always suffice. -/
def Binary.shortestFrom (b : Binary) (tie : Tie) (exponent : Int) : (count fuel : Nat) → Digits
  | _, 0 => ⟨['0'], 0⟩
  | count, fuel + 1 =>
    let k := exponent + 1 - count
    match (b.onGrid k).nearest? tie with
    | some n => if n = 0 then b.shortestFrom tie exponent (count + 1) fuel else .ofGridPoint n k
    | none => b.shortestFrom tie exponent (count + 1) fuel

/-- The shortest digits that read back as the magnitude of a finite double. -/
def shortest (tie : Tie) (x : Float) : Digits :=
  let b := Binary.ofFloat x
  if b.mantissa = 0 then ⟨['0'], 0⟩ else b.shortestFrom tie b.decimalExponent 1 17

/-! ## Layout -/

/-- How a decimal number is written: positionally for the exponents between `lowest` and
`highest`, and otherwise with an exponent, which has a plus sign if `plus` is set. Of two shortest
numbers as near to the double, `tie` tells which one is written. -/
structure Layout where
  lowest : Int
  highest : Int
  plus : Bool
  tie : Tie

/-- Digits with a point after `whole` of them, filled up with zeros on the right. -/
def placePoint (digits : List Char) (whole : Nat) : List Char :=
  let front := digits.take whole ++ List.replicate (whole - digits.length) '0'
  match digits.drop whole with
  | [] => front ++ ['.', '0']
  | fraction => front ++ '.' :: fraction

/-- The text of decimal digits under a layout. A positional text always has a fraction. -/
def Layout.write (l : Layout) (d : Digits) : List Char :=
  if l.lowest ≤ d.exponent ∧ d.exponent ≤ l.highest then
    if 0 ≤ d.exponent then placePoint d.digits (d.exponent.toNat + 1)
    else ['0', '.'] ++ List.replicate (-d.exponent - 1).toNat '0' ++ d.digits
  else
    let fraction := match d.digits.drop 1 with
      | [] => []
      | rest => '.' :: rest
    let sign := if d.exponent < 0 then ['-'] else if l.plus then ['+'] else []
    d.digits.take 1 ++ fraction ++ ['e'] ++ sign ++ Nat.toDigits 10 d.exponent.natAbs

/-- The text of a finite double under a layout. -/
def Layout.render (l : Layout) (x : Float) : String :=
  let sign := if x.toBits.toNat < Nat.pow 2 63 then [] else ['-']
  String.ofList (sign ++ l.write (shortest l.tie x))

end WideRow.Decimal
