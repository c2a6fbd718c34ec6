/-!
# Doubles from decimal text

How the digits of a number become a double: as many leading digits as fit into 64 bits are rounded
to a double, which is then scaled by a power of ten. The two roundings can miss the nearest double
by a little, and texts with up to 15 digits and small exponents are exact.

Main definitions:
* `Significand.ofDigits`: the leading digits and the power of ten that is left;
* `scale?`: the double, or nothing if it is too large.
-/

namespace WideRow.Decimal

/-! ## Leading digits -/

/-- The value of a digit. -/
def digitValue (c : Char) : Nat := c.toNat - '0'.toNat

/-- Digits read as a natural number. -/
def natOfDigits (digits : List Char) : Nat :=
  digits.foldl (fun n c => 10 * n + digitValue c) 0

/-- The number `value * 10 ^ exponent`, with a value of 64 bits. -/
structure Significand where
  value : Nat
  exponent : Int

/-- The digits before the point: once one does not fit, it and all that follow only raise the
exponent. -/
def Significand.takeWhole (value : Nat) : List Char → Significand
  | [] => ⟨value, 0⟩
  | c :: rest =>
    let next := 10 * value + digitValue c
    if next < Nat.pow 2 64 then takeWhole next rest else ⟨value, rest.length + 1⟩

/-- The digits after the point: once one does not fit, it and all that follow are dropped. -/
def Significand.takeFraction (s : Significand) : List Char → Significand
  | [] => s
  | c :: rest =>
    let next := 10 * s.value + digitValue c
    if next < Nat.pow 2 64 then takeFraction ⟨next, s.exponent - 1⟩ rest else s

/-- The leading digits of a number with the power of ten that is left. -/
def Significand.ofDigits (whole fraction : List Char) : Significand :=
  (takeWhole 0 whole).takeFraction fraction

/-! ## Scaling -/

/-- The double nearest to a power of ten. -/
def powerOfTen (n : Nat) : Float := Float.ofScientific 1 false n

/-- A double divided by a power of ten, which for a large power is done in steps. -/
def scaleDown (x : Float) (n : Nat) : Float :=
  if n ≤ 308 then x / powerOfTen n
  else if x == 0 then x
  else scaleDown (x / powerOfTen 308) (n - 308)
termination_by n
decreasing_by omega

/-- The double of a scaled number, or nothing if it is too large. -/
def scale? (s : Significand) : Option Float :=
  let x := Float.ofNat s.value
  if s.exponent < 0 then some (scaleDown x s.exponent.natAbs)
  else if s.exponent ≤ 308 then
    let y := x * powerOfTen s.exponent.natAbs
    if y.isInf then none else some y
  else if x == 0 then some x
  else none

end WideRow.Decimal
