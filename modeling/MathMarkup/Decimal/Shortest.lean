/-!
This module contains the shortest decimal that reads back as the same binary number of double
precision. A decimal is first rounded to the nearest binary number; of all decimals that are rounded
to that number one with the fewest digits is then chosen, and of several such the nearest. All of it
is exact arithmetic on natural numbers.
-/

namespace MathMarkup
namespace Decimal

/--
The number `significand * base ^ exponent`, where the base is two or ten.
-/
structure Scaled where
  significand : Nat
  exponent : Int
deriving DecidableEq, Repr

def Scaled.toFraction (base : Nat) (x : Scaled) : Nat × Nat :=
  if 0 ≤ x.exponent then
    (x.significand * base.pow x.exponent.toNat, 1)
  else
    (x.significand, base.pow (-x.exponent).toNat)

/--
Round a fraction to a natural number. A half goes to the even neighbour.
-/
def roundEven (num den : Nat) : Nat :=
  let down := num / den
  let twice := 2 * (num % den)
  if twice < den || (twice = den && down % 2 = 0) then down else down + 1

def minExponent : Int := -1074

def maxExponent : Int := 971

/--
Round a fraction to the nearest binary number with the given exponent. It may take at most 53 bits.
-/
def roundAt? (num den : Nat) (exponent : Int) : Option Scaled :=
  let significand :=
    if 0 ≤ exponent then
      roundEven num (den * Nat.pow 2 exponent.toNat)
    else
      roundEven (num * Nat.pow 2 (-exponent).toNat) den
  if significand < Nat.pow 2 53 then some ⟨significand, exponent⟩ else none

/--
Whether a decimal is clearly so small that it is rounded to zero. As ten is more than two cubed, a
decimal with a negative exponent is less than two to the power of `log2 + 1 + 3 * exponent`.
-/
def Scaled.isTiny (x : Scaled) : Bool :=
  x.significand = 0 || (x.exponent < 0 && x.significand.log2 + 1 + 3 * x.exponent < minExponent - 1)

def Scaled.isHuge (x : Scaled) : Bool :=
  400 < x.exponent

/--
Round a decimal to the nearest binary number of double precision. Too large a decimal has none. The
estimate is the exponent for 53 or 54 bits, and the rounding may carry into one more.
-/
def toBinary? (x : Scaled) : Option Scaled :=
  if x.isTiny then
    some ⟨0, minExponent⟩
  else if x.isHuge then
    none
  else do
    let (num, den) := x.toFraction 10
    let estimate : Int := max minExponent (num.log2 - den.log2 - 53)
    let rounded ← [estimate, estimate + 1, estimate + 2].findSome? (roundAt? num den)
    if maxExponent < rounded.exponent then none else some rounded

/--
The two ends of the range of decimals that are rounded to a binary number, in units of a quarter of
its last place. Below a power of two the range is smaller.
-/
def quarters (x : Scaled) : Nat × Nat :=
  let below := if x.significand = Nat.pow 2 52 && minExponent < x.exponent then 1 else 2
  (4 * x.significand - below, 4 * x.significand + 2)

def leadingExponent (num den : Nat) : Int :=
  let fits (e : Int) : Bool :=
    if 0 ≤ e then den * Nat.pow 10 e.toNat ≤ num else den ≤ num * Nat.pow 10 (-e).toNat
  ((List.range 700).map fun (n : Nat) => (350 : Int) - n).find? fits |>.getD 0

/--
The decimal on the grid of `10 ^ exponent` that is nearest to a binary number and is rounded to it,
if there is one.
-/
def onGrid? (x : Scaled) (exponent : Int) : Option Scaled :=
  let (lo, hi) := quarters x
  let (num, den) := Scaled.toFraction 2 ⟨4 * x.significand, x.exponent - 2⟩
  let unit : Nat × Nat := Scaled.toFraction 10 ⟨1, exponent⟩
  let quarter : Nat × Nat := Scaled.toFraction 2 ⟨1, x.exponent - 2⟩
  let down := num * unit.2 / (den * unit.1)
  let isIn (n : Nat) : Bool :=
    let left := n * unit.1 * quarter.2
    let right (q : Nat) := q * quarter.1 * unit.2
    if x.significand % 2 = 0 then
      right lo ≤ left && left ≤ right hi
    else
      right lo < left && left < right hi
  let isNearer := 2 * (num * unit.2) ≤ (2 * down + 1) * (den * unit.1)
  if isIn down && (isNearer || !isIn (down + 1)) then some ⟨down, exponent⟩
  else if isIn (down + 1) then some ⟨down + 1, exponent⟩
  else none

/--
The shortest decimal that is rounded to a positive binary number. It may be a power of ten just
above the number, so the first grid is that of the place before the leading digit.
-/
def shortest (x : Scaled) : Scaled :=
  let (num, den) := x.toFraction 2
  let lead := leadingExponent num den
  ((List.range 18).map fun (n : Nat) => lead + 1 - n).findSome? (onGrid? x) |>.getD ⟨0, 0⟩

def positional (x : Scaled) : String :=
  let digits := Nat.toDigits 10 x.significand
  let text :=
    if 0 ≤ x.exponent then
      digits ++ List.replicate x.exponent.toNat '0' ++ ['.', '0']
    else
      let places := (-x.exponent).toNat
      let padded := List.replicate (places + 1 - digits.length) '0' ++ digits
      padded.take (padded.length - places) ++ '.' :: padded.drop (padded.length - places)
  String.ofList text

end Decimal
end MathMarkup
