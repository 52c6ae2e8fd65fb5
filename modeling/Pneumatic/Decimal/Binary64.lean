import Pneumatic.Text.Numeral

/-!
# Numbers in double precision

Magnitudes `mantissa * 2^exponent` with a mantissa of at most 53 bits, worked out
in whole numbers.  `ofFraction` rounds to the nearest of them, a tie going to the
even mantissa, and so do products and quotients; `shortest` is the decimal with the
fewest digits that rounds back, and of those the nearest.
-/

namespace Pneumatic

/-- A magnitude in double precision. -/
inductive Binary64 where
  | finite (mantissa : Nat) (exponent : Int)
  | infinite
  deriving DecidableEq, Repr

namespace Binary64

/-- The quotient rounded to the nearest whole number, a tie to the even one. -/
def roundDiv (numerator denominator : Nat) : Nat :=
  let quotient := numerator / denominator
  let twice := 2 * (numerator % denominator)
  if twice < denominator then quotient
  else if denominator < twice then quotient + 1
  else quotient + quotient % 2

/-- `value * base^power` as a fraction. -/
def scale (base : Nat) (value : Nat × Nat) (power : Int) : Nat × Nat :=
  if 0 ≤ power then (value.1 * base.pow power.toNat, value.2)
  else (value.1, value.2 * base.pow (-power).toNat)

/-- The double nearest to a fraction, a tie going to the even mantissa. -/
def ofFraction (num den : Nat) : Binary64 :=
  if num = 0 then .finite 0 (-1074)
  else
    let estimate : Int := (Nat.log2 num : Int) - Nat.log2 den - 52
    let low := scale 2 (num, den) (-estimate)
    let exact := if low.1 < low.2 * Nat.pow 2 52 then estimate - 1 else estimate
    let exponent := max exact (-1074)
    let scaled := scale 2 (num, den) (-exponent)
    let mantissa := roundDiv scaled.1 scaled.2
    let (mantissa, exponent) :=
      if mantissa = Nat.pow 2 53 then (Nat.pow 2 52, exponent + 1) else (mantissa, exponent)
    if 971 < exponent then .infinite else .finite mantissa exponent

/-- The double nearest to `value / 10^places`. -/
def ofDecimal (value places : Nat) : Binary64 :=
  ofFraction value (Nat.pow 10 places)

/-- The double nearest to a whole number. -/
def ofNat (value : Nat) : Binary64 :=
  ofFraction value 1

/-- Whether a double is zero. -/
def isZero : Binary64 → Bool
  | .finite 0 _ => true
  | _ => false

/-- The double nearest to a product. -/
def mul : Binary64 → Binary64 → Binary64
  | .finite left power, .finite right shift =>
      let (num, den) := scale 2 (left * right, 1) (power + shift)
      ofFraction num den
  | _, _ => .infinite

/-- The double nearest to a quotient; the divisor is not zero. -/
def div : Binary64 → Binary64 → Binary64
  | .finite left power, .finite right shift =>
      let (num, den) := scale 2 (left, right) (power - shift)
      ofFraction num den
  | _, _ => .infinite

/-- The most places that a double is moved by at once: no larger power of ten is one. -/
def placeLimit : Nat := 308

/-- A double with its point moved to the left, rounded after each move. -/
def shiftDown (value : Binary64) (places : Nat) : Binary64 :=
  if placeLimit < places then
    if value.isZero then value
    else shiftDown (value.div (ofNat (Nat.pow 10 placeLimit))) (places - placeLimit)
  else value.div (ofNat (Nat.pow 10 places))
termination_by places
decreasing_by simp only [placeLimit] at *; omega

/-- A double with its point moved to the right, unless that is too large. -/
def shiftUp? (value : Binary64) (places : Nat) : Option Binary64 :=
  if value.isZero then some value
  else if placeLimit < places then none
  else match value.mul (ofNat (Nat.pow 10 places)) with
    | .infinite => none
    | shifted => some shifted

/-- Decimal digits `value * 10^power`. -/
structure Digits where
  value : Nat
  power : Int

/-- Whether a decimal lies among the numbers that round to a double.  The bounds
belong to it when the mantissa is even, and the lower bound is nearer when the
mantissa is the least of its binade. -/
def roundsTo (mantissa : Nat) (exponent : Int) (decimal : Digits) : Bool :=
  let (num, den) := scale 10 (decimal.value, 1) decimal.power
  let (num, den) := scale 2 (num, den) (2 - exponent)
  let lower :=
    if mantissa = Nat.pow 2 52 ∧ -1074 < exponent then 4 * mantissa - 1 else 4 * mantissa - 2
  let upper := 4 * mantissa + 2
  if mantissa % 2 = 0 then lower * den ≤ num && num ≤ upper * den
  else lower * den < num && num < upper * den

/-- The decimal with `count` digits nearest to a double among those that round to
it; a tie goes up. -/
def nearest? (mantissa : Nat) (exponent : Int) (magnitude : Int) (count : Nat) :
    Option Digits :=
  let power := magnitude - (count : Int) + 1
  let (num, den) := scale 10 (scale 2 (mantissa, 1) exponent) (-power)
  let below : Digits := ⟨num / den, power⟩
  let above : Digits := ⟨num / den + 1, power⟩
  let remainder := num % den
  let belowFits := roundsTo mantissa exponent below
  let aboveFits := roundsTo mantissa exponent above
  if belowFits && (!aboveFits || 2 * remainder < den) then some below
  else if aboveFits then some above
  else none

/-- The power of ten of the first digit of a fraction that is not zero. -/
def magnitude (num den : Nat) : Int :=
  if den ≤ num then Int.ofNat ((Text.digits (num / den)).length - 1)
  else
    let places := (Text.digits (den / num)).length
    if den ≤ num * Nat.pow 10 (places - 1) then 1 - (places : Int) else - (places : Int)

/-- The fewest digits that round to a double. -/
def shortest (mantissa : Nat) (exponent : Int) : Digits :=
  let (num, den) := scale 2 (mantissa, 1) exponent
  let magnitude := magnitude num den
  (((List.range 18).drop 1).findSome? (nearest? mantissa exponent magnitude)).getD ⟨num / den, 0⟩

/-- Digits in positional form, without an exponent and without zeros at the end of
the places. -/
def Digits.positional (decimal : Digits) : List Char :=
  let written := Text.digits decimal.value
  if 0 ≤ decimal.power then written ++ List.replicate decimal.power.toNat '0'
  else
    let places := (-decimal.power).toNat
    let filled := Text.padStart (places + 1) written
    let whole := filled.take (filled.length - places)
    match Text.trimZeros (filled.drop (filled.length - places)) with
    | [] => whole
    | fraction => whole ++ '.' :: fraction

/-- The text of a double: the fewest digits that read back, never with an
exponent. -/
def text : Binary64 → List Char
  | .infinite => ['i', 'n', 'f']
  | .finite 0 _ => ['0']
  | .finite mantissa exponent => (shortest mantissa exponent).positional

end Binary64

end Pneumatic
