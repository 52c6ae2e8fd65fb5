/-!
# Decimal numerals

Numbers as their ASCII digits.  `digits` writes a number without leading zeros,
`natBelow?` reads one that may have leading zeros and one plus sign in front.
-/

namespace Pneumatic.Text

/-- The decimal digits of a number, without leading zeros. -/
def digits (value : Nat) : List Char :=
  Nat.toDigits 10 value

/-- The number that decimal digits stand for. -/
def ofDigits (digits : List Char) : Nat :=
  Nat.ofDigitChars 10 digits 0

/-- Reading what was written gives the number back. -/
@[simp] theorem ofDigits_digits (value : Nat) : ofDigits (digits value) = value :=
  Nat.ofDigitChars_toDigits (by decide) (by decide)

/-- Whether a text consists of one or more ASCII digits. -/
def isNumeral (text : List Char) : Bool :=
  !text.isEmpty && text.all Char.isDigit

/-- A number below `bound`, written as ASCII digits after at most one plus sign. -/
def natBelow? (bound : Nat) (text : List Char) : Option Nat :=
  let digits := match text with
    | '+' :: rest => rest
    | _ => text
  if isNumeral digits && ofDigits digits < bound then some (ofDigits digits) else none

/-- Fill a text with zeros at its end up to `width` characters. -/
def padEnd (width : Nat) (text : List Char) : List Char :=
  text ++ List.replicate (width - text.length) '0'

/-- Fill a text with zeros in front up to `width` characters. -/
def padStart (width : Nat) (text : List Char) : List Char :=
  List.replicate (width - text.length) '0' ++ text

/-- Drop the zeros at the end. -/
def trimZeros (text : List Char) : List Char :=
  (text.reverse.dropWhile (· == '0')).reverse

end Pneumatic.Text
