import Pneumatic.Text.Numeral
import Pneumatic.Text.Pieces
import Mathlib.Data.List.DropRight
import Mathlib.Data.Nat.Digits.Defs
import Mathlib.Data.Set.List
import Mathlib.Tactic.Positivity
import Mathlib.Tactic.Ring

/-!
# Decimal digits

Digits as numbers below ten, the most significant first, and what a list of them stands for.
The texts that a reader of numerals accepts are the spellings of such lists.
-/

namespace Pneumatic.Text

/-- The number that a text of digits stands for. -/
def number? (text : List Char) : Option Nat :=
  if isNumeral text then some (ofDigits text) else none

theorem isDigit_of_mem_digits {value : Nat} {c : Char} (among : c ∈ digits value) :
    c.isDigit = true :=
  Nat.isDigit_of_mem_toDigits (by decide) (by decide) among

/-- What is no digit does not occur in a number. -/
theorem not_mem_digits {c : Char} (other : c.isDigit = false) (value : Nat) : c ∉ digits value := by
  intro among
  rw [isDigit_of_mem_digits among] at other
  contradiction

theorem digits_ne_nil (value : Nat) : digits value ≠ [] :=
  Nat.toDigits_ne_nil

theorem isNumeral_digits (value : Nat) : isNumeral (digits value) = true := by
  rw [isNumeral, Bool.and_eq_true, List.all_eq_true]
  refine ⟨?_, fun c among => isDigit_of_mem_digits among⟩
  simp [digits_ne_nil]

@[simp] theorem number?_digits (value : Nat) : number? (digits value) = some value := by
  rw [number?, if_pos (isNumeral_digits value), ofDigits_digits]

/-- Cutting at the first separator. -/
theorem cut_append {separator : Char} {before : List Char} (absent : separator ∉ before)
    (after : List Char) : cut separator (before ++ separator :: after) = (before, some after) := by
  induction before with
  | nil => simp [cut]
  | cons c rest ih =>
      rw [List.mem_cons, not_or] at absent
      have other : (c == separator) = false := beq_false_of_ne (Ne.symm absent.1)
      simp [cut, other, ih absent.2]

/-- Cutting where there is no separator. -/
theorem cut_of_not_mem {separator : Char} {text : List Char} (absent : separator ∉ text) :
    cut separator text = (text, none) := by
  induction text with
  | nil => rfl
  | cons c rest ih =>
      rw [List.mem_cons, not_or] at absent
      have other : (c == separator) = false := beq_false_of_ne (Ne.symm absent.1)
      simp [cut, other, ih absent.2]

/-! ## Spelling -/

/-- The character of a digit. -/
def digit (value : Fin 10) : Char :=
  Nat.digitChar value

/-- Digits one after the other. -/
def spell (values : List (Fin 10)) : List Char :=
  values.map digit

/-- The number that digits stand for. -/
def numeral (values : List (Fin 10)) : Nat :=
  Nat.ofDigits 10 (values.reverse.map Fin.val)

@[simp] theorem length_spell (values : List (Fin 10)) : (spell values).length = values.length := by
  simp [spell]

theorem isDigit_digit (value : Fin 10) : (digit value).isDigit = true := by
  simp [digit, Nat.isDigit_digitChar]

/-- Every decimal digit is the character of a number below ten. -/
theorem isDigit_iff {c : Char} : c.isDigit = true ↔ ∃ value, digit value = c := by
  constructor
  · intro isDigit
    simp only [Char.isDigit, ge_iff_le, Bool.and_eq_true, decide_eq_true_eq, UInt32.le_iff_toNat_le]
      at isDigit
    have atLeast : 48 ≤ c.toNat := isDigit.1
    have atMost : c.toNat ≤ 57 := isDigit.2
    have small : c.toNat - 48 < 10 := by omega
    refine ⟨⟨c.toNat - 48, small⟩, Char.toNat_inj.mp ?_⟩
    rw [digit, Nat.toNat_digitChar_of_lt_ten small]
    omega
  · rintro ⟨value, rfl⟩
    exact isDigit_digit value

theorem digit_eq_zero_iff {value : Fin 10} : digit value = '0' ↔ value = 0 := by
  rw [digit, Nat.digitChar_eq_zero]
  exact Fin.val_eq_zero_iff

theorem all_isDigit_iff {text : List Char} :
    text.all Char.isDigit = true ↔ ∃ values, spell values = text := by
  have range := congrArg (text ∈ ·) (Set.range_list_map digit)
  unfold spell
  simpa only [List.all_eq_true, isDigit_iff, Set.mem_range, Set.mem_ofPred_eq]
    using range.symm.to_iff

theorem isNumeral_iff {text : List Char} :
    isNumeral text = true ↔ ∃ value values, spell (value :: values) = text := by
  rw [isNumeral, Bool.and_eq_true, all_isDigit_iff]
  constructor
  · rintro ⟨nonempty, values, rfl⟩
    cases values with
    | nil => simp [spell] at nonempty
    | cons value values => exact ⟨value, values, rfl⟩
  · rintro ⟨value, values, rfl⟩
    exact ⟨rfl, _, rfl⟩

theorem isNumeral_spell (value : Fin 10) (values : List (Fin 10)) :
    isNumeral (spell (value :: values)) = true :=
  isNumeral_iff.mpr ⟨value, values, rfl⟩

/-- What is no digit does not occur among digits. -/
theorem not_mem_spell {c : Char} (other : c.isDigit = false) (values : List (Fin 10)) :
    c ∉ spell values := by
  intro among
  obtain ⟨value, -, rfl⟩ := List.mem_map.mp among
  rw [isDigit_digit] at other
  contradiction

/-- Reading a number from digits alone: neither a sign nor anything else is in the way. -/
theorem natBelow?_of_isNumeral {text : List Char} (digits : isNumeral text = true) (bound : Nat) :
    natBelow? bound text = if ofDigits text < bound then some (ofDigits text) else none := by
  unfold natBelow?
  split
  · next rest =>
      have isSign : ('+' :: rest).all Char.isDigit = true := by
        simp only [isNumeral, Bool.and_eq_true] at digits
        exact digits.2
      contradiction
  · simp [digits]

theorem natBelow?_digits {value bound : Nat} (below : value < bound) :
    natBelow? bound (digits value) = some value := by
  rw [natBelow?_of_isNumeral (isNumeral_digits value), ofDigits_digits, if_pos below]

/-! ## Filling up with zeros -/

theorem isNumeral_padEnd {text : List Char} (digits : text.all Char.isDigit = true) (width : Nat) :
    isNumeral (padEnd (width + 1) text) = true := by
  rw [isNumeral, Bool.and_eq_true]
  refine ⟨?_, ?_⟩
  · cases text <;> simp [padEnd, List.replicate_succ]
  · rw [padEnd, List.all_append, digits, Bool.true_and, List.all_replicate]
    simp

theorem isNumeral_padStart (width value : Nat) :
    isNumeral (padStart width (digits value)) = true := by
  have numeral := isNumeral_digits value
  rw [isNumeral, Bool.and_eq_true] at numeral ⊢
  refine ⟨by simp [padStart, digits_ne_nil], ?_⟩
  rw [padStart, List.all_append, numeral.2, Bool.and_true, List.all_replicate]
  simp

@[simp] theorem ofDigits_padStart (width value : Nat) :
    ofDigits (padStart width (digits value)) = value := by
  rw [padStart, ofDigits, Nat.ofDigitChars_append, Nat.ofDigitChars_replicate_zero, Nat.mul_zero,
    ← ofDigits, ofDigits_digits]

theorem length_padStart {width value : Nat} (positive : 0 < width) (below : value < 10 ^ width) :
    (padStart width (digits value)).length = width := by
  have short : (digits value).length ≤ width :=
    (Nat.length_toDigits_le_iff (by decide) positive).mpr below
  simp only [padStart, List.length_append, List.length_replicate]
  omega

/-- Only zeros are dropped at the end. -/
theorem exists_trimZeros (text : List Char) :
    ∃ dropped, text = trimZeros text ++ List.replicate dropped '0' := by
  have zeros : text.rtakeWhile (· == '0') =
      List.replicate (text.rtakeWhile (· == '0')).length '0' := by
    refine List.eq_replicate_iff.mpr ⟨rfl, fun c among => ?_⟩
    simpa using List.mem_rtakeWhile_imp among
  refine ⟨(text.rtakeWhile (· == '0')).length, ?_⟩
  rw [← zeros]
  exact List.rdropWhile_append_rtakeWhile.symm

/-- Filling up with zeros undoes dropping them. -/
theorem padEnd_trimZeros (text : List Char) : padEnd text.length (trimZeros text) = text := by
  obtain ⟨dropped, parts⟩ := exists_trimZeros text
  have length := congrArg List.length parts
  rw [List.length_append, List.length_replicate] at length
  rw [padEnd, length, Nat.add_sub_cancel_left, ← parts]

/-! ## What digits stand for -/

theorem numeral_append (left right : List (Fin 10)) :
    numeral (left ++ right) = numeral left * 10 ^ right.length + numeral right := by
  simp only [numeral, List.reverse_append, List.map_append, Nat.ofDigits_append, List.length_map,
    List.length_reverse]
  ring

theorem numeral_lt (values : List (Fin 10)) : numeral values < 10 ^ values.length := by
  have bound := Nat.ofDigits_lt_base_pow_length (b := 10) (l := values.reverse.map Fin.val)
    (by decide) (by simp)
  simpa [numeral] using bound

theorem numeral_cons (value : Fin 10) (values : List (Fin 10)) :
    numeral (value :: values) = value.val * 10 ^ values.length + numeral values := by
  have leading : numeral [value] = value.val := by simp [numeral]
  rw [← List.singleton_append, numeral_append, leading]

/-- Reading digits gives what they stand for. -/
@[simp] theorem ofDigits_spell (values : List (Fin 10)) :
    ofDigits (spell values) = numeral values := by
  induction values with
  | nil => rfl
  | cons value values ih =>
      rw [ofDigits] at ih
      rw [ofDigits, spell, List.map_cons, digit,
        Nat.ofDigitChars_cons_digitChar_of_lt_ten value.isLt, Nat.ofDigitChars_eq_ofDigitChars_zero,
        ← spell, ih, numeral_cons, length_spell]
      ring

end Pneumatic.Text
