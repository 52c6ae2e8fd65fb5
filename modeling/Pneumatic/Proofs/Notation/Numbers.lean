import Pneumatic.Notation.Token
import Pneumatic.Proofs.Text.Digits
import Mathlib.Algebra.Order.Floor.Semifield
import Mathlib.Data.Rat.Floor
import Mathlib.Tactic.Positivity
import Mathlib.Tactic.Ring

/-!
# Numbers of the notation

A number is a count, a count with places, or a single digit with places; a count is digits that
do not start with zero.  Read as seconds, a number with any amount of places is the span of as
many whole nanoseconds as fit into its value, and it is refused exactly if a span cannot be that
long.  The canonical text of a span is such a number unless it has no nanoseconds at all, and it
always reads back.
-/

namespace Pneumatic

open Text (digit spell numeral)

theorem Duration.ofNanos?_nanos (span : Duration) : ofNanos? span.nanos = some span :=
  dif_pos span.nanos_lt

/-- A number as the notation writes it. -/
inductive Number where
  /-- Digits that do not start with zero. -/
  | count (first : Fin 10) (more : List (Fin 10)) (leading : first ≠ 0)
  /-- Digits that do not start with zero, a point, and places. -/
  | decimal (first : Fin 10) (more : List (Fin 10)) (leading : first ≠ 0)
      (place : Fin 10) (places : List (Fin 10))
  /-- A single digit, a point, and places. -/
  | short (only place : Fin 10) (places : List (Fin 10))

namespace Number

/-- The digits in front of the point. -/
def whole : Number → List (Fin 10)
  | .count first more _ | .decimal first more _ _ _ => first :: more
  | .short only _ _ => [only]

/-- The digits behind the point. -/
def places : Number → List (Fin 10)
  | .count _ _ _ => []
  | .decimal _ _ _ place places | .short _ place places => place :: places

/-- The characters of a number. -/
def chars : Number → List Char
  | .count first more _ => spell (first :: more)
  | .decimal first more _ place places =>
      spell (first :: more) ++ '.' :: spell (place :: places)
  | .short only place places => spell [only] ++ '.' :: spell (place :: places)

/-- The value of a number. -/
def value (number : Number) : ℚ :=
  numeral number.whole + numeral number.places / 10 ^ number.places.length

theorem exists_chars_eq_cons (number : Number) :
    ∃ first rest, number.chars = digit first :: rest := by
  cases number <;> exact ⟨_, _, rfl⟩

/-! ## Which texts are numbers -/

theorem isCount_iff {text : List Char} : Token.isCount text = true ↔
    ∃ first more, first ≠ 0 ∧ spell (first :: more) = text := by
  constructor
  · intro isCount
    cases text with
    | nil => contradiction
    | cons c rest =>
        simp only [Token.isCount, Bool.and_eq_true, bne_iff_ne, ne_eq] at isCount
        obtain ⟨first, rfl⟩ := Text.isDigit_iff.mp isCount.1.1
        obtain ⟨more, rfl⟩ := Text.all_isDigit_iff.mp isCount.2
        exact ⟨first, more, mt Text.digit_eq_zero_iff.mpr isCount.1.2, rfl⟩
  · rintro ⟨first, more, leading, rfl⟩
    have rest : (spell more).all Char.isDigit = true := Text.all_isDigit_iff.mpr ⟨more, rfl⟩
    have notZero : digit first ≠ '0' := mt Text.digit_eq_zero_iff.mp leading
    rw [spell, List.map_cons, ← spell]
    simp [Token.isCount, Text.isDigit_digit, notZero, rest]

/-- A number written in decimal is a count unless it is zero. -/
theorem isCount_digits_iff (value : Nat) :
    Token.isCount (Text.digits value) = true ↔ value ≠ 0 := by
  induction value using Nat.strong_induction_on with
  | _ value ih =>
      rw [Text.digits, Nat.toDigits_eq_if (by decide)]
      split
      · next single =>
          simp [Token.isCount, Nat.isDigit_digitChar, single, Nat.digitChar_eq_zero]
      · next large =>
          have smaller : value / 10 < value := by omega
          have last : (value % 10).digitChar.isDigit = true := by
            simp [Nat.isDigit_digitChar, Nat.mod_lt]
          have counts := (ih _ smaller).mpr (by omega)
          rw [Text.digits] at counts
          cases front : Nat.toDigits 10 (value / 10) with
          | nil => exact absurd front Nat.toDigits_ne_nil
          | cons c rest =>
              rw [front] at counts
              simp only [Token.isCount, Bool.and_eq_true, List.cons_append, List.all_append,
                List.all_cons, List.all_nil, last, Bool.and_true] at counts ⊢
              simp only [counts, and_self, true_iff]
              omega

/-- Cutting a number at its point. -/
theorem cut_chars (number : Number) : Text.cut '.' number.chars =
    (spell number.whole,
      if number.places = [] then none else some (spell number.places)) := by
  have noPoint (values : List (Fin 10)) : '.' ∉ spell values := Text.not_mem_spell rfl values
  cases number with
  | count first more leading => exact Text.cut_of_not_mem (noPoint _)
  | decimal first more leading place places => exact Text.cut_append (noPoint _) _
  | short only place places => exact Text.cut_append (noPoint _) _

theorem fst_cut_chars (number : Number) : (Text.cut '.' number.chars).1 = spell number.whole := by
  rw [cut_chars]

theorem getD_cut_chars (number : Number) :
    (Text.cut '.' number.chars).2.getD [] = spell number.places := by
  rw [cut_chars]
  split
  · next whole => simp [whole, spell]
  · rfl

theorem isNumber_iff {text : List Char} :
    Token.isNumber text = true ↔ ∃ number : Number, number.chars = text := by
  constructor
  · intro isNumber
    have textEq := Text.cut_eq '.' text
    unfold Token.isNumber at isNumber
    split at isNumber
    · next whole cutEq =>
        rw [cutEq] at textEq
        obtain ⟨first, more, leading, rfl⟩ := isCount_iff.mp isNumber
        exact ⟨.count first more leading, by simpa [chars] using textEq.symm⟩
    · next whole places cutEq =>
        rw [cutEq] at textEq
        simp only [Bool.and_eq_true, Bool.or_eq_true, beq_iff_eq] at isNumber
        obtain ⟨place, places, rfl⟩ := Text.isNumeral_iff.mp isNumber.2
        rcases isNumber.1 with count | ⟨single, digits⟩
        · obtain ⟨first, more, leading, rfl⟩ := isCount_iff.mp count
          exact ⟨.decimal first more leading place places, textEq.symm⟩
        · obtain ⟨only, more, rfl⟩ := Text.isNumeral_iff.mp digits
          obtain rfl : more = [] := by simpa using single
          exact ⟨.short only place places, textEq.symm⟩
  · rintro ⟨number, rfl⟩
    rw [Token.isNumber, cut_chars]
    cases number with
    | count first more leading => exact isCount_iff.mpr ⟨first, more, leading, rfl⟩
    | decimal first more leading place places =>
        have isCount : Token.isCount (spell (first :: more)) = true :=
          isCount_iff.mpr ⟨first, more, leading, rfl⟩
        simp [whole, Number.places, isCount, Text.isNumeral_spell]
    | short only place places =>
        simp [whole, Number.places, Text.isNumeral_spell]

/-! ## Numbers as seconds -/

theorem value_nonneg (number : Number) : 0 ≤ number.value := by
  unfold value
  positivity

/-- The places add less than one second. -/
theorem value_lt_iff (number : Number) (bound : Nat) :
    number.value < bound ↔ numeral number.whole < bound := by
  have places : (numeral number.places : ℚ) / 10 ^ number.places.length < 1 := by
    rw [div_lt_one (by positivity)]
    exact_mod_cast Text.numeral_lt number.places
  have nonneg : (0 : ℚ) ≤ numeral number.places / 10 ^ number.places.length := by positivity
  unfold value
  constructor
  · intro short
    have : (numeral number.whole : ℚ) < bound :=
      lt_of_le_of_lt (le_add_of_nonneg_right nonneg) short
    exact_mod_cast this
  · intro short
    have : (numeral number.whole : ℚ) + 1 ≤ bound := by exact_mod_cast short
    linarith

/-- The span of as many whole nanoseconds as fit into a number of seconds. -/
def span (number : Number) (short : number.value < 2 ^ 64) : Duration where
  nanos := ⌊number.value * 10 ^ 9⌋₊
  nanos_lt := by
    rw [Nat.floor_lt (mul_nonneg number.value_nonneg (by positivity))]
    have below : number.value * 10 ^ 9 < 2 ^ 64 * 10 ^ 9 := by gcongr
    have limit : ((UInt64.size * 1_000_000_000 : ℕ) : ℚ) = 2 ^ 64 * 10 ^ 9 := by
      norm_num [UInt64.size]
    rwa [limit]

/-- The whole nanoseconds of a number: those of its whole seconds, and those of its places. -/
theorem floor_value (number : Number) : ⌊number.value * 10 ^ 9⌋₊ =
    numeral number.whole * 10 ^ 9 +
      numeral number.places * 10 ^ 9 / 10 ^ number.places.length := by
  have split : number.value * 10 ^ 9 =
      (numeral number.whole * 10 ^ 9 : ℕ) +
        ((numeral number.places * 10 ^ 9 : ℕ) : ℚ) / (10 ^ number.places.length : ℕ) := by
    unfold value
    push_cast
    ring
  rw [split, add_comm, Nat.floor_add_natCast (by positivity), Nat.floor_div_natCast,
    Nat.floor_natCast, add_comm]

/-- The first nine of some places, filled up with zeros, count the nanoseconds. -/
theorem ofDigits_padEnd (places : List (Fin 10)) :
    Text.ofDigits (Text.padEnd 9 ((spell places).take 9)) =
      numeral places * 10 ^ 9 / 10 ^ places.length := by
  have padded (taken : List (Fin 10)) : Text.ofDigits (Text.padEnd 9 (spell taken)) =
      numeral taken * 10 ^ (9 - taken.length) := by
    rw [Text.padEnd, Text.ofDigits, Nat.ofDigitChars_append, Nat.ofDigitChars_replicate_zero,
      ← Text.ofDigits, Text.ofDigits_spell, Text.length_spell, Nat.mul_comm]
  have taken : (spell places).take 9 = spell (places.take 9) := by simp [spell, List.map_take]
  rw [taken, padded]
  -- Zeros behind few places scale them up; of many places, those behind the ninth are a remainder.
  rcases Nat.le_total places.length 9 with few | many
  · rw [List.take_of_length_le few]
    have parts : 10 ^ 9 = 10 ^ (9 - places.length) * 10 ^ places.length := by
      rw [← Nat.pow_add, Nat.sub_add_cancel few]
    rw [parts, ← Nat.mul_assoc, Nat.mul_div_cancel _ (by positivity)]
  · have length : (places.take 9).length = 9 := by simp [many]
    have parts := Text.numeral_append (places.take 9) (places.drop 9)
    have rest := Text.numeral_lt (places.drop 9)
    rw [List.take_append_drop] at parts
    rw [List.length_drop] at parts rest
    have scale : 10 ^ places.length = 10 ^ (places.length - 9) * 10 ^ 9 := by
      rw [← Nat.pow_add, Nat.sub_add_cancel many]
    rw [length, Nat.sub_self, Nat.pow_zero, Nat.mul_one, scale,
      Nat.mul_div_mul_right _ _ (by decide), parts, Nat.mul_comm,
      Nat.mul_add_div (by positivity), Nat.div_eq_of_lt rest, Nat.add_zero]

/-- A number of seconds is read as the span that it is worth, unless that is too long. -/
theorem read?_chars (number : Number) : Duration.read? number.chars =
    if short : number.value < 2 ^ 64 then some (number.span short) else none := by
  have wholeNumeral : Text.isNumeral (spell number.whole) = true := by
    cases number <;> exact Text.isNumeral_spell _ _
  have placesDigits : ((spell number.places).take 9).all Char.isDigit = true :=
    Text.all_isDigit_iff.mpr ⟨number.places.take 9, by simp [spell, List.map_take]⟩
  have nanos : Text.natBelow? 1_000_000_000 (Text.padEnd 9 ((spell number.places).take 9)) =
      some (numeral number.places * 10 ^ 9 / 10 ^ number.places.length) := by
    have below : numeral number.places * 10 ^ 9 / 10 ^ number.places.length < 1_000_000_000 := by
      rw [Nat.div_lt_iff_lt_mul (by positivity), Nat.mul_comm]
      exact Nat.mul_lt_mul_of_pos_left (Text.numeral_lt number.places) (by decide)
    rw [Text.natBelow?_of_isNumeral (Text.isNumeral_padEnd placesDigits 8), ofDigits_padEnd,
      if_pos below]
  have limit : number.value < 2 ^ 64 ↔ numeral number.whole < UInt64.size := by
    rw [← number.value_lt_iff UInt64.size]
    norm_num [UInt64.size]
  rw [Duration.read?]
  simp only [fst_cut_chars, getD_cut_chars, nanos, Text.natBelow?_of_isNumeral wholeNumeral,
    Text.ofDigits_spell, Option.bind_eq_bind]
  split
  · next short =>
      have total : (number.span (limit.mpr short)).nanos = numeral number.whole * 1_000_000_000 +
          numeral number.places * 10 ^ 9 / 10 ^ number.places.length := number.floor_value
      rw [dif_pos (limit.mpr short)]
      rw [Option.bind_some, Option.bind_some, ← total, Duration.ofNanos?_nanos]
  · next long =>
      rw [dif_neg (mt limit.mp long)]
      rfl

end Number

/-! ## The canonical text of a span -/

namespace Duration

theorem nanos_eq (span : Duration) :
    span.nanos = span.seconds * 1_000_000_000 + span.subsecond := by
  simp only [seconds, subsecond]
  omega

theorem seconds_lt (span : Duration) : span.seconds < UInt64.size := by
  have := span.nanos_lt
  simp only [seconds]
  omega

theorem subsecond_lt (span : Duration) : span.subsecond < 10 ^ 9 :=
  Nat.mod_lt _ (by decide)

theorem eq_zero_iff (span : Duration) : span = zero ↔ span.seconds = 0 ∧ span.subsecond = 0 := by
  have parts := span.nanos_eq
  constructor
  · rintro rfl
    exact ⟨rfl, rfl⟩
  · rintro ⟨noSeconds, noRest⟩
    cases span
    simp only [zero, Duration.mk.injEq]
    simp_all

/-- The places of a span that has some. -/
def writtenPlaces (span : Duration) : List Char :=
  Text.trimZeros (Text.padStart 9 (Text.digits span.subsecond))

theorem padEnd_writtenPlaces (span : Duration) :
    Text.padEnd 9 (span.writtenPlaces.take 9) = Text.padStart 9 (Text.digits span.subsecond) := by
  have length := Text.length_padStart (by decide) span.subsecond_lt
  have short : span.writtenPlaces.length ≤ 9 := by
    have prefixed := List.rdropWhile_prefix (· == '0')
      (Text.padStart 9 (Text.digits span.subsecond))
    exact length ▸ prefixed.length_le
  rw [List.take_of_length_le short]
  have filled := Text.padEnd_trimZeros (Text.padStart 9 (Text.digits span.subsecond))
  rwa [length] at filled

theorem isNumeral_writtenPlaces (span : Duration) (fraction : span.subsecond ≠ 0) :
    Text.isNumeral span.writtenPlaces = true := by
  have filled := Text.isNumeral_padStart 9 span.subsecond
  simp only [Text.isNumeral, Bool.and_eq_true, List.all_eq_true] at filled ⊢
  refine ⟨?_, fun c among => filled.2 c ?_⟩
  · cases empty : span.writtenPlaces with
    | cons c rest => rfl
    | nil =>
        have zeros := span.padEnd_writtenPlaces
        have read := Text.ofDigits_padStart 9 span.subsecond
        rw [← zeros, empty] at read
        exact absurd read.symm fraction
  · exact (List.rdropWhile_prefix _ _).subset among

theorem cut_text (span : Duration) : Text.cut '.' span.text =
    (Text.digits span.seconds, if span.subsecond = 0 then none else some span.writtenPlaces) := by
  have noPoint : '.' ∉ Text.digits span.seconds := Text.not_mem_digits rfl _
  rw [text]
  split
  · next noRest => rw [Text.cut_of_not_mem noPoint]
  · next fraction => exact Text.cut_append noPoint _

/-- The canonical text of a span reads back. -/
theorem read?_text_self (span : Duration) : read? span.text = some span := by
  have nanos : Text.natBelow? 1_000_000_000
      (Text.padEnd 9 (((Text.cut '.' span.text).2.getD []).take 9)) = some span.subsecond := by
    rw [cut_text]
    split
    · next noRest => rw [noRest]; rfl
    · rw [Option.getD_some, padEnd_writtenPlaces,
        Text.natBelow?_of_isNumeral (Text.isNumeral_padStart _ _), Text.ofDigits_padStart,
        if_pos (show span.subsecond < 1_000_000_000 from span.subsecond_lt)]
  have whole : (Text.cut '.' span.text).1 = Text.digits span.seconds := by rw [cut_text]
  rw [read?]
  simp only [nanos, whole, Text.natBelow?_digits span.seconds_lt, Option.bind_eq_bind]
  rw [Option.bind_some, Option.bind_some, ← nanos_eq, ofNanos?_nanos]

/-- The canonical text of a span is a number of the notation, unless the span is empty. -/
theorem isNumber_text_iff (span : Duration) : Token.isNumber span.text = true ↔ span ≠ zero := by
  rw [Token.isNumber, cut_text, ne_eq, eq_zero_iff]
  by_cases noRest : span.subsecond = 0
  · simp [noRest, Number.isCount_digits_iff]
  · simp only [noRest, ↓reduceIte, isNumeral_writtenPlaces span noRest, Bool.and_true, and_false,
      not_false_eq_true, iff_true]
    by_cases noSeconds : span.seconds = 0
    · simp only [noSeconds]
      rfl
    · simp [Number.isCount_digits_iff, noSeconds]

end Duration

end Pneumatic
