import Pneumatic.Proofs.Tag.Table
import Pneumatic.Proofs.Text.Digits

/-!
# The memory behind a tag table

Reading the written form of an address gives the address back.  The addresses of a table
are cells of one memory: bits are numbered from its beginning, and the first word lies
behind the first `8 * stride` bits.  So no two signals of a table share a bit as long as it
has no word, or no more bits than fit in front of the first one.
-/

namespace Pneumatic

namespace Tag

namespace Address

/-- The address that a text writes: the byte and the place of a bit in it, the first byte of
a word, or the first byte of a double word. -/
def read? (text : String) : Option Address := do
  match ← Text.dropLead? ['%', 'M'] text.toList with
  | 'W' :: byte => return .word (← Text.number? byte)
  | 'D' :: byte => return .double (← Text.number? byte)
  | place =>
      let (byte, some place) := Text.cut '.' place | none
      let place ← Text.number? place
      if place < 8 then return .bit (8 * (← Text.number? byte) + place) else none

/-- Reading the written form of an address gives the address back. -/
theorem read?_text (address : Address) : read? address.text = some address := by
  cases address with
  | word byte => simp [read?, text, Text.dropLead?]
  | double byte => simp [read?, text, Text.dropLead?]
  | bit number =>
      have noPoint : '.' ∉ Text.digits (number / 8) := Text.not_mem_digits rfl _
      have place : number % 8 < 8 := Nat.mod_lt number (by decide)
      have parts : 8 * (number / 8) + number % 8 = number := Nat.div_add_mod number 8
      have written : (Address.bit number).text.toList =
          ['%', 'M'] ++ (Text.digits (number / 8) ++ '.' :: Text.digits (number % 8)) := by
        simp [text]
      rw [read?, written, Text.dropLead?_eq_some_iff.mpr rfl, Option.bind_eq_bind,
        Option.bind_some]
      -- The number of the byte begins with a digit, so this is no word.
      obtain ⟨c, rest, digits⟩ := List.exists_cons_of_ne_nil (Text.digits_ne_nil (number / 8))
      have isDigit := Text.isDigit_of_mem_digits (digits ▸ List.mem_cons_self : c ∈ _)
      rw [digits, List.cons_append]
      split
      · next isW =>
          obtain rfl := (List.cons.inj isW).1
          contradiction
      · next isD =>
          obtain rfl := (List.cons.inj isD).1
          contradiction
      · rw [← List.cons_append, ← digits, Text.cut_append noPoint]
        simp [place, parts]

theorem mem_bits_bit {number bit : Nat} : bit ∈ (Address.bit number).bits ↔ bit = number := by
  rw [bits, List.mem_singleton]

theorem mem_map_range {start size bit : Nat} :
    bit ∈ (List.range size).map (start + ·) ↔ start ≤ bit ∧ bit < start + size := by
  rw [← List.range'_eq_map_range, List.mem_range'_1]

theorem mem_bits_word {byte bit : Nat} :
    bit ∈ (Address.word byte).bits ↔ 8 * byte ≤ bit ∧ bit < 8 * byte + 16 :=
  mem_map_range

theorem mem_bits_double {byte bit : Nat} :
    bit ∈ (Address.double byte).bits ↔ 8 * byte ≤ bit ∧ bit < 8 * byte + 32 :=
  mem_map_range

end Address

/-! ## Cells of a table -/

/-- A symmetric relation holds between the elements of a list if it holds between those that
satisfy a test, between those that do not, and across. -/
theorem pairwise_iff_of_test {Element : Type} {relation : Element → Element → Prop}
    (symm : ∀ left right, relation left right → relation right left) (test : Element → Bool)
    (elements : List Element) :
    elements.Pairwise relation ↔
      (elements.filter test).Pairwise relation ∧
      (elements.filter fun element => !test element).Pairwise relation ∧
      ∀ left ∈ elements.filter test, ∀ right ∈ elements.filter fun element => !test element,
        relation left right := by
  induction elements with
  | nil => simp
  | cons element rest ih =>
      rw [List.pairwise_cons, ih]
      by_cases passes : test element = true
      · simp only [List.filter_cons, passes, if_true, Bool.not_true, Bool.false_eq_true, if_false,
          List.pairwise_cons, List.forall_mem_cons, List.mem_filter]
        grind
      · simp only [List.filter_cons, passes, Bool.not_eq_true] at passes ⊢
        simp only [Bool.false_eq_true, if_false, Bool.not_false, if_true,
          List.pairwise_cons, List.forall_mem_cons, List.mem_filter]
        grind

namespace Table

/-- No two entries of a table have a bit of memory in common. -/
def Apart (table : Table) : Prop :=
  table.entries.Pairwise fun left right => left.address.bits.Disjoint right.address.bits

namespace Packed

variable {table : Table}

/-- A word begins at its place in the table and is no longer than a double word. -/
theorem bounds_of_word (packed : table.Packed) {index : Nat} {entry : Entry}
    (here : (table.entries.filter fun entry => !entry.isBit)[index]? = some entry) {bit : Nat}
    (among : bit ∈ entry.address.bits) :
    8 * ((index + 1) * stride) ≤ bit ∧ bit < 8 * ((index + 1) * stride) + 32 := by
  rw [packed.word index entry here] at among
  split at among
  · have bounds := Address.mem_bits_word.mp among
    omega
  · exact Address.mem_bits_double.mp among

theorem first_mem_bits (packed : table.Packed) {index : Nat} {entry : Entry}
    (here : (table.entries.filter fun entry => !entry.isBit)[index]? = some entry) :
    8 * ((index + 1) * stride) ∈ entry.address.bits := by
  rw [packed.word index entry here]
  split
  · rw [Address.mem_bits_word]
    omega
  · rw [Address.mem_bits_double]
    omega

theorem pairwise_bits (packed : table.Packed) :
    (table.entries.filter Entry.isBit).Pairwise fun left right =>
      left.address.bits.Disjoint right.address.bits := by
  rw [List.pairwise_iff_getElem]
  intro left right leftInside rightInside before bit here there
  rw [packed.bit left _ (List.getElem?_eq_getElem leftInside), Address.mem_bits_bit] at here
  rw [packed.bit right _ (List.getElem?_eq_getElem rightInside), Address.mem_bits_bit] at there
  omega

theorem pairwise_words (packed : table.Packed) :
    (table.entries.filter fun entry => !entry.isBit).Pairwise fun left right =>
      left.address.bits.Disjoint right.address.bits := by
  rw [List.pairwise_iff_getElem]
  intro left right leftInside rightInside before bit here there
  have leftBounds := packed.bounds_of_word (List.getElem?_eq_getElem leftInside) here
  have rightBounds := packed.bounds_of_word (List.getElem?_eq_getElem rightInside) there
  rw [stride] at leftBounds rightBounds
  omega

/-- Bits and words are apart as long as there is no word, or the bits end before the first
word begins. -/
theorem apart_iff (packed : table.Packed) :
    table.Apart ↔ table.words = 0 ∨ table.bits ≤ 8 * stride := by
  have bitsLength := List.countP_eq_length_filter ▸ packed.bits
  have wordsLength := List.countP_eq_length_filter ▸ packed.words
  rw [Apart, pairwise_iff_of_test (fun _ _ => List.disjoint_symm) Entry.isBit]
  constructor
  · rintro ⟨-, -, across⟩
    by_contra overlong
    rw [not_or, Nat.not_le] at overlong
    have bitInside : 8 * stride < (table.entries.filter Entry.isBit).length := by omega
    have wordInside : 0 < (table.entries.filter fun entry => !entry.isBit).length := by omega
    refine across _ (List.getElem_mem bitInside) _ (List.getElem_mem wordInside)
      (a := 8 * stride) ?_ ?_
    · rw [packed.bit _ _ (List.getElem?_eq_getElem bitInside), Address.mem_bits_bit]
    · simpa using packed.first_mem_bits (List.getElem?_eq_getElem wordInside)
  · intro fits
    refine ⟨packed.pairwise_bits, packed.pairwise_words, ?_⟩
    intro left leftAmong right rightAmong bit here there
    obtain ⟨index, leftHere⟩ := List.mem_iff_getElem?.mp leftAmong
    obtain ⟨place, rightHere⟩ := List.mem_iff_getElem?.mp rightAmong
    have inside := (List.getElem?_eq_some_iff.mp leftHere).1
    have placed := (List.getElem?_eq_some_iff.mp rightHere).1
    have bounds := packed.bounds_of_word rightHere there
    rw [packed.bit index left leftHere, Address.mem_bits_bit] at here
    rw [stride] at fits bounds
    omega

end Packed

end Table

end Tag

end Pneumatic
