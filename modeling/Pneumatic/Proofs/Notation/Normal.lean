import Pneumatic.Proofs.Notation.Reading
import Mathlib.Data.List.Basic

/-!
# The normal form

The normal form of a text holds no blank and no character that upper case would change,
so it is its own normal form.  Reading a text looks at nothing but its normal form, so a
text and its normal form are read alike.
-/

namespace Pneumatic

namespace Text

/-- A character that is no blank and that upper case leaves as it is. -/
def Settled (c : Char) : Prop :=
  isBlank c = false ∧ upperCase c = [c]

namespace UpperCase

/-! ## The tables -/

/-- The code points that a run covers. -/
def Run.codes (run : Run) : List Nat :=
  (List.range ((run.last - run.first) / run.stride + 1)).map (run.first + · * run.stride)

theorem Run.mem_codes {run : Run} {code : Nat} (covered : run.covers code = true) :
    code ∈ run.codes := by
  simp only [covers, Bool.and_eq_true, decide_eq_true_eq, beq_iff_eq] at covered
  obtain ⟨⟨above, below⟩, onStride⟩ := covered
  have distance := Nat.div_mul_cancel (Nat.dvd_of_mod_eq_zero onStride)
  have near : (code - run.first) / run.stride ≤ (run.last - run.first) / run.stride :=
    Nat.div_le_div_right (Nat.sub_le_sub_right below run.first)
  rw [codes, List.mem_map]
  refine ⟨(code - run.first) / run.stride, List.mem_range.mpr (Nat.lt_succ_of_le near), ?_⟩
  rw [distance]
  exact Nat.add_sub_cancel' above

/-- The blanks as runs; the images do not matter. -/
def blanks : List Run := [
  ⟨0x9, 0xD, 1, 0⟩, ⟨0x20, 0x20, 1, 0⟩, ⟨0x85, 0x85, 1, 0⟩, ⟨0xA0, 0xA0, 1, 0⟩,
  ⟨0x1680, 0x1680, 1, 0⟩, ⟨0x2000, 0x200A, 1, 0⟩, ⟨0x2028, 0x2028, 1, 0⟩,
  ⟨0x2029, 0x2029, 1, 0⟩, ⟨0x202F, 0x202F, 1, 0⟩, ⟨0x205F, 0x205F, 1, 0⟩,
  ⟨0x3000, 0x3000, 1, 0⟩]

theorem Run.covers_single (first image code : Nat) :
    covers ⟨first, first, 1, image⟩ code = (code == first) := by
  rw [Bool.eq_iff_iff]
  simp [covers, Nat.mod_one, Nat.le_antisymm_iff, and_comm]

theorem Run.covers_dense (first last image code : Nat) :
    covers ⟨first, last, 1, image⟩ code = (first ≤ code && code ≤ last) := by
  simp [covers, Nat.mod_one]

theorem any_blanks (c : Char) : blanks.any (·.covers c.toNat) = isBlank c := by
  simp only [blanks, isBlank, List.any_cons, List.any_nil, Run.covers_single, Run.covers_dense,
    Bool.or_false, Bool.or_assoc]

/-- The code points that no normal form holds: the blanks, and all that have a mapping. -/
def unsettled : List Nat :=
  blanks.flatMap Run.codes ++ (expansions.map (·.1) ++ runs.flatMap Run.codes)

/-- The code points that the mappings give. -/
def images : List Nat :=
  expansions.flatMap (·.2) ++ runs.flatMap fun run => run.codes.map run.imageOf

/-- Code points as the bits of a number. -/
def bits (codes : List Nat) : Nat :=
  codes.foldr (fun code others => 1 <<< code ||| others) 0

theorem testBit_bits (codes : List Nat) (code : Nat) :
    (bits codes).testBit code = decide (code ∈ codes) := by
  induction codes with
  | nil => simp [bits]
  | cons head rest ih =>
      rw [bits, List.foldr_cons, Nat.testBit_or, ← bits, ih]
      simp [Nat.one_shiftLeft, Nat.testBit_two_pow, eq_comm]

/-- No mapping gives a blank or a code point that has a mapping itself.  The two sets are
compared as numbers, all code points at once. -/
theorem bits_images_and_unsettled : bits images &&& bits unsettled = 0 := by
  decide +kernel

theorem not_mem_unsettled {code : Nat} (image : code ∈ images) : code ∉ unsettled := by
  intro changes
  have both : (bits images &&& bits unsettled).testBit code = true := by
    rw [Nat.testBit_and, testBit_bits, testBit_bits, decide_eq_true image,
      decide_eq_true changes, Bool.and_self]
  rw [bits_images_and_unsettled, Nat.zero_testBit] at both
  contradiction

end UpperCase

open UpperCase

/-! ## Characters -/

theorem settled_of_not_mem {c : Char} (clear : c.toNat ∉ unsettled) : Settled c := by
  rw [unsettled, List.mem_append, List.mem_append, not_or, not_or] at clear
  obtain ⟨solid, single, outside⟩ := clear
  constructor
  · rw [← any_blanks, List.any_eq_false]
    intro run among covered
    exact solid (List.mem_flatMap.mpr ⟨run, among, Run.mem_codes covered⟩)
  · have noExpansion : expansions.lookup c.toNat = none := by
      rw [List.lookup_eq_none_iff]
      intro entry among
      rw [bne_iff_ne]
      intro same
      exact single (List.mem_map.mpr ⟨entry, among, same.symm⟩)
    have noRun : runs.find? (·.covers c.toNat) = none := by
      rw [List.find?_eq_none]
      intro run among covered
      exact outside (List.mem_flatMap.mpr ⟨run, among, Run.mem_codes covered⟩)
    rw [upperCase, noExpansion, noRun]

/-- A code point that is no character stands for the null character, which is settled. -/
theorem settled_ofNat {code : Nat} (clear : code ∉ unsettled) : Settled (Char.ofNat code) := by
  by_cases valid : code.isValidChar
  · apply settled_of_not_mem
    rw [Char.ofNat, dif_pos valid]
    exact clear
  · have null : Char.ofNat code = Char.ofNat 0 := by
      rw [Char.ofNat, dif_neg valid]
      rfl
    rw [null]
    exact ⟨rfl, by decide +kernel⟩

/-- What a character that is no blank becomes in upper case is settled. -/
theorem settled_of_mem_upperCase {c image : Char} (solid : isBlank c = false)
    (becomes : image ∈ upperCase c) : Settled image := by
  unfold upperCase at becomes
  split at becomes
  · next codes found =>
      obtain ⟨code, among, rfl⟩ := List.mem_map.mp becomes
      obtain ⟨before, behind, tableEq, -⟩ := List.lookup_eq_some_iff.mp found
      refine settled_ofNat (not_mem_unsettled (List.mem_append_left _ ?_))
      rw [List.mem_flatMap]
      exact ⟨(c.toNat, codes), tableEq ▸ List.mem_append_right before List.mem_cons_self, among⟩
  · next noExpansion =>
      split at becomes
      · next run found =>
          obtain rfl := List.mem_singleton.mp becomes
          have covered : run.covers c.toNat = true := by simpa using List.find?_some found
          refine settled_ofNat (not_mem_unsettled (List.mem_append_right _ ?_))
          rw [List.mem_flatMap]
          exact ⟨run, List.mem_of_find?_eq_some found, List.mem_map_of_mem (Run.mem_codes covered)⟩
      · next noRun =>
          obtain rfl := List.mem_singleton.mp becomes
          refine ⟨solid, ?_⟩
          rw [upperCase, noExpansion, noRun]

end Text

/-! ## Texts -/

namespace Fragment

theorem settled_of_mem_normalize {source : String} {c : Char}
    (among : c ∈ (normalize source).toList) : Text.Settled c := by
  rw [normalize, String.toList_ofList, List.mem_flatMap] at among
  obtain ⟨origin, kept, becomes⟩ := among
  have solid := (List.mem_filter.mp kept).2
  rw [Bool.not_eq_true'] at solid
  exact Text.settled_of_mem_upperCase solid becomes

theorem normalize_of_settled {text : List Char} (settled : ∀ c ∈ text, Text.Settled c) :
    normalize (String.ofList text) = String.ofList text := by
  have kept : text.filter (fun c => !Text.isBlank c) = text := by
    rw [List.filter_eq_self]
    intro c among
    rw [(settled c among).1]
    rfl
  have same : text.flatMap Text.upperCase = text := by
    rw [List.flatMap_congr fun c among => (settled c among).2]
    exact List.flatMap_singleton' text
  rw [normalize, String.toList_ofList, kept, same]

theorem normalize_append (left right : String) :
    normalize (left ++ right) = normalize left ++ normalize right := by
  rw [← String.toList_inj]
  simp [normalize]

theorem normalize_openChar (kind : Bracket) :
    normalize (String.singleton kind.openChar) = String.singleton kind.openChar := by
  cases kind <;> decide +kernel

theorem normalize_closeChar (kind : Bracket) :
    normalize (String.singleton kind.closeChar) = String.singleton kind.closeChar := by
  cases kind <;> decide +kernel

/-- A normal form is its own normal form. -/
theorem normalize_normalize (source : String) :
    normalize (normalize source) = normalize source := by
  have settled : ∀ c ∈ (normalize source).toList, Text.Settled c :=
    fun _ among => settled_of_mem_normalize among
  have same := normalize_of_settled settled
  rwa [String.ofList_toList] at same

end Fragment

namespace Sequence

variable {source other : String} {sequence : Sequence}

/-- Texts with one normal form are read alike. -/
theorem parse_eq_of_normalize_eq (same : Fragment.normalize source = Fragment.normalize other) :
    parse source = parse other := by
  unfold parse
  rw [same]

/-- A sequence keeps the normal form of what it was read from. -/
theorem source_of_parse (parsed : parse source = .ok sequence) :
    sequence.source = Fragment.normalize source := by
  obtain ⟨-, -, nodes, -, rfl⟩ := parse_eq_ok_iff.mp parsed
  rfl

/-- A normal form is its own normal form.  It is read as the text is, with the same sequence
or the same diagnostics, and a sequence that was read is read again from what it keeps of its
text. -/
theorem reads_alike_in_normal_form (source : String) :
    Fragment.normalize (Fragment.normalize source) = Fragment.normalize source ∧
    parse (Fragment.normalize source) = parse source ∧
    validate (Fragment.normalize source) = validate source ∧
    ∀ sequence, parse source = .ok sequence → parse sequence.source = .ok sequence := by
  have same := Fragment.normalize_normalize source
  have alike : parse (Fragment.normalize source) = parse source := parse_eq_of_normalize_eq same
  refine ⟨same, alike, ?_, ?_⟩
  · rw [validate, validate, alike]
  · intro sequence parsed
    rw [source_of_parse parsed, alike]
    exact parsed

/-- A long s, a blank that is not ASCII and a ligature: the label becomes `S`, the blank goes,
and the ligature becomes two letters, which are the diagnostics for the text and for its normal
form. -/
theorem reads_alike_in_normal_form_letters :
    (∃ sequence, parse "ſ+,\u00A02ſ" = .ok sequence ∧ sequence.source = "S+,2S" ∧
      parse sequence.source = .ok sequence) ∧
    validate "ﬁ" = ["FI"] ∧ validate (Fragment.normalize "ﬁ") = validate "ﬁ" := by
  have reads : (parse "ſ+,\u00A02ſ").toOption.any (·.source == "S+,2S") = true := by
    decide +kernel
  refine ⟨?_, by decide +kernel, (reads_alike_in_normal_form "ﬁ").2.2.1⟩
  obtain ⟨sequence, parsed, reads⟩ := any_toOption_iff.mp reads
  obtain ⟨-, -, -, again⟩ := reads_alike_in_normal_form "ſ+,\u00A02ſ"
  exact ⟨sequence, parsed, beq_iff_eq.mp reads, again sequence parsed⟩

end Sequence

end Pneumatic
