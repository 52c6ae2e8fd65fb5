import Pneumatic.Text.Search
import Mathlib.Data.List.Basic
import Mathlib.Data.List.Infix

/-!
# Where a pattern is found

A text is split at the first or the last place where a pattern occurs, and is not split exactly if
the pattern does not occur in it.  A replacement takes the occurrences from the left, each behind
the one before it, and keeps every other character.
-/

namespace Pneumatic.Text

variable {pattern text before after : List Char}

theorem dropLead?_eq_none_iff {lead : List Char} :
    dropLead? lead text = none ↔ ¬ lead <+: text := by
  rw [Option.eq_none_iff_forall_not_mem]
  constructor
  · rintro never ⟨after, textEq⟩
    exact never after (dropLead?_eq_some_iff.mpr textEq.symm)
  · intro other after dropped
    exact other ⟨after, (dropLead?_eq_some_iff.mp dropped).symm⟩

/-! ## The first occurrence -/

/-- A text with a pattern between two parts, at the first place where it occurs. -/
structure FirstAt (pattern text before after : List Char) : Prop where
  parts : text = before ++ (pattern ++ after)
  first : ∀ front back, text = front ++ (pattern ++ back) → before.length ≤ front.length

/-- A text that is split at a pattern has the pattern between its parts. -/
theorem eq_of_splitFirst? (found : splitFirst? pattern text = some (before, after)) :
    text = before ++ (pattern ++ after) := by
  induction text generalizing before with
  | nil =>
      obtain ⟨rest, dropped, equal⟩ := Option.map_eq_some_iff.mp found
      obtain ⟨rfl, rfl⟩ := Prod.mk.inj equal
      have textEq := dropLead?_eq_some_iff.mp dropped
      exact textEq
  | cons c rest ih =>
      rw [splitFirst?] at found
      split at found
      · next dropped =>
          obtain ⟨rfl, rfl⟩ := Prod.mk.inj (Option.some.inj found)
          have textEq := dropLead?_eq_some_iff.mp dropped
          exact textEq
      · obtain ⟨⟨front, behind⟩, later, equal⟩ := Option.map_eq_some_iff.mp found
        obtain ⟨rfl, rfl⟩ := Prod.mk.inj equal
        rw [ih later]
        rfl

/-- No occurrence is in front of the one at which a text is split. -/
theorem length_le_of_splitFirst? (found : splitFirst? pattern text = some (before, after))
    {front back : List Char} (textEq : text = front ++ (pattern ++ back)) :
    before.length ≤ front.length := by
  induction text generalizing before after front with
  | nil =>
      obtain ⟨rest, -, equal⟩ := Option.map_eq_some_iff.mp found
      obtain ⟨rfl, -⟩ := Prod.mk.inj equal
      exact Nat.zero_le _
  | cons c rest ih =>
      rw [splitFirst?] at found
      split at found
      · obtain ⟨rfl, -⟩ := Prod.mk.inj (Option.some.inj found)
        exact Nat.zero_le _
      · next other =>
          obtain ⟨⟨before', after'⟩, later, equal⟩ := Option.map_eq_some_iff.mp found
          obtain ⟨rfl, -⟩ := Prod.mk.inj equal
          cases front with
          | nil => exact absurd ⟨back, textEq.symm⟩ (dropLead?_eq_none_iff.mp other)
          | cons d front => exact Nat.succ_le_succ (ih later (List.cons.inj textEq).2)

theorem splitFirst?_eq_none_iff : splitFirst? pattern text = none ↔ ¬ pattern <:+: text := by
  induction text with
  | nil =>
      rw [splitFirst?, Option.map_eq_none_iff, dropLead?_eq_none_iff, List.infix_nil,
        List.prefix_nil]
  | cons c rest ih =>
      rw [splitFirst?, List.infix_cons_iff, not_or, ← ih, ← dropLead?_eq_none_iff]
      cases dropLead? pattern (c :: rest) <;> simp

theorem occursIn_iff : occursIn pattern text = true ↔ pattern <:+: text := by
  rw [occursIn, ← Option.ne_none_iff_isSome, ne_eq, splitFirst?_eq_none_iff, not_not]

theorem occursIn_cons (pattern : List Char) (c : Char) (rest : List Char) :
    occursIn pattern (c :: rest) =
      ((dropLead? pattern (c :: rest)).isSome || occursIn pattern rest) := by
  rw [occursIn, splitFirst?]
  cases dropLead? pattern (c :: rest) with
  | none => simp [occursIn]
  | some after => rfl

/-- A text is split at the occurrence that no other one is in front of. -/
theorem splitFirst?_eq_some_iff :
    splitFirst? pattern text = some (before, after) ↔ FirstAt pattern text before after := by
  refine ⟨fun found => ⟨eq_of_splitFirst? found, fun front back =>
    length_le_of_splitFirst? found⟩, fun ⟨textEq, first⟩ => ?_⟩
  cases found : splitFirst? pattern text with
  | none => exact absurd ⟨before, after, by simp [textEq]⟩ (splitFirst?_eq_none_iff.mp found)
  | some parts =>
      obtain ⟨front, back⟩ := parts
      have textEq' := eq_of_splitFirst? found
      have sameLength : before.length = front.length :=
        Nat.le_antisymm (first front back textEq') (length_le_of_splitFirst? found textEq)
      obtain ⟨rfl, behind⟩ := List.append_inj (textEq.symm.trans textEq') sameLength
      rw [List.append_cancel_left behind]

theorem FirstAt.unique {before' after' : List Char} (first : FirstAt pattern text before after)
    (first' : FirstAt pattern text before' after') : before = before' ∧ after = after' :=
  Prod.mk.inj (Option.some.inj ((splitFirst?_eq_some_iff.mpr first).symm.trans
    (splitFirst?_eq_some_iff.mpr first')))

/-! ## The last occurrence -/

/-- A text with a pattern between two parts, at the last place where it occurs. -/
structure LastAt (pattern text before after : List Char) : Prop where
  parts : text = before ++ (pattern ++ after)
  last : ∀ front back, text = front ++ (pattern ++ back) → front.length ≤ before.length

theorem eq_of_splitLast? (found : splitLast? pattern text = some (before, after)) :
    text = before ++ (pattern ++ after) := by
  obtain ⟨⟨behind, front⟩, turned, equal⟩ := Option.map_eq_some_iff.mp found
  obtain ⟨rfl, rfl⟩ := Prod.mk.inj equal
  have textEq := congrArg List.reverse (eq_of_splitFirst? turned)
  simpa using textEq

/-- No occurrence is behind the one at which a text is split from the right. -/
theorem length_le_of_splitLast? (found : splitLast? pattern text = some (before, after))
    {front back : List Char} (textEq : text = front ++ (pattern ++ back)) :
    front.length ≤ before.length := by
  have wholeEq := congrArg List.length (textEq.symm.trans (eq_of_splitLast? found))
  obtain ⟨⟨behind, before'⟩, turned, equal⟩ := Option.map_eq_some_iff.mp found
  obtain ⟨rfl, rfl⟩ := Prod.mk.inj equal
  have turnedEq : text.reverse = back.reverse ++ (pattern.reverse ++ front.reverse) := by
    simp [textEq]
  have shorter := length_le_of_splitFirst? turned turnedEq
  simp only [List.length_append, List.length_reverse] at wholeEq shorter ⊢
  omega

theorem splitLast?_eq_none_iff : splitLast? pattern text = none ↔ ¬ pattern <:+: text := by
  rw [splitLast?, Option.map_eq_none_iff, splitFirst?_eq_none_iff, List.reverse_infix]

/-- A text is split from the right at the occurrence that no other one is behind. -/
theorem splitLast?_eq_some_iff :
    splitLast? pattern text = some (before, after) ↔ LastAt pattern text before after := by
  refine ⟨fun found => ⟨eq_of_splitLast? found, fun front back =>
    length_le_of_splitLast? found⟩, fun ⟨textEq, last⟩ => ?_⟩
  cases found : splitLast? pattern text with
  | none => exact absurd ⟨before, after, by simp [textEq]⟩ (splitLast?_eq_none_iff.mp found)
  | some parts =>
      obtain ⟨front, back⟩ := parts
      have textEq' := eq_of_splitLast? found
      have sameLength : before.length = front.length :=
        Nat.le_antisymm (length_le_of_splitLast? found textEq) (last front back textEq')
      obtain ⟨rfl, behind⟩ := List.append_inj (textEq.symm.trans textEq') sameLength
      rw [List.append_cancel_left behind]

theorem LastAt.unique {before' after' : List Char} (last : LastAt pattern text before after)
    (last' : LastAt pattern text before' after') : before = before' ∧ after = after' :=
  Prod.mk.inj (Option.some.inj ((splitLast?_eq_some_iff.mpr last).symm.trans
    (splitLast?_eq_some_iff.mpr last')))

/-! ## Replacement -/

/-- Two texts that differ in the occurrences of a pattern, taken from the left. -/
inductive Replaces (pattern replacement : List Char) : List Char → List Char → Prop where
  | nil : Replaces pattern replacement [] []
  | keep {c : Char} {rest rest' : List Char} : ¬ pattern <+: c :: rest →
      Replaces pattern replacement rest rest' →
      Replaces pattern replacement (c :: rest) (c :: rest')
  | put {rest rest' : List Char} : Replaces pattern replacement rest rest' →
      Replaces pattern replacement (pattern ++ rest) (replacement ++ rest')

theorem replaces_replaceFrom (nonempty : pattern ≠ []) (replacement text : List Char) : ∀ skip,
    Replaces pattern replacement (text.drop skip) (replaceFrom pattern replacement skip text) := by
  induction text with
  | nil =>
      intro skip
      rw [List.drop_nil]
      exact .nil
  | cons c rest ih =>
      intro skip
      cases skip with
      | succ skip => exact ih skip
      | zero =>
          rw [replaceFrom]
          split
          · next after dropped =>
              have textEq := dropLead?_eq_some_iff.mp dropped
              obtain ⟨lead, pattern, rfl⟩ := List.exists_cons_of_ne_nil nonempty
              obtain ⟨rfl, restEq⟩ := List.cons.inj textEq
              have behind := ih pattern.length
              have afterEq : rest.drop pattern.length = after := by
                rw [restEq, List.append_eq, List.drop_left]
              rw [afterEq] at behind
              rw [List.drop_zero, textEq]
              exact .put behind
          · next other => exact .keep (dropLead?_eq_none_iff.mp other) (ih 0)

theorem replaces_replaceAll (nonempty : pattern ≠ []) (replacement text : List Char) :
    Replaces pattern replacement text (replaceAll pattern replacement text) :=
  replaces_replaceFrom nonempty replacement text 0

end Pneumatic.Text
