import Mathlib.Data.List.Induction
import Mathlib.Data.List.Nodup

/-!
# Each element once

A list with repetitions left out keeps every element where it came first, so two elements stand
in the order in which they came first.
-/

namespace Pneumatic

variable {Element : Type} [BEq Element] [LawfulBEq Element]

theorem eraseDups_append_of_mem {before : List Element} {element : Element}
    (known : element ∈ before) : (before ++ [element]).eraseDups = before.eraseDups := by
  rw [List.eraseDups_append, List.cons_removeAll, List.contains_iff_mem.mpr known]
  simp

theorem eraseDups_append_of_not_mem {before : List Element} {element : Element}
    (unknown : element ∉ before) :
    (before ++ [element]).eraseDups = before.eraseDups ++ [element] := by
  have fresh : before.contains element = false := by simpa using unknown
  rw [List.eraseDups_append, List.cons_removeAll, fresh]
  simp [List.eraseDups_cons]

theorem nodup_eraseDups (elements : List Element) : elements.eraseDups.Nodup := by
  induction elements using List.reverseRecOn with
  | nil => exact List.nodup_nil
  | append_singleton before element ih =>
      by_cases known : element ∈ before
      · rwa [eraseDups_append_of_mem known]
      · rw [eraseDups_append_of_not_mem known, List.nodup_append]
        refine ⟨ih, List.nodup_singleton _, ?_⟩
        rintro other among _ same rfl
        obtain rfl := List.mem_singleton.mp same
        exact known (List.mem_eraseDups.mp among)

/-- An element stands behind what came before it, and in front of all that is new behind it. -/
theorem exists_eraseDups_append_cons {before : List Element} {element : Element}
    (new : element ∉ before) (after : List Element) :
    ∃ rest, (before ++ element :: after).eraseDups = before.eraseDups ++ element :: rest ∧
      ∀ other ∈ after, other ∉ before → other ≠ element → other ∈ rest := by
  have fresh : before.contains element = false := by simpa using new
  refine ⟨((after.removeAll before).filter fun other => !other == element).eraseDups, ?_, ?_⟩
  · rw [List.eraseDups_append, List.cons_removeAll, fresh]
    exact congrArg _ List.eraseDups_cons
  · intro other among unknown apart
    simp [List.removeAll, among, unknown, apart]

/-- An element stands in front of another one exactly if that one did not come before it. -/
theorem pair_sublist_eraseDups_iff {before after : List Element} {left right : Element}
    (new : left ∉ before) (apart : right ≠ left) (among : right ∈ before ++ left :: after) :
    [left, right].Sublist (before ++ left :: after).eraseDups ↔ right ∉ before := by
  obtain ⟨rest, split, kept⟩ := exists_eraseDups_append_cons new after
  have once := nodup_eraseDups (before ++ left :: after)
  rw [split] at once ⊢
  constructor
  · intro inOrder known
    have absent := (List.nodup_append.mp once).2.2 right (List.mem_eraseDups.mpr known)
    obtain ⟨front, back, pair, inFront, inBack⟩ := List.sublist_append_iff.mp inOrder
    cases front with
    | nil =>
        rw [List.nil_append] at pair
        exact absent right (inBack.subset (pair ▸ by simp)) rfl
    | cons first front =>
        obtain ⟨rfl, -⟩ := List.cons.inj pair
        exact new (List.mem_eraseDups.mp (inFront.subset (by simp)))
  · intro unknown
    have behind : right ∈ after := by
      rcases List.mem_append.mp among with known | known
      · exact absurd known unknown
      · exact (List.mem_cons.mp known).resolve_left apart
    have inRest := List.singleton_sublist.mpr (kept right behind unknown apart)
    exact (inRest.cons_cons left).trans (List.sublist_append_right _ _)

end Pneumatic
