import Pneumatic.Proofs.Run.Visits

/-!
# Walks that are alike

Two walks that settled and counted the same go on in the same way, whatever they wrote and
however often they passed the sequence.
-/

namespace Pneumatic.Run

/-- Two walks settled and counted the same; what was written and how often the sequence was
passed does not matter. -/
def Walk.Like (walk walk' : Walk) : Prop :=
  walk.bounds = walk'.bounds ∧ walk.completed = walk'.completed

/-- Two ways to go on are alike. -/
inductive Walk.Leave.Like : Walk.Leave → Walk.Leave → Prop where
  | ask {walk walk' : Walk} (region : Nat) (rest : List Nat) :
      walk.Like walk' → Like (.ask walk region rest) (.ask walk' region rest)
  | go {walk walk' : Walk} (next : Option Nat) :
      walk.Like walk' → Like (.go walk next) (.go walk' next)

variable {sequence : Sequence} {choice : Region → Int16} {walk walk' : Walk} {index : Nat}

theorem Walk.Like.settle (like : walk.Like walk') (region : Nat) (passes : Option Nat) :
    (walk.settle region passes).Like (walk'.settle region passes) :=
  ⟨by rw [Walk.settle, Walk.settle, like.1], like.2⟩

theorem Walk.Like.count (like : walk.Like walk') (region : Nat) :
    (walk.count region).Like (walk'.count region) :=
  ⟨like.1, by rw [Walk.count, Walk.count, like.2]⟩

theorem Walk.Like.reset (like : walk.Like walk') (region : Nat) :
    (walk.reset region).Like (walk'.reset region) :=
  ⟨like.1, by rw [Walk.reset, Walk.reset, like.2]⟩

theorem Walk.Like.leave (like : walk.Like walk') (regions : List Nat) :
    (walk.leave sequence index regions).Like (walk'.leave sequence index regions) := by
  induction regions generalizing walk walk' with
  | nil =>
      rw [Walk.leave, Walk.leave, Walk.beyond, Walk.beyond]
      split
      · exact .go _ like
      · split
        · exact .go _ like
        · exact .go _ like
  | cons region rest ih =>
      have passes :
          walk.passes? sequence.regions region = walk'.passes? sequence.regions region := by
        rw [Walk.passes?, Walk.passes?, like.1]
      rw [Walk.leave, Walk.leave, passes]
      cases walk'.passes? sequence.regions region with
      | none => exact .ask region rest like
      | some bound =>
          cases bound with
          | none => exact .go _ (like.settle region none)
          | some total =>
              have counted := (like.settle region (some total)).count region
              simp only [counted.2]
              split
              · exact .go _ counted
              · exact ih (counted.reset region)

/-- What is alike is answered alike. -/
theorem Walk.Answered.like {leave leave' : Walk.Leave} {reads : List Region} {after : Walk}
    {next : Option Nat} (answered : Walk.Answered sequence choice index leave reads after next)
    (like : leave.Like leave') :
    ∃ after', after.Like after' ∧
      Walk.Answered sequence choice index leave' reads after' next := by
  induction answered generalizing leave' with
  | go =>
      cases like with
      | go next like => exact ⟨_, like, .go⟩
  | ask here _ ih =>
      cases like with
      | ask region rest like =>
          obtain ⟨after', likeAfter, answered'⟩ := ih ((like.settle _ _).leave _)
          exact ⟨after', likeAfter, .ask here answered'⟩

/-- A region that asks is a region of the sequence. -/
theorem Walk.exists_of_leave_ask {regions : List Nat} {region : Nat} {rest : List Nat}
    {asking : Walk} (asks : walk.leave sequence index regions = .ask asking region rest) :
    ∃ found, sequence.regions[region]? = some found := by
  induction regions generalizing walk with
  | nil =>
      rw [Walk.leave, Walk.beyond] at asks
      split at asks
      · contradiction
      · split at asks <;> contradiction
  | cons first others ih =>
      rw [Walk.leave] at asks
      split at asks
      · next unknown =>
          cases here : sequence.regions[first]? with
          | none =>
              rw [Walk.passes?, here] at unknown
              split at unknown <;> contradiction
          | some found =>
              injection asks with _ regionEq
              exact ⟨found, regionEq ▸ here⟩
      · contradiction
      · simp only at asks
        split at asks
        · contradiction
        · exact ih asks

end Pneumatic.Run
