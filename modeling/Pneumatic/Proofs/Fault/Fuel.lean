import Pneumatic.Fault.Inject

/-!
# Fuel

Fuel bounds the visits of a run and the attempts of each draw.  A run that ends with some fuel ends
with any more of it, and in the same way; so what a source does to a program does not depend on how
much is allowed.
-/

namespace Pneumatic.Fault

/-- An operation that runs out of fuel where another goes on, and otherwise does the same. -/
def Refines {α : Type} (short long : Except Failure α) : Prop :=
  short = .error .outOfFuel ∨ short = long

namespace Refines

variable {α β : Type} {short long : Except Failure α}

theorem refl (result : Except Failure α) : Refines result result :=
  .inr rfl

theorem bind {next next' : α → Except Failure β} (refines : Refines short long)
    (then' : ∀ value, Refines (next value) (next' value)) :
    Refines (short >>= next) (long >>= next') := by
  rcases refines with rfl | rfl
  · exact .inl rfl
  · cases short with
    | error failure => exact .inr rfl
    | ok value => exact then' value

theorem eq_ok (refines : Refines short long) {value : α} (succeeds : short = .ok value) :
    long = .ok value := by
  rcases refines with rfl | rfl
  · contradiction
  · exact succeeds

end Refines

variable {σ : Type} {source : Source σ} {labels : List Char} {target fuel more range index : Nat}
  {done : Damaged} {lines : List String} {tier : Tier} {state : σ}

theorem refines_below? {bits : Nat} {next : σ → Nat × σ} :
    Refines (drawn (Source.below? bits next range fuel state))
      (drawn (Source.below? bits next range (fuel + 1) state)) := by
  induction fuel generalizing state with
  | zero => exact .inl rfl
  | succ fuel ih =>
      simp only [Source.below?]
      cases Source.accept? bits range (next state).1 with
      | some value => exact .refl _
      | none => exact ih

theorem refines_swapActuator : Refines (swapActuator source fuel labels lines index state)
    (swapActuator source (fuel + 1) labels lines index state) := by
  unfold swapActuator
  split
  · exact .refl _
  · refine (Refines.refl _).bind fun found => ?_
    cases found with
    | none => exact .refl _
    | some found =>
        simp only
        split
        · exact .refl _
        · exact refines_below?.bind fun _ => .refl _

theorem refines_damage (kind : Kind) : Refines (damage source fuel kind labels lines index state)
    (damage source (fuel + 1) kind labels lines index state) := by
  cases kind with
  | truncate => exact refines_below?.bind fun _ => .refl _
  | swapActuator => exact refines_swapActuator
  | _ => exact .refl _

theorem refines_visit : Refines (visit source fuel labels done index state)
    (visit source (fuel + 1) labels done index state) := by
  unfold visit
  split
  · exact .refl _
  · refine refines_below?.bind fun outcome => ?_
    refine (Refines.refl _).bind fun kind => ?_
    exact (refines_damage kind).bind fun _ => .refl _

theorem refines_visitLines : Refines (visitLines source labels target fuel done index state)
    (visitLines source labels target (fuel + 1) done index state) := by
  induction fuel generalizing done index state with
  | zero => exact .inl rfl
  | succ fuel ih =>
      rw [visitLines, visitLines]
      split
      · exact .refl _
      · split
        · exact refines_visit.bind fun _ => ih
        · exact ih

/-- More fuel does not change what a visit that ends gives. -/
theorem visit_of_le {outcome : Damaged × σ} (le : fuel ≤ more)
    (visited : visit source fuel labels done index state = .ok outcome) :
    visit source more labels done index state = .ok outcome := by
  induction le with
  | refl => exact visited
  | step _ ih => exact refines_visit.eq_ok ih

theorem visitLines_of_le {outcome : Damaged × σ} (le : fuel ≤ more)
    (visited : visitLines source labels target fuel done index state = .ok outcome) :
    visitLines source labels target more done index state = .ok outcome := by
  induction le with
  | refl => exact visited
  | step _ ih => exact refines_visitLines.eq_ok ih

theorem inject_eq_some_iff {outcome : Damaged × σ} :
    inject source fuel lines tier labels state = some outcome ↔
      attempt source fuel lines tier labels state = .ok outcome := by
  unfold inject
  cases attempt source fuel lines tier labels state <;> simp [Except.toOption]

end Pneumatic.Fault
