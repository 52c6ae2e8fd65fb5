import Pneumatic.Proofs.Device.Held
import Pneumatic.Run.Schedule

/-!
# Holding a device for a run

What is known of a run that holds its device: its sequence was read and can be carried out,
and the device was available and is held under a name that no run had before.
-/

namespace Pneumatic

namespace Device.Registry

variable {registry held : Registry} {address : String} {now : Nat} {lease : Lease}

/-- What it takes to hold a device, and what changes. -/
theorem of_acquire (acquired : registry.acquire address now = .ok (lease, held)) :
    lease = ⟨address, registry.runs⟩ ∧
      (∃ record, registry.find? address = some record ∧ record.available = true) ∧
      held =
        { registry.update address (·.hold registry.runs now) with runs := registry.runs + 1 } := by
  rw [acquire] at acquired
  cases found : registry.find? address with
  | none => simp [found] at acquired
  | some record =>
      simp only [found] at acquired
      split at acquired
      · next available =>
          obtain ⟨rfl, rfl⟩ := Prod.mk.inj (Except.ok.inj acquired)
          exact ⟨rfl, ⟨record, rfl, available⟩, rfl⟩
      · contradiction

end Device.Registry

namespace Run

/-- What it takes to begin a run. -/
theorem of_prepare {registry held : Device.Registry} {source address : String} {now : Nat}
    {sequence : Sequence} {lease : Device.Lease}
    (prepared : prepare registry source address now = .ok (sequence, lease, held)) :
    Sequence.parse source = .ok sequence ∧ sequence.firstPressure? = none ∧
      sequence.openingRetraction? = none ∧ registry.acquire address now = .ok (lease, held) := by
  rw [prepare] at prepared
  cases parsed : Sequence.parse source with
  | error diagnostics =>
      rw [parsed] at prepared
      have failed : (Except.error (.sequence diagnostics) : Except Error _) =
          .ok (sequence, lease, held) := prepared
      contradiction
  | ok found =>
      have read : (Except.ok found : Except Diagnostics Sequence).mapError Error.sequence =
          .ok found := rfl
      simp only [parsed, read, bind, Except.bind] at prepared
      cases pressure : found.firstPressure? with
      | some token => simp [pressure, throw, throwThe, MonadExceptOf.throw] at prepared
      | none =>
          cases retraction : found.openingRetraction? with
          | some label =>
              simp [pressure, retraction, throw, throwThe, MonadExceptOf.throw] at prepared
          | none =>
              simp only [pressure, retraction] at prepared
              cases acquired : registry.acquire address now with
              | error error =>
                  rw [acquired] at prepared
                  have failed : (Except.error (.device error) : Except Error _) =
                      .ok (sequence, lease, held) := prepared
                  contradiction
              | ok result =>
                  rw [acquired] at prepared
                  have begins : (Except.ok (found, result.1, result.2) : Except Error _) =
                      .ok (sequence, lease, held) := prepared
                  obtain ⟨rfl, pairEq⟩ := Prod.mk.inj (Except.ok.inj begins)
                  obtain ⟨rfl, rfl⟩ := Prod.mk.inj pairEq
                  exact ⟨rfl, pressure, retraction, rfl⟩

namespace Schedule

variable {σ : Type} {field : Field σ} {launch : Launch} {schedule held : Schedule σ} {first : Run}

/-- A run that holds its device, as it begins. -/
structure Holds (field : Field σ) (launch : Launch) (schedule : Schedule σ) (first : Run)
    (held : Schedule σ) (sequence : Sequence) : Prop where
  parsed : Sequence.parse launch.source = .ok sequence
  noPressure : sequence.firstPressure? = none
  noRetraction : sequence.openingRetraction? = none
  available : ∃ record, (schedule.registry field).find? launch.address = some record ∧
    record.available = true
  firstEq : first = .start sequence launch.settings
    ⟨launch.address, (schedule.registry field).runs⟩ launch.timerSeed launch.repeatSeed
  heldEq : held = schedule.setRegistry field
    { (schedule.registry field).update launch.address
        (·.hold (schedule.registry field).runs schedule.clock) with
      runs := (schedule.registry field).runs + 1 }

theorem holds_of_prepare (prepared : prepare field launch schedule = .ok (first, held)) :
    ∃ sequence, Holds field launch schedule first held sequence := by
  rw [prepare] at prepared
  cases begins : Run.prepare (schedule.registry field) launch.source launch.address
      schedule.clock with
  | error error => simp [begins, bind, Except.bind] at prepared
  | ok found =>
      obtain ⟨sequence, lease, registry⟩ := found
      simp only [begins, bind, Except.bind, pure, Except.pure, Except.ok.injEq,
        Prod.mk.injEq] at prepared
      obtain ⟨rfl, rfl⟩ := prepared
      obtain ⟨parsed, noPressure, noRetraction, acquired⟩ := of_prepare begins
      obtain ⟨rfl, available, rfl⟩ := Device.Registry.of_acquire acquired
      exact ⟨sequence, parsed, noPressure, noRetraction, available, rfl, rfl⟩

namespace Holds

variable {sequence : Sequence}

theorem lease_eq (holds : Holds field launch schedule first held sequence) :
    first.lease = ⟨launch.address, (schedule.registry field).runs⟩ := by
  rw [holds.firstEq]
  rfl

theorem tasks_eq (holds : Holds field launch schedule first held sequence) :
    held.tasks = schedule.tasks := by
  rw [holds.heldEq]
  rfl

/-- The device of a run that began is held by it. -/
theorem find?_self (holds : Holds field launch schedule first held sequence)
    (lawful : ∀ registry world, field.registry (field.setRegistry registry world) = registry) :
    ∃ record : Device.Record, (held.registry field).find? launch.address =
      some (record.hold (schedule.registry field).runs schedule.clock) := by
  obtain ⟨record, found, -⟩ := holds.available
  rw [holds.heldEq, registry, setRegistry, lawful]
  exact ⟨record, Device.Registry.find?_update_self (fun _ => rfl) found⟩

/-- Other devices are as before. -/
theorem find?_of_ne (holds : Holds field launch schedule first held sequence)
    (lawful : ∀ registry world, field.registry (field.setRegistry registry world) = registry)
    {address : String} (ne : address ≠ launch.address) :
    (held.registry field).find? address = (schedule.registry field).find? address := by
  rw [holds.heldEq, registry, setRegistry, lawful]
  exact Device.Registry.find?_update_of_ne (fun _ => rfl) ne

end Holds

end Schedule

end Run

end Pneumatic
