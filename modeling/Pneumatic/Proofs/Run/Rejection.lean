import Pneumatic.Proofs.Run.Release

/-!
# Rejected runs

An error of a kind that rejects a run leaves everything untouched, with one exception: a timer
that cannot be resolved is found only when its step comes, on a device that is held and in a
session that is open.
-/

namespace Pneumatic.Run.Schedule

variable {σ : Type} {field : Field σ} {launch : Launch} {schedule ended : Schedule σ}
  {error : Error}

/-- The errors of a kind that rejects a run and may end one under way. -/
theorem of_isRejection_of_arises {sequence : Sequence} {log : List Event}
    (noPressure : sequence.firstPressure? = none) (rejects : error.isRejection = true)
    (arises : error.Arises sequence log) :
    ∃ delay value, error = .unsupported (.longDelay delay (Int16.toInt value)) ∧
      .timer delay ∈ sequence.tokens ∧ delay.resolve value.toInt = none ∧
      .asked (.read Tag.timerVariable) (.ok (.int value)) ∈ log := by
  cases error with
  | unsupported what =>
      cases what with
      | longDelay delay seconds =>
          obtain ⟨member, tooLong, value, rfl, read⟩ := arises
          exact ⟨delay, value, rfl, member, tooLong, read⟩
      | pressure token =>
          obtain ⟨member, isPressure⟩ := arises
          exact absurd isPressure (List.find?_eq_none.mp noPressure token member)
      | openingRetraction label => contradiction
  | sequence diagnostics => contradiction
  | device error => contradiction
  | field error => contradiction
  | sensorTimeout tag waited => contradiction
  | settings error => contradiction

/-- An error of a kind that rejects a run comes before anything was asked of the field or
changed in the world; or the timer variable made a timer of the sequence too long, and the
run had opened its session, which it closed. -/
theorem untouched_of_isRejection
    (named : ∀ task ∈ schedule.tasks, task.run.lease.run < (schedule.registry field).runs)
    (ran : Schedule.run field launch schedule = (some (.error error), ended))
    (rejects : error.isRejection = true) :
    (ended = schedule ∧ Schedule.run field.recorded launch (schedule.withRecord []) =
        (some (.error error), schedule.withRecord [])) ∨
      ∃ delay value first held record,
        error = .unsupported (.longDelay delay (Int16.toInt value)) ∧
        prepare field launch schedule = .ok (first, held) ∧
        .timer delay ∈ first.sequence.tokens ∧ delay.resolve value.toInt = none ∧
        Schedule.run field.recorded launch (schedule.withRecord []) =
          (some (.error error), ended.withRecord record) ∧
        .asked (.read Tag.timerVariable) (.ok (.int value)) ∈ record.of first.lease ∧
        ∃ reply reply', marks (record.of first.lease) =
          [.connected, .opened, .asked .closeSession reply, .asked .disconnect reply'] := by
  cases prepared : prepare field launch schedule with
  | error refusal =>
      left
      rw [run_of_error prepared, Prod.mk.injEq, Option.some.injEq, Except.error.injEq] at ran
      obtain ⟨rfl, rfl⟩ := ran
      refine ⟨rfl, run_of_error ?_⟩
      rw [prepare_withRecord, prepared]
      rfl
  | ok held =>
      right
      obtain ⟨first, held⟩ := held
      obtain ⟨sequence, holds⟩ := holds_of_prepare prepared
      obtain ⟨record, ranRecorded, ended'⟩ := exists_record_of_run named prepared ran
      have sequenceEq : first.sequence = sequence := by
        rw [holds.firstEq]
        rfl
      cases ended' with
      | refused _ => exact absurd rejects Bool.false_ne_true
      | unopened _ => exact absurd rejects Bool.false_ne_true
      | closed reply reply' marksEq arises =>
          obtain ⟨delay, value, rfl, member, tooLong, read⟩ :=
            of_isRejection_of_arises (sequenceEq ▸ holds.noPressure) rejects (arises error rfl)
          exact ⟨delay, value, first, held, record, rfl, rfl, member, tooLong, ranRecorded, read,
            reply, reply', marksEq⟩

/-- A sequence that begins by retracting an actuator is rejected before anything happens. -/
theorem untouched_of_isRejection_retraction :
    ∃ plant error ended,
      Schedule.run Plant.field ⟨"A-", "plc", .default, 1, 1⟩ ⟨plant, 0, []⟩ =
        (some (.error error), ended) ∧
      error.isRejection = true ∧ ended = ⟨plant, 0, []⟩ := by
  let plant : Plant := .single "plc" 4840 (.withActuators 0 ['A'])
  let launch : Launch := ⟨"A-", "plc", .default, 1, 1⟩
  have refuses : (prepare Plant.field launch ⟨plant, 0, []⟩).map (fun _ => ()) =
      .error (.unsupported (.openingRetraction 'A')) := by
    decide +kernel
  cases prepared : prepare Plant.field launch ⟨plant, 0, []⟩ with
  | ok held => simp [prepared, Except.map] at refuses
  | error error =>
      rw [prepared] at refuses
      obtain rfl := Except.error.inj refuses
      have ran := run_of_error prepared
      rcases untouched_of_isRejection (by simp) ran rfl with ⟨same, -⟩ |
        ⟨delay, value, first, held, record, errorEq, -⟩
      · exact ⟨plant, _, _, ran, rfl, same⟩
      · simp at errorEq

/-- A timer that is too long with the timer variable ends a run with an error of a kind that
rejects it, although the device was held, the variables written and an actuator moved. -/
theorem touched_of_long_delay :
    ∃ plant ended error,
      Schedule.run Plant.field ⟨"A+,T+18446744073709551615S,A-", "plc", .default, 1, 1⟩
        ⟨plant, 0, []⟩ = (some (.error error), ended) ∧
      error.isRejection = true ∧ ended.registry Plant.field ≠ plant.registry ∧
      (ended.world.controller? (Field.endpoint "plc" 4840)).map (·.log) =
        some [[⟨Tag.timerVariable, .int 1⟩, ⟨Tag.repeatVariable, .int 1⟩],
          command ⟨'A', .retract⟩, command ⟨'A', .extend⟩] := by
  let plant : Plant := .single "plc" 4840 (.withActuators 0 ['A'])
  let launch : Launch := ⟨"A+,T+18446744073709551615S,A-", "plc", .default, 1, 1⟩
  have ends : ((prepare Plant.field launch ⟨plant, 0, []⟩).toOption.any fun held =>
      let last := (Solo.step Plant.field)^[20] ⟨held.2.world, held.2.clock, held.1⟩
      last.result? == some (.error (.unsupported
          (.longDelay (.relative (Duration.ofSeconds? 18_446_744_073_709_551_615)) 1))) &&
        decide ((last.schedule Plant.field).registry Plant.field ≠ plant.registry) &&
        ((last.schedule Plant.field).world.controller? (Field.endpoint "plc" 4840)).map (·.log) ==
          some [[⟨Tag.timerVariable, .int 1⟩, ⟨Tag.repeatVariable, .int 1⟩],
            command ⟨'A', .retract⟩, command ⟨'A', .extend⟩]) = true := by
    decide +kernel
  obtain ⟨⟨first, held⟩, prepared, ends⟩ := any_toOption_iff.mp ends
  simp only [Bool.and_eq_true, beq_iff_eq, decide_eq_true_eq] at ends
  obtain ⟨⟨halts, changed⟩, written⟩ := ends
  obtain ⟨sequence, holds⟩ := holds_of_prepare prepared
  exact ⟨plant, _, _, run_of_result? holds.tasks_eq prepared halts, rfl, changed, written⟩

end Pneumatic.Run.Schedule
