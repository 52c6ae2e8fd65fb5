import Pneumatic.Proofs.Run.Company

/-!
# The record of a field

Every field can keep a record of what it was asked, by which run, and what it answered.
Nothing else changes: a schedule runs as it does without the record.
-/

namespace Pneumatic.Run

variable {σ : Type}

/-- What a field was asked and answered, with the lease of the run that asked. -/
abbrev Record := List (Device.Lease × Event)

/-- The field with a record. -/
def Field.recorded (field : Field σ) : Field (σ × Record) where
  registry world := field.registry world.1
  setRegistry registry world := (field.setRegistry registry world.1, world.2)
  perform request lease endpoint now world :=
    let (reply, after) := field.perform request lease endpoint now world.1
    (reply, after, world.2 ++ [(lease, .asked request reply)])

/-- A schedule with a record of its field. -/
def Schedule.withRecord (schedule : Schedule σ) (record : Record) : Schedule (σ × Record) :=
  ⟨(schedule.world, record), schedule.clock, schedule.tasks⟩

variable (field : Field σ)

theorem Task.go_recorded (now fuel : Nat) (world : σ) (record : Record) (run : Run) :
    ∃ record', Task.go field.recorded now fuel (world, record) run =
      (((Task.go field now fuel world run).1, record'), (Task.go field now fuel world run).2) := by
  induction fuel generalizing world record run with
  | zero => exact ⟨record, rfl⟩
  | succ fuel ih =>
      cases move : run.move with
      | ask request resume =>
          simp only [Task.go, move]
          exact ih _ _ _
      | sleep span resume =>
          simp only [Task.go, move]
          exact ⟨record, rfl⟩
      | yield resume =>
          simp only [Task.go, move]
          exact ⟨record, rfl⟩
      | halt result =>
          simp only [Task.go, move]
          exact ⟨record, rfl⟩

theorem Task.turn_recorded (now : Nat) (world : σ) (record : Record) (task : Task) :
    ∃ record', task.turn field.recorded now (world, record) =
      (((task.turn field now world).1, record'), (task.turn field now world).2) := by
  by_cases ready : task.isReady field now world = true
  · have ready' : task.isReady field.recorded now (world, record) = true := ready
    rw [Task.turn, Task.turn, if_pos ready, if_pos ready']
    exact Task.go_recorded field now _ world record _
  · have waits : ¬ task.isReady field.recorded now (world, record) = true := ready
    rw [Task.turn, Task.turn, if_neg ready, if_neg waits]
    exact ⟨record, rfl⟩

namespace Schedule

theorem serve_recorded (clock : Nat) (state : σ × List Task × List Task) (record : Record)
    (task : Task) :
    ∃ record', serve field.recorded clock ((state.1, record), state.2) task =
      (((serve field clock state task).1, record'), (serve field clock state task).2) := by
  by_cases ready : task.isReady field clock state.1 = true
  · have ready' : task.isReady field.recorded clock (state.1, record) = true := ready
    obtain ⟨record', turnEq⟩ := Task.turn_recorded field clock state.1 record task
    rw [serve, serve, if_pos ready, if_pos ready', turnEq]
    exact ⟨record', rfl⟩
  · have waits : ¬ task.isReady field.recorded clock (state.1, record) = true := ready
    rw [serve, serve, if_neg ready, if_neg waits]
    exact ⟨record, rfl⟩

theorem foldl_serve_recorded (clock : Nat) (tasks : List Task)
    (state : σ × List Task × List Task) (record : Record) :
    ∃ record', tasks.foldl (serve field.recorded clock) ((state.1, record), state.2) =
      (((tasks.foldl (serve field clock) state).1, record'),
        (tasks.foldl (serve field clock) state).2) := by
  induction tasks generalizing state record with
  | nil => exact ⟨record, rfl⟩
  | cons task rest ih =>
      obtain ⟨record', serveEq⟩ := serve_recorded field clock state record task
      rw [List.foldl_cons, List.foldl_cons, serveEq]
      exact ih _ record'

theorem round_withRecord (schedule : Schedule σ) (record : Record) :
    ∃ record', (schedule.withRecord record).round field.recorded =
      (schedule.round field).withRecord record' := by
  obtain ⟨record', foldEq⟩ := foldl_serve_recorded field schedule.clock schedule.tasks
    (schedule.world, [], []) record
  refine ⟨record', ?_⟩
  rw [round_eq, round_eq, served, served]
  simp only [withRecord, foldEq]

variable {field}

/-- A run to the end comes to the same end with a record. -/
theorem runToEnd_withRecord {schedule ended : Schedule σ} {task task' : Task}
    (ran : runToEnd field schedule task = some (ended, task')) (record : Record) :
    ∃ record', runToEnd field.recorded (schedule.withRecord record) task =
      some (ended.withRecord record', task') := by
  refine runToEnd.partial_correctness field
    (fun schedule task ended => ∀ record, ∃ record',
      runToEnd field.recorded (schedule.withRecord record) task =
        some (ended.1.withRecord record', ended.2))
    ?_ schedule task _ ran record
  intro recur ih schedule task ended ran record
  obtain ⟨turned, turnEq⟩ :=
    Task.turn_recorded field schedule.clock schedule.world record task
  rw [runToEnd, withRecord]
  simp only [turnEq]
  simp only at ran
  split at ran
  · next finished =>
      rw [if_pos finished]
      obtain rfl := Option.some.inj ran
      exact ⟨turned, rfl⟩
  · next unfinished =>
      rw [if_neg unfinished]
      split at ran
      · next ready =>
          obtain ⟨rounded, roundEq⟩ := round_withRecord field
            { schedule with world := (task.turn field schedule.clock schedule.world).1 } turned
          obtain ⟨record', endEq⟩ := ih _ _ _ ran rounded
          refine ⟨record', ?_⟩
          rw [← endEq, ← roundEq]
          exact if_pos ready
      · next idle =>
          split at ran
          · next ready =>
              obtain ⟨record', endEq⟩ := ih _ _ _ ran turned
              exact ⟨record', (if_neg idle).trans ((if_pos ready).trans endEq)⟩
          · next asleep =>
              split at ran
              · next never =>
                  obtain rfl := Option.some.inj ran
                  refine ⟨turned, (if_neg idle).trans ((if_neg asleep).trans ?_)⟩
                  simp only [nextDeadline?] at never ⊢
                  simp only [never]
                  rfl
              · next time wakes =>
                  obtain ⟨record', endEq⟩ := ih _ _ _ ran turned
                  refine ⟨record', (if_neg idle).trans ((if_neg asleep).trans ?_)⟩
                  simp only [nextDeadline?] at wakes ⊢
                  simp only [wakes]
                  exact endEq

theorem prepare_withRecord (field : Field σ) (launch : Launch) (schedule : Schedule σ)
    (record : Record) :
    prepare field.recorded launch (schedule.withRecord record) =
      (prepare field launch schedule).map fun held => (held.1, held.2.withRecord record) := by
  have same : (schedule.withRecord record).registry field.recorded = schedule.registry field := rfl
  have clockEq : (schedule.withRecord record).clock = schedule.clock := rfl
  rw [prepare, prepare, same, clockEq]
  cases Run.prepare (schedule.registry field) launch.source launch.address schedule.clock with
  | error error => rfl
  | ok held => rfl

/-- Running a sequence comes to the same with a record. -/
theorem run_withRecord {launch : Launch} {schedule ended : Schedule σ} {result : Result}
    (ran : run field launch schedule = (some result, ended)) (record : Record) :
    ∃ record', run field.recorded launch (schedule.withRecord record) =
      (some result, ended.withRecord record') := by
  rcases cases_of_run ran with ⟨error, refused, rfl, rfl⟩ |
    ⟨first, held, task, prepared, ends, resultEq⟩
  · refine ⟨record, run_of_error ?_⟩
    rw [prepare_withRecord, refused]
    rfl
  · obtain ⟨record', endEq⟩ := runToEnd_withRecord ends record
    have preparedRecorded : prepare field.recorded launch (schedule.withRecord record) =
        .ok (first, held.withRecord record) := by
      rw [prepare_withRecord, prepared]
      rfl
    exact ⟨record', by rw [run_of_runToEnd preparedRecorded endEq, resultEq]⟩

end Schedule

/-! ## The part of one run -/

/-- What a run asked, in the record of its field. -/
def Record.of (record : Record) (lease : Device.Lease) : List Event :=
  (record.filter (·.1 == lease)).map (·.2)

/-- Whether an event is one that the field takes part in. -/
def Event.isAsked : Event → Bool
  | .asked _ _ => true
  | _ => false

variable {field}

/-- The record holds of a run what the run logs of the field. -/
theorem Amid.of_record {company : Company} {origin world : σ} {record : Record}
    {first run : Run} {log : List Event}
    (others : ∀ lease endpoint, company lease endpoint → lease ≠ first.lease)
    (amid : Amid field.recorded company (origin, []) first log (world, record) run) :
    record.of first.lease = log.filter Event.isAsked := by
  generalize worldEq : (world, record) = both at amid
  induction amid generalizing world record with
  | start =>
      obtain ⟨-, rfl⟩ := Prod.mk.inj worldEq
      rfl
  | @ask log before run request resume now amid asks ih =>
      obtain ⟨-, rfl⟩ := Prod.mk.inj worldEq
      have before' := ih rfl
      rw [Record.of] at before'
      rw [Record.of, List.filter_append, List.map_append, List.filter_append, before',
        amid.logged.kin.lease_eq]
      simp only [Field.recorded, beq_self_eq_true, List.filter_cons_of_pos, List.filter_nil,
        List.map_cons, List.map_nil]
      rfl
  | sleep now stop amid sleeps ih => simpa [Event.isAsked] using ih worldEq
  | yield now amid yields ih => simpa [Event.isAsked] using ih worldEq
  | @otherAsks log before run lease endpoint request now amid member ih =>
      obtain ⟨-, rfl⟩ := Prod.mk.inj worldEq
      have other := others lease endpoint member
      simpa [Record.of, other] using ih rfl
  | otherDrops amid member ih =>
      obtain ⟨-, rfl⟩ := Prod.mk.inj worldEq
      exact ih rfl

end Pneumatic.Run
