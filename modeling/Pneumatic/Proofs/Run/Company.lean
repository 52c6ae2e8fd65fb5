import Pneumatic.Proofs.Run.Log
import Pneumatic.Run.Schedule

/-!
# A run among others

What a schedule does around a run that it runs to its end: the run takes its moves, and in
between the other runs ask the field and drop their leases.
-/

namespace Pneumatic.Run

variable {σ : Type}

/-- The leases of other runs, with the endpoints of their controllers. -/
abbrev Company := Device.Lease → String → Prop

/-- The world and a run on the way from where they began, with the log of the run, while the
company uses the same field. -/
inductive Amid (field : Field σ) (company : Company) (origin : σ) (first : Run) :
    List Event → σ → Run → Prop where
  | start : Amid field company origin first [] origin first
  | ask {log : List Event} {world : σ} {run : Run} {request : Request}
      {resume : Nat → request.Reply → Run} (now : Nat) :
      Amid field company origin first log world run → run.move = .ask request resume →
      Amid field company origin first
        (log ++ [.asked request (field.perform request run.lease run.endpoint now world).1])
        (field.perform request run.lease run.endpoint now world).2
        (resume now (field.perform request run.lease run.endpoint now world).1)
  | sleep {log : List Event} {world : σ} {run : Run} {span : Duration}
      {resume : Nat → Bool → Run} (now : Nat) (stop : Bool) :
      Amid field company origin first log world run → run.move = .sleep span resume →
      Amid field company origin first (log ++ [.slept span stop]) world (resume now stop)
  | yield {log : List Event} {world : σ} {run : Run} {resume : Nat → Run} (now : Nat) :
      Amid field company origin first log world run → run.move = .yield resume →
      Amid field company origin first (log ++ [.yielded]) world (resume now)
  | otherAsks {log : List Event} {world : σ} {run : Run} {lease : Device.Lease}
      {endpoint : String} (request : Request) (now : Nat) :
      Amid field company origin first log world run → company lease endpoint →
      Amid field company origin first log (field.perform request lease endpoint now world).2 run
  | otherDrops {log : List Event} {world : σ} {run : Run} {lease : Device.Lease}
      {endpoint : String} :
      Amid field company origin first log world run → company lease endpoint →
      Amid field company origin first log
        (field.setRegistry ((field.registry world).drop lease) world) run

namespace Amid

variable {field : Field σ} {company : Company} {origin world : σ} {first run : Run}
  {log : List Event}

theorem logged (amid : Amid field company origin first log world run) :
    Logged first log run := by
  induction amid with
  | start => exact .start
  | ask now _ asks ih => exact ih.move (.of_ask asks now _)
  | sleep now stop _ sleeps ih => exact ih.move (.of_sleep sleeps now stop)
  | yield now _ yields ih => exact ih.move (.of_yield yields now)
  | otherAsks request now _ _ ih => exact ih
  | otherDrops _ _ ih => exact ih

end Amid

/-! ## Turns -/

/-- What a run has become at the end of its turn. -/
structure Task.Becomes (field : Field σ) (company : Company) (origin : σ) (first : Run)
    (world : σ) (task : Task) : Prop where
  going : task.result? = none → ∃ log, Amid field company origin first log world task.run
  halted : ∀ result, task.result? = some result → ∃ log before,
    Amid field company origin first log before task.run ∧ task.run.move = .halt result ∧
      world = field.setRegistry ((field.registry before).drop task.run.lease) before

/-- What the turns of a run in company do to the world is what the company may do. -/
structure Task.Accompanies (field : Field σ) (company : Company) (before after : σ)
    (task : Task) : Prop where
  member : company task.run.lease task.run.endpoint
  amid : ∀ {origin : σ} {first run : Run} {log : List Event},
    Amid field company origin first log before run → Amid field company origin first log after run

variable {field : Field σ} {company : Company} {origin world : σ} {first run : Run}
  {log : List Event}

theorem Task.becomes_go (now fuel : Nat) (amid : Amid field company origin first log world run) :
    (Task.go field now fuel world run).2.Becomes field company origin first
      (Task.go field now fuel world run).1 := by
  induction fuel generalizing log world run with
  | zero => exact ⟨fun _ => ⟨log, amid⟩, by simp [Task.go, Task.result?]⟩
  | succ fuel ih =>
      cases move : run.move with
      | ask request resume =>
          simp only [Task.go, move]
          exact ih (amid.ask now move)
      | sleep span resume =>
          simp only [Task.go, move]
          exact ⟨fun _ => ⟨log, amid⟩, by simp [Task.result?]⟩
      | yield resume =>
          simp only [Task.go, move]
          exact ⟨fun _ => ⟨_, amid.yield now move⟩, by simp [Task.result?]⟩
      | halt result =>
          simp only [Task.go, move]
          refine ⟨by simp [Task.result?], ?_⟩
          intro found foundEq
          obtain rfl := Option.some.inj foundEq
          exact ⟨log, world, amid, move, rfl⟩

theorem Task.becomes_turn (now : Nat) {task : Task} (goesOn : task.result? = none)
    (amid : Amid field company origin first log world task.run) :
    (task.turn field now world).2.Becomes field company origin first
      (task.turn field now world).1 := by
  unfold Task.turn
  split
  · unfold Task.woken
    split
    · next sleeps => exact Task.becomes_go now _ (amid.sleep now _ sleeps)
    · exact Task.becomes_go now _ amid
  · exact ⟨fun _ => ⟨log, amid⟩, by simp [goesOn]⟩

theorem member_of_goes {event : Event} {run' : Run} (goes : Goes run event run')
    (member : company run.lease run.endpoint) : company run'.lease run'.endpoint := by
  rwa [goes.kin.lease_eq, goes.kin.endpoint_eq]

theorem Task.accompanies_go (now fuel : Nat) (member : company run.lease run.endpoint) :
    (Task.go field now fuel world run).2.Accompanies field company world
      (Task.go field now fuel world run).1 := by
  induction fuel generalizing world run with
  | zero => exact ⟨member, fun amid => amid⟩
  | succ fuel ih =>
      cases move : run.move with
      | ask request resume =>
          simp only [Task.go, move]
          have rest := @ih (field.perform request run.lease run.endpoint now world).2 _
            (member_of_goes (.of_ask move now
              (field.perform request run.lease run.endpoint now world).1) member)
          exact ⟨rest.member, fun amid => rest.amid (amid.otherAsks request now member)⟩
      | sleep span resume =>
          simp only [Task.go, move]
          exact ⟨member, fun amid => amid⟩
      | yield resume =>
          simp only [Task.go, move]
          exact ⟨member_of_goes (.of_yield move now) member, fun amid => amid⟩
      | halt result =>
          simp only [Task.go, move]
          exact ⟨member, fun amid => amid.otherDrops member⟩

theorem Task.accompanies_turn (field : Field σ) (world : σ) (now : Nat) {task : Task}
    (member : company task.run.lease task.run.endpoint) :
    (task.turn field now world).2.Accompanies field company world
      (task.turn field now world).1 := by
  unfold Task.turn
  split
  · apply Task.accompanies_go
    unfold Task.woken
    split
    · next sleeps => exact member_of_goes (.of_sleep sleeps now _) member
    · exact member
  · exact ⟨member, fun amid => amid⟩

namespace Schedule

/-- Every run on a schedule belongs to the company. -/
def Members (company : Company) (tasks : List Task) : Prop :=
  ∀ task ∈ tasks, company task.run.lease task.run.endpoint

/-- One task of a round: those who wait and those who had their turn, behind the world. -/
def serve (field : Field σ) (clock : Nat) (state : σ × List Task × List Task) (task : Task) :
    σ × List Task × List Task :=
  if task.isReady field clock state.1 then
    ((task.turn field clock state.1).1, state.2.1,
      state.2.2 ++ [(task.turn field clock state.1).2])
  else (state.1, state.2.1 ++ [task], state.2.2)

/-- What a round has come to after all tasks. -/
def served (field : Field σ) (schedule : Schedule σ) : σ × List Task × List Task :=
  schedule.tasks.foldl (serve field schedule.clock) (schedule.world, [], [])

theorem round_eq (field : Field σ) (schedule : Schedule σ) :
    schedule.round field =
      ⟨(schedule.served field).1, schedule.clock,
        (schedule.served field).2.1 ++ (schedule.served field).2.2⟩ := rfl

/-- What a round has come to is what the company may do. -/
def Accompanied (field : Field σ) (company : Company) (before : σ)
    (state : σ × List Task × List Task) : Prop :=
  Members company state.2.1 ∧ Members company state.2.2 ∧
    ∀ {origin : σ} {first run : Run} {log : List Event},
      Amid field company origin first log before run →
      Amid field company origin first log state.1 run

theorem Accompanied.serve {before : σ} {state : σ × List Task × List Task}
    (accompanied : Accompanied field company before state) (clock : Nat) {task : Task}
    (member : company task.run.lease task.run.endpoint) :
    Accompanied field company before (serve field clock state task) := by
  obtain ⟨waits, moves, amid⟩ := accompanied
  unfold Schedule.serve
  split
  · have turn := Task.accompanies_turn field state.1 clock member
    exact ⟨waits, List.forall_mem_append.mpr ⟨moves, List.forall_mem_singleton.mpr turn.member⟩,
      fun started => turn.amid (amid started)⟩
  · exact ⟨List.forall_mem_append.mpr ⟨waits, List.forall_mem_singleton.mpr member⟩, moves, amid⟩

theorem accompanied_served (field : Field σ) {schedule : Schedule σ}
    (members : Members company schedule.tasks) :
    Accompanied field company schedule.world (schedule.served field) := by
  refine List.foldlRecOn schedule.tasks _
    (motive := Accompanied field company schedule.world) ?_ ?_
  · exact ⟨by simp [Members], by simp [Members], fun amid => amid⟩
  · intro state accompanied task membership
    exact accompanied.serve schedule.clock (members task membership)

/-- One round of the others is what the company may do. -/
theorem accompanies_round (field : Field σ) {schedule : Schedule σ}
    (members : Members company schedule.tasks) :
    Members company (schedule.round field).tasks ∧
      ∀ {origin : σ} {first run : Run} {log : List Event},
        Amid field company origin first log schedule.world run →
        Amid field company origin first log (schedule.round field).world run := by
  obtain ⟨waits, moves, amid⟩ := accompanied_served field members
  rw [round_eq]
  exact ⟨List.forall_mem_append.mpr ⟨waits, moves⟩, amid⟩

/-- What turns, rounds and the passing of time keep holds at the end of a run. -/
theorem runToEnd_keeps (field : Field σ) (Holds : Schedule σ → Task → Prop)
    (turns : ∀ schedule task, task.result? = none → Holds schedule task →
      Holds { schedule with world := (task.turn field schedule.clock schedule.world).1 }
        (task.turn field schedule.clock schedule.world).2)
    (rounds : ∀ schedule task, task.result? = none → Holds schedule task →
      Holds (schedule.round field) task)
    (passes : ∀ schedule task time, Holds schedule task →
      Holds { schedule with clock := time } task)
    {schedule : Schedule σ} {task : Task} {ended : Schedule σ × Task}
    (ran : runToEnd field schedule task = some ended) (goesOn : task.result? = none)
    (holds : Holds schedule task) : Holds ended.1 ended.2 := by
  refine runToEnd.partial_correctness field
    (fun schedule task ended => task.result? = none → Holds schedule task → Holds ended.1 ended.2)
    ?_ schedule task ended ran goesOn holds
  intro recur ih schedule task ended ran goesOn holds
  have turned := turns schedule task goesOn holds
  simp only at ran
  split at ran
  · obtain rfl := Option.some.inj ran
    exact turned
  · next unfinished =>
      rw [Bool.not_eq_true, Option.isSome_eq_false_iff, Option.isNone_iff_eq_none] at unfinished
      split at ran
      · exact ih _ _ _ ran unfinished (rounds _ _ unfinished turned)
      · split at ran
        · exact ih _ _ _ ran unfinished turned
        · split at ran
          · obtain rfl := Option.some.inj ran
            exact turned
          · exact ih _ _ _ ran unfinished (passes _ _ _ turned)

/-- A run that was run to its end got there by its own moves, with the company on the same
field, and dropped its lease last. -/
theorem amid_of_runToEnd {schedule ended : Schedule σ} {task : Task} {result : Result}
    (members : Members company schedule.tasks)
    (ran : runToEnd field schedule (.ofRun first) = some (ended, task))
    (result? : task.result? = some result) :
    ∃ log before, Amid field company schedule.world first log before task.run ∧
      task.run.move = .halt result ∧
      ended.world = field.setRegistry ((field.registry before).drop first.lease) before := by
  have kept := runToEnd_keeps field
    (fun now task => Members company now.tasks ∧
      task.Becomes field company schedule.world first now.world)
    ?_ ?_ ?_ ran rfl ⟨members, fun _ => ⟨[], .start⟩, by simp [Task.ofRun, Task.result?]⟩
  · obtain ⟨log, before, amid, halts, worldEq⟩ := kept.2.halted result result?
    rw [amid.logged.kin.lease_eq] at worldEq
    exact ⟨log, before, amid, halts, worldEq⟩
  · rintro now task goesOn ⟨members, becomes⟩
    obtain ⟨log, amid⟩ := becomes.going goesOn
    exact ⟨members, Task.becomes_turn now.clock goesOn amid⟩
  · rintro now task goesOn ⟨members, becomes⟩
    obtain ⟨log, amid⟩ := becomes.going goesOn
    obtain ⟨members', accompanies⟩ := accompanies_round field members
    exact ⟨members', fun _ => ⟨log, accompanies amid⟩, by simp [goesOn]⟩
  · rintro now task time ⟨members, becomes⟩
    exact ⟨members, becomes⟩

/-! ## Running a sequence -/

theorem run_of_error {launch : Launch} {schedule : Schedule σ} {error : Error}
    (refused : prepare field launch schedule = .error error) :
    Schedule.run field launch schedule = (some (.error error), schedule) := by
  rw [Schedule.run, refused]

theorem run_of_runToEnd {launch : Launch} {schedule held ended : Schedule σ} {task : Task}
    (prepared : prepare field launch schedule = .ok (first, held))
    (ran : runToEnd field held (.ofRun first) = some (ended, task)) :
    Schedule.run field launch schedule = (task.result?, ended) := by
  rw [Schedule.run, prepared]
  simp only [ran]

/-- A result comes from holding the device, which left everything as it was, or from the end
of the run. -/
theorem cases_of_run {launch : Launch} {schedule ended : Schedule σ} {result : Result}
    (ran : Schedule.run field launch schedule = (some result, ended)) :
    (∃ error, prepare field launch schedule = .error error ∧ result = .error error ∧
      ended = schedule) ∨
    ∃ first held task, prepare field launch schedule = .ok (first, held) ∧
      runToEnd field held (.ofRun first) = some (ended, task) ∧ task.result? = some result := by
  cases prepared : prepare field launch schedule with
  | error error =>
      rw [run_of_error prepared, Prod.mk.injEq, Option.some.injEq] at ran
      exact .inl ⟨error, rfl, ran.1.symm, ran.2.symm⟩
  | ok held =>
      obtain ⟨first, held⟩ := held
      cases ends : runToEnd field held (.ofRun first) with
      | none =>
          rw [Schedule.run, prepared] at ran
          simp only [ends, Prod.mk.injEq] at ran
          exact absurd ran.1 (by simp)
      | some last =>
          obtain ⟨schedule', task⟩ := last
          rw [run_of_runToEnd prepared ends, Prod.mk.injEq] at ran
          obtain ⟨resultEq, rfl⟩ := ran
          exact .inr ⟨first, held, task, rfl, ends, resultEq⟩

end Schedule

end Pneumatic.Run
