import Pneumatic.Proofs.Run.Log
import Pneumatic.Run.Plant
import Mathlib.Logic.Function.Iterate

/-!
# A run alone on its field

A run that shares field and clock with no other is determined: time stands still until it
sleeps, and then jumps to its deadline unless its device asks it to stop.  The schedule
takes the same moves, whatever it counts as one turn.
-/

namespace Pneumatic.Run

/-- A run with a field and a clock of its own. -/
structure Solo (σ : Type) where
  world : σ
  clock : Nat
  run : Run

namespace Solo

variable {σ : Type} (field : Field σ)

/-- Whether the run was asked to stop. -/
def stopRequested (solo : Solo σ) : Bool :=
  (field.registry solo.world).stopRequested solo.run.lease.address

/-- The next move of the run.  One that halted stays as it is. -/
def step (solo : Solo σ) : Solo σ :=
  match solo.run.move with
  | .ask request resume =>
      let (reply, world) :=
        field.perform request solo.run.lease solo.run.endpoint solo.clock solo.world
      { solo with world, run := resume solo.clock reply }
  | .sleep span resume =>
      if solo.stopRequested field then { solo with run := resume solo.clock true }
      else
        let clock := deadline solo.clock span
        { solo with clock, run := resume clock false }
  | .yield resume => { solo with run := resume solo.clock }
  | .halt _ => solo

/-- Whether the run halted. -/
def result? (solo : Solo σ) : Option Result :=
  match solo.run.move with
  | .halt result => some result
  | _ => none

variable {field} {solo : Solo σ} {result : Result}

theorem step_of_ask {request : Request} {resume : Nat → request.Reply → Run}
    (asks : solo.run.move = .ask request resume) :
    solo.step field =
      ⟨(field.perform request solo.run.lease solo.run.endpoint solo.clock solo.world).2, solo.clock,
        resume solo.clock
          (field.perform request solo.run.lease solo.run.endpoint solo.clock solo.world).1⟩ := by
  rw [step, asks]

theorem step_of_stopped {span : Duration} {resume : Nat → Bool → Run}
    (sleeps : solo.run.move = .sleep span resume) (stops : solo.stopRequested field = true) :
    solo.step field = { solo with run := resume solo.clock true } := by
  rw [step, sleeps]
  exact if_pos stops

theorem step_of_sleep {span : Duration} {resume : Nat → Bool → Run}
    (sleeps : solo.run.move = .sleep span resume) (goesOn : ¬ solo.stopRequested field = true) :
    solo.step field =
      ⟨solo.world, deadline solo.clock span, resume (deadline solo.clock span) false⟩ := by
  rw [step, sleeps]
  exact if_neg goesOn

theorem step_of_yield {resume : Nat → Run} (yields : solo.run.move = .yield resume) :
    solo.step field = { solo with run := resume solo.clock } := by
  rw [step, yields]

theorem move_of_result? (halts : solo.result? = some result) : solo.run.move = .halt result := by
  unfold result? at halts
  split at halts
  · next move => rw [move, Option.some.inj halts]
  · contradiction

theorem step_of_result? (halts : solo.result? = some result) : solo.step field = solo := by
  rw [step, move_of_result? halts]

theorem iterate_of_result? (halts : solo.result? = some result) (count : Nat) :
    (step field)^[count] solo = solo :=
  Function.iterate_fixed (step_of_result? halts) count

/-- What the run has become once it halted, it is at every later time. -/
theorem iterate_eq_of_le {count later : Nat}
    (halts : ((step field)^[count] solo).result? = some result) (le : count ≤ later) :
    (step field)^[later] solo = (step field)^[count] solo := by
  obtain ⟨more, rfl⟩ := Nat.exists_eq_add_of_le le
  rw [Nat.add_comm, Function.iterate_add_apply, iterate_of_result? halts]

theorem iterate_sub {count : Nat}
    (halts : ((step field)^[count] solo).result? = some result) (moves : Nat) :
    (step field)^[count - moves] ((step field)^[moves] solo) = (step field)^[count] solo := by
  rw [← Function.iterate_add_apply]
  by_cases le : moves ≤ count
  · rw [Nat.sub_add_cancel le]
  · exact iterate_eq_of_le halts (by omega)

/-- The schedule that a run alone leaves when it has halted: its lease is dropped. -/
def schedule (field : Field σ) (solo : Solo σ) : Schedule σ :=
  ⟨field.setRegistry ((field.registry solo.world).drop solo.run.lease) solo.world, solo.clock, []⟩

/-- What the next move of a run alone leaves in its log. -/
def events (field : Field σ) (solo : Solo σ) : List Event :=
  match solo.run.move with
  | .ask request _ =>
      [.asked request
        (field.perform request solo.run.lease solo.run.endpoint solo.clock solo.world).1]
  | .sleep span _ => [.slept span (solo.stopRequested field)]
  | .yield _ => [.yielded]
  | .halt _ => []

/-- What so many moves leave in it. -/
def log (field : Field σ) : Nat → Solo σ → List Event
  | 0, _ => []
  | count + 1, solo => solo.events field ++ log field count (solo.step field)

/-- A run alone does what a run may do. -/
theorem logged_events (field : Field σ) (solo : Solo σ) :
    Logged solo.run (solo.events field) (solo.step field).run := by
  rw [events]
  cases move : solo.run.move with
  | ask request resume =>
      rw [step_of_ask move]
      exact (Goes.of_ask move _ _).logged
  | sleep span resume =>
      by_cases stops : solo.stopRequested field = true
      · rw [step_of_stopped move stops, stops]
        exact (Goes.of_sleep move _ _).logged
      · rw [step_of_sleep move stops, Bool.eq_false_iff.mpr stops]
        exact (Goes.of_sleep move _ _).logged
  | yield resume =>
      rw [step_of_yield move]
      exact (Goes.of_yield move _).logged
  | halt result =>
      rw [step_of_result? (by rw [result?, move])]
      exact .start

theorem logged_log (field : Field σ) (count : Nat) (solo : Solo σ) :
    Logged solo.run (log field count solo) ((step field)^[count] solo).run := by
  induction count generalizing solo with
  | zero => exact .start
  | succ count ih => exact (logged_events field solo).append (ih (solo.step field))

end Solo

/-! ## The turns of a run alone -/

variable {σ : Type} {field : Field σ}

/-- Where a turn leaves a run: it has gone on and may go on at once, it sleeps, or it has
halted and dropped its lease. -/
inductive Task.Left (field : Field σ) (solo : Solo σ) (fuel : Nat) (world : σ) : Task → Prop where
  | ready (count : Nat) {run : Run} :
      (0 < fuel → 0 < count ∧ solo.result? = none) →
      (Solo.step field)^[count] solo = ⟨world, solo.clock, run⟩ →
      Left field solo fuel world ⟨run, .ready⟩
  | asleep (count : Nat) {run : Run} {span : Duration} {resume : Nat → Bool → Run} :
      (Solo.step field)^[count] solo = ⟨world, solo.clock, run⟩ → run.move = .sleep span resume →
      Left field solo fuel world ⟨run, .asleep (deadline solo.clock span)⟩
  | halted (count : Nat) {run : Run} {result : Result} {before : σ} :
      (Solo.step field)^[count] solo = ⟨before, solo.clock, run⟩ → run.move = .halt result →
      world = field.setRegistry ((field.registry before).drop run.lease) before →
      Left field solo fuel world ⟨run, .halted result⟩

theorem Task.Left.of_step {solo : Solo σ} {fuel : Nat} {world : σ} {task : Task}
    (goesOn : solo.result? = none) (clockEq : (solo.step field).clock = solo.clock)
    (left : Task.Left field (solo.step field) fuel world task) :
    Task.Left field solo (fuel + 1) world task := by
  cases left with
  | ready count _ reached =>
      rw [clockEq] at reached
      exact .ready (count + 1) (fun _ => ⟨Nat.succ_pos count, goesOn⟩) reached
  | asleep count reached move =>
      rw [clockEq] at reached ⊢
      exact .asleep (count + 1) reached move
  | halted count reached move worldEq =>
      rw [clockEq] at reached
      exact .halted (count + 1) reached move worldEq

/-- One turn of a task, as moves of the run alone. -/
theorem Task.left_go (field : Field σ) (fuel : Nat) (solo : Solo σ) :
    Task.Left field solo fuel (Task.go field solo.clock fuel solo.world solo.run).1
      (Task.go field solo.clock fuel solo.world solo.run).2 := by
  induction fuel generalizing solo with
  | zero => exact .ready 0 (fun positive => absurd positive (Nat.lt_irrefl 0)) rfl
  | succ fuel ih =>
      cases move : solo.run.move with
      | ask request resume =>
          have stepEq : solo.step field = _ := Solo.step_of_ask move
          have later := ih (solo.step field)
          rw [stepEq] at later
          simp only [Task.go, move]
          exact .of_step (by rw [Solo.result?, move]) (by rw [stepEq]) (stepEq ▸ later)
      | sleep span resume =>
          simp only [Task.go, move]
          exact .asleep 0 rfl move
      | yield resume =>
          simp only [Task.go, move]
          refine .ready 1 (fun _ => ⟨Nat.one_pos, by rw [Solo.result?, move]⟩) ?_
          simp [Solo.step, move]
      | halt result =>
          simp only [Task.go, move]
          exact .halted 0 rfl move rfl

theorem Task.turn_ofRun (field : Field σ) (clock : Nat) (world : σ) (run : Run) :
    (Task.ofRun run).turn field clock world = Task.go field clock Task.turnLimit world run := by
  simp only [Task.turn, Task.isReady, Task.woken, Task.ofRun, if_true]

/-- A task that wakes goes on from the next state of the run alone. -/
theorem Task.turn_of_asleep {world : σ} {clock : Nat} {run : Run} {span : Duration}
    {resume : Nat → Bool → Run} (sleeps : run.move = .sleep span resume) {time : Nat}
    (wakes : time = (Solo.step field ⟨world, clock, run⟩).clock) :
    Task.turn field time world ⟨run, .asleep (deadline clock span)⟩ =
      Task.turn field time (Solo.step field ⟨world, clock, run⟩).world
        (.ofRun (Solo.step field ⟨world, clock, run⟩).run) := by
  subst wakes
  by_cases stops : Solo.stopRequested field ⟨world, clock, run⟩ = true
  · rw [Solo.step_of_stopped sleeps stops, Task.turn_ofRun]
    rw [Solo.stopRequested] at stops
    simp [Task.turn, Task.isReady, Task.woken, Task.stopRequested, sleeps, stops]
  · rw [Solo.step_of_sleep sleeps stops, Task.turn_ofRun]
    rw [Solo.stopRequested] at stops
    simp [Task.turn, Task.isReady, Task.woken, Task.stopRequested, sleeps, stops]

namespace Schedule

/-- Running a task to its end without company. -/
theorem runToEnd_alone (field : Field σ) (world : σ) (clock : Nat) (task : Task) :
    runToEnd field ⟨world, clock, []⟩ task =
      let (world, task) := task.turn field clock world
      if task.result?.isSome then some (⟨world, clock, []⟩, task)
      else if task.isReady field clock world then runToEnd field ⟨world, clock, []⟩ task
      else task.deadline?.elim (some (⟨world, clock, []⟩, task)) fun time =>
        runToEnd field ⟨world, time, []⟩ task := by
  have idle : ∀ world : σ, anyReady field ⟨world, clock, []⟩ = false := fun _ => rfl
  rw [runToEnd]
  simp only [idle, Bool.false_eq_true, if_false]
  split
  · rfl
  · split
    · rfl
    · cases (Task.turn field clock world task).2.deadline? with
      | none => rfl
      | some time => rfl

/-- A sleeping task wakes now, or at its deadline, and goes on as the run alone does. -/
theorem runToEnd_of_asleep {world : σ} {clock : Nat} {run : Run} {span : Duration}
    {resume : Nat → Bool → Run} (sleeps : run.move = .sleep span resume) :
    (if Task.isReady field clock world ⟨run, .asleep (deadline clock span)⟩ then
        runToEnd field ⟨world, clock, []⟩ ⟨run, .asleep (deadline clock span)⟩
      else runToEnd field ⟨world, deadline clock span, []⟩
        ⟨run, .asleep (deadline clock span)⟩) =
      runToEnd field ⟨(Solo.step field ⟨world, clock, run⟩).world,
        (Solo.step field ⟨world, clock, run⟩).clock, []⟩
        (.ofRun (Solo.step field ⟨world, clock, run⟩).run) := by
  have wakes (time : Nat) (timeEq : time = (Solo.step field ⟨world, clock, run⟩).clock) :
      runToEnd field ⟨world, time, []⟩ ⟨run, .asleep (deadline clock span)⟩ =
        runToEnd field ⟨(Solo.step field ⟨world, clock, run⟩).world, time, []⟩
          (.ofRun (Solo.step field ⟨world, clock, run⟩).run) := by
    rw [runToEnd_alone, runToEnd_alone, Task.turn_of_asleep sleeps timeEq]
  have later : clock ≤ deadline clock span := Nat.le_add_right _ _
  have ready : Task.isReady field clock world ⟨run, .asleep (deadline clock span)⟩ = true ↔
      Solo.stopRequested field ⟨world, clock, run⟩ = true ∨ deadline clock span ≤ clock := by
    simp only [Task.isReady, Task.stopRequested, Solo.stopRequested, Bool.or_eq_true,
      decide_eq_true_eq]
  by_cases stops : Solo.stopRequested field ⟨world, clock, run⟩ = true
  · rw [if_pos (ready.mpr (.inl stops)), wakes, Solo.step_of_stopped sleeps stops]
    rw [Solo.step_of_stopped sleeps stops]
  · have clockEq := congrArg Solo.clock (Solo.step_of_sleep sleeps stops)
    split
    · next now =>
        have same := Nat.le_antisymm later ((ready.mp now).resolve_left stops)
        rw [wakes clock (same.trans clockEq.symm), clockEq, ← same]
    · rw [wakes _ clockEq.symm, clockEq]

/-- A run alone that halts is run to that end. -/
theorem runToEnd_of_result? {count : Nat} {solo : Solo σ} {result : Result}
    (halts : ((Solo.step field)^[count] solo).result? = some result) :
    runToEnd field ⟨solo.world, solo.clock, []⟩ (.ofRun solo.run) =
      some (((Solo.step field)^[count] solo).schedule field,
        ⟨((Solo.step field)^[count] solo).run, .halted result⟩) := by
  induction count using Nat.strongRecOn generalizing solo with
  | ind count ih =>
      -- Some moves later there are fewer left to the same end.
      have rest (moves : Nat) (positive : 0 < moves) (more : 0 < count) :=
        @ih (count - moves) (Nat.sub_lt more positive) ((Solo.step field)^[moves] solo)
          (by rwa [Solo.iterate_sub halts])
      simp only [Solo.iterate_sub halts] at rest
      have left := Task.left_go field Task.turnLimit solo
      rw [runToEnd_alone, Task.turn_ofRun]
      generalize Task.go field solo.clock Task.turnLimit solo.world solo.run = gone at left
      obtain ⟨world, task⟩ := gone
      cases left with
      | ready moves progress reached =>
          obtain ⟨positive, goesOn⟩ := progress (by decide)
          have more : 0 < count := by
            apply Nat.pos_of_ne_zero
            rintro rfl
            rw [Function.iterate_zero_apply, goesOn] at halts
            contradiction
          have later := rest moves positive more
          rw [reached] at later
          exact later
      | asleep moves reached sleeps =>
          have more : 0 < count := by
            apply Nat.pos_of_ne_zero
            rintro rfl
            rw [Function.iterate_zero_apply] at halts
            rw [Solo.iterate_of_result? halts] at reached
            rw [reached, Solo.result?, sleeps] at halts
            contradiction
          have later := rest (moves + 1) (Nat.succ_pos moves) more
          rw [Function.iterate_succ_apply', reached, ← runToEnd_of_asleep sleeps] at later
          exact later
      | @halted moves run ended before reached move worldEq =>
          have endsHere : ((Solo.step field)^[moves] solo).result? = some ended := by
            rw [reached, Solo.result?, move]
          have same : (Solo.step field)^[count] solo = ⟨before, solo.clock, run⟩ := by
            rcases Nat.le_total count moves with le | le
            · rw [← reached, Solo.iterate_eq_of_le halts le]
            · rw [← reached, Solo.iterate_eq_of_le endsHere le]
          rw [same, Solo.result?, move, Option.some.injEq] at halts
          subst halts worldEq
          rw [same]
          rfl

/-- Running a sequence without company. -/
theorem run_of_result? {launch : Launch} {schedule held : Schedule σ} {count : Nat} {first : Run}
    {result : Result} (alone : held.tasks = [])
    (prepared : prepare field launch schedule = .ok (first, held))
    (halts : ((Solo.step field)^[count] ⟨held.world, held.clock, first⟩).result? = some result) :
    Schedule.run field launch schedule = (some result,
      ((Solo.step field)^[count] ⟨held.world, held.clock, first⟩).schedule field) := by
  obtain ⟨world, clock, tasks⟩ := held
  subst alone
  have ends := runToEnd_of_result? halts
  rw [Schedule.run, prepared]
  simp only [ends]
  rfl

end Schedule

/-- A plant of one device with its controller. -/
def Plant.single (address : String) (port : UInt16) (controller : Field.Controller) : Plant :=
  ⟨.ofDevices [(address, address)], [(Field.endpoint address port, controller)]⟩

end Pneumatic.Run
