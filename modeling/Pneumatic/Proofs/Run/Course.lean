import Pneumatic.Proofs.Device.Stops
import Pneumatic.Proofs.Run.Company
import Pneumatic.Proofs.Run.Launch
import Pneumatic.Proofs.Run.Laws

/-!
# The course of a run

While a run goes on, anyone may operate on the devices.  A course is the moves of the run,
interleaved in any way with what is done to the devices meanwhile.  Of what the run is answered
nothing is assumed but that its device tells it of stop requests as it has them.

The schedule follows such a course: what the field and the other runs do to the devices in
between are stop requests and leases that come to their end.
-/

namespace Pneumatic.Run

/-- Something that happens while a run goes on. -/
inductive Happening where
  | moved (event : Event)
  | operated (operation : Device.Operation)

/-- A run that asks is told whether its device has a stop request, and a sleep is cut short
only if it has. -/
def Event.Honest (stopped : Bool) : Event → Prop
  | .asked .checkStop (reply : Bool) => reply = stopped
  | .slept _ stop => stop = true → stopped = true
  | _ => True

/-- What the run did. -/
def moves (course : List Happening) : List Event :=
  course.filterMap fun
    | .moved event => some event
    | .operated _ => none

/-- What was done to the devices. -/
def operations (course : List Happening) : List Device.Operation :=
  course.filterMap fun
    | .moved _ => none
    | .operated operation => some operation

/-- The devices and the run on the way from where they began.  The run keeps its lease. -/
inductive Course (first : Run) (origin : Device.Registry) :
    List Happening → Device.Registry → Run → Prop where
  | start : Course first origin [] origin first
  | move {course : List Happening} {registry : Device.Registry} {run run' : Run}
      {event : Event} :
      Course first origin course registry run → Goes run event run' →
      event.Honest (registry.stopRequested first.lease.address) →
      Course first origin (course ++ [.moved event]) registry run'
  | operate {course : List Happening} {registry : Device.Registry} {run : Run}
      (operation : Device.Operation) :
      Course first origin course registry run → operation ≠ .drop first.lease →
      Course first origin (course ++ [.operated operation]) (registry.after operation) run

@[simp] theorem moves_append (course more : List Happening) :
    moves (course ++ more) = moves course ++ moves more :=
  List.filterMap_append ..

@[simp] theorem moves_moved (event : Event) : moves [.moved event] = [event] := rfl

@[simp] theorem moves_operated (operation : Device.Operation) :
    moves [.operated operation] = [] := rfl

@[simp] theorem operations_append (course more : List Happening) :
    operations (course ++ more) = operations course ++ operations more :=
  List.filterMap_append ..

@[simp] theorem operations_moved (event : Event) : operations [.moved event] = [] := rfl

@[simp] theorem operations_operated (operation : Device.Operation) :
    operations [.operated operation] = [operation] := rfl

theorem divide_of_mem_moves {event : Event} {course : List Happening}
    (among : event ∈ moves course) : ∃ past rest, course = past ++ .moved event :: rest := by
  obtain ⟨happening, found, moved⟩ := List.mem_filterMap.mp among
  cases happening with
  | operated operation => simp at moved
  | moved event =>
      obtain rfl := Option.some.inj moved
      exact List.append_of_mem found

theorem divide_of_mem_operations {operation : Device.Operation} {course : List Happening}
    (among : operation ∈ operations course) :
    ∃ past rest, course = past ++ .operated operation :: rest := by
  obtain ⟨happening, found, operated⟩ := List.mem_filterMap.mp among
  cases happening with
  | moved event => simp at operated
  | operated operation =>
      obtain rfl := Option.some.inj operated
      exact List.append_of_mem found

namespace Course

variable {first run : Run} {origin registry : Device.Registry} {course past rest : List Happening}

/-- The moves of a course are the log of the run. -/
theorem logged (followed : Course first origin course registry run) :
    Logged first (moves course) run := by
  induction followed with
  | start => exact .start
  | move _ goes _ ih =>
      rw [moves_append]
      exact ih.move goes
  | operate operation _ _ ih => simpa using ih

/-- The devices are what the operations made of them. -/
theorem registry_eq (followed : Course first origin course registry run) :
    registry = (operations course).foldl Device.Registry.after origin := by
  induction followed with
  | start => rfl
  | move _ _ _ ih => simpa using ih
  | operate operation _ _ ih =>
      rw [operations_append, List.foldl_append, ← ih]
      rfl

theorem not_mem_operations (followed : Course first origin course registry run) :
    .drop first.lease ∉ operations course := by
  induction followed with
  | start => exact List.not_mem_nil
  | move _ _ _ ih => simpa using ih
  | operate operation _ kept ih => simpa using ⟨ih, kept.symm⟩

/-- A course divides at every point. -/
theorem divide (followed : Course first origin (past ++ rest) registry run) :
    ∃ between mid, Course first origin past between mid ∧ Logged mid (moves rest) run := by
  -- A course grows at its end, so the rest is taken off from there.
  induction rest using List.reverseRecOn generalizing registry run with
  | nil =>
      rw [List.append_nil] at followed
      exact ⟨registry, run, followed, .start⟩
  | append_singleton rest last ih =>
      rw [← List.append_assoc] at followed
      generalize whole : past ++ rest ++ [last] = course at followed
      cases followed with
      | start => simp at whole
      | move followed goes _ =>
          obtain ⟨rfl, lastEq⟩ := List.append_inj' whole rfl
          obtain ⟨between, mid, before, logged⟩ := ih followed
          obtain rfl := List.singleton_inj.mp lastEq
          refine ⟨between, mid, before, ?_⟩
          rw [moves_append]
          exact logged.move goes
      | operate operation followed _ =>
          obtain ⟨rfl, lastEq⟩ := List.append_inj' whole rfl
          obtain ⟨between, mid, before, logged⟩ := ih followed
          obtain rfl := List.singleton_inj.mp lastEq
          exact ⟨between, mid, before, by simpa using logged⟩

/-- Each move is answered as the device has it then. -/
theorem honest {event : Event}
    (followed : Course first origin (past ++ .moved event :: rest) registry run) :
    event.Honest (((operations past).foldl Device.Registry.after origin).stopRequested
      first.lease.address) := by
  rw [← List.singleton_append, ← List.append_assoc] at followed
  obtain ⟨between, mid, upTo, -⟩ := followed.divide
  generalize whole : past ++ [.moved event] = course at upTo
  cases upTo with
  | start => simp at whole
  | move before _ tells =>
      obtain ⟨rfl, lastEq⟩ := List.append_inj' whole rfl
      obtain ⟨rfl⟩ := List.singleton_inj.mp lastEq
      rw [← before.registry_eq]
      exact tells
  | operate operation _ _ =>
      obtain ⟨-, lastEq⟩ := List.append_inj' whole rfl
      exact nomatch lastEq

end Course

/-! ## The course that a schedule takes -/

variable {σ : Type}

/-- A field that tells of stop requests as the devices have them. -/
def Field.Heeds (field : Field σ) : Prop :=
  ∀ lease endpoint now world, (field.perform .checkStop lease endpoint now world).1 =
    (field.registry world).stopRequested lease.address

/-- What comes of the devices while a run keeps one of them: they are asked to stop, and leases
of other runs come to their end. -/
def Undisturbed (address : String) (course : List Happening) : Prop :=
  ∀ operation ∈ operations course,
    operation = .requestStop address ∨ ∃ lease, operation = .drop lease

/-- A run got somewhere on a course on which nothing was released by force. -/
def Follows (address : String) (first : Run) (origin registry : Device.Registry) (run : Run) :
    Prop :=
  ∃ course, Course first origin course registry run ∧ Undisturbed address course

namespace Follows

variable {field : Field σ} {address : String} {company : Company} {first run : Run}
  {origin registry : Device.Registry} {world : σ}

theorem start (address : String) (first : Run) (origin : Device.Registry) :
    Follows address first origin origin first :=
  ⟨[], .start, by simp [Undisturbed, operations]⟩

theorem kin (follows : Follows address first origin registry run) : first.Kin run := by
  obtain ⟨course, followed, -⟩ := follows
  exact followed.logged.kin

theorem move (follows : Follows address first origin registry run) {event : Event} {run' : Run}
    (goes : Goes run event run')
    (honest : event.Honest (registry.stopRequested first.lease.address)) :
    Follows address first origin registry run' := by
  obtain ⟨course, followed, mild⟩ := follows
  exact ⟨_, followed.move goes honest, by simpa [Undisturbed] using mild⟩

theorem requestStop (follows : Follows address first origin registry run) :
    Follows address first origin (registry.update address Device.Record.stop) run := by
  obtain ⟨course, followed, mild⟩ := follows
  have asked := followed.operate (.requestStop address) nofun
  rw [Device.Registry.after_requestStop] at asked
  refine ⟨_, asked, ?_⟩
  rw [Undisturbed, operations_append, List.forall_mem_append]
  exact ⟨mild, by simp⟩

theorem drop (follows : Follows address first origin registry run) {lease : Device.Lease}
    (other : lease ≠ first.lease) : Follows address first origin (registry.drop lease) run := by
  obtain ⟨course, followed, mild⟩ := follows
  refine ⟨_, followed.operate (.drop lease) (by simpa using other), ?_⟩
  rw [Undisturbed, operations_append, List.forall_mem_append]
  exact ⟨mild, by simp⟩

/-- The field does nothing to the devices but ask one to stop. -/
theorem perform (lawful : field.StopsOnly address)
    (follows : Follows address first origin (field.registry world) run) (request : Request)
    (lease : Device.Lease) (endpoint : String) (now : Nat) :
    Follows address first origin
      (field.registry (field.perform request lease endpoint now world).2) run := by
  rcases lawful.registry_perform request lease endpoint now world with same | stops
  · rw [same]
    exact follows
  · rw [stops]
    exact follows.requestStop

theorem ask (lawful : field.StopsOnly address) (heeds : field.Heeds)
    (follows : Follows address first origin (field.registry world) run) {request : Request}
    {resume : Nat → request.Reply → Run} (asks : run.move = .ask request resume) (now : Nat) :
    Follows address first origin
      (field.registry (field.perform request run.lease run.endpoint now world).2)
      (resume now (field.perform request run.lease run.endpoint now world).1) := by
  have goes := Goes.of_ask asks now
    (field.perform request run.lease run.endpoint now world).1
  have moved : Follows address first origin (field.registry world)
      (resume now (field.perform request run.lease run.endpoint now world).1) := by
    apply follows.move goes
    cases request with
    | checkStop =>
        rw [← follows.kin.lease_eq]
        exact heeds run.lease run.endpoint now world
    | _ => trivial
  exact moved.perform lawful request run.lease run.endpoint now

/-- What others do around a run that stands still. -/
theorem amid (lawful : field.StopsOnly address)
    (others : ∀ lease endpoint, company lease endpoint → lease ≠ first.lease) {before : σ}
    (follows : Follows address first origin (field.registry before) run) {standing went : Run}
    {log : List Event} (amid : Amid field company before standing log world went)
    (still : log = []) : Follows address first origin (field.registry world) run := by
  induction amid with
  | start => exact follows
  | ask _ _ _ _ => simp at still
  | sleep _ _ _ _ _ => simp at still
  | yield _ _ _ _ => simp at still
  | otherAsks request now _ _ ih => exact (ih still).perform lawful request _ _ now
  | otherDrops _ member ih =>
      rw [lawful.registry_setRegistry]
      exact (ih still).drop (others _ _ member)

end Follows

/-- How far a run has come at the end of its turn. -/
structure Task.Gets (field : Field σ) (address : String) (first : Run)
    (origin : Device.Registry) (world : σ) (task : Task) : Prop where
  going : task.result? = none → Follows address first origin (field.registry world) task.run
  halted : ∀ result, task.result? = some result → task.run.move = .halt result ∧
    ∃ registry, Follows address first origin registry task.run

section Turns

variable {field : Field σ} {address : String} {company : Company} {first run : Run}
  {origin : Device.Registry} {world : σ}

theorem Task.gets_go (lawful : field.StopsOnly address) (heeds : field.Heeds) (now fuel : Nat)
    (follows : Follows address first origin (field.registry world) run) :
    (Task.go field now fuel world run).2.Gets field address first origin
      (Task.go field now fuel world run).1 := by
  induction fuel generalizing world run with
  | zero => exact ⟨fun _ => follows, by simp [Task.go, Task.result?]⟩
  | succ fuel ih =>
      cases move : run.move with
      | ask request resume =>
          simp only [Task.go, move]
          exact ih (follows.ask lawful heeds move now)
      | sleep span resume =>
          simp only [Task.go, move]
          exact ⟨fun _ => follows, by simp [Task.result?]⟩
      | yield resume =>
          simp only [Task.go, move]
          exact ⟨fun _ => follows.move (.of_yield move now) trivial, by simp [Task.result?]⟩
      | halt result =>
          simp only [Task.go, move]
          refine ⟨by simp [Task.result?], ?_⟩
          intro found foundEq
          obtain rfl := Option.some.inj foundEq
          exact ⟨move, _, follows⟩

theorem Task.gets_turn (lawful : field.StopsOnly address) (heeds : field.Heeds) (now : Nat)
    {task : Task} (goesOn : task.result? = none)
    (follows : Follows address first origin (field.registry world) task.run) :
    (task.turn field now world).2.Gets field address first origin
      (task.turn field now world).1 := by
  unfold Task.turn
  split
  · apply Task.gets_go lawful heeds
    unfold Task.woken
    split
    · next sleeps =>
        apply follows.move (.of_sleep sleeps now _)
        intro stops
        rwa [Task.stopRequested, follows.kin.lease_eq] at stops
    · exact follows
  · exact ⟨fun _ => follows, by simp [goesOn]⟩

namespace Schedule

/-- A run that a schedule runs to its end takes a course. -/
theorem follows_of_runToEnd (lawful : field.StopsOnly address) (heeds : field.Heeds)
    {schedule ended : Schedule σ} {task : Task} {result : Result}
    (others : ∀ task ∈ schedule.tasks, task.run.lease ≠ first.lease)
    (ran : runToEnd field schedule (.ofRun first) = some (ended, task))
    (result? : task.result? = some result) :
    task.run.move = .halt result ∧
      ∃ registry, Follows address first (schedule.registry field) registry task.run := by
  let company : Company := fun lease _ => lease ≠ first.lease
  have kept := runToEnd_keeps field
    (fun now task => Members company now.tasks ∧
      task.Gets field address first (schedule.registry field) now.world)
    ?_ ?_ ?_ ran rfl ⟨others, fun _ => .start address first _, by simp [Task.ofRun, Task.result?]⟩
  · exact kept.2.halted result result?
  · rintro now task goesOn ⟨members, gets⟩
    exact ⟨members, Task.gets_turn lawful heeds now.clock goesOn (gets.going goesOn)⟩
  · rintro now task goesOn ⟨members, gets⟩
    obtain ⟨members', accompanies⟩ := accompanies_round field members
    refine ⟨members', fun _ => ?_, by simp [goesOn]⟩
    have alone : Amid field company now.world first [] now.world first := .start
    exact (gets.going goesOn).amid lawful (fun _ _ other => other) (accompanies alone) rfl
  · rintro now task time ⟨members, gets⟩
    exact ⟨members, gets⟩

/-- What a run begins with. -/
theorem prepare_eq (field : Field σ) (launch : Launch)
    (schedule : Schedule σ) :
    schedule.prepare field launch =
      (Run.prepare (schedule.registry field) launch.source launch.address schedule.clock).map
        fun (sequence, lease, registry) =>
          (.start sequence launch.settings lease launch.timerSeed launch.repeatSeed,
            schedule.setRegistry field registry) := by
  rw [prepare]
  cases Run.prepare (schedule.registry field) launch.source launch.address schedule.clock <;> rfl

/-- A run that held its device and came to a result took a course from there. -/
theorem exists_course_of_run {launch : Launch} {schedule held ended : Schedule σ}
    {result : Result} (lawful : field.StopsOnly address) (heeds : field.Heeds)
    (named : ∀ task ∈ schedule.tasks, task.run.lease.run < (schedule.registry field).runs)
    (prepared : prepare field launch schedule = .ok (first, held))
    (ran : Schedule.run field launch schedule = (some result, ended)) :
    ∃ course registry run, Course first (held.registry field) course registry run ∧
      run.move = .halt result ∧ Undisturbed address course := by
  rcases cases_of_run ran with ⟨error, refused, -, -⟩ |
    ⟨first', held', task, prepared', ends, resultEq⟩
  · rw [refused] at prepared
    contradiction
  · rw [prepared] at prepared'
    obtain ⟨rfl, rfl⟩ := Prod.mk.inj (Except.ok.inj prepared')
    obtain ⟨sequence, holds⟩ := holds_of_prepare prepared
    have others : ∀ task ∈ held.tasks, task.run.lease ≠ first.lease := by
      intro task among same
      rw [holds.tasks_eq] at among
      have older := named task among
      rw [same, holds.lease_eq] at older
      exact Nat.lt_irrefl _ older
    obtain ⟨halts, registry, course, followed, mild⟩ :=
      follows_of_runToEnd lawful heeds others ends resultEq
    exact ⟨course, registry, task.run, followed, halts, mild⟩

end Schedule

end Turns

end Pneumatic.Run
