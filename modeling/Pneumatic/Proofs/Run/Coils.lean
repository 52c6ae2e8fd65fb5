import Pneumatic.Proofs.Field.Coils
import Pneumatic.Proofs.Program.Needs
import Pneumatic.Proofs.Run.Bench
import Pneumatic.Proofs.Run.Company
import Pneumatic.Proofs.Run.Launch

/-!
# Opposite coils

Any number of runs may work on a simulated controller, each of a sequence that was read and
wherever it may be on its course.  What they write, broken off anywhere, leaves no two opposite
coils on, as no statement of a compiled program does.  The schedule works on its controllers in
this way.
-/

namespace Pneumatic.Run

/-- The combined write that a run is about to issue. -/
def writes? (run : Run) : Option (List Field.Write) :=
  match run.move with
  | .ask (.write writes) _ => some writes
  | _ => none

/-- A run of a sequence that was read, at some point of its course, whatever it was answered. -/
def Possible (run : Run) : Prop :=
  ∃ source sequence settings lease timerSeed repeatSeed log,
    Sequence.parse source = .ok sequence ∧
      Logged (start sequence settings lease timerSeed repeatSeed) log run

/-- What becomes of a controller that runs work on.  They write, and time passes; anything else,
such as a session that is opened or an actuator that gets stuck, changes neither the tags nor the
names of the actuators. -/
inductive Operated (origin : Field.Controller) : Field.Controller → Prop where
  | start : Operated origin origin
  | write {controller : Field.Controller} {run : Run} {writes : List Field.Write} (now : Nat) :
      Operated origin controller → run.Possible → run.writes? = some writes →
      Operated origin (controller.write writes now).2
  | settle {controller : Field.Controller} (now : Nat) :
      Operated origin controller → Operated origin (controller.settle now)
  | alter {controller controller' : Field.Controller} :
      Operated origin controller → controller'.tags = controller.tags →
      controller'.cylinders.map (·.tags) = controller.cylinders.map (·.tags) →
      Operated origin controller'

variable {run run' : Run} {writes part : List Field.Write} {origin controller : Field.Controller}
  {tags : List (String × Field.Value)}

/-! ## What runs write -/

theorem Possible.goes (possible : run.Possible) {event : Event} (goes : Goes run event run') :
    run'.Possible := by
  obtain ⟨source, sequence, settings, lease, timerSeed, repeatSeed, log, parsed, logged⟩ := possible
  exact ⟨source, sequence, settings, lease, timerSeed, repeatSeed, _, parsed, logged.move goes⟩

/-- A run writes the run variables or the commands of actuations. -/
theorem Possible.writes_eq (possible : run.Possible) (issues : run.writes? = some writes) :
    writes = run.seeds ∨ ∃ actuations : List Actuation, writes = actuations.flatMap command := by
  obtain ⟨source, sequence, settings, lease, timerSeed, repeatSeed, log, parsed, logged⟩ := possible
  have long : 0 < sequence.length := Sequence.length_pos_of_parse parsed
  have told := Told.of_logged long logged ⟨rfl, rfl⟩
  cases phase : run.phase <;>
    simp only [writes?, move, phase, Option.some.injEq, reduceCtorEq] at issues
  case seeding => exact .inl issues.symm
  case resting => exact .inr ⟨_, issues.symm.trans (restWrites_eq run)⟩
  case acting work =>
    simp only [Told, phase] at told
    obtain ⟨-, -, -, -, -, -, -, ⟨-, done, -, -, writesEq⟩, -⟩ := told
    exact .inr ⟨_, issues.symm.trans writesEq⟩

/-- What a run writes may be broken off anywhere. -/
theorem Possible.exclusive (possible : run.Possible) (issues : run.writes? = some writes)
    (exclusive : Field.Exclusive tags) (isPart : part <+: writes) :
    Field.Exclusive (Field.assign part tags) := by
  rcases possible.writes_eq issues with rfl | ⟨actuations, rfl⟩
  · apply exclusive.others isPart
    intro write among label direction
    rcases List.mem_pair.mp among with rfl | rfl
    · exact Tag.coil_ne_timerVariable label direction
    · exact Tag.coil_ne_repeatVariable label direction
  · exact exclusive.commands isPart

/-- No two opposite coils are on while runs work on a controller. -/
theorem Operated.careful (operated : Operated origin controller) (careful : origin.Careful) :
    controller.Careful := by
  induction operated with
  | start => exact careful
  | write now _ possible issues ih =>
      exact ih.write (possible.exclusive issues ih.exclusive List.prefix_rfl) now
  | settle now _ ih => exact ih.settle now
  | alter _ tagsEq cylinders ih => exact ih.alter tagsEq cylinders

/-! ## What the schedule does with controllers -/

/-- The schedule reads a controller only when it has let its actuators arrive. -/
theorem Operated.read (operated : Operated origin controller) (name : String) (now : Nat) :
    Operated origin (controller.read name now).2 := by
  unfold Field.Controller.read
  split
  · exact operated
  · exact operated.settle now

/-- Each controller of a plant is one that runs worked on. -/
def Plant.Operated (before plant : Plant) : Prop :=
  ∀ endpoint controller, plant.controller? endpoint = some controller →
    ∃ origin, before.controller? endpoint = some origin ∧ Run.Operated origin controller

namespace Plant.Operated

variable {before plant : Plant} {endpoint : String}

theorem refl (plant : Plant) : plant.Operated plant :=
  fun _ controller found => ⟨controller, found, .start⟩

/-- A change of the controller at an endpoint that runs may make. -/
theorem update (operated : before.Operated plant)
    {change : Field.Controller → Field.Controller}
    (changes : ∀ origin controller, plant.controller? endpoint = some controller →
      Run.Operated origin controller → Run.Operated origin (change controller)) :
    before.Operated (plant.update endpoint change) := by
  intro other controller found
  rw [controller?_update, Option.map_eq_some_iff] at found
  obtain ⟨current, here, rfl⟩ := found
  obtain ⟨origin, began, worked⟩ := operated other current here
  refine ⟨origin, began, ?_⟩
  split
  · next same =>
      subst same
      exact changes origin current here worked
  · exact worked

theorem operate {α : Type} (operated : before.Operated plant)
    {operation : Field.Controller → Except Field.Error α × Field.Controller}
    (changes : ∀ origin controller, Run.Operated origin controller →
      Run.Operated origin (operation controller).2) :
    before.Operated (plant.operate endpoint operation).2 := by
  unfold Plant.operate
  split
  · exact operated
  · next controller found =>
      apply operated.update
      intro origin current here worked
      obtain rfl := Option.some.inj (found.symm.trans here)
      exact changes origin controller worked

/-- Whatever a run asks of the field. -/
theorem perform (operated : before.Operated plant) (possible : run.Possible) {request : Request}
    {resume : Nat → request.Reply → Run} (asks : run.move = .ask request resume) (now : Nat) :
    before.Operated (plant.perform request run.lease run.endpoint now).2 := by
  cases request with
  | connect =>
      simp only [Plant.perform]
      split <;> exact operated
  | openSession => exact operated.update fun _ _ _ worked => worked.alter rfl rfl
  | write writes =>
      have issues : run.writes? = some writes := by rw [writes?, asks]
      exact operated.operate fun _ _ worked => worked.write now possible issues
  | read tag => exact operated.operate fun _ _ worked => worked.read tag now
  | checkStop => exact operated
  | closeSession => exact operated.update fun _ _ _ worked => worked.alter rfl rfl
  | disconnect => exact operated

end Plant.Operated

section Turns

variable {before plant : Plant}

theorem Task.operated_go (now fuel : Nat) (operated : before.Operated plant)
    (possible : run.Possible) :
    before.Operated (Task.go Plant.field now fuel plant run).1 ∧
      (Task.go Plant.field now fuel plant run).2.run.Possible := by
  induction fuel generalizing plant run with
  | zero => exact ⟨operated, possible⟩
  | succ fuel ih =>
      cases move : run.move with
      | ask request resume =>
          simp only [Task.go, move]
          exact ih (operated.perform possible move now) (possible.goes (.of_ask move now _))
      | sleep span resume =>
          simp only [Task.go, move]
          exact ⟨operated, possible⟩
      | yield resume =>
          simp only [Task.go, move]
          exact ⟨operated, possible.goes (.of_yield move now)⟩
      | halt result =>
          simp only [Task.go, move]
          exact ⟨operated, possible⟩

theorem Task.operated_turn (now : Nat) {task : Task} (operated : before.Operated plant)
    (possible : task.run.Possible) :
    before.Operated (task.turn Plant.field now plant).1 ∧
      (task.turn Plant.field now plant).2.run.Possible := by
  unfold Task.turn
  split
  · apply Task.operated_go now _ operated
    unfold Task.woken
    split
    · next sleeps => exact possible.goes (.of_sleep sleeps now _)
    · exact possible
  · exact ⟨operated, possible⟩

/-- Only runs of sequences that were read are on the schedule, and they worked on its
controllers. -/
structure Schedule.Operated (before : Plant) (schedule : Schedule Plant) : Prop where
  plant : before.Operated schedule.world
  possible : ∀ task ∈ schedule.tasks, task.run.Possible

namespace Schedule

/-- What a round has come to. -/
structure Serves (before : Plant) (state : Plant × List Task × List Task) : Prop where
  plant : before.Operated state.1
  waits : ∀ task ∈ state.2.1, task.run.Possible
  moved : ∀ task ∈ state.2.2, task.run.Possible

theorem Serves.serve {state : Plant × List Task × List Task} (serves : Serves before state)
    (clock : Nat) {task : Task} (possible : task.run.Possible) :
    Serves before (serve Plant.field clock state task) := by
  obtain ⟨worked, waits, moved⟩ := serves
  unfold Schedule.serve
  split
  · obtain ⟨worked', goes⟩ := Task.operated_turn clock worked possible
    exact ⟨worked', waits, List.forall_mem_append.mpr ⟨moved, List.forall_mem_singleton.mpr goes⟩⟩
  · have waits' := List.forall_mem_append.mpr ⟨waits, List.forall_mem_singleton.mpr possible⟩
    exact ⟨worked, waits', moved⟩

theorem Operated.round {schedule : Schedule Plant} (operated : Operated before schedule) :
    Operated before (schedule.round Plant.field) := by
  have serves : Serves before (served Plant.field schedule) := by
    refine List.foldlRecOn schedule.tasks _ (motive := Serves before) ?_ ?_
    · exact ⟨operated.plant, by simp, by simp⟩
    · intro state serves task among
      exact serves.serve schedule.clock (operated.possible task among)
  rw [round_eq]
  exact ⟨serves.plant, List.forall_mem_append.mpr ⟨serves.waits, serves.moved⟩⟩

/-- A schedule that runs a sequence to its end beside other runs works on its controllers as
runs may. -/
theorem operated_of_run (launch : Launch) {schedule ended : Schedule Plant}
    {result : Option Result} (possible : ∀ task ∈ schedule.tasks, task.run.Possible)
    (ran : Schedule.run Plant.field launch schedule = (result, ended)) :
    schedule.world.Operated ended.world := by
  cases prepared : prepare Plant.field launch schedule with
  | error error =>
      rw [run_of_error prepared] at ran
      obtain ⟨-, rfl⟩ := Prod.mk.inj ran
      exact .refl _
  | ok held =>
      obtain ⟨first, held⟩ := held
      obtain ⟨sequence, holds⟩ := holds_of_prepare prepared
      have begins : first.Possible := by
        rw [holds.firstEq]
        exact ⟨_, _, _, _, _, _, _, holds.parsed, .start⟩
      have worked : Operated schedule.world held := by
        rw [holds.heldEq]
        exact ⟨.refl _, possible⟩
      cases ends : runToEnd Plant.field held (.ofRun first) with
      | none =>
          simp only [Schedule.run, prepared, ends] at ran
          obtain ⟨-, rfl⟩ := Prod.mk.inj ran
          exact worked.plant
      | some last =>
          have kept := runToEnd_keeps Plant.field
            (fun now task => Operated schedule.world now ∧ task.run.Possible) ?_ ?_ ?_ ends rfl
            ⟨worked, begins⟩
          · rw [run_of_runToEnd prepared ends] at ran
            obtain ⟨-, rfl⟩ := Prod.mk.inj ran
            exact kept.1.plant
          · rintro now task - ⟨worked, possible⟩
            obtain ⟨worked', goes⟩ := Task.operated_turn now.clock worked.plant possible
            exact ⟨⟨worked', worked.possible⟩, goes⟩
          · rintro now task - ⟨worked, possible⟩
            exact ⟨worked.round, possible⟩
          · rintro now task time ⟨worked, possible⟩
            exact ⟨⟨worked.plant, worked.possible⟩, possible⟩

end Schedule

end Turns

/-! ## Programs and runs -/

/-- Opposite coils are never on together.  A program that compiles, with automatic names or the
pairwise distinct names of a project, begins with all coils off; then no statement on any path
through its cases leaves both coils of an actuator on, and its scans follow such paths, whatever
the plant shows.  On a controller with automatically named actuators, no write of a run leaves
both on, wherever it is broken off.  The controllers of a plant are worked on in this way by any
part of a turn, and by a run that is carried out to its end beside others. -/
theorem opposite_coils_apart :
    ((∀ sequence project program memory scan,
      Program.compile sequence project = .ok program →
      (∀ found, project = some found → found.tags.Nodup) →
      (∀ label direction coil,
        (Tag.Naming.ofProject? project).resolve (Tag.Role.coil direction) (.actuator label) =
          .ok coil → memory.bit coil = false) →
      program.Path ⟨0, [], memory⟩ scan → scan.memory.Exclusive (.ofProject? project)) ∧
    ∀ sequence project program plants state, Program.compile sequence project = .ok program →
      program.Path ⟨state.1, [], state.2⟩
        ⟨(program.scans plants state).1, [], (program.scans plants state).2⟩) ∧
    (∀ travel labels controller,
      Operated (.withActuators travel labels) controller →
      Field.Exclusive controller.tags ∧
        ∀ run writes, Possible run → run.writes? = some writes → ∀ part, part <+: writes →
          Field.Exclusive (Field.assign part controller.tags)) ∧
    (∀ before plant run now fuel, Plant.Operated before plant → Possible run →
      before.Operated (Task.go Plant.field now fuel plant run).1 ∧
        Possible (Task.go Plant.field now fuel plant run).2.run) ∧
    ∀ launch schedule result ended, (∀ task ∈ schedule.tasks, Possible task.run) →
      Schedule.run Plant.field launch schedule = (result, ended) →
      schedule.world.Operated ended.world := by
  refine ⟨⟨?paths, ?scans⟩, ?writes, ?turns, ?runs⟩
  case paths =>
    intro sequence project program memory scan compiled distinct off path
    apply path.exclusive compiled _ off
    cases project with
    | none => exact Tag.Naming.keepsApart_automatic
    | some found => exact Tag.Naming.keepsApart_configured (distinct found rfl)
  case scans =>
    intro sequence project program plants state compiled
    exact Program.Path.start.scans plants (Program.runAll_calls_of_compile compiled)
  case writes =>
    intro travel labels controller operated
    have careful := operated.careful (Field.Controller.careful_withActuators travel labels)
    refine ⟨careful.exclusive, ?_⟩
    intro run writes possible issues part isPart
    exact possible.exclusive issues careful.exclusive isPart
  case turns =>
    intro before plant run now fuel operated possible
    exact Task.operated_go now fuel operated possible
  case runs =>
    intro launch schedule result ended possible ran
    exact Schedule.operated_of_run launch possible ran

/-- A group that sends one actuator both ways: the program in the middle of its case and after
three scans, a run that has sent three of its four writes, and the plant after it was carried
out. -/
theorem opposite_coils_apart_both_ways :
    ∃ project sequence program scan plant launch controller run writes,
      Sequence.parse "A+,(A-,A+)" = .ok sequence ∧
      Program.compile sequence (some project) = .ok program ∧ project.tags.Nodup ∧
      program.Path ⟨0, [], ⟨[], fun _ => 0⟩⟩ scan ∧ scan.active = 20 ∧ scan.left.length = 2 ∧
      scan.memory.Exclusive (.configured project) ∧
      (∃ memory, program.scans (List.replicate 3 fun _ _ => true) (0, ⟨[], fun _ => 0⟩) =
        (30, memory) ∧ memory.Exclusive (.configured project)) ∧
      Operated (.withActuators 0 ['A']) controller ∧ Possible run ∧ run.writes? = some writes ∧
      writes.length = 4 ∧ Field.Exclusive (Field.assign (writes.take 3) controller.tags) ∧
      plant.controller? (Field.endpoint "plc" 4840) = some (.withActuators 0 ['A']) ∧
      launch.source = "A+,(A-,A+)" ∧
      Plant.Operated plant (Schedule.run Plant.field launch ⟨plant, 0, []⟩).2.world := by
  let project : Project := ⟨"press", [.actuator ⟨"A", .doubleActing, "Y1", some "Y2", "B2", "B1"⟩]⟩
  let plant : Plant := .single "plc" 4840 (.withActuators 0 ['A'])
  let settings : Settings := { Settings.default with settle := 0 }
  let launch : Launch := ⟨"A+,(A-,A+)", "plc", settings, 1, 1⟩
  let first (sequence : Sequence) : Run := start sequence settings ⟨"plc", 0⟩ 1 1
  have computes : ((Sequence.parse "A+,(A-,A+)").toOption.any fun sequence =>
      ((Program.compile sequence (some project)).toOption.any fun program =>
        program.case? 0 == some ⟨0, none, [.setBool "Y1" false, .setBool "Y2" true], [],
          .jump 10⟩ &&
        program.case? 10 == some ⟨10, some ⟨["B2"]⟩, [.setBool "Y2" false, .setBool "Y1" true], [],
          .jump 20⟩ &&
        program.case? 20 == some ⟨20, some ⟨["B1", "B2"]⟩,
          [.setBool "Y1" false, .setBool "Y2" true, .setBool "Y2" false, .setBool "Y1" true], [],
          .jump 30⟩ &&
        program.calls == []) &&
      ((Task.go Plant.field 0 9 plant (first sequence)).1.controller?
        (first sequence).endpoint).isSome &&
      (Task.go Plant.field 0 9 plant (first sequence)).2.run.writes?.any (·.length == 4)) = true :=
    by decide +kernel
  obtain ⟨sequence, parsed, computes⟩ := any_toOption_iff.mp computes
  rw [Bool.and_eq_true, Bool.and_eq_true, any_toOption_iff] at computes
  simp only [Bool.and_eq_true, beq_iff_eq, Option.isSome_iff_exists, Option.any_eq_true] at computes
  obtain ⟨⟨⟨program, compiled, ⟨⟨setup, extend⟩, both⟩, calls⟩, controller, found⟩, writes, issues,
    four⟩ := computes
  have distinct : project.tags.Nodup := by decide
  have atFirst : plant.controller? (Field.endpoint "plc" 4840) = some (.withActuators 0 ['A']) :=
    List.lookup_cons_self
  obtain ⟨⟨apart, scans⟩, onController, turns, runs⟩ := opposite_coils_apart
  -- Case 0 retracts the actuator and case 10 extends it; case 20 is entered with it extended, and
  -- carries out the first two of its four assignments.
  have begins : program.Path ⟨0, [], ⟨[], fun _ => 0⟩⟩ ⟨0, [], ⟨[], fun _ => 0⟩⟩ := .start
  have retracted := (begins.leave setup (List.mem_singleton_self 10)).runAll
  rw [calls] at retracted
  have extended := (retracted.leave extend (List.mem_singleton_self 20)).runAll
  rw [calls] at extended
  have sends := extended.stay both
  rw [calls] at sends
  have middle := (sends.step (Instruction.does_run _ _)).step (Instruction.does_run _ _)
  have off (found : Project) (same : some project = some found) : found.tags.Nodup :=
    Option.some.inj same ▸ distinct
  have exclusive {scan : Program.Scan} (path : program.Path ⟨0, [], ⟨[], fun _ => 0⟩⟩ scan) :=
    apart _ _ _ _ _ compiled off (fun _ _ _ _ => rfl) path
  -- Three scans of a plant that shows every sensor pass through all cases.
  let scanned := program.scans (List.replicate 3 fun _ _ => true) (0, ⟨[], fun _ => 0⟩)
  have last : scanned.1 = 30 := by
    simp [scanned, Program.scans, Program.scan, setup, extend, both, Case.isMet, Transition.take]
  have follows : program.Path _ ⟨scanned.1, [], scanned.2⟩ :=
    scans sequence (some project) program _ (0, ⟨[], fun _ => 0⟩) compiled
  -- The run has written its variables and begun its first step when it sends four writes.
  have possible : (first sequence).Possible := ⟨_, _, _, _, _, _, _, parsed, .start⟩
  obtain ⟨operated, goesOn⟩ := turns plant plant _ 0 9 (.refl plant) possible
  obtain ⟨origin, began, worked⟩ := operated _ controller found
  obtain rfl := Option.some.inj (atFirst.symm.trans began)
  obtain ⟨-, broken⟩ := onController 0 ['A'] controller worked
  have ended := runs launch ⟨plant, 0, []⟩ _ _ (by simp) (Prod.eta _).symm
  exact ⟨project, sequence, program, _, plant, launch, controller, _, writes, parsed, compiled,
    distinct, middle, rfl, rfl, exclusive middle, ⟨_, Prod.ext last rfl, exclusive follows⟩, worked,
    goesOn, issues, four, broken _ writes goesOn issues _ (List.take_prefix 3 writes), atFirst, rfl,
    ended⟩

end Pneumatic.Run
