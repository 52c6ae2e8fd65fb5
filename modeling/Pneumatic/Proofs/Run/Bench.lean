import Pneumatic.Proofs.Field.AtRest
import Pneumatic.Proofs.Run.Laws
import Pneumatic.Proofs.Run.Order

/-!
# A run on a bench

On a bench a run has a controller and a clock to itself, and nobody asks it to stop.  A run
alone in a plant goes the same way as on a bench with its controller.  So what a run does may
be followed there move by move.
-/

namespace Pneumatic.Run

/-- The combined write of a step.  There is none if it moves nothing. -/
def combined (step : Step) : List (List Field.Write) :=
  if step.actuations.isEmpty then [] else [step.actuations.flatMap command]

theorem restWrites_eq (run : Run) :
    run.restWrites =
      (run.sequence.labels.map fun label => (⟨label, .retract⟩ : Actuation)).flatMap command := by
  rw [restWrites, List.flatMap_map]

/-- A run with a controller and a clock of its own. -/
abbrev Bench := Solo Field.Controller

namespace Bench

/-- The answer of a controller to a request. -/
def perform (request : Request) (now : Nat) (controller : Field.Controller) :
    request.Reply × Field.Controller :=
  match request with
  | .connect | .disconnect => (Except.ok (), controller)
  | .openSession => (Except.ok (), controller.openSession)
  | .write writes => controller.write writes now
  | .read tag => controller.read tag now
  | .checkStop => (false, controller)
  | .closeSession => (Except.ok (), controller.closeSession)

/-- A controller as a field for runs, without devices that could be asked to stop. -/
def field : Field Field.Controller where
  registry _ := .empty
  setRegistry _ controller := controller
  perform request _ _ now controller := perform request now controller

/-- A plant in which a run finds its controller and goes on. -/
structure Within (bench : Bench) (plant : Plant) : Prop where
  controller : plant.controller? bench.run.endpoint = some bench.world
  goesOn : plant.registry.stopRequested bench.run.lease.address = false

variable {bench bench' bench'' : Bench} {plant : Plant}

/-- A request has the same answer in the plant. -/
theorem perform_within (within : bench.Within plant) (request : Request) (now : Nat) :
    (plant.perform request bench.run.lease bench.run.endpoint now).1 =
        (perform request now bench.world).1 ∧
      (plant.perform request bench.run.lease bench.run.endpoint now).2.controller?
          bench.run.endpoint = some (perform request now bench.world).2 ∧
      (plant.perform request bench.run.lease bench.run.endpoint now).2.registry =
        plant.registry := by
  obtain ⟨found, goesOn⟩ := within
  have updated (change : Field.Controller → Field.Controller) :
      (plant.update bench.run.endpoint change).controller? bench.run.endpoint =
        some (change bench.world) := by
    rw [Plant.controller?_update, found, Option.map_some, if_pos rfl]
  have operated {α : Type}
      (operation : Field.Controller → Except Field.Error α × Field.Controller) :
      plant.operate bench.run.endpoint operation =
        ((operation bench.world).1,
          plant.update bench.run.endpoint fun _ => (operation bench.world).2) := by
    rw [Plant.operate, found]
  cases request with
  | connect =>
      rw [Plant.perform, found]
      exact ⟨rfl, found, rfl⟩
  | openSession => exact ⟨rfl, updated _, rfl⟩
  | write writes =>
      simp only [Plant.perform, operated]
      exact ⟨rfl, updated _, rfl⟩
  | read tag =>
      simp only [Plant.perform, operated]
      exact ⟨rfl, updated _, rfl⟩
  | checkStop => exact ⟨goesOn, found, rfl⟩
  | closeSession => exact ⟨rfl, updated _, rfl⟩
  | disconnect => exact ⟨rfl, found, rfl⟩

theorem Within.of_kin (within : bench.Within plant) {next : Bench} {after : Plant}
    (kin : bench.run.Kin next.run)
    (found : after.controller? bench.run.endpoint = some next.world)
    (same : after.registry = plant.registry) : next.Within after where
  controller := by rw [kin.endpoint_eq, found]
  goesOn := by
    rw [kin.lease_eq, same]
    exact within.goesOn

/-- A run alone in a plant moves as on the bench. -/
theorem step_within (within : bench.Within plant) :
    ∃ after, Solo.step Plant.field ⟨plant, bench.clock, bench.run⟩ =
        ⟨after, (bench.step field).clock, (bench.step field).run⟩ ∧
      Within (bench.step field) after := by
  cases move : bench.run.move with
  | ask request resume =>
      obtain ⟨reply, found, same⟩ := perform_within within request bench.clock
      have kin := (Goes.of_ask move bench.clock (perform request bench.clock bench.world).1).kin
      have onBench : bench.step field = ⟨(perform request bench.clock bench.world).2, bench.clock,
          resume bench.clock (perform request bench.clock bench.world).1⟩ := Solo.step_of_ask move
      have inPlant : Solo.step Plant.field ⟨plant, bench.clock, bench.run⟩ =
          ⟨(plant.perform request bench.run.lease bench.run.endpoint bench.clock).2, bench.clock,
            resume bench.clock
              (plant.perform request bench.run.lease bench.run.endpoint bench.clock).1⟩ :=
        Solo.step_of_ask move
      rw [onBench, inPlant, reply]
      exact ⟨_, rfl, within.of_kin kin found same⟩
  | sleep span resume =>
      have kin := (Goes.of_sleep move (deadline bench.clock span) false).kin
      have onBench : bench.step field =
          ⟨bench.world, deadline bench.clock span, resume (deadline bench.clock span) false⟩ :=
        Solo.step_of_sleep move Bool.false_ne_true
      have inPlant : Solo.step Plant.field ⟨plant, bench.clock, bench.run⟩ =
          ⟨plant, deadline bench.clock span, resume (deadline bench.clock span) false⟩ :=
        Solo.step_of_sleep move (ne_true_of_eq_false within.goesOn)
      rw [onBench, inPlant]
      exact ⟨plant, rfl, within.of_kin kin within.controller rfl⟩
  | yield resume =>
      have kin := (Goes.of_yield move bench.clock).kin
      rw [Solo.step_of_yield move]
      refine ⟨plant, Solo.step_of_yield move, within.of_kin kin within.controller rfl⟩
  | halt result =>
      have onBench : bench.step field = bench := by
        rw [Solo.step, move]
      rw [onBench]
      refine ⟨plant, ?_, within⟩
      rw [Solo.step, move]

theorem iterate_within (within : bench.Within plant) (count : Nat) :
    ∃ after, (Solo.step Plant.field)^[count] ⟨plant, bench.clock, bench.run⟩ =
        ⟨after, ((Solo.step field)^[count] bench).clock, ((Solo.step field)^[count] bench).run⟩ ∧
      Within ((Solo.step field)^[count] bench) after := by
  induction count with
  | zero => exact ⟨plant, rfl, within⟩
  | succ count ih =>
      obtain ⟨before, reached, within'⟩ := ih
      rw [Function.iterate_succ_apply', Function.iterate_succ_apply', reached]
      exact step_within within'

/-! ## Moves on a bench -/

/-- The states that a run gets to on a bench. -/
def Reaches (bench bench' : Bench) : Prop :=
  ∃ count, (Solo.step field)^[count] bench = bench'

variable {controller : Field.Controller} {run : Run} {now : Nat}

namespace Reaches

theorem refl (bench : Bench) : bench.Reaches bench :=
  ⟨0, rfl⟩

theorem trans (first : bench.Reaches bench') (second : bench'.Reaches bench'') :
    bench.Reaches bench'' := by
  obtain ⟨count, rfl⟩ := first
  obtain ⟨more, rfl⟩ := second
  exact ⟨more + count, Function.iterate_add_apply _ more count bench⟩

theorem of_step (goes : bench.step field = bench') : bench.Reaches bench' :=
  ⟨1, goes⟩

theorem of_ask {request : Request} {resume : Nat → request.Reply → Run}
    (asks : run.move = .ask request resume) {reply : request.Reply} {after : Field.Controller}
    (answers : perform request now controller = (reply, after)) :
    Reaches ⟨controller, now, run⟩ ⟨after, now, resume now reply⟩ := by
  refine of_step ((Solo.step_of_ask asks).trans ?_)
  change (⟨(perform request now controller).2, now,
    resume now (perform request now controller).1⟩ : Bench) = _
  rw [answers]

theorem of_read {tag : String} {resume : Nat → Except Field.Error Field.Value → Run}
    (asks : run.move = .ask (.read tag) resume) {reply : Except Field.Error Field.Value}
    {after : Field.Controller} (answers : controller.read tag now = (reply, after)) :
    Reaches ⟨controller, now, run⟩ ⟨after, now, resume now reply⟩ :=
  of_ask asks answers

theorem of_write {writes : List Field.Write} {resume : Nat → Except Field.Error Unit → Run}
    (asks : run.move = .ask (.write writes) resume)
    (accepted : (controller.write writes now).1 = .ok ()) :
    Reaches ⟨controller, now, run⟩
      ⟨(controller.write writes now).2, now, resume now (.ok ())⟩ :=
  of_ask asks (Prod.ext accepted rfl)

theorem of_checkStop {resume : Nat → Bool → Run} (asks : run.move = .ask .checkStop resume)
    (controller : Field.Controller) (now : Nat) :
    Reaches ⟨controller, now, run⟩ ⟨controller, now, resume now false⟩ :=
  of_ask asks rfl

theorem of_sleep {span : Duration} {resume : Nat → Bool → Run}
    (sleeps : run.move = .sleep span resume) (controller : Field.Controller) (now : Nat) :
    Reaches ⟨controller, now, run⟩
      ⟨controller, deadline now span, resume (deadline now span) false⟩ :=
  of_step (Solo.step_of_sleep sleeps Bool.false_ne_true)

theorem of_yield {resume : Nat → Run} (yields : run.move = .yield resume)
    (controller : Field.Controller) (now : Nat) :
    Reaches ⟨controller, now, run⟩ ⟨controller, now, resume now⟩ :=
  of_step (Solo.step_of_yield yields)

end Reaches

/-! ## The opening -/

variable {labels : List Char} {position : Char → Direction}

/-- The run variables have the values that they were given. -/
structure Seeded (controller : Field.Controller) (run : Run) : Prop where
  timerValue : controller.tags.lookup Tag.timerVariable = some (.int run.timerSeed)
  repeatValue : controller.tags.lookup Tag.repeatVariable = some (.int run.repeatSeed)

/-- The variables keep their values when only actuators move. -/
theorem Seeded.commands {after : Field.Controller} (seeded : Seeded controller run)
    {actuations : List Actuation}
    (agree : Field.AgreeOffSensors (Field.assign (actuations.flatMap command) controller.tags)
      after.tags) : Seeded after run where
  timerValue := by
    rw [agree _ fun label direction => (Tag.sensor_ne_timerVariable label direction).symm,
      Field.lookup_assign_commands_of_ne fun label direction =>
        (Tag.coil_ne_timerVariable label direction).symm]
    exact seeded.timerValue
  repeatValue := by
    rw [agree _ fun label direction => (Tag.sensor_ne_repeatVariable label direction).symm,
      Field.lookup_assign_commands_of_ne fun label direction =>
        (Tag.coil_ne_repeatVariable label direction).symm]
    exact seeded.repeatValue

/-- The variables are seeded first. -/
theorem reaches_seeded (rests : controller.AtRest labels position) (run : Run) (now : Nat) :
    ∃ after,
      Reaches ⟨controller, now, run.enter .connecting⟩
        ⟨after, now, run.enter (if run.restWrites.isEmpty then .settling else .resting)⟩ ∧
      after.AtRest labels position ∧ after.log = controller.log ++ [run.seeds] ∧
      Seeded after run := by
  have tags : ∀ write ∈ run.seeds,
      write.tag = Tag.timerVariable ∨ write.tag = Tag.repeatVariable := by
    simp [seeds]
  have accepts : controller.openSession.Accepts labels run.seeds now position := by
    refine rests.openSession.accepts_others now ?_ ?_
    · intro write among label direction
      rcases tags write among with same | same <;> rw [same]
      · exact Tag.coil_ne_timerVariable label direction
      · exact Tag.coil_ne_repeatVariable label direction
    · intro write among label direction
      rcases tags write among with same | same <;> rw [same]
      · exact Tag.sensor_ne_timerVariable label direction
      · exact Tag.sensor_ne_repeatVariable label direction
  have seeded : Seeded (controller.openSession.write run.seeds now).2 run := by
    have other : Tag.timerVariable ≠ Tag.repeatVariable := by decide
    constructor
    · rw [accepts.agree _ fun label direction => (Tag.sensor_ne_timerVariable label direction).symm]
      simp [Field.assign, seeds, Field.lookup_setTag, other]
    · rw [accepts.agree _ fun label direction =>
        (Tag.sensor_ne_repeatVariable label direction).symm]
      simp [Field.assign, seeds, Field.lookup_setTag]
  have connects : (run.enter .connecting).move = _ := rfl
  have opens : (run.enter .opening).move = _ := rfl
  have asks : (run.enter .seeding).move = _ := rfl
  have connected : Reaches ⟨controller, now, run.enter .connecting⟩
      ⟨controller, now, run.enter .opening⟩ := .of_ask connects rfl
  have opened : Reaches ⟨controller, now, run.enter .opening⟩
      ⟨controller.openSession, now, run.enter .seeding⟩ := .of_ask opens rfl
  exact ⟨_, (connected.trans opened).trans (.of_write asks accepts.reply), accepts.rests,
    accepts.log, seeded⟩

/-- Then every actuator of the sequence is sent to rest. -/
theorem reaches_rested (rests : controller.AtRest labels position) (seeded : Seeded controller run)
    (now : Nat) :
    ∃ after,
      Reaches ⟨controller, now, run.enter (if run.restWrites.isEmpty then .settling else .resting)⟩
        ⟨after, now, run.enter .settling⟩ ∧
      after.AtRest labels (fun label => Actuation.heading (position label)
        (run.sequence.labels.map fun label => ⟨label, .retract⟩) label) ∧
      after.log = controller.log ++ (if run.restWrites.isEmpty then [] else [run.restWrites]) ∧
      Seeded after run := by
  have writes := restWrites_eq run
  cases isEmpty : run.restWrites.isEmpty with
  | true =>
      have noLabels :
          (run.sequence.labels.map fun label => (⟨label, .retract⟩ : Actuation)) = [] := by
        rw [List.isEmpty_iff, writes, flatMap_command_eq_nil_iff] at isEmpty
        exact isEmpty
      rw [noLabels]
      exact ⟨controller, .refl _, rests, (List.append_nil _).symm, seeded⟩
  | false =>
      have accepts := rests.accepts_commands
        (run.sequence.labels.map fun label => (⟨label, .retract⟩ : Actuation)) now
      have seeded' := seeded.commands accepts.agree
      rw [← writes] at accepts seeded'
      have asks : (run.enter .resting).move = _ := rfl
      exact ⟨_, .of_write asks accepts.reply, accepts.rests, accepts.log, seeded'⟩

/-- A run that has settled is ready for the first step. -/
theorem reaches_settled (run : Run) (controller : Field.Controller) (now : Nat) :
    ∃ later, Reaches ⟨controller, now, run.enter .settling⟩
      ⟨controller, later, run.await [] (some 0) later⟩ := by
  have asks : (run.enter .settling).move = _ := rfl
  have sleeps : (run.enter .settled).move = _ := rfl
  have asked : Reaches ⟨controller, now, run.enter .settling⟩ ⟨controller, now,
      if run.settings.settle = 0 then run.await [] (some 0) now else run.enter .settled⟩ :=
    .of_checkStop asks controller now
  split at asked
  · exact ⟨now, asked⟩
  · exact ⟨_, asked.trans (.of_sleep sleeps controller now)⟩

/-! ## Waiting for sensors -/

variable {pending : List Actuation} {watch : Watch}

/-- The sensors of actuations show where the actuators stand. -/
theorem lookup_sensor (rests : controller.AtRest labels position) {actuation : Actuation}
    (known : actuation.label ∈ labels) :
    controller.tags.lookup (sensor actuation) =
      some (.bool (position actuation.label == actuation.direction)) :=
  rests.sensor actuation.label known actuation.direction

/-- A look at a sensor. -/
theorem reaches_looked (rests : controller.AtRest labels position) {actuation : Actuation}
    (known : actuation.label ∈ labels) (run : Run) (watch : Watch) (rest : List String)
    (now : Nat) :
    Reaches ⟨controller, now, run.enter (.looking watch (sensor actuation) rest)⟩
      ⟨controller, now,
        if position actuation.label = actuation.direction then
          (run.enter (.looking watch (sensor actuation) rest)).look watch now rest
        else (run.enter (.looking watch (sensor actuation) rest)).wait watch (sensor actuation)
          now⟩ := by
  have asks : (run.enter (.looking watch (sensor actuation) rest)).move = _ := rfl
  have looked := Reaches.of_read asks (rests.read (lookup_sensor rests known) now)
  by_cases on : position actuation.label = actuation.direction
  · rw [if_pos on]
    rwa [beq_iff_eq.mpr on] at looked
  · rw [if_neg on]
    rwa [beq_eq_false_iff_ne.mpr on] at looked

/-- A run that finds every sensor on goes on. -/
theorem reaches_look (rests : controller.AtRest labels position)
    (known : ∀ actuation ∈ pending, actuation.label ∈ labels)
    (confirmed : ∀ actuation ∈ pending, position actuation.label = actuation.direction)
    (run : Run) (watch : Watch) (now : Nat) :
    ∃ phase, Reaches ⟨controller, now, run.look watch now (pending.map sensor)⟩
      ⟨controller, now, (run.enter phase).beginStep now watch.goal⟩ := by
  induction pending generalizing run with
  | nil => exact ⟨run.phase, .refl _⟩
  | cons actuation rest ih =>
      rw [List.forall_mem_cons] at known confirmed
      have looked := reaches_looked rests known.1 run watch (rest.map sensor) now
      rw [if_pos confirmed.1] at looked
      obtain ⟨phase, reached⟩ := ih known.2 confirmed.2
        (run.enter (.looking watch (sensor actuation) (rest.map sensor)))
      exact ⟨phase, looked.trans reached⟩

/-- A run that finds a sensor off waits. -/
theorem reaches_wait (rests : controller.AtRest labels position)
    (known : ∀ actuation ∈ pending, actuation.label ∈ labels)
    (off : ∃ actuation ∈ pending, position actuation.label ≠ actuation.direction)
    (run : Run) (watch : Watch) (now : Nat) :
    ∃ phase, ∃ actuation ∈ pending,
      Reaches ⟨controller, now, run.look watch now (pending.map sensor)⟩
        ⟨controller, now, (run.enter phase).wait watch (sensor actuation) now⟩ := by
  induction pending generalizing run with
  | nil => simp at off
  | cons actuation rest ih =>
      rw [List.forall_mem_cons] at known
      have looked := reaches_looked rests known.1 run watch (rest.map sensor) now
      by_cases here : position actuation.label = actuation.direction
      · rw [if_pos here] at looked
        obtain ⟨phase, found, among, reached⟩ := ih known.2 (by simpa [here] using off)
          (run.enter (.looking watch (sensor actuation) (rest.map sensor)))
        exact ⟨phase, found, List.mem_cons_of_mem actuation among, looked.trans reached⟩
      · rw [if_neg here] at looked
        exact ⟨_, actuation, List.mem_cons_self, looked⟩

theorem lt_deadline {span : UInt64} (nonzero : span ≠ 0) (now : Nat) :
    now < deadline now (.ofMillis span) := by
  have positive : 0 < span.toNat := by
    rw [Nat.pos_iff_ne_zero]
    exact fun zero => nonzero (UInt64.toNat_inj.mp zero)
  rw [deadline, waitEnd, Duration.millisUp, Duration.ofMillis, longestWait]
  simp only
  omega

theorem wait_enter {limit : UInt64} (timeout : run.settings.sensorTimeout = some limit)
    (phase : Phase) (watch : Watch) (sensor : String) (now : Nat) :
    (run.enter phase).wait watch sensor now =
      if limit.toNat ≤ now - watch.since then
        run.fail (.sensorTimeout sensor ((now - watch.since) % UInt64.size))
      else run.enter (.pausing watch) := by
  change Run.wait ⟨run.sequence, run.settings, run.lease, run.timerSeed, run.repeatSeed, run.walk,
    phase⟩ watch sensor now = _
  rw [wait, timeout]
  rfl

/-- A pause between two looks. -/
theorem reaches_polling (polls : run.settings.pollInterval ≠ 0) (watch : Watch)
    (controller : Field.Controller) (now : Nat) :
    Reaches ⟨controller, now, run.enter (.pausing watch)⟩
      ⟨controller, deadline now (.ofMillis run.settings.pollInterval),
        run.enter (.polling watch)⟩ := by
  have pauses : (run.enter (.pausing watch)).move = _ := rfl
  have sleeps : (run.enter (.paused watch)).move = _ := rfl
  have paused : Reaches ⟨controller, now, run.enter (.pausing watch)⟩ ⟨controller, now,
      run.enter (if run.settings.pollInterval = 0 then .polling watch else .paused watch)⟩ :=
    Reaches.of_checkStop pauses controller now
  rw [if_neg polls] at paused
  exact paused.trans (.of_sleep sleeps controller now)

/-- A sensor that never comes on fails the run once the time is up. -/
theorem reaches_timeout {limit : UInt64} (rests : controller.AtRest labels position) (run : Run)
    (watch : Watch) (known : ∀ actuation ∈ watch.pending, actuation.label ∈ labels)
    (off : ∃ actuation ∈ watch.pending, position actuation.label ≠ actuation.direction)
    (timeout : run.settings.sensorTimeout = some limit)
    (polls : run.settings.pollInterval ≠ 0) {now : Nat} (since : watch.since ≤ now) :
    ∃ actuation ∈ watch.pending, ∃ waited later,
      Reaches ⟨controller, now, run.enter (.polling watch)⟩
        ⟨controller, later, run.fail (.sensorTimeout (sensor actuation) waited)⟩ := by
  -- Each round brings the limit nearer.
  obtain ⟨left, leftEq⟩ : ∃ left, limit.toNat - (now - watch.since) = left := ⟨_, rfl⟩
  induction left using Nat.strongRecOn generalizing now with
  | ind left ih =>
      have asks : (run.enter (.polling watch)).move = _ := rfl
      obtain ⟨phase, actuation, among, looked⟩ :=
        reaches_wait rests known off (run.enter (.polling watch)) watch now
      have waits : Reaches ⟨controller, now, run.enter (.polling watch)⟩
          ⟨controller, now, (run.enter phase).wait watch (sensor actuation) now⟩ :=
        (Reaches.of_checkStop asks controller now).trans looked
      rw [wait_enter timeout] at waits
      by_cases up : limit.toNat ≤ now - watch.since
      · rw [if_pos up] at waits
        exact ⟨actuation, among, _, now, waits⟩
      · rw [if_neg up] at waits
        have later := lt_deadline polls now
        have nearer : limit.toNat -
            (deadline now (.ofMillis run.settings.pollInterval) - watch.since) < left := by
          omega
        obtain ⟨found, foundAmong, waited, time, fails⟩ := ih _ nearer (by omega) rfl
        have again := reaches_polling polls watch controller now
        exact ⟨found, foundAmong, waited, time, (waits.trans again).trans fails⟩

/-- A run that has a result gives its controller back. -/
theorem reaches_finished (run : Run) (result : Result) (controller : Field.Controller) (now : Nat) :
    Reaches ⟨controller, now, run.enter (.closing result)⟩
      ⟨controller.closeSession, now, run.enter (.finished result)⟩ := by
  have closes : (run.enter (.closing result)).move = _ := rfl
  have disconnects : (run.enter (.disconnecting result)).move = _ := rfl
  have closed : Reaches ⟨controller, now, run.enter (.closing result)⟩
      ⟨controller.closeSession, now, run.enter (.disconnecting result)⟩ :=
    Reaches.of_ask closes rfl
  exact closed.trans (Reaches.of_ask disconnects rfl)

/-! ## Carrying out a step -/

variable {index : Nat} {step : Step} {seed : Int16}

/-- A timer that depends on the timer variable looks at it. -/
theorem reaches_timing (rests : controller.AtRest labels position)
    (seeded : controller.tags.lookup Tag.timerVariable = some (.int seed)) {delay : Delay}
    {span : Duration} (resolved : delay.resolve seed.toInt = some span) (run : Run) (work : Work)
    (now : Nat) :
    Reaches ⟨controller, now, run.enter (.timing work delay)⟩
      ⟨controller, now, (run.enter (.timing work delay)).carryOut now work.index work.writes
        (max work.delay span) work.tokens⟩ := by
  have asks : (run.enter (.timing work delay)).move = _ := rfl
  have timed := Reaches.of_read asks (rests.read seeded now)
  simp only [orFail, Except.bind, Field.Value.asInt, resolved] at timed
  exact timed

/-- The tokens of a step are gone through one by one; each timer finds the timer variable. -/
theorem reaches_carryOut (rests : controller.AtRest labels position)
    (seeded : controller.tags.lookup Tag.timerVariable = some (.int seed)) {tokens : List Token}
    (noPressure : ∀ token ∈ tokens, token.isPressure = false)
    (resolves : ∀ delay ∈ tokens.filterMap Token.delay?, (delay.resolve seed.toInt).isSome = true)
    (run : Run) (writes : List Field.Write) (delay : Duration) (index now : Nat) :
    ∃ phase longest, Reaches ⟨controller, now, run.carryOut now index writes delay tokens⟩
      ⟨controller, now, (run.enter phase).carryOut now index
        (writes ++ (tokens.filterMap Token.actuation?).flatMap command) longest []⟩ := by
  induction tokens generalizing run writes delay with
  | nil =>
      refine ⟨run.phase, delay, ?_⟩
      rw [List.filterMap_nil, List.flatMap_nil, List.append_nil]
      exact .refl _
  | cons token rest ih =>
      rw [List.forall_mem_cons] at noPressure
      cases token with
      | actuation actuation =>
          obtain ⟨phase, longest, carried⟩ := ih noPressure.2 resolves run
            (writes ++ command actuation) delay
          rw [List.append_assoc] at carried
          rw [carryOut]
          exact ⟨phase, longest, carried⟩
      | timer timer =>
          have resolves' : (timer.resolve seed.toInt).isSome = true ∧
              ∀ delay ∈ rest.filterMap Token.delay?, (delay.resolve seed.toInt).isSome = true :=
            List.forall_mem_cons.mp resolves
          cases timer with
          | fixed span =>
              rw [carryOut]
              exact ih noPressure.2 resolves'.2 run writes (max delay span)
          | relative offset =>
              rw [carryOut]
              obtain ⟨span, resolved⟩ := Option.isSome_iff_exists.mp resolves'.1
              have timed := reaches_timing rests seeded resolved run
                ⟨index, rest, writes, delay⟩ now
              obtain ⟨phase, longest, carried⟩ := ih noPressure.2 resolves'.2
                (run.enter (.timing ⟨index, rest, writes, delay⟩ (.relative offset))) writes
                (max delay span)
              exact ⟨phase, longest, timed.trans carried⟩
      | pressure pressure => exact absurd noPressure.1 (by simp [Token.isPressure])

/-- A step that moves actuators writes their commands at once, and they are obeyed. -/
theorem reaches_written (rests : controller.AtRest labels position) (run : Run) (step : Step)
    (delay : Duration) (index now : Nat) :
    ∃ phase after,
      Reaches ⟨controller, now,
          run.carryOut now index (step.actuations.flatMap command) delay []⟩
        ⟨after, now,
          ({ run with walk := run.walk.wrote step, phase }).beginDelay index delay now⟩ ∧
      after.AtRest labels
        (fun label => Actuation.heading (position label) step.actuations label) ∧
      after.log = controller.log ++ combined step ∧
      Field.AgreeOffSensors
        (Field.assign (step.actuations.flatMap command) controller.tags) after.tags := by
  by_cases idle : step.actuations = []
  · have same : run.walk.wrote step = run.walk := by
      rw [Walk.wrote, idle]
      rfl
    have still : combined step = [] := by
      rw [combined, idle]
      rfl
    rw [same, still, idle, List.append_nil]
    exact ⟨run.phase, controller, .refl _, rests, rfl, .refl _⟩
  · have accepts := rests.accepts_commands step.actuations now
    have asks :
        (run.enter (.acting ⟨index, [], step.actuations.flatMap command, delay⟩)).move = _ := rfl
    have commands : (step.actuations.flatMap command).isEmpty = false := by
      rw [List.isEmpty_eq_false_iff, ne_eq, flatMap_command_eq_nil_iff]
      exact idle
    have moves : run.carryOut now index (step.actuations.flatMap command) delay [] =
        run.enter (.acting ⟨index, [], step.actuations.flatMap command, delay⟩) := by
      rw [carryOut, commands]
      rfl
    have wrote : run.walk.wrote step =
        { run.walk with actuationWrites := run.walk.actuationWrites + 1 } := by
      rw [Walk.wrote, List.isEmpty_eq_false_iff.mpr idle]
      rfl
    have log : combined step = [step.actuations.flatMap command] := by
      rw [combined, List.isEmpty_eq_false_iff.mpr idle]
      rfl
    rw [moves, wrote, log]
    exact ⟨_, _, .of_write asks accepts.reply, accepts.rests, accepts.log, accepts.agree⟩

/-- The timers of a step pass. -/
theorem reaches_leaveStep (run : Run) (delay : Duration) (index : Nat)
    (controller : Field.Controller) (now : Nat) :
    ∃ phase later, Reaches ⟨controller, now, run.beginDelay index delay now⟩
      ⟨controller, later, (run.enter phase).leaveStep index later⟩ := by
  rw [beginDelay]
  split
  · exact ⟨run.phase, now, .refl _⟩
  · have asks : (run.enter (.delaying index delay)).move = _ := rfl
    have sleeps : (run.enter (.delayed index delay)).move = _ := rfl
    have begun := Reaches.of_checkStop asks controller now
    have slept := Reaches.of_sleep sleeps controller now
    exact ⟨_, _, begun.trans slept⟩

/-- The way on from a step is the one of a walk whose questions the repeat variable answers. -/
theorem reaches_follow {sequence : Sequence} (rests : controller.AtRest labels position)
    (seeded : controller.tags.lookup Tag.repeatVariable = some (.int seed)) {leave : Walk.Leave}
    {reads : List Region} {after : Walk} {next : Option Nat}
    (answered : Walk.Answered sequence (fun _ => seed) index leave reads after next)
    (here : sequence.steps[index]? = some step) (run : Run) (sequenceEq : run.sequence = sequence)
    (now : Nat) :
    Reaches ⟨controller, now, run.follow index now leave⟩
      ⟨controller, now, ({ run with walk := after }).await step.actuations next now⟩ := by
  have pending : (run.sequence.steps[index]?.map Step.actuations).getD [] = step.actuations := by
    rw [sequenceEq, here]
    rfl
  induction answered generalizing run with
  | @go walk next =>
      cases next with
      | none =>
          simp only [follow, pending]
          exact .refl _
      | some target =>
          simp only [follow, pending]
          split
          · have yields : (({ run with walk }).enter (.rewinding index target)).move = _ := rfl
            have yielded : Reaches
                ⟨controller, now, ({ run with walk }).enter (.rewinding index target)⟩
                ⟨controller, now, ({ run with walk }).await
                  ((run.sequence.steps[index]?.map Step.actuations).getD []) (some target) now⟩ :=
              .of_yield yields controller now
            rwa [pending] at yielded
          · exact .refl _
  | @ask walk after position rest region reads next found _ ih =>
      have asks : ({ run with walk }.enter (.asking index position rest)).move = _ := rfl
      have asked := Reaches.of_read asks (rests.read seeded now)
      simp only [orFail, Except.bind, Field.Value.asInt] at asked
      refine asked.trans ?_
      subst sequenceEq
      exact ih _ rfl pending

end Bench

end Pneumatic.Run
