import Pneumatic.Proofs.Run.Alike
import Pneumatic.Proofs.Run.Bench
import Pneumatic.Proofs.Run.Launch

/-!
# Runs on an instant controller

Actuators that take no time to travel are where they are sent as soon as they are commanded.
So a run without rounds that never end comes to an end: it completes when every step it waits
for leaves its actuators where each of its commands says, and else a sensor never comes on.
-/

namespace Pneumatic.Run

/-! ## Tallies -/

/-- The walk with which a step is left. -/
def Walk.Leave.walk : Walk.Leave → Walk
  | .ask walk _ _ | .go walk _ => walk

/-- Whether two walks have the same tallies. -/
def Walk.Tallies (walk walk' : Walk) : Prop :=
  walk'.actuationWrites = walk.actuationWrites ∧ walk'.passes = walk.passes

variable {sequence : Sequence} {choice : Region → Int16} {index : Nat}

/-- Regions are left without a write, and a sequence is passed only when it is wrapped. -/
theorem Walk.tallies_leave (unwrapped : sequence.wrapped = false) (index : Nat) (walk : Walk)
    (regions : List Nat) : walk.Tallies (walk.leave sequence index regions).walk := by
  induction regions generalizing walk with
  | nil =>
      rw [Walk.leave, Walk.beyond, unwrapped]
      split
      · exact ⟨rfl, rfl⟩
      · exact ⟨rfl, rfl⟩
  | cons region rest ih =>
      rw [Walk.leave]
      split
      · exact ⟨rfl, rfl⟩
      · exact ⟨rfl, rfl⟩
      · simp only
        split
        · exact ⟨rfl, rfl⟩
        · exact ih _

theorem Walk.Answered.tallies (unwrapped : sequence.wrapped = false) {leave : Walk.Leave}
    {reads : List Region} {after : Walk} {next : Option Nat}
    (answered : Walk.Answered sequence choice index leave reads after next) :
    leave.walk.Tallies after := by
  induction answered with
  | go => exact ⟨rfl, rfl⟩
  | @ask walk after position rest region reads next _ _ ih =>
      have kept := Walk.tallies_leave unwrapped index
        (walk.settle position ((sequence.regions[position]?.map (·.bound)).bind
          (·.passes (choice region).toInt))) (position :: rest)
      exact ⟨ih.1.trans kept.1, ih.2.trans kept.2⟩

/-! ## What comes of visits -/

/-- Where the visits of a run leave an actuator. -/
def headed (visited : List (Nat × Step)) (label : Char) : Direction :=
  Actuation.heading .retract (visited.flatMap fun visit => visit.2.actuations) label

/-- The number of visits that move an actuator. -/
def moving (visited : List (Nat × Step)) : Nat :=
  visited.countP fun visit => !visit.2.actuations.isEmpty

/-- The writes before the first step: the values of the variables and, if the sequence moves
actuators, one that retracts each of them, in the order in which they first appear. -/
def openingWrites (first : Run) : List (List Field.Write) :=
  let labels := ((first.sequence.steps.flatMap Step.actuations).map (·.label)).eraseDups
  first.seeds ::
    if labels.isEmpty then [] else [labels.flatMap fun label => command ⟨label, .retract⟩]

theorem openingWrites_eq (first : Run) :
    openingWrites first =
      first.seeds :: if first.restWrites.isEmpty then [] else [first.restWrites] := by
  have nothing : first.restWrites.isEmpty = first.sequence.labels.isEmpty := by
    rw [Bool.eq_iff_iff, List.isEmpty_iff, List.isEmpty_iff, restWrites_eq,
      flatMap_command_eq_nil_iff, List.map_eq_nil_iff]
  rw [openingWrites, ← Sequence.labels_eq_eraseDups, nothing, restWrites]

/-! ## Visits on a bench -/

namespace Bench

/-- A run that can be carried out with actuators, and waits for none of them for ever. -/
structure Fit (first : Run) (labels : List Char) : Prop where
  noPressure : ∀ step ∈ first.sequence.steps, ∀ token ∈ step.tokens, token.isPressure = false
  resolves : ∀ step ∈ first.sequence.steps, ∀ delay ∈ step.delays,
    (delay.resolve first.timerSeed.toInt).isSome = true
  known : ∀ step ∈ first.sequence.steps, ∀ actuation ∈ step.actuations, actuation.label ∈ labels
  unwrapped : first.sequence.wrapped = false
  timeout : ∃ limit, first.settings.sensorTimeout = some limit
  polls : first.settings.pollInterval ≠ 0

/-- A run that waits for the last one of some visits. -/
def waiting (first : Run) (walk : Walk) (visited : List (Nat × Step)) (next : Option Nat)
    (controller : Field.Controller) (now : Nat) : Bench :=
  ⟨controller, now, ({ first with walk }).await (awaited visited) next now⟩

/-- What a run and its controller have come to with some visits: everything is counted and
logged, and what was commanded is done. -/
structure Done (first : Run) (labels : List Char) (visited : List (Nat × Step)) (walk : Walk)
    (controller : Field.Controller) : Prop where
  writes : walk.actuationWrites = moving visited
  passes : walk.passes = 0
  rests : controller.AtRest labels (headed visited)
  log : controller.log = openingWrites first ++ visited.flatMap fun visit => combined visit.2
  seeded : Seeded controller first
  /-- The controller has the actuators of the last visit. -/
  known : ∀ actuation ∈ awaited visited, actuation.label ∈ labels

/-- The actuators of the last visit are where each of its commands says. -/
def Confirmed (visited : List (Nat × Step)) : Prop :=
  ∀ actuation ∈ awaited visited, headed visited actuation.label = actuation.direction

/-- A bench on which a run comes to wait for its first step. -/
def Opens (first : Run) (labels : List Char) (start : Bench) : Prop :=
  ∃ controller later,
    start.Reaches (waiting first (.start first.sequence) [] (some 0) controller later) ∧
    Done first labels [] (.start first.sequence) controller

variable {first : Run} {labels : List Char} {visited : List (Nat × Step)} {reads : List Region}
  {walk tallied after : Walk} {next : Option Nat} {controller : Field.Controller} {step : Step}

theorem headed_append (visited : List (Nat × Step)) (index : Nat) (step : Step) (label : Char) :
    headed (visited ++ [(index, step)]) label =
      Actuation.heading (headed visited label) step.actuations label := by
  rw [headed, headed, List.flatMap_append, Actuation.heading_append, List.flatMap_singleton]

theorem moving_append (visited : List (Nat × Step)) (index : Nat) (step : Step) :
    moving (visited ++ [(index, step)]) =
      moving visited + if step.actuations.isEmpty then 0 else 1 := by
  rw [moving, List.countP_append, List.countP_singleton]
  cases step.actuations.isEmpty <;> rfl

/-- A wait that is over. -/
theorem Done.goesOn (done : Done first labels visited walk controller)
    (confirmed : Confirmed visited) (next : Option Nat) (now : Nat) :
    ∃ phase, Reaches (waiting first walk visited next controller now)
      ⟨controller, now, ({ first with walk, phase }).beginStep now next⟩ := by
  have asks : (({ first with walk }).await (awaited visited) next now).move = _ := rfl
  obtain ⟨phase, looked⟩ := reaches_look done.rests done.known confirmed
    (({ first with walk }).await (awaited visited) next now) ⟨awaited visited, now, next⟩ now
  exact ⟨phase, (Reaches.of_checkStop asks controller now).trans looked⟩

/-- A run that waits for what was done carries out its next step. -/
theorem Done.visit (fit : Fit first labels) (done : Done first labels visited tallied controller)
    (confirmed : Confirmed visited) (like : walk.Like tallied)
    (here : first.sequence.steps[index]? = some step)
    (answered : Walk.Answered first.sequence (fun _ => first.repeatSeed) index
      (walk.advance first.sequence index) reads after next) (now : Nat) :
    ∃ tallied' controller' later,
      Reaches (waiting first tallied visited (some index) controller now)
        (waiting first tallied' (visited ++ [(index, step)]) next controller' later) ∧
      after.Like tallied' ∧
      Done first labels (visited ++ [(index, step)]) tallied' controller' := by
  have among := List.mem_of_getElem? here
  obtain ⟨seen, begun⟩ := done.goesOn confirmed (some index) now
  rw [beginStep, here] at begun
  obtain ⟨timed, longest, carried⟩ := reaches_carryOut done.rests done.seeded.timerValue
    (fit.noPressure step among) (fit.resolves step among)
    { first with walk := tallied, phase := seen } [] .zero index now
  obtain ⟨issued, controller', written, rests, log, agree⟩ := reaches_written done.rests
    { first with walk := tallied, phase := timed } step longest index now
  obtain ⟨passed, later, left⟩ := reaches_leaveStep
    { first with walk := tallied.wrote step, phase := issued } longest index controller' now
  have seeded := done.seeded.commands agree
  have alike : walk.Like (tallied.wrote step) := like
  obtain ⟨tallied', like', answered'⟩ := answered.like
    (alike.leave (Sequence.regionsEndingAt first.sequence.regions index))
  have followed := reaches_follow rests seeded.repeatValue answered' here
    { first with walk := tallied.wrote step, phase := passed } rfl later
  have tallies := answered'.tallies fit.unwrapped
  have kept := Walk.tallies_leave fit.unwrapped index (tallied.wrote step)
    (Sequence.regionsEndingAt first.sequence.regions index)
  refine ⟨tallied', controller', later, ?_, like', ?_⟩
  · rw [waiting, waiting, awaited_append]
    exact (begun.trans carried).trans (written.trans (left.trans followed))
  · refine ⟨?_, ?_, ?_, ?_, seeded, ?_⟩
    · rw [moving_append, ← done.writes, tallies.1, kept.1]
      rfl
    · rw [tallies.2, kept.2]
      exact done.passes
    · rw [funext (headed_append visited index step)]
      exact rests
    · rw [log, done.log, List.flatMap_append, List.flatMap_singleton, List.append_assoc]
    · rw [awaited_append]
      exact fit.known step among

/-- A run that was confirmed to the end completes. -/
theorem Done.completes (done : Done first labels visited walk controller)
    (confirmed : Confirmed visited) (now : Nat) :
    Reaches (waiting first walk visited none controller now)
      ⟨controller.closeSession, now,
        { first with
          walk := { walk with passes := 1 }
          phase := .finished (.ok ⟨first.lease.run, first.lease.address, .completed,
            moving visited, 1, first.timerSeed, first.repeatSeed⟩) }⟩ := by
  obtain ⟨phase, reached⟩ := done.goesOn confirmed none now
  let passed : Run := { first with walk := { walk with passes := 1 } }
  have completes : ({ first with walk, phase }).beginStep now none =
      passed.enter (.closing (.ok (passed.report .completed))) := by
    rw [beginStep, complete, done.passes]
    rfl
  have reported : passed.report .completed = ⟨first.lease.run, first.lease.address, .completed,
      moving visited, 1, first.timerSeed, first.repeatSeed⟩ := by
    rw [report, ← done.writes]
  rw [completes, reported] at reached
  exact reached.trans (reaches_finished passed _ controller now)

/-- A run that is never confirmed fails. -/
theorem Done.fails (fit : Fit first labels) (done : Done first labels visited walk controller)
    (unconfirmed : ¬ Confirmed visited) (next : Option Nat) (now : Nat) :
    ∃ actuation waited later,
      Reaches (waiting first walk visited next controller now)
        ⟨controller.closeSession, later,
          { first with
            walk, phase := .finished (.error (.sensorTimeout (sensor actuation) waited)) }⟩ := by
  obtain ⟨limit, timeout⟩ := fit.timeout
  have off : ∃ actuation ∈ awaited visited,
      headed visited actuation.label ≠ actuation.direction := by
    simpa [Confirmed] using unconfirmed
  obtain ⟨actuation, -, waited, later, failed⟩ := reaches_timeout done.rests { first with walk }
    ⟨awaited visited, now, next⟩ done.known off timeout fit.polls (Nat.le_refl now)
  exact ⟨actuation, waited, later, failed.trans (reaches_finished _ _ _ _)⟩

/-- A run opens on a controller whose actuators are retracted and that was not written to. -/
theorem opens_of_start {settings : Settings} {lease : Device.Lease}
    {timerSeed repeatSeed : Int16}
    (begins : first = .start sequence settings lease timerSeed repeatSeed)
    (rests : controller.AtRest labels fun _ => .retract) (unwritten : controller.log = [])
    (now : Nat) : Opens first labels ⟨controller, now, first⟩ := by
  obtain ⟨before, seeds, rests, log, seeded⟩ := reaches_seeded rests first now
  obtain ⟨after, goes, rests, log', seeded⟩ := reaches_rested rests seeded now
  obtain ⟨later, settles⟩ := reaches_settled first after now
  have retracted : (fun label => Actuation.heading .retract
      (first.sequence.labels.map fun label => ⟨label, .retract⟩) label) = headed [] := by
    funext label
    change _ = Direction.retract
    exact Actuation.heading_of_forall (.inl rfl) (by simp)
  refine ⟨after, later, ?_, rfl, rfl, retracted ▸ rests, ?_, seeded, by simp [awaited]⟩
  · subst begins
    exact (seeds.trans goes).trans settles
  · rw [log', log, unwritten, openingWrites_eq]
    simp

/-! ## The whole run -/

theorem confirmed_append (visited : List (Nat × Step)) (index : Nat) (step : Step) :
    Confirmed (visited ++ [(index, step)]) ↔ step.OneWay := by
  rw [Confirmed, awaited_append]
  constructor
  · intro confirmed left leftAmong right rightAmong same
    rw [← confirmed left leftAmong, ← confirmed right rightAmong, same]
  · intro oneWay actuation among
    rw [headed_append]
    exact Actuation.heading_of_forall (.inr ⟨actuation, among, rfl⟩) fun other otherAmong same =>
      oneWay other otherAmong actuation among same

/-- Where every earlier visit was confirmed, the last one is confirmed if all went one way. -/
theorem confirmed_iff (earlier : ∀ visit ∈ visited.dropLast, visit.2.OneWay) :
    Confirmed visited ↔ ∀ visit ∈ visited, visit.2.OneWay := by
  rcases List.eq_nil_or_concat' visited with rfl | ⟨before, ⟨index, step⟩, rfl⟩
  · simp [Confirmed, awaited]
  · rw [List.dropLast_concat] at earlier
    rw [confirmed_append, List.forall_mem_append, List.forall_mem_singleton]
    exact (and_iff_right earlier).symm

/-- A bench on which a run completes with visits that are counted, logged and done. -/
def Completes (first : Run) (labels : List Char) (visited : List (Nat × Step)) (start : Bench) :
    Prop :=
  ∃ controller later walk,
    start.Reaches ⟨controller, later,
      { first with
        walk
        phase := .finished (.ok ⟨first.lease.run, first.lease.address, .completed,
          moving visited, 1, first.timerSeed, first.repeatSeed⟩) }⟩ ∧
    controller.AtRest labels (headed visited) ∧
    controller.log = openingWrites first ++ visited.flatMap fun visit => combined visit.2

/-- A bench on which a run fails because a sensor never comes on. -/
def TimesOut (start : Bench) : Prop :=
  ∃ controller later run actuation waited, start.Reaches ⟨controller, later, run⟩ ∧
    run.phase = .finished (.error (.sensorTimeout (sensor actuation) waited))

/-- A run makes its visits and waits for the last of them, all the others having gone one way,
or one of its visits did not and it fails. -/
theorem done_or_timesOut (fit : Fit first labels) {start : Bench}
    (opens : Opens first labels start) {count : Nat}
    (visits : Visits first.sequence (fun _ => first.repeatSeed) count visited reads next walk) :
    (∃ tallied controller later,
      start.Reaches (waiting first tallied visited next controller later) ∧
      walk.Like tallied ∧ Done first labels visited tallied controller ∧
      ∀ visit ∈ visited.dropLast, visit.2.OneWay) ∨
    (TimesOut start ∧ ∃ visit ∈ visited, ¬ visit.2.OneWay) := by
  induction visits with
  | start =>
      obtain ⟨controller, later, reached, done⟩ := opens
      exact .inl ⟨_, controller, later, reached, ⟨rfl, rfl⟩, done, by simp⟩
  | @visit count index visited reads more walk after step next _ here answered ih =>
      rcases ih with ⟨tallied, controller, now, reached, like, done, earlier⟩ | ⟨fails, other⟩
      · by_cases confirmed : Confirmed visited
        · obtain ⟨tallied', controller', later, goesOn, like', done'⟩ :=
            done.visit fit confirmed like here answered now
          refine .inl ⟨tallied', controller', later, reached.trans goesOn, like', done', ?_⟩
          rw [List.dropLast_concat]
          exact (confirmed_iff earlier).mp confirmed
        · obtain ⟨actuation, waited, later, failed⟩ := done.fails fit confirmed (some index) now
          refine .inr ⟨⟨_, later, _, actuation, waited, reached.trans failed, rfl⟩, ?_⟩
          have other : ∃ visit ∈ visited, ¬ visit.2.OneWay := by
            simpa [confirmed_iff earlier] using confirmed
          obtain ⟨visit, among, turns⟩ := other
          exact ⟨visit, List.mem_append_left _ among, turns⟩
      · obtain ⟨visit, among, turns⟩ := other
        exact .inr ⟨fails, visit, List.mem_append_left _ among, turns⟩
  | rest _ ih => exact ih

/-- A run that comes to an end completes if all its visits went one way, and fails if not. -/
theorem completes_or_timesOut (fit : Fit first labels) {start : Bench}
    (opens : Opens first labels start) {count : Nat}
    (visits : Visits first.sequence (fun _ => first.repeatSeed) count visited reads none walk) :
    (Completes first labels visited start ∧ ∀ visit ∈ visited, visit.2.OneWay) ∨
      (TimesOut start ∧ ∃ visit ∈ visited, ¬ visit.2.OneWay) := by
  rcases done_or_timesOut fit opens visits with
    ⟨tallied, controller, now, reached, -, done, earlier⟩ | fails
  · by_cases confirmed : Confirmed visited
    · have completed := reached.trans (done.completes confirmed now)
      exact .inl ⟨⟨_, now, _, completed, done.rests.closeSession, done.log⟩,
        (confirmed_iff earlier).mp confirmed⟩
    · obtain ⟨actuation, waited, later, failed⟩ := done.fails fit confirmed none now
      refine .inr ⟨⟨_, later, _, actuation, waited, reached.trans failed, rfl⟩, ?_⟩
      simpa [confirmed_iff earlier] using confirmed
  · exact .inr fails

/-- A run alone in a plant ends as on the bench with its controller. -/
theorem run_of_reaches {launch : Launch} {plant : Plant} {clock : Nat} {held : Schedule Plant}
    (prepared : Schedule.prepare Plant.field launch ⟨plant, clock, []⟩ = .ok (first, held))
    (found : plant.controller? first.endpoint = some controller) {after : Field.Controller}
    {later : Nat} {run : Run} (reaches : Reaches ⟨controller, clock, first⟩ ⟨after, later, run⟩)
    {result : Result} (halts : run.phase = .finished result) :
    ∃ ended, Schedule.run Plant.field launch ⟨plant, clock, []⟩ = (some result, ended) ∧
      ended.world.controller? run.endpoint = some after := by
  obtain ⟨sequence, holds⟩ := Schedule.holds_of_prepare prepared
  have within : Within ⟨controller, held.clock, first⟩ held.world := by
    obtain ⟨record, known⟩ := holds.find?_self fun _ _ => rfl
    have heldEq := holds.heldEq
    refine ⟨?_, ?_⟩
    · rw [heldEq]
      exact found
    · rw [holds.lease_eq, Device.Registry.stopRequested]
      exact congrArg (Option.any (·.stopRequested)) known
  obtain ⟨count, reached⟩ := reaches
  obtain ⟨ended, moves, within'⟩ := iterate_within within count
  have clockEq : held.clock = clock := by
    rw [holds.heldEq]
    rfl
  rw [clockEq] at moves within'
  rw [reached] at moves within'
  have halted : ((Solo.step Plant.field)^[count] ⟨held.world, held.clock, first⟩).result? =
      some result := by
    rw [clockEq, moves, Solo.result?, move]
    simp only [halts]
  have ran := Schedule.run_of_result? holds.tasks_eq prepared halted
  rw [clockEq, moves] at ran
  exact ⟨_, ran, within'.controller⟩

end Bench

namespace Schedule

variable {launch : Launch} {plant : Plant} {clock : Nat} {first : Run} {held : Schedule Plant}
  {labels : List Char}

/-- What has come of a run that completes with some visits: a report that counts them, a log
with one write for each that moves actuators, and sensors that show what was commanded last. -/
structure Accomplished (launch : Launch) (first : Run) (labels : List Char)
    (visited : List (Nat × Step)) (result : Result) (controller : Field.Controller) : Prop where
  resultEq : result = .ok ⟨first.lease.run, launch.address, .completed, moving visited, 1,
    launch.timerSeed, launch.repeatSeed⟩
  log : controller.log =
    openingWrites first ++ visited.flatMap fun visit => combined visit.2
  sensors : ∀ label ∈ labels, ∀ direction now,
    (controller.tag (sensor ⟨label, direction⟩) now).1 =
      some (.bool (headed visited label == direction))

/-- A run on a controller whose actuators take no time to travel, built new with all that the
sequence moves, with a limit on waiting and no round that never ends, comes to an end.  If no
step commands an actuator in both directions, it completes with the visits of the unfolding.
Otherwise it fails because a sensor never comes on. -/
theorem run_instant
    (prepared : prepare Plant.field launch ⟨plant, clock, []⟩ = .ok (first, held))
    (bounded : ∀ region ∈ first.sequence.regions, region.bound ≠ .unbounded)
    (unwrapped : first.sequence.wrapped = false)
    (resolves : ∀ step ∈ first.sequence.steps, ∀ delay ∈ step.delays,
      (delay.resolve launch.timerSeed.toInt).isSome = true)
    (instant : plant.controller? (Field.endpoint launch.address launch.settings.endpointPort) =
      some (.withActuators 0 labels))
    (built : ∀ step ∈ first.sequence.steps, ∀ actuation ∈ step.actuations,
      actuation.label ∈ labels)
    (timeout : launch.settings.sensorTimeout.isSome = true)
    (polls : launch.settings.pollInterval ≠ 0) :
    ∃ visited result ended,
      (first.sequence.unfolding fun _ => launch.repeatSeed) = .ends visited ∧
      run Plant.field launch ⟨plant, clock, []⟩ = (some result, ended) ∧
      (first.sequence.OneWay → ∃ controller,
        ended.world.controller? (Field.endpoint launch.address launch.settings.endpointPort) =
          some controller ∧
        Accomplished launch first labels visited result controller) ∧
      (¬ first.sequence.OneWay →
        ∃ sensor waited, result = .error (.sensorTimeout sensor waited)) := by
  obtain ⟨sequence, holds⟩ := holds_of_prepare prepared
  obtain rfl := holds.firstEq
  have nonempty := Sequence.nodes_ne_nil_of_parse holds.parsed
  have solid := Sequence.solid_of_parse holds.parsed
  have ends : (sequence.unfolding fun _ => launch.repeatSeed).isEnding = true :=
    (isEnding_unfolding solid).mpr ⟨bounded, unwrapped⟩
  obtain ⟨count, visited, reads, walk, visits⟩ := (exists_end_iff nonempty solid).mpr ends
  have unfolded := visits.unfolding_eq nonempty solid
  have fit : Bench.Fit _ labels :=
    { noPressure := fun step among token inside => by
        have plain := List.find?_eq_none.mp holds.noPressure token
          (List.mem_flatMap.mpr ⟨step, among, inside⟩)
        rwa [Bool.not_eq_true] at plain
      resolves
      known := built
      unwrapped
      timeout := Option.isSome_iff_exists.mp timeout
      polls }
  have outcome := Bench.completes_or_timesOut fit
    (Bench.opens_of_start rfl (Field.Controller.atRest_withActuators labels)
      (Field.Controller.log_withActuators 0 labels) clock) visits
  rcases outcome with ⟨completes, oneWay⟩ | ⟨fails, turns⟩
  · obtain ⟨controller, later, walk, reaches, rests, log⟩ := completes
    obtain ⟨ended, ran, found⟩ := Bench.run_of_reaches prepared instant reaches rfl
    have sensors : ∀ label ∈ labels, ∀ direction now,
        (controller.tag (sensor ⟨label, direction⟩) now).1 =
          Option.some (.bool (headed visited label == direction)) := by
      intro label among direction now
      rw [rests.tag]
      exact rests.sensor label among direction
    refine ⟨visited, _, ended, unfolded, ran, fun _ => ⟨controller, found, rfl, log, sensors⟩, ?_⟩
    intro turns
    refine absurd (Sequence.oneWay_iff.mpr fun step among => ?_) turns
    have straight : sequence.wrapped = false := unwrapped
    rw [Sequence.unfolding, straight] at unfolded
    obtain ⟨index, comes⟩ := Tour.exists_mem_of_unfoldAll _ _ _ _ _ unfolded step among
    exact oneWay (index, step) comes
  · obtain ⟨controller, later, run, actuation, waited, reaches, finished⟩ := fails
    obtain ⟨ended, ran, -⟩ := Bench.run_of_reaches prepared instant reaches finished
    refine ⟨visited, _, ended, unfolded, ran, ?_, fun _ => ⟨_, waited, rfl⟩⟩
    intro oneWay
    obtain ⟨visit, among, both⟩ := turns
    exact absurd (oneWay visit.2 (List.mem_of_getElem? (visits.getElem? visit among))) both

/-- A region with the repeat variable at two: an actuator that is where it is sent stays there,
and the step without actuators writes nothing. -/
theorem run_instant_repeat :
    ∃ plant first held visited ended controller,
      prepare Plant.field ⟨"A+,[B+,TS]^N,(A-,B-)", "plc",
        { Settings.default with sensorTimeout := some 1000 }, 1, 2⟩ ⟨plant, 0, []⟩ =
          .ok (first, held) ∧
      visited.map (·.1) = [0, 1, 2, 1, 2, 3] ∧ moving visited = 4 ∧
      run Plant.field ⟨"A+,[B+,TS]^N,(A-,B-)", "plc",
        { Settings.default with sensorTimeout := some 1000 }, 1, 2⟩ ⟨plant, 0, []⟩ =
          (some (.ok ⟨0, "plc", .completed, 4, 1, 1, 2⟩), ended) ∧
      ended.world.controller? (Field.endpoint "plc" 4840) = some controller ∧
      controller.log.length = 6 := by
  let plant : Plant := .single "plc" 4840 (.withActuators 0 ['A', 'B'])
  let launch : Launch := ⟨"A+,[B+,TS]^N,(A-,B-)", "plc",
    { Settings.default with sensorTimeout := some 1000 }, 1, 2⟩
  have fits : ((prepare Plant.field launch ⟨plant, 0, []⟩).toOption.any fun held =>
      let sequence := held.1.sequence
      let visited := (sequence.unfolding fun _ => 2).take 10
      decide (∀ region ∈ sequence.regions, region.bound ≠ .unbounded) && !sequence.wrapped &&
        decide (∀ step ∈ sequence.steps, ∀ delay ∈ step.delays,
          (delay.resolve launch.timerSeed.toInt).isSome = true) &&
        decide (∀ step ∈ sequence.steps, ∀ actuation ∈ step.actuations,
          actuation.label ∈ ['A', 'B']) &&
        decide (∀ step ∈ sequence.steps, step.OneWay) &&
        decide (visited.map (·.1) = [0, 1, 2, 1, 2, 3]) && moving visited == 4 &&
        (openingWrites held.1 ++ visited.flatMap fun visit => combined visit.2).length == 6 &&
        held.1.lease.run == 0) = true := by
    decide +kernel
  obtain ⟨⟨first, held⟩, prepared, fits⟩ := any_toOption_iff.mp fits
  simp only [Bool.and_eq_true, beq_iff_eq, decide_eq_true_eq, Bool.not_eq_true'] at fits
  obtain ⟨⟨⟨⟨⟨⟨⟨⟨bounded, unwrapped⟩, resolves⟩, built⟩, oneWay⟩, indices⟩, moves⟩, writes⟩,
    runEq⟩ := fits
  have instant :
      plant.controller? (Field.endpoint launch.address launch.settings.endpointPort) =
        some (.withActuators 0 ['A', 'B']) := List.lookup_cons_self
  obtain ⟨visited, result, ended, unfolded, ran, completes, -⟩ :=
    run_instant prepared bounded unwrapped resolves instant built rfl (by decide)
  obtain ⟨controller, found, resultEq, log, -⟩ := completes oneWay
  have whole : visited.take 10 = visited := by
    rw [unfolded, Course.take] at indices
    have short := congrArg List.length indices
    rw [List.length_map, List.length_take] at short
    exact List.take_of_length_le (by simp at short; omega)
  rw [show launch.repeatSeed = 2 from rfl] at unfolded
  rw [unfolded, Course.take, whole] at indices moves writes
  rw [moves, runEq] at resultEq
  exact ⟨plant, first, held, visited, ended, controller, prepared, indices, moves,
    resultEq ▸ ran, found, log ▸ writes⟩

/-- An actuator that a step sends both ways is not seen where it was sent first. -/
example :
    ((prepare Plant.field ⟨"B+,(A+,A-)", "plc", { Settings.default with sensorTimeout := some 100 },
        1, 1⟩ ⟨.single "plc" 4840 (.withActuators 0 ['A', 'B']), 0, []⟩).toOption.any fun held =>
      ((Solo.step Plant.field)^[40] ⟨held.2.world, held.2.clock, held.1⟩).result? ==
        some (.error (.sensorTimeout "Sensor_A_Extended" 100))) = true := by
  decide +kernel

end Schedule

end Pneumatic.Run
