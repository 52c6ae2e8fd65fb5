import Pneumatic.Proofs.Run.Alone
import Pneumatic.Proofs.Run.Visits

/-!
# The order of a run

Whatever the field answers, and whenever a stop request comes, no step begins before the
step visited last is confirmed: in one round of looks that nothing interrupts, each of its
actuations was seen at its end.  A step issues its actuations as one write, once a visit.

The log of a run divides accordingly: an opening, then visit after visit a wait, the work of
a step and the way on, at last what was begun and not finished, and the closing.
-/

namespace Pneumatic.Run

/-! ## The parts of a log -/

namespace Event

/-- What comes before the first step. -/
def Opens (first : Run) : Event → Prop
  | .asked .connect _ | .asked .openSession _ | .asked .checkStop _ | .slept _ _ => True
  | .asked (.write writes) _ => writes = first.seeds ∨ writes = first.restWrites
  | _ => False

/-- What a wait for sensors consists of. -/
def Polls (pending : List Actuation) : Event → Prop
  | .asked .checkStop _ | .slept _ _ => True
  | .asked (.read tag) _ => ∃ actuation ∈ pending, tag = sensor actuation
  | _ => False

/-- A look at the timer variable. -/
def Times : Event → Prop
  | .asked (.read tag) _ => tag = Tag.timerVariable
  | _ => False

/-- What a step does after its write: sleep for its timers, and ask for the bounds of the
regions that end at it. -/
def Lingers : Event → Prop
  | .asked .checkStop _ | .slept _ _ => True
  | .asked (.read tag) _ => tag = Tag.repeatVariable
  | _ => False

/-- What gives the controller back. -/
def Closes : Event → Prop
  | .asked .closeSession _ | .asked .disconnect _ => True
  | _ => False

end Event

/-- The actuations to be confirmed after some visits: those of the last one. -/
def awaited (visited : List (Nat × Step)) : List Actuation :=
  (visited.getLast?.map fun visit => visit.2.actuations).getD []

theorem awaited_append (visited : List (Nat × Step)) (index : Nat) (step : Step) :
    awaited (visited ++ [(index, step)]) = step.actuations := by
  simp [awaited]

/-- A round of looks that finds every sensor on. -/
def confirmation (pending : List Actuation) : List Event :=
  .asked .checkStop false ::
    pending.map fun actuation => .asked (.read (sensor actuation)) (.ok (.bool true))

/-- A wait that ends with such a round. -/
def Confirms (pending : List Actuation) (log : List Event) : Prop :=
  ∃ polls, log = polls ++ confirmation pending ∧ ∀ event ∈ polls, event.Polls pending

/-- The combined write of a step.  There is none if it moves nothing. -/
def written (step : Step) : List Event :=
  if step.actuations.isEmpty then []
  else [.asked (.write (step.actuations.flatMap command)) (.ok ())]

/-- All that is done to carry out a step. -/
def CarriesOut (step : Step) (log : List Event) : Prop :=
  ∃ timings pause, log = timings ++ written step ++ pause ∧ (∀ event ∈ timings, event.Times) ∧
    (pause = [] ∨ ∃ span, pause = [.asked .checkStop false, .slept span false])

/-- What is done of a step that is not left. -/
inductive Attempts (step : Step) : List Event → Prop where
  | timing {timings : List Event} : (∀ event ∈ timings, event.Times) → Attempts step timings
  | writing {timings : List Event} {reply : Except Field.Error Unit} :
      (∀ event ∈ timings, event.Times) → step.actuations ≠ [] →
      Attempts step (timings ++ [.asked (.write (step.actuations.flatMap command)) reply])
  | lingering {timings rest : List Event} :
      (∀ event ∈ timings, event.Times) → (∀ event ∈ rest, event.Lingers) →
      Attempts step (timings ++ written step ++ rest)

/-- The way on from a step: a look at the repeat variable for each bound that is open, and
other runs go first before a step is repeated. -/
inductive Departs (sequence : Sequence) (index : Nat) :
    Walk.Leave → List Event → Walk → Option Nat → Prop where
  | back {walk : Walk} {next : Nat} :
      next ≤ index → Departs sequence index (.go walk (some next)) [.yielded] walk (some next)
  | on {walk : Walk} {next : Option Nat} :
      (∀ target ∈ next, index < target) → Departs sequence index (.go walk next) [] walk next
  | ask {walk after : Walk} {region : Nat} {rest : List Nat} {value : Int16} {log : List Event}
      {next : Option Nat} :
      Departs sequence index (walk.answer sequence index region rest value.toInt) log after next →
      Departs sequence index (.ask walk region rest)
        (.asked (.read Tag.repeatVariable) (.ok (.int value)) :: log) after next

/-- A walk that counts the write of a step. -/
def Walk.wrote (walk : Walk) (step : Step) : Walk :=
  { walk with
    actuationWrites := walk.actuationWrites + if step.actuations.isEmpty then 0 else 1 }

/-- The log until the variables have their values. -/
def seeded (first : Run) : List Event :=
  [.asked .connect (.ok ()), .asked .openSession (.ok ()), .asked (.write first.seeds) (.ok ())]

/-- The log until every actuator is sent to rest. -/
def rested (first : Run) : List Event :=
  seeded first ++
    if first.restWrites.isEmpty then [] else [.asked (.write first.restWrites) (.ok ())]

/-- The log until the first step is due. -/
def opened (first : Run) : List Event :=
  rested first ++ .asked .checkStop false ::
    if first.settings.settle = 0 then [] else [.slept (.ofMillis first.settings.settle) false]

/-- The visits of a run with their log, the index of the next step, and the walk. -/
inductive History (first : Run) :
    List (Nat × Step) → List Event → Option Nat → Walk → Prop where
  | opening : History first [] (opened first) (some 0) (.start first.sequence)
  | visit {visited : List (Nat × Step)} {before wait work leave : List Event} {index : Nat}
      {walk after : Walk} {step : Step} {next : Option Nat} :
      History first visited before (some index) walk →
      first.sequence.steps[index]? = some step →
      Confirms (awaited visited) wait →
      CarriesOut step work →
      Departs first.sequence index ((walk.wrote step).advance first.sequence index) leave after
        next →
      History first (visited ++ [(index, step)]) (before ++ wait ++ work ++ leave) next after

/-- A log in order: not beyond the opening, waiting for the step visited last, or with a step
begun that was due and whose turn it was. -/
inductive InOrder (first : Run) : List Event → Prop where
  | opening {log : List Event} : (∀ event ∈ log, event.Opens first) → InOrder first log
  | waiting {visited : List (Nat × Step)} {before polls : List Event} {next : Option Nat}
      {walk : Walk} :
      History first visited before next walk →
      (∀ event ∈ polls, event.Polls (awaited visited)) →
      InOrder first (before ++ polls)
  | working {visited : List (Nat × Step)} {before wait work : List Event} {index : Nat}
      {walk : Walk} {step : Step} :
      History first visited before (some index) walk →
      first.sequence.steps[index]? = some step →
      Confirms (awaited visited) wait →
      Attempts step work →
      InOrder first (before ++ wait ++ work)

/-- The log of a run with a result, but for the closing.  A run that completed confirmed the
last step it visited, and no step was left. -/
def Concluded (first : Run) (log : List Event) (result : Result) : Prop :=
  InOrder first log ∧ ∀ report, result = .ok report → report.outcome = .completed →
    ∃ visited before wait walk, log = before ++ wait ∧ History first visited before none walk ∧
      Confirms (awaited visited) wait

/-! ## What the log tells in each phase -/

/-- A wait that goes on. -/
def Waits (first : Run) (watch : Watch) (walk : Walk) (log : List Event) : Prop :=
  ∃ visited before polls, log = before ++ polls ∧
    History first visited before watch.goal walk ∧ watch.pending = awaited visited ∧
    ∀ event ∈ polls, event.Polls watch.pending

/-- A step that is due and whose turn it is. -/
def Begins (first : Run) (visited : List (Nat × Step)) (index : Nat) (step : Step) (walk : Walk)
    (log : List Event) : Prop :=
  first.sequence.steps[index]? = some step ∧ ∃ before wait, log = before ++ wait ∧
    History first visited before (some index) walk ∧ Confirms (awaited visited) wait

/-- The writes of a work are the commands of the tokens carried out before those left. -/
def Work.Carries (work : Work) (sequence : Sequence) (left : List Token) : Prop :=
  ∃ step done, sequence.steps[work.index]? = some step ∧ step.tokens = done ++ left ∧
    work.writes = (done.filterMap Token.actuation?).flatMap command

/-- What the log of a run tells. -/
def Told (first : Run) (log : List Event) (run : Run) : Prop :=
  match run.phase with
  | .connecting => log = [] ∧ run.walk = .start first.sequence
  | .opening => log = [.asked .connect (.ok ())] ∧ run.walk = .start first.sequence
  | .seeding =>
      log = [.asked .connect (.ok ()), .asked .openSession (.ok ())] ∧
        run.walk = .start first.sequence
  | .resting =>
      log = seeded first ∧ first.restWrites.isEmpty = false ∧ run.walk = .start first.sequence
  | .settling => log = rested first ∧ run.walk = .start first.sequence
  | .settled =>
      log = rested first ++ [.asked .checkStop false] ∧ first.settings.settle ≠ 0 ∧
        run.walk = .start first.sequence
  | .polling watch | .pausing watch | .paused watch => Waits first watch run.walk log
  | .looking watch found rest =>
      ∃ begun seen left, Waits first watch run.walk begun ∧ log = begun ++ confirmation seen ∧
        watch.pending = seen ++ left ∧ left.map sensor = found :: rest
  | .timing work delay =>
      ∃ visited step begun timings, Begins first visited work.index step run.walk begun ∧
        log = begun ++ timings ∧ (∀ event ∈ timings, event.Times) ∧
        work.Carries first.sequence (.timer delay :: work.tokens)
  | .acting work =>
      ∃ visited step begun timings, Begins first visited work.index step run.walk begun ∧
        log = begun ++ timings ∧ (∀ event ∈ timings, event.Times) ∧
        work.Carries first.sequence [] ∧ work.writes ≠ []
  | .delaying index _ =>
      ∃ visited step walk begun timings, Begins first visited index step walk begun ∧
        run.walk = walk.wrote step ∧ log = begun ++ (timings ++ written step) ∧
        ∀ event ∈ timings, event.Times
  | .delayed index _ =>
      ∃ visited step walk begun timings, Begins first visited index step walk begun ∧
        run.walk = walk.wrote step ∧
        log = begun ++ (timings ++ written step ++ [.asked .checkStop false]) ∧
        ∀ event ∈ timings, event.Times
  | .asking index region rest =>
      ∃ visited step walk begun work asked, Begins first visited index step walk begun ∧
        log = begun ++ work ++ asked ∧ CarriesOut step work ∧
        (∀ event ∈ asked, event.Lingers) ∧
        ∀ more after next,
          Departs first.sequence index (.ask run.walk region rest) more after next →
          Departs first.sequence index ((walk.wrote step).advance first.sequence index)
            (asked ++ more) after next
  | .rewinding index next =>
      next ≤ index ∧ ∃ visited step walk begun work asked,
        Begins first visited index step walk begun ∧
        log = begun ++ work ++ asked ∧ CarriesOut step work ∧
        (∀ event ∈ asked, event.Lingers) ∧
        Departs first.sequence index ((walk.wrote step).advance first.sequence index)
          (asked ++ [.yielded]) run.walk (some next)
  | .closing result => Concluded first log result
  | .disconnecting result | .finished result =>
      ∃ steps closing, log = steps ++ closing ∧ Concluded first steps result ∧
        ∀ event ∈ closing, event.Closes

/-! ## Logs in order -/

variable {first run : Run} {log begun timings work : List Event} {visited : List (Nat × Step)}
  {index : Nat} {step : Step} {walk : Walk} {watch : Watch}

theorem written_eq_nil (idle : step.actuations = []) : written step = [] := by
  rw [written, idle]
  rfl

theorem written_eq_singleton (moves : step.actuations ≠ []) :
    written step = [.asked (.write (step.actuations.flatMap command)) (.ok ())] := by
  rw [written, if_neg]
  rwa [List.isEmpty_iff]

theorem command_ne_nil (actuation : Actuation) : command actuation ≠ [] := by
  cases direction : actuation.direction <;>
    simp [command, Tag.Actuator.command, Tag.Actuator.auto, direction]

theorem flatMap_command_eq_nil_iff (actuations : List Actuation) :
    actuations.flatMap command = [] ↔ actuations = [] := by
  cases actuations with
  | nil => simp
  | cons actuation rest => simp [command_ne_nil]

theorem Concluded.of_error (ordered : InOrder first log) (error : Error) :
    Concluded first log (.error error) := by
  refine ⟨ordered, ?_⟩
  intro report failed
  contradiction

theorem Concluded.of_stopped (ordered : InOrder first log) :
    Concluded first log (.ok (run.report .stopped)) := by
  refine ⟨ordered, ?_⟩
  intro report reported completed
  obtain rfl := Except.ok.inj reported
  contradiction

theorem told_fail (ordered : InOrder first log) (error : Error) :
    Told first log (run.fail error) :=
  Concluded.of_error ordered error

theorem told_stopped (ordered : InOrder first log) : Told first log run.stopped :=
  Concluded.of_stopped ordered

theorem told_orFail {α : Type} {result : Except Field.Error α} {go : α → Run}
    (fails : InOrder first log) (goes : ∀ value, result = .ok value → Told first log (go value)) :
    Told first log (run.orFail result go) := by
  cases result with
  | ok value => exact goes value rfl
  | error error => exact told_fail fails _

/-! ### The opening -/

theorem opens_seeded (first : Run) : ∀ event ∈ seeded first, event.Opens first := by
  simp [seeded, Event.Opens]

theorem opens_rested (first : Run) : ∀ event ∈ rested first, event.Opens first := by
  rw [rested, List.forall_mem_append]
  refine ⟨opens_seeded first, ?_⟩
  split <;> simp [Event.Opens]

theorem InOrder.opening_snoc {event : Event} (opens : ∀ event ∈ log, event.Opens first)
    (more : event.Opens first) : InOrder first (log ++ [event]) :=
  .opening (List.forall_mem_append.mpr ⟨opens, List.forall_mem_singleton.mpr more⟩)

/-! ### Waiting -/

theorem Waits.inOrder (waits : Waits first watch walk log) : InOrder first log := by
  obtain ⟨visited, before, polls, rfl, history, pending, polling⟩ := waits
  rw [pending] at polling
  exact .waiting history polling

theorem Waits.append {more : List Event} (waits : Waits first watch walk log)
    (polls : ∀ event ∈ more, event.Polls watch.pending) :
    Waits first watch walk (log ++ more) := by
  obtain ⟨visited, before, polls', rfl, history, pending, polling⟩ := waits
  exact ⟨visited, before, polls' ++ more, List.append_assoc .., history, pending,
    List.forall_mem_append.mpr ⟨polling, polls⟩⟩

theorem Waits.snoc {event : Event} (waits : Waits first watch walk log)
    (polls : event.Polls watch.pending) : Waits first watch walk (log ++ [event]) :=
  waits.append (List.forall_mem_singleton.mpr polls)

theorem waits_opened (first : Run) (since : Nat) :
    Waits first ⟨[], since, some 0⟩ (.start first.sequence) (opened first) :=
  ⟨[], opened first, [], (List.append_nil _).symm, .opening, rfl, by simp⟩

theorem polls_confirmation {pending seen left : List Actuation} (split : pending = seen ++ left) :
    ∀ event ∈ confirmation seen, event.Polls pending := by
  subst split
  simp only [confirmation, List.forall_mem_cons, List.forall_mem_map]
  refine ⟨trivial, ?_⟩
  intro actuation membership
  exact ⟨actuation, List.mem_append_left left membership, rfl⟩

theorem Waits.looks {seen left : List Actuation} (waits : Waits first watch walk log)
    (split : watch.pending = seen ++ left) : Waits first watch walk (log ++ confirmation seen) :=
  waits.append (polls_confirmation split)

/-- A wait that ends with a round that finds every sensor on. -/
theorem Waits.confirms (waits : Waits first watch walk log) :
    ∃ visited before wait, log ++ confirmation watch.pending = before ++ wait ∧
      History first visited before watch.goal walk ∧ Confirms (awaited visited) wait := by
  obtain ⟨visited, before, polls, rfl, history, pending, polling⟩ := waits
  refine ⟨visited, before, polls ++ confirmation watch.pending, List.append_assoc .., history, ?_⟩
  rw [← pending]
  exact ⟨polls, rfl, polling⟩

/-! ### Steps -/

theorem Begins.inOrder (begins : Begins first visited index step walk begun)
    (attempts : Attempts step work) : InOrder first (begun ++ work) := by
  obtain ⟨here, before, wait, rfl, history, confirms⟩ := begins
  exact .working history here confirms attempts

theorem lingers_of_carriesOut (carried : CarriesOut step work) :
    ∃ timings pause, work = timings ++ written step ++ pause ∧ (∀ event ∈ timings, event.Times) ∧
      ∀ event ∈ pause, event.Lingers := by
  obtain ⟨timings, pause, workEq, timing, pauses⟩ := carried
  refine ⟨timings, pause, workEq, timing, ?_⟩
  rcases pauses with rfl | ⟨span, rfl⟩
  · simp
  · simp [Event.Lingers]

/-- A step that was carried out and is not left. -/
theorem Begins.inOrder_of_carriesOut (begins : Begins first visited index step walk begun)
    (carried : CarriesOut step work) {asked : List Event}
    (lingers : ∀ event ∈ asked, event.Lingers) : InOrder first (begun ++ work ++ asked) := by
  obtain ⟨timings, pause, rfl, timing, pauses⟩ := lingers_of_carriesOut carried
  rw [List.append_assoc, List.append_assoc]
  exact begins.inOrder (.lingering timing (List.forall_mem_append.mpr ⟨pauses, lingers⟩))

/-- A step that was carried out and left is a visit. -/
theorem Begins.visit (begins : Begins first visited index step walk begun)
    (carried : CarriesOut step work) {leave : List Event} {after : Walk} {next : Option Nat}
    (departs : Departs first.sequence index ((walk.wrote step).advance first.sequence index) leave
      after next) :
    History first (visited ++ [(index, step)]) (begun ++ work ++ leave) next after := by
  obtain ⟨here, before, wait, rfl, history, confirms⟩ := begins
  exact .visit history here confirms carried departs

/-- Waiting for the step that was left last. -/
theorem Begins.waits (begins : Begins first visited index step walk begun)
    (carried : CarriesOut step work) {leave : List Event} {after : Walk} {next : Option Nat}
    (departs : Departs first.sequence index ((walk.wrote step).advance first.sequence index) leave
      after next) (since : Nat) :
    Waits first ⟨step.actuations, since, next⟩ after (begun ++ work ++ leave) := by
  exact ⟨_, _, [], (List.append_nil _).symm, begins.visit carried departs,
    (awaited_append ..).symm, by simp⟩

/-! ## The steps that a walk reaches -/

theorem Walk.leave_lt {sequence : Sequence} (long : 0 < sequence.length) {regions : List Nat}
    {walk after : Walk} {next : Option Nat}
    (goes : walk.leave sequence index regions = .go after next) :
    ∀ target ∈ next, target < sequence.length := by
  have back (region : Nat) :
      ((sequence.regions[region]?.map (·.first)).getD 0) < sequence.length := by
    cases here : sequence.regions[region]? with
    | none => exact long
    | some found =>
        have bounds := Sequence.bounds_of_mem_regions (List.mem_of_getElem? here)
        exact Nat.lt_of_le_of_lt bounds.1 bounds.2
  induction regions generalizing walk with
  | nil =>
      rw [Walk.leave, Walk.beyond] at goes
      split at goes
      · next more =>
          obtain ⟨-, rfl⟩ := Walk.Leave.go.inj goes
          simpa using more
      · split at goes
        · obtain ⟨-, rfl⟩ := Walk.Leave.go.inj goes
          simpa using long
        · obtain ⟨-, rfl⟩ := Walk.Leave.go.inj goes
          simp
  | cons region rest ih =>
      rw [Walk.leave] at goes
      split at goes
      · contradiction
      · obtain ⟨-, rfl⟩ := Walk.Leave.go.inj goes
        simpa using back region
      · simp only at goes
        split at goes
        · obtain ⟨-, rfl⟩ := Walk.Leave.go.inj goes
          simpa using back region
        · exact ih goes

theorem Departs.lt {sequence : Sequence} (long : 0 < sequence.length) {leave : Walk.Leave}
    {log : List Event} {after : Walk} {next : Option Nat}
    (departs : Departs sequence index leave log after next)
    (leaves : ∃ (walk : Walk) (regions : List Nat), leave = walk.leave sequence index regions) :
    ∀ target ∈ next, target < sequence.length := by
  induction departs with
  | back earlier =>
      obtain ⟨walk, regions, leaveEq⟩ := leaves
      exact Walk.leave_lt long leaveEq.symm
  | on later =>
      obtain ⟨walk, regions, leaveEq⟩ := leaves
      exact Walk.leave_lt long leaveEq.symm
  | ask _ ih => exact ih ⟨_, _, rfl⟩

theorem History.lt (long : 0 < first.sequence.length) {before : List Event} {next : Option Nat}
    (history : History first visited before next walk) :
    ∀ target ∈ next, target < first.sequence.length := by
  cases history with
  | opening => simpa using long
  | visit _ _ _ _ departs => exact departs.lt long ⟨_, _, rfl⟩

/-! ## One move -/

theorem told_follow (kin : first.Kin run) (begins : Begins first visited index step walk begun)
    (carried : CarriesOut step work) {asked : List Event}
    (lingers : ∀ event ∈ asked, event.Lingers) {leave : Walk.Leave}
    (departs : ∀ more after next, Departs first.sequence index leave more after next →
      Departs first.sequence index ((walk.wrote step).advance first.sequence index) (asked ++ more)
        after next) (now : Nat) :
    Told first (begun ++ work ++ asked) (run.follow index now leave) := by
  have here := begins.1
  rw [← kin.sequence_eq] at here
  cases leave with
  | ask asking region rest =>
      exact ⟨visited, step, walk, begun, work, asked, begins, rfl, carried, lingers, departs⟩
  | go after next =>
      simp only [follow, here, Option.map_some, Option.getD_some]
      cases next with
      | none =>
          have on := departs [] after none (.on (by simp))
          rw [List.append_nil] at on
          exact begins.waits carried on now
      | some next =>
          simp only
          split
          · next earlier =>
              exact ⟨earlier, visited, step, walk, begun, work, asked, begins, rfl, carried,
                lingers, departs _ _ _ (.back earlier)⟩
          · next later =>
              have on := departs [] after (some next) (.on (by simpa using later))
              rw [List.append_nil] at on
              exact begins.waits carried on now

theorem told_leaveStep (kin : first.Kin run)
    (begins : Begins first visited index step walk begun) (wrote : run.walk = walk.wrote step)
    (carried : CarriesOut step work) (now : Nat) :
    Told first (begun ++ work) (run.leaveStep index now) := by
  have left : Told first (begun ++ work ++ [])
      (run.follow index now (run.walk.advance run.sequence index)) :=
    told_follow kin begins carried (by simp) (by rw [wrote, kin.sequence_eq]; simp) now
  rwa [List.append_nil] at left

theorem told_beginDelay (kin : first.Kin run)
    (begins : Begins first visited index step walk begun) (wrote : run.walk = walk.wrote step)
    (timing : ∀ event ∈ timings, event.Times) (delay : Duration) (now : Nat) :
    Told first (begun ++ (timings ++ written step)) (run.beginDelay index delay now) := by
  unfold beginDelay
  split
  · exact told_leaveStep kin begins wrote
      ⟨timings, [], (List.append_nil _).symm, timing, .inl rfl⟩ now
  · exact ⟨visited, step, walk, begun, timings, begins, wrote, rfl, timing⟩

/-- Carrying out the tokens left of a step. -/
theorem told_carryOut (kin : first.Kin run)
    (begins : Begins first visited index step run.walk begun)
    (timing : ∀ event ∈ timings, event.Times) (now : Nat) (done : List Token) {left : List Token}
    (split : step.tokens = done ++ left) (delay : Duration) :
    Told first (begun ++ timings)
      (run.carryOut now index ((done.filterMap Token.actuation?).flatMap command) delay left) := by
  have started : InOrder first (begun ++ timings) := begins.inOrder (.timing timing)
  induction left generalizing done delay with
  | nil =>
      have actuations : done.filterMap Token.actuation? = step.actuations := by
        rw [Step.actuations, split, List.append_nil]
      rw [actuations]
      unfold carryOut
      split
      · next nothing =>
          rw [List.isEmpty_iff, flatMap_command_eq_nil_iff] at nothing
          have wrote : run.walk = run.walk.wrote step := by simp [Walk.wrote, nothing]
          have told := told_beginDelay kin begins wrote timing delay now
          rwa [written_eq_nil nothing, List.append_nil] at told
      · next something =>
          rw [List.isEmpty_iff] at something
          exact ⟨visited, step, begun, timings, begins, rfl, timing,
            ⟨step, done, begins.1, split, by rw [actuations]⟩, something⟩
  | cons token rest ih =>
      have again := ih (done ++ [token]) (by simpa using split)
      rw [List.filterMap_append, List.flatMap_append] at again
      cases token with
      | actuation actuation => simpa [carryOut, Token.actuation?] using again delay
      | timer delaying =>
          cases delaying with
          | fixed span =>
              have silent : Token.actuation? (.timer (.fixed span)) = none := rfl
              simpa [carryOut, silent] using again (max delay span)
          | relative offset =>
              exact ⟨visited, step, begun, timings, begins, rfl, timing, step, done, begins.1,
                split, rfl⟩
      | pressure pressure => exact told_fail started _

/-- What follows a round of looks that found every sensor on. -/
theorem told_beginStep (kin : first.Kin run) (long : 0 < first.sequence.length)
    {before wait : List Event} {next : Option Nat}
    (history : History first visited before next run.walk)
    (confirms : Confirms (awaited visited) wait) (now : Nat) :
    Told first (before ++ wait) (run.beginStep now next) := by
  cases next with
  | none =>
      obtain ⟨polls, rfl, polling⟩ := confirms
      refine ⟨.waiting history ?_, ?_⟩
      · refine List.forall_mem_append.mpr ⟨polling, ?_⟩
        exact polls_confirmation (List.append_nil _).symm
      · intro report _ _
        exact ⟨visited, before, _, _, rfl, history, polls, rfl, polling⟩
  | some index =>
      have here := List.getElem?_eq_getElem (history.lt long index rfl)
      have begins : Begins first visited index _ run.walk (before ++ wait) :=
        ⟨here, before, wait, rfl, history, confirms⟩
      have nothing : ∀ event ∈ ([] : List Event), event.Times := by simp
      have told := told_carryOut kin begins nothing now [] rfl .zero
      rw [beginStep, kin.sequence_eq]
      rw [List.append_nil] at told
      rw [here]
      exact told

theorem told_look (kin : first.Kin run) (long : 0 < first.sequence.length)
    (waits : Waits first watch run.walk begun) {seen left : List Actuation}
    (split : watch.pending = seen ++ left) (now : Nat) :
    Told first (begun ++ confirmation seen) (run.look watch now (left.map sensor)) := by
  cases left with
  | nil =>
      rw [List.append_nil] at split
      obtain ⟨visited, before, wait, logEq, history, confirms⟩ := waits.confirms
      rw [← split, logEq]
      exact told_beginStep kin long history confirms now
  | cons actuation rest => exact ⟨begun, seen, actuation :: rest, waits, rfl, split, rfl⟩

theorem told_wait (waits : Waits first watch run.walk log) (found : String) (now : Nat) :
    Told first log (run.wait watch found now) := by
  simp only [wait]
  split
  · split
    · exact told_fail waits.inOrder _
    · exact waits
  · exact waits

section Phases

variable {event : Event} {run' : Run}

/-- A sensor is looked at. -/
theorem Told.looking (kin : first.Kin run) (long : 0 < first.sequence.length)
    {found : String} {rest : List String} (phase : run.phase = .looking watch found rest)
    (told : Told first log run) (goes : Goes run event run') :
    Told first (log ++ [event]) run' := by
  simp only [Goes, Run.move, phase] at goes
  simp only [Told, phase] at told
  obtain ⟨now, reply, rfl, rfl⟩ := goes
  obtain ⟨begun, seen, left, waits, rfl, split, leftEq⟩ := told
  obtain ⟨actuation, others, rfl, rfl, rfl⟩ := List.map_eq_cons_iff.mp leftEq
  have looks := waits.looks split
  have polls : Event.Polls watch.pending (.asked (.read (sensor actuation)) reply) :=
    ⟨actuation, by simp [split], rfl⟩
  refine told_orFail (looks.snoc polls).inOrder fun isOn read => ?_
  split
  · next on =>
      obtain rfl := eq_bool_of_asBool read
      subst on
      have split' : watch.pending = (seen ++ [actuation]) ++ others := by simpa using split
      have told := told_look kin long waits split' now
      simpa [confirmation] using told
  · exact told_wait (looks.snoc polls) _ now

/-- The timer variable is read for a timer of a step. -/
theorem Told.timing (kin : first.Kin run) {work : Work} {delay : Delay}
    (phase : run.phase = .timing work delay) (told : Told first log run)
    (goes : Goes run event run') : Told first (log ++ [event]) run' := by
  simp only [Goes, Run.move, phase] at goes
  simp only [Told, phase] at told
  obtain ⟨now, reply, rfl, rfl⟩ := goes
  obtain ⟨visited, step, begun, timings, begins, rfl, timing, step', done, here, tokens, writes⟩ :=
    told
  obtain rfl := Option.some.inj (here.symm.trans begins.1)
  have timing' : ∀ event ∈ timings ++ [.asked (.read Tag.timerVariable) reply], event.Times :=
    List.forall_mem_append.mpr ⟨timing, List.forall_mem_singleton.mpr rfl⟩
  rw [List.append_assoc]
  refine told_orFail (begins.inOrder (.timing timing')) fun seconds _ => ?_
  split
  · next span resolved =>
      have silent : Token.actuation? (.timer delay) = none := rfl
      have behind := told_carryOut kin begins timing' now (done ++ [.timer delay])
        (by simpa using tokens) (max work.delay span)
      simpa [silent, writes] using behind
  · exact told_fail (begins.inOrder (.timing timing')) _

/-- The actuations of a step are issued. -/
theorem Told.acting (kin : first.Kin run) {work : Work}
    (phase : run.phase = .acting work) (told : Told first log run)
    (goes : Goes run event run') : Told first (log ++ [event]) run' := by
  simp only [Goes, Run.move, phase] at goes
  simp only [Told, phase] at told
  obtain ⟨now, reply, rfl, rfl⟩ := goes
  obtain ⟨visited, step, begun, timings, begins, rfl, timing,
    ⟨step', done, here, tokens, writes⟩, something⟩ := told
  obtain rfl := Option.some.inj (here.symm.trans begins.1)
  rw [List.append_nil] at tokens
  rw [← tokens] at writes
  rw [writes] at something ⊢
  have moves : step'.actuations ≠ [] := by
    rintro idle
    exact something ((flatMap_command_eq_nil_iff _).mpr idle)
  rw [List.append_assoc]
  refine told_orFail (begins.inOrder (.writing timing moves)) fun _ accepted => ?_
  subst accepted
  have isWritten := written_eq_singleton moves
  rw [Step.actuations] at isWritten
  rw [← isWritten]
  apply told_beginDelay _ begins _ timing work.delay now
  · exact kin.trans rfl
  · simp [Walk.wrote, moves]

/-- The timer of a step is over. -/
theorem Told.delayed (kin : first.Kin run) {delay : Duration}
    (phase : run.phase = .delayed index delay) (told : Told first log run)
    (goes : Goes run event run') : Told first (log ++ [event]) run' := by
  simp only [Goes, Run.move, phase] at goes
  simp only [Told, phase] at told
  obtain ⟨now, stop, rfl, rfl⟩ := goes
  obtain ⟨visited, step, walk, begun, timings, begins, wrote, rfl, timing⟩ := told
  rw [List.append_assoc, List.append_assoc _ [_] [_]]
  cases stop with
  | true =>
      have lingers : ∀ event ∈ [Event.asked .checkStop false, .slept delay true],
          event.Lingers := by
        simp [Event.Lingers]
      exact told_stopped (begins.inOrder (.lingering timing lingers))
  | false =>
      exact told_leaveStep kin begins wrote ⟨timings, _, rfl, timing, .inr ⟨delay, rfl⟩⟩ now

/-- The repeat variable is read at the end of a region. -/
theorem Told.asking (kin : first.Kin run) {region : Nat} {rest : List Nat}
    (phase : run.phase = .asking index region rest) (told : Told first log run)
    (goes : Goes run event run') : Told first (log ++ [event]) run' := by
  simp only [Goes, Run.move, phase] at goes
  simp only [Told, phase] at told
  obtain ⟨now, reply, rfl, rfl⟩ := goes
  obtain ⟨visited, step, walk, begun, work, asked, begins, rfl, carried, lingers, departs⟩ := told
  have lingers' :
      ∀ event ∈ asked ++ [.asked (.read Tag.repeatVariable) reply], event.Lingers :=
    List.forall_mem_append.mpr ⟨lingers, List.forall_mem_singleton.mpr rfl⟩
  rw [List.append_assoc]
  refine told_orFail (begins.inOrder_of_carriesOut carried lingers') fun value read => ?_
  obtain rfl := eq_int_of_asInt read
  refine told_follow kin begins carried lingers' ?_ now
  intro more after next departs'
  rw [kin.sequence_eq] at departs'
  rw [List.append_assoc]
  exact departs _ after next (.ask departs')

/-- A move keeps what the log tells. -/
theorem Told.move (kin : first.Kin run) (long : 0 < first.sequence.length)
    (told : Told first log run) (goes : Goes run event run') :
    Told first (log ++ [event]) run' := by
  cases phase : run.phase
  case looking => exact Told.looking kin long phase told goes
  case timing => exact Told.timing kin phase told goes
  case acting => exact Told.acting kin phase told goes
  case delayed => exact Told.delayed kin phase told goes
  case asking => exact Told.asking kin phase told goes
  all_goals simp only [Goes, Run.move, phase] at goes
  all_goals simp only [Told, phase] at told
  case connecting =>
    obtain ⟨now, reply, rfl, rfl⟩ := goes
    obtain ⟨rfl, walkEq⟩ := told
    cases reply with
    | ok _ => exact ⟨rfl, walkEq⟩
    | error error =>
        have ordered : InOrder first [.asked .connect (.error error)] :=
          .opening (List.forall_mem_singleton.mpr trivial)
        exact ⟨_, [], (List.append_nil _).symm, .of_error ordered _, by simp⟩
  case opening =>
    obtain ⟨now, reply, rfl, rfl⟩ := goes
    obtain ⟨rfl, walkEq⟩ := told
    cases reply with
    | ok _ => exact ⟨rfl, walkEq⟩
    | error error =>
        have ordered : InOrder first
            ([.asked .connect (.ok ())] ++ [.asked .openSession (.error error)]) :=
          .opening_snoc (List.forall_mem_singleton.mpr trivial) trivial
        exact ⟨_, [], (List.append_nil _).symm, .of_error ordered _, by simp⟩
  case seeding =>
    obtain ⟨now, reply, rfl, rfl⟩ := goes
    obtain ⟨rfl, walkEq⟩ := told
    rw [kin.seeds_eq]
    have opens : Event.Opens first (.asked (.write first.seeds) reply) := .inl rfl
    refine told_orFail (.opening_snoc (by simp [Event.Opens]) opens) fun _ accepted => ?_
    subst accepted
    rw [kin.restWrites_eq]
    split
    · next nothing => exact ⟨by simp [rested, seeded, nothing], walkEq⟩
    · next something => exact ⟨rfl, Bool.eq_false_iff.mpr something, walkEq⟩
  case resting =>
    obtain ⟨now, reply, rfl, rfl⟩ := goes
    obtain ⟨rfl, something, walkEq⟩ := told
    rw [kin.restWrites_eq]
    have opens : Event.Opens first (.asked (.write first.restWrites) reply) := .inr rfl
    refine told_orFail (.opening_snoc (opens_seeded first) opens) fun _ accepted => ?_
    subst accepted
    exact ⟨by simp [rested, something], walkEq⟩
  case settling =>
    obtain ⟨now, stop, rfl, rfl⟩ := goes
    obtain ⟨rfl, walkEq⟩ := told
    cases stop with
    | true => exact told_stopped (.opening_snoc (opens_rested first) trivial)
    | false =>
        rw [if_neg Bool.false_ne_true, kin.settings_eq]
        split
        · next instant =>
            have waits := waits_opened first now
            rw [opened, if_pos instant, ← walkEq] at waits
            exact waits
        · next settles => exact ⟨rfl, settles, walkEq⟩
  case settled =>
    obtain ⟨now, stop, rfl, rfl⟩ := goes
    obtain ⟨rfl, settles, walkEq⟩ := told
    cases stop with
    | true =>
        have opens : ∀ event ∈ rested first ++ [.asked .checkStop false], event.Opens first :=
          List.forall_mem_append.mpr ⟨opens_rested first, List.forall_mem_singleton.mpr trivial⟩
        exact told_stopped (.opening_snoc opens trivial)
    | false =>
        have waits := waits_opened first now
        rw [opened, if_neg settles, ← walkEq, ← kin.settings_eq] at waits
        rw [List.append_assoc]
        exact waits
  case polling watch =>
    obtain ⟨now, stop, rfl, rfl⟩ := goes
    cases stop with
    | true =>
        have waits : Waits first watch run.walk (log ++ [.asked .checkStop true]) :=
          told.snoc trivial
        exact told_stopped waits.inOrder
    | false => exact told_look kin long told (List.nil_append _).symm now
  case pausing watch =>
    obtain ⟨now, stop, rfl, rfl⟩ := goes
    have waits : Waits first watch run.walk (log ++ [.asked .checkStop stop]) :=
      told.snoc trivial
    cases stop with
    | true => exact told_stopped waits.inOrder
    | false =>
        rw [if_neg Bool.false_ne_true]
        split <;> exact waits
  case paused watch =>
    obtain ⟨now, stop, rfl, rfl⟩ := goes
    have waits : Waits first watch run.walk
        (log ++ [.slept (.ofMillis run.settings.pollInterval) stop]) :=
      told.snoc trivial
    split
    · exact told_stopped waits.inOrder
    · exact waits
  case delaying index delay =>
    obtain ⟨now, stop, rfl, rfl⟩ := goes
    obtain ⟨visited, step, walk, begun, timings, begins, wrote, rfl, timing⟩ := told
    rw [List.append_assoc]
    cases stop with
    | true =>
        have lingers : ∀ event ∈ [Event.asked .checkStop true], event.Lingers :=
          List.forall_mem_singleton.mpr trivial
        exact told_stopped (begins.inOrder (.lingering timing lingers))
    | false => exact ⟨visited, step, walk, begun, timings, begins, wrote, rfl, timing⟩
  case rewinding index next =>
    obtain ⟨now, rfl, rfl⟩ := goes
    obtain ⟨earlier, visited, step, walk, begun, work, asked, begins, rfl, carried, lingers,
      departs⟩ := told
    have waits := begins.waits carried departs now
    rw [kin.sequence_eq, begins.1, List.append_assoc]
    exact waits
  case closing result =>
    obtain ⟨now, reply, rfl, rfl⟩ := goes
    exact ⟨log, [_], rfl, told, List.forall_mem_singleton.mpr trivial⟩
  case disconnecting result =>
    obtain ⟨now, reply, rfl, rfl⟩ := goes
    obtain ⟨steps, closing, rfl, concluded, closes⟩ := told
    exact ⟨steps, closing ++ [_], List.append_assoc .., concluded,
      List.forall_mem_append.mpr ⟨closes, List.forall_mem_singleton.mpr trivial⟩⟩

end Phases

/-- What the log tells while a run goes on, and what it told when the run was over. -/
theorem Told.concluded (told : Told first log run) :
    ∃ steps closing, log = steps ++ closing ∧ InOrder first steps ∧
      (∀ event ∈ closing, event.Closes) ∧
      ∀ result, run.move = .halt result → Concluded first steps result := by
  have going (ordered : InOrder first log) (goesOn : ∀ result, run.move ≠ .halt result) :
      ∃ steps closing, log = steps ++ closing ∧ InOrder first steps ∧
        (∀ event ∈ closing, event.Closes) ∧
        ∀ result, run.move = .halt result → Concluded first steps result :=
    ⟨log, [], (List.append_nil _).symm, ordered, by simp,
      fun result halts => absurd halts (goesOn result)⟩
  cases phase : run.phase <;> simp only [Told, phase] at told
  case connecting =>
    obtain ⟨rfl, -⟩ := told
    exact going (.opening (by simp)) (by simp [Run.move, phase])
  case opening =>
    obtain ⟨rfl, -⟩ := told
    exact going (.opening (by simp [Event.Opens])) (by simp [Run.move, phase])
  case seeding =>
    obtain ⟨rfl, -⟩ := told
    exact going (.opening (by simp [Event.Opens])) (by simp [Run.move, phase])
  case resting =>
    obtain ⟨rfl, -⟩ := told
    exact going (.opening (opens_seeded first)) (by simp [Run.move, phase])
  case settling =>
    obtain ⟨rfl, -⟩ := told
    exact going (.opening (opens_rested first)) (by simp [Run.move, phase])
  case settled =>
    obtain ⟨rfl, -⟩ := told
    exact going (.opening_snoc (opens_rested first) trivial) (by simp [Run.move, phase])
  case polling | pausing | paused => exact going told.inOrder (by simp [Run.move, phase])
  case looking =>
    obtain ⟨begun, seen, left, waits, rfl, split, -⟩ := told
    exact going (waits.looks split).inOrder (by simp [Run.move, phase])
  case timing =>
    obtain ⟨visited, step, begun, timings, begins, rfl, timing, -⟩ := told
    exact going (begins.inOrder (.timing timing)) (by simp [Run.move, phase])
  case acting =>
    obtain ⟨visited, step, begun, timings, begins, rfl, timing, -⟩ := told
    exact going (begins.inOrder (.timing timing)) (by simp [Run.move, phase])
  case delaying =>
    obtain ⟨visited, step, walk, begun, timings, begins, -, rfl, timing⟩ := told
    have attempts : Attempts step (timings ++ written step) := by
      have lingers : Attempts step (timings ++ written step ++ []) :=
        .lingering timing (by simp)
      rwa [List.append_nil] at lingers
    exact going (begins.inOrder attempts) (by simp [Run.move, phase])
  case delayed =>
    obtain ⟨visited, step, walk, begun, timings, begins, -, rfl, timing⟩ := told
    have lingers : ∀ event ∈ [Event.asked .checkStop false], event.Lingers :=
      List.forall_mem_singleton.mpr trivial
    exact going (begins.inOrder (.lingering timing lingers)) (by simp [Run.move, phase])
  case asking =>
    obtain ⟨visited, step, walk, begun, work, asked, begins, rfl, carried, lingers, -⟩ := told
    exact going (begins.inOrder_of_carriesOut carried lingers) (by simp [Run.move, phase])
  case rewinding =>
    obtain ⟨-, visited, step, walk, begun, work, asked, begins, rfl, carried, lingers, -⟩ := told
    exact going (begins.inOrder_of_carriesOut carried lingers) (by simp [Run.move, phase])
  case closing => exact going told.1 (by simp [Run.move, phase])
  case disconnecting =>
    obtain ⟨steps, closing, rfl, concluded, closes⟩ := told
    exact ⟨steps, closing, rfl, concluded.1, closes, by simp [Run.move, phase]⟩
  case finished result =>
    obtain ⟨steps, closing, rfl, concluded, closes⟩ := told
    refine ⟨steps, closing, rfl, concluded.1, closes, ?_⟩
    intro ended halts
    rw [Run.move, phase] at halts
    obtain rfl := Move.halt.inj halts
    exact concluded

/-- What the log of a run tells, from what it tells at the beginning. -/
theorem Told.of_logged (long : 0 < first.sequence.length) (logged : Logged first log run)
    (begins : Told first [] first) : Told first log run := by
  induction logged with
  | start => exact begins
  | move logged goes ih => exact ih.move logged.kin long goes

/-- Whatever the field answers to a run of a sequence that was read, and whenever a stop
request comes: every step begins after a round of looks, which nothing interrupts, in which
each actuation of the step visited before was seen at its end, and that round comes after
its write.  A step that the walk goes on from issued all its actuations as one write, in the
order of its tokens, or nothing if it has none; a step that is given up attempted at most
that write.  A run that completed saw the last step at its end. -/
theorem inOrder_of_logged {source : String} {sequence : Sequence}
    (parsed : Sequence.parse source = .ok sequence) {settings : Settings} {lease : Device.Lease}
    {timerSeed repeatSeed : Int16}
    (logged : Logged (start sequence settings lease timerSeed repeatSeed) log run) :
    ∃ steps closing, log = steps ++ closing ∧
      InOrder (start sequence settings lease timerSeed repeatSeed) steps ∧
      (∀ event ∈ closing, event.Closes) ∧
      ∀ report, run.move = .halt (.ok report) → report.outcome = .completed →
        ∃ visited before wait walk, steps = before ++ wait ∧
          History (start sequence settings lease timerSeed repeatSeed) visited before none walk ∧
          Confirms (awaited visited) wait := by
  have long : 0 < sequence.length := Sequence.length_pos_of_parse parsed
  have told : Told (start sequence settings lease timerSeed repeatSeed) log run :=
    .of_logged long logged ⟨rfl, rfl⟩
  obtain ⟨steps, closing, logEq, ordered, closes, concluded⟩ := told.concluded
  exact ⟨steps, closing, logEq, ordered, closes,
    fun report halts => (concluded (.ok report) halts).2 report rfl⟩

/-- An actuator that goes out and back is seen at both ends. -/
theorem inOrder_of_logged_back_and_forth :
    ∃ sequence log run steps closing visited before wait walk,
      Sequence.parse "A+,A-" = .ok sequence ∧
      Logged (start sequence .default ⟨"plc", 0⟩ 1 1) log run ∧
      run.move = .halt (.ok ⟨0, "plc", .completed, 2, 1, 1, 1⟩) ∧ log = steps ++ closing ∧
      (∀ event ∈ closing, event.Closes) ∧ steps = before ++ wait ∧
      History (start sequence .default ⟨"plc", 0⟩ 1 1) visited before none walk ∧
      Confirms (awaited visited) wait := by
  have completes : ((Sequence.parse "A+,A-").toOption.any fun sequence =>
      ((Solo.step Plant.field)^[30] ⟨.single "plc" 4840 (.withActuators 0 ['A']), 0,
        start sequence .default ⟨"plc", 0⟩ 1 1⟩).result? ==
          some (.ok ⟨0, "plc", .completed, 2, 1, 1, 1⟩)) = true := by
    decide +kernel
  obtain ⟨sequence, parsed, completes⟩ := any_toOption_iff.mp completes
  have halts := Solo.move_of_result? (beq_iff_eq.mp completes)
  have logged := Solo.logged_log Plant.field 30
    ⟨.single "plc" 4840 (.withActuators 0 ['A']), 0,
      start sequence .default ⟨"plc", 0⟩ 1 1⟩
  obtain ⟨steps, closing, logEq, -, closes, concluded⟩ := inOrder_of_logged parsed logged
  obtain ⟨visited, before, wait, walk, stepsEq, history, confirms⟩ := concluded _ halts rfl
  exact ⟨sequence, _, _, steps, closing, visited, before, wait, walk, parsed, logged, halts,
    logEq, closes, stepsEq, history, confirms⟩

end Pneumatic.Run
