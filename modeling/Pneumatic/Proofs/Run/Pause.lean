import Pneumatic.Proofs.Program.Presets
import Pneumatic.Proofs.Run.Order
import Pneumatic.Proofs.Run.Timeout

/-!
# The pause of a step

A step reads the timer variable once for each of its timers that depends on it, issues its
actuations, and then pauses once, for the longest span that its timers resolve to.  On a clock
of milliseconds such a pause does not end before any of these spans is over, as long as none is
longer than the longest wait.
-/

namespace Pneumatic

namespace Duration

theorem isZero_iff {span : Duration} : span.isZero = true ↔ span = .zero := by
  rw [isZero, beq_iff_eq]
  constructor
  · intro zero
    cases span
    subst zero
    rfl
  · rintro rfl
    rfl

theorem nanos_max (left right : Duration) :
    (max left right).nanos = max left.nanos right.nanos := by
  change (if left.nanos ≤ right.nanos then right else left).nanos = _
  split <;> omega

/-- A span does not end after the millisecond that it is rounded up to. -/
theorem nanos_le_millisUp (span : Duration) : span.nanos ≤ span.millisUp * 1_000_000 := by
  rw [millisUp]
  omega

end Duration

namespace Run

/-! ## The log from its beginning -/

variable {first run run' begun : Run} {log rest : List Event} {index now : Nat}

/-- A log that is not empty begins with one move. -/
theorem Logged.cases_head (logged : Logged first log run') :
    (log = [] ∧ run' = first) ∨
      ∃ event mid rest, log = event :: rest ∧ Goes first event mid ∧ Logged mid rest run' := by
  induction logged with
  | start => exact .inl ⟨rfl, rfl⟩
  | @move log run run' event _ goes ih =>
      rcases ih with ⟨rfl, rfl⟩ | ⟨event', mid, rest, rfl, goes', logged⟩
      · exact .inr ⟨event, run', [], rfl, goes, .start⟩
      · exact .inr ⟨event', mid, rest ++ [event], rfl, goes', .move logged goes⟩

/-- The controller is given back, or has been. -/
def Phase.Ends : Phase → Prop
  | .closing _ | .disconnecting _ | .finished _ => True
  | _ => False

theorem ends_of_logged (ends : first.phase.Ends) (logged : Logged first log run) :
    run.phase.Ends ∧ ∀ event ∈ log, event.Closes := by
  induction logged with
  | start => exact ⟨ends, by simp⟩
  | @move log run run' event _ goes ih =>
      obtain ⟨ends, closes⟩ := ih
      have step : run'.phase.Ends ∧ event.Closes := by
        cases phase : run.phase <;> simp only [Goes, Run.move, phase] at goes <;>
          simp only [phase, Phase.Ends] at ends
        case closing result | disconnecting result =>
          obtain ⟨now, reply, rfl, rfl⟩ := goes
          exact ⟨trivial, trivial⟩
      refine ⟨step.1, ?_⟩
      rw [List.forall_mem_append, List.forall_mem_singleton]
      exact ⟨closes, step.2⟩

/-! ## Carrying out a step -/

/-- The longest of a span and more spans. -/
def longest (span : Duration) (spans : List Duration) : Duration :=
  spans.foldl max span

/-- The looks at the timer variable for delays, one after the other, and the spans that the
delays resolve to. -/
inductive Resolves : List Delay → List Event → List Duration → Prop where
  | nil : Resolves [] [] []
  | fixed {span : Duration} {delays : List Delay} {log : List Event} {spans : List Duration} :
      Resolves delays log spans → Resolves (.fixed span :: delays) log (span :: spans)
  | relative {offset : Option Duration} {seconds : Int16} {span : Duration} {delays : List Delay}
      {log : List Event} {spans : List Duration} :
      (Delay.relative offset).resolve seconds.toInt = some span → Resolves delays log spans →
      Resolves (.relative offset :: delays)
        (.asked (.read Tag.timerVariable) (.ok (.int seconds)) :: log) (span :: spans)

/-- The log of a combined write. -/
def issued (writes : List Field.Write) : List Event :=
  if writes.isEmpty then [] else [.asked (.write writes) (.ok ())]

/-- The step that is being prepared: up to its pause. -/
def Phase.prepares? : Phase → Option Nat
  | .timing work _ | .acting work => some work.index
  | .delaying index _ => some index
  | _ => none

/-- What a step with some writes does before its pause. -/
def Event.Prepares (writes : List Field.Write) : Event → Prop
  | .asked (.read tag) _ => tag = Tag.timerVariable
  | .asked (.write issued) _ => issued = writes
  | .asked .checkStop _ => True
  | _ => False

/-- What becomes of a run that carries out a step with some writes and delays.  It is still on
its way to the pause, or ends before; or it goes on without a pause because no timer takes time;
or it pauses for the longest span. -/
inductive Paced (run : Run) (index : Nat) (writes : List Field.Write) (span : Duration)
    (delays : List Delay) : List Event → Run → Prop where
  | preparing {log : List Event} {run' : Run} :
      (∀ event ∈ log, event.Prepares writes) → run'.phase.prepares? = some index →
      Paced run index writes span delays log run'
  | ended {log : List Event} {run' : Run} :
      (∀ event ∈ log, event.Prepares writes ∨ event.Closes) → run'.phase.Ends →
      Paced run index writes span delays log run'
  | passed {timings rest : List Event} {spans : List Duration} {begun run' : Run} {later : Nat} :
      Resolves delays timings spans → longest span spans = .zero → run.Kin begun →
      Logged (begun.leaveStep index later) rest run' →
      Paced run index writes span delays (timings ++ issued writes ++ rest) run'
  | pausing {timings rest : List Event} {spans : List Duration} {begun run' : Run} :
      Resolves delays timings spans → longest span spans ≠ .zero → run.Kin begun →
      Logged (begun.enter (.delayed index (longest span spans))) rest run' →
      Paced run index writes span delays
        (timings ++ issued writes ++ .asked .checkStop false :: rest) run'

namespace Paced

variable {writes : List Field.Write} {span : Duration} {delays : List Delay}

theorem of_ends (log : List Event) (prepares : ∀ event ∈ log, event.Prepares writes)
    (logged : Logged begun rest run') (ends : begun.phase.Ends) :
    Paced run index writes span delays (log ++ rest) run' := by
  obtain ⟨ended, closes⟩ := ends_of_logged ends logged
  refine .ended (List.forall_mem_append.mpr ⟨?_, ?_⟩) ended
  · exact fun event among => .inl (prepares event among)
  · exact fun event among => .inr (closes event among)

theorem of_kin (kin : run.Kin begun) (paced : Paced begun index writes span delays log run') :
    Paced run index writes span delays log run' := by
  cases paced with
  | preparing prepares phase => exact .preparing prepares phase
  | ended done ends => exact .ended done ends
  | passed resolves zero kin' logged => exact .passed resolves zero (kin.trans kin') logged
  | pausing resolves nonzero kin' logged => exact .pausing resolves nonzero (kin.trans kin') logged

/-- A timer with a fixed span. -/
theorem fixed {fixed : Duration}
    (paced : Paced run index writes (max span fixed) delays log run') :
    Paced run index writes span (.fixed fixed :: delays) log run' := by
  cases paced with
  | preparing prepares phase => exact .preparing prepares phase
  | ended done ends => exact .ended done ends
  | passed resolves zero kin logged => exact .passed resolves.fixed zero kin logged
  | pausing resolves nonzero kin logged => exact .pausing resolves.fixed nonzero kin logged

/-- A timer that looks at the timer variable. -/
theorem relative {offset : Option Duration} {seconds : Int16} {found : Duration}
    (resolved : (Delay.relative offset).resolve seconds.toInt = some found)
    (paced : Paced run index writes (max span found) delays log run') :
    Paced run index writes span (.relative offset :: delays)
      (.asked (.read Tag.timerVariable) (.ok (.int seconds)) :: log) run' := by
  cases paced with
  | preparing prepares phase =>
      exact .preparing (List.forall_mem_cons.mpr ⟨rfl, prepares⟩) phase
  | ended done ends => exact .ended (List.forall_mem_cons.mpr ⟨.inl rfl, done⟩) ends
  | passed resolves zero kin logged => exact .passed (resolves.relative resolved) zero kin logged
  | pausing resolves nonzero kin logged =>
      exact .pausing (resolves.relative resolved) nonzero kin logged

end Paced

theorem prepares_issued (writes : List Field.Write) :
    ∀ event ∈ issued writes, event.Prepares writes := by
  unfold issued
  split <;> simp [Event.Prepares]

/-- The timers of a step, once its write is issued. -/
theorem paced_beginDelay (kin : run.Kin begun) (writes : List Field.Write) (span : Duration)
    (logged : Logged (begun.beginDelay index span now) rest run') :
    Paced run index writes span [] (issued writes ++ rest) run' := by
  unfold beginDelay at logged
  split at logged
  · next zero => exact .passed .nil (Duration.isZero_iff.mp zero) kin logged
  · next nonzero =>
      rw [Duration.isZero_iff] at nonzero
      rcases logged.cases_head with ⟨rfl, rfl⟩ | ⟨event, mid, more, rfl, goes, logged⟩
      · rw [List.append_nil]
        exact .preparing (prepares_issued writes) rfl
      · obtain ⟨later, stop, rfl, rfl⟩ := goes
        cases stop with
        | true =>
            rw [List.append_cons]
            have checked : ∀ event ∈ issued writes ++ [.asked .checkStop true],
                event.Prepares writes :=
              List.forall_mem_append.mpr
                ⟨prepares_issued writes, List.forall_mem_singleton.mpr trivial⟩
            exact .of_ends _ checked logged trivial
        | false => exact .pausing .nil nonzero (kin.enter _) logged

/-- A look at the timer variable ends the run, or a delay resolves with the value that was seen. -/
theorem goes_timing {work : Work} {delay : Delay} {event : Event}
    (phase : run.phase = .timing work delay) (goes : Goes run event run') :
    ((∀ writes, event.Prepares writes) ∧ run'.phase.Ends) ∨
      ∃ seconds span now, event = .asked (.read Tag.timerVariable) (.ok (.int seconds)) ∧
        delay.resolve seconds.toInt = some span ∧
        run' = run.carryOut now work.index work.writes (max work.delay span) work.tokens := by
  simp only [Goes, Run.move, phase] at goes
  obtain ⟨now, reply, rfl, rfl⟩ := goes
  cases read : Except.bind reply fun value => Field.Value.asInt Tag.timerVariable value with
  | error error => exact .inl ⟨fun _ => rfl, trivial⟩
  | ok seconds =>
      obtain rfl := eq_int_of_asInt read
      cases resolved : delay.resolve seconds.toInt with
      | none =>
          simp only [orFail, resolved]
          exact .inl ⟨fun _ => rfl, trivial⟩
      | some span =>
          simp only [orFail, resolved]
          exact .inr ⟨seconds, span, now, rfl, resolved, rfl⟩

/-- A write ends the run, or the timers of its step follow. -/
theorem goes_acting {work : Work} {event : Event} (phase : run.phase = .acting work)
    (goes : Goes run event run') :
    (event.Prepares work.writes ∧ run'.phase.Ends) ∨
      ∃ begun now, event = .asked (.write work.writes) (.ok ()) ∧ run.Kin begun ∧
        run' = begun.beginDelay work.index work.delay now := by
  simp only [Goes, Run.move, phase] at goes
  obtain ⟨now, reply, rfl, rfl⟩ := goes
  cases reply with
  | error error => exact .inl ⟨rfl, trivial⟩
  | ok =>
      refine .inr ⟨_, now, rfl, ?_, rfl⟩
      rfl

/-- The tokens of a step, one after the other. -/
theorem paced_carryOut (tokens : List Token) (writes : List Field.Write) (span : Duration)
    (logged : Logged (run.carryOut now index writes span tokens) log run') :
    Paced run index (writes ++ (tokens.filterMap Token.actuation?).flatMap command) span
      (tokens.filterMap Token.delay?) log run' := by
  -- Every token adds to the writes or to the longest span so far, and a look at the timer variable
  -- changes the run.
  induction tokens generalizing run now writes span log with
  | nil =>
      rw [List.filterMap_nil, List.filterMap_nil, List.flatMap_nil, List.append_nil]
      unfold carryOut at logged
      split at logged
      · next silent =>
          have paced := paced_beginDelay (.refl run) writes span logged
          rwa [issued, if_pos silent] at paced
      · next writing =>
          rcases logged.cases_head with ⟨rfl, rfl⟩ | ⟨event, mid, rest, rfl, goes, logged⟩
          · exact .preparing (by simp) rfl
          · rcases goes_acting rfl goes with ⟨prepares, ends⟩ | ⟨begun, later, rfl, kin, rfl⟩
            · exact .of_ends [_] (List.forall_mem_singleton.mpr prepares) logged ends
            · have paced := paced_beginDelay kin writes span logged
              rw [issued, if_neg writing] at paced
              exact .of_kin (Kin.refl run |>.enter _) paced
  | cons token tokens ih =>
      cases token with
      | actuation actuation =>
          have paced := ih _ _ logged
          rwa [List.append_assoc] at paced
      | timer delay =>
          cases delay with
          | fixed fixed => exact (ih _ _ logged).fixed
          | relative offset =>
              rcases logged.cases_head with ⟨rfl, rfl⟩ | ⟨event, mid, rest, rfl, goes, logged⟩
              · exact .preparing (by simp) rfl
              · rcases goes_timing rfl goes with ⟨prepares, ends⟩ |
                  ⟨seconds, found, later, rfl, resolved, rfl⟩
                · exact .of_ends [_] (List.forall_mem_singleton.mpr (prepares _)) logged ends
                · have paced := ih _ _ logged
                  exact .relative resolved (.of_kin (Kin.refl run |>.enter _) paced)
      | pressure pressure => exact .of_ends [] (List.forall_mem_nil _) logged trivial

theorem paced_beginStep {step : Step} (found : run.sequence.steps[index]? = some step)
    (logged : Logged (run.beginStep now (some index)) log run') :
    Paced run index (step.actuations.flatMap command) .zero step.delays log run' := by
  rw [beginStep, found] at logged
  exact paced_carryOut step.tokens [] .zero logged

/-! ## On the clock -/

variable {span : Duration} {spans : List Duration}

theorem nanos_le_longest (span : Duration) (spans : List Duration) :
    span.nanos ≤ (longest span spans).nanos := by
  induction spans generalizing span with
  | nil => exact Nat.le_refl _
  | cons head rest ih =>
      have later := ih (max span head)
      rw [Duration.nanos_max] at later
      exact (Nat.le_max_left _ _).trans later

/-- No span is longer than the longest. -/
theorem nanos_le_longest_of_mem {one : Duration} (among : one ∈ spans) :
    one.nanos ≤ (longest span spans).nanos := by
  induction spans generalizing span with
  | nil => contradiction
  | cons head rest ih =>
      rcases List.mem_cons.mp among with rfl | later
      · have begins := nanos_le_longest (max span one) rest
        rw [Duration.nanos_max] at begins
        exact (Nat.le_max_right _ _).trans begins
      · exact ih later

/-- A span that is no longer than the longest wait is over when a sleep for it, or for a longer
one, ends. -/
theorem nanos_le_deadline {one : Duration} (le : one.nanos ≤ span.nanos)
    (short : one.nanos ≤ longestWait * 1_000_000) :
    now * 1_000_000 + one.nanos ≤ deadline now span * 1_000_000 := by
  have up := span.nanos_le_millisUp
  rw [deadline, waitEnd, Nat.add_mul]
  rcases Nat.le_total span.millisUp longestWait with within | beyond
  · rw [Nat.min_eq_left within]
    omega
  · rw [Nat.min_eq_right beyond]
    omega

/-- A run that sleeps for the longest of some spans, whenever it begins and whatever goes on
beside it.  Unless it is asked to stop, it does not go on before a span is over, and before the
longest wait if the span is longer. -/
def SleepsFor (run : Run) (spans : List Duration) : Prop :=
  ∀ {σ : Type} (field : Field σ) (fuel now : Nat) (world : σ),
    ∃ task, Task.go field now (fuel + 1) world run = (world, task) ∧
      task.deadline? = some (now + min (longest .zero spans).millisUp longestWait) ∧
      ∀ later world', task.isReady field later world' = true →
        task.stopRequested field world' = true ∨
          ∀ span ∈ spans, span.nanos ≤ longestWait * 1_000_000 →
            now * 1_000_000 + span.nanos ≤ later * 1_000_000

theorem sleepsFor_of_delayed (phase : run.phase = .delayed index (longest .zero spans)) :
    run.SleepsFor spans := by
  intro σ field fuel now world
  refine ⟨⟨run, .asleep (deadline now (longest .zero spans))⟩, ?_, rfl, ?_⟩
  · simp only [Task.go, Run.move, phase]
  · intro later world' ready
    rw [Task.isReady, Bool.or_eq_true, decide_eq_true_eq] at ready
    refine ready.imp_right fun due span among short => ?_
    have within : span.nanos ≤ (longest .zero spans).nanos := nanos_le_longest_of_mem among
    calc now * 1_000_000 + span.nanos
      _ ≤ deadline now (longest .zero spans) * 1_000_000 := nanos_le_deadline within short
      _ ≤ later * 1_000_000 := Nat.mul_le_mul_right _ due

/-- The timers of a program wait as long as those of a run.  The preset of the call of a timer
denotes the span that its delay resolves to, in whole milliseconds; and a run that carries out
a step pauses once for its timers, for the longest span that they resolve to with what it sees of
the timer variable, or for the longest wait if that is shorter. -/
theorem timers_wait_alike {sequence : Sequence} {project : Option Project} {program : Program}
    (compiled : Program.compile sequence project = .ok program) :
    List.Forall₂ Delay.Called sequence.delays program.calls ∧
    (∀ {run run' : Run} {index now : Nat} {step : Step} {log : List Event},
      run.sequence = sequence → sequence.steps[index]? = some step →
      Logged (run.beginStep now (some index)) log run' →
      Paced run index (step.actuations.flatMap command) .zero step.delays log run') ∧
    ∀ {run : Run} {index : Nat} {spans : List Duration},
      run.phase = .delayed index (longest .zero spans) → run.SleepsFor spans := by
  refine ⟨Program.forall₂_called compiled, ?_, sleepsFor_of_delayed⟩
  rintro run run' index now step log rfl found logged
  exact paced_beginStep found logged

/-- A group that waits for the timer variable and half a second, and for a second. -/
theorem timers_wait_alike_group :
    let group : Step := .group [.actuation ⟨'B', .extend⟩,
      .timer (.relative (some (.ofMillis 500))), .timer (.fixed (.ofMillis 1000))]
    let spans : List Duration := [.ofMillis 3500, .ofMillis 1000]
    ∃ sequence program log asleep, Sequence.parse "A+,(B+,T+0.5S,1S),B-" = .ok sequence ∧
      Program.compile sequence none = .ok program ∧ sequence.steps[1]? = some group ∧
      program.calls =
        [.callTimer "Timer_1_Instance" "Timer_1_Power" "Timer_1_Done" "Timer_1_Elapsed"
            (.variable "T_VARIABLE" (some (.ofMillis 500))),
          .callTimer "Timer_2_Instance" "Timer_2_Power" "Timer_2_Done" "Timer_2_Elapsed"
            (.fixed (.ofMillis 1000))] ∧
      List.Forall₂ Delay.Called sequence.delays program.calls ∧
      Logged ((start sequence .default ⟨"plc", 0⟩ 3 1).beginStep 0 (some 1)) log asleep ∧
      Paced (start sequence .default ⟨"plc", 0⟩ 3 1) 1 (group.actuations.flatMap command) .zero
        group.delays log asleep ∧
      asleep.phase = .delayed 1 (longest .zero spans) ∧ asleep.SleepsFor spans := by
  intro group spans
  have compiles : ((Sequence.parse "A+,(B+,T+0.5S,1S),B-").toOption.any fun sequence =>
      sequence.steps[1]? == some group &&
        (Program.compile sequence none).toOption.any fun program =>
          program.calls ==
            [.callTimer "Timer_1_Instance" "Timer_1_Power" "Timer_1_Done" "Timer_1_Elapsed"
                (.variable "T_VARIABLE" (some (.ofMillis 500))),
              .callTimer "Timer_2_Instance" "Timer_2_Power" "Timer_2_Done" "Timer_2_Elapsed"
                (.fixed (.ofMillis 1000))]) = true := by
    decide +kernel
  obtain ⟨sequence, parsed, compiles⟩ := any_toOption_iff.mp compiles
  rw [Bool.and_eq_true, beq_iff_eq] at compiles
  obtain ⟨found, compiles⟩ := compiles
  obtain ⟨program, compiled, calls⟩ := any_toOption_iff.mp compiles
  obtain ⟨called, paces, sleeps⟩ := timers_wait_alike compiled
  let run := start sequence .default ⟨"plc", 0⟩ 3 1
  have carries : run.beginStep 0 (some 1) = run.carryOut 0 1 [] .zero group.tokens := by
    rw [beginStep, show run.sequence = sequence from rfl, found]
    rfl
  have logged : ∃ log asleep, Logged (run.beginStep 0 (some 1)) log asleep ∧
      asleep.phase = .delayed 1 (longest .zero spans) := by
    rw [carries]
    exact ⟨_, _, .move (.move (.move .start ⟨0, .ok (.int 3), rfl, rfl⟩) ⟨0, .ok (), rfl, rfl⟩)
      ⟨0, false, rfl, rfl⟩, rfl⟩
  obtain ⟨log, asleep, logged, phase⟩ := logged
  exact ⟨sequence, program, log, asleep, parsed, compiled, found, beq_iff_eq.mp calls, called,
    logged, paces rfl found logged, phase, sleeps phase⟩

/-- A timer for half a million years: the pause of its group is over after thirty. -/
theorem group_outlasted_by_timer :
    let span : Duration := ⟨18446744073709_000_000_000, by decide⟩
    ∃ sequence step later, Sequence.parse "A+,(B+,18446744073709S,1S),B-" = .ok sequence ∧
      sequence.steps[1]? = some step ∧ .fixed span ∈ step.delays ∧
      (Solo.step (.showing fun _ _ => true))^[3]
          ⟨(), 0, (start sequence .default ⟨"plc", 0⟩ 1 1).beginStep 0 (some 1)⟩ = later ∧
      later.run.phase.watch? = some ⟨[⟨'B', .extend⟩], 946080000000, some 2⟩ ∧
      later.clock = 946080000000 ∧ later.clock * 1_000_000 < span.nanos := by
  intro span
  have ends : ((Sequence.parse "A+,(B+,18446744073709S,1S),B-").toOption.any fun sequence =>
      let later := (Solo.step (.showing fun _ _ => true))^[3]
        ⟨(), 0, (start sequence .default ⟨"plc", 0⟩ 1 1).beginStep 0 (some 1)⟩
      (sequence.steps[1]?.any fun step => step.delays.contains (.fixed span)) &&
        (later.run.phase.watch? == some ⟨[⟨'B', .extend⟩], 946080000000, some 2⟩ &&
          later.clock == 946080000000)) = true := by
    decide +kernel
  obtain ⟨sequence, parsed, ends⟩ := any_toOption_iff.mp ends
  simp only [Bool.and_eq_true, beq_iff_eq] at ends
  obtain ⟨here, watch, clock⟩ := ends
  obtain ⟨step, found, among⟩ := (Option.any_eq_true _ _).mp here
  refine ⟨sequence, step, _, parsed, found, by simpa using among, rfl, watch, clock, ?_⟩
  rw [clock]
  decide

end Run

end Pneumatic
