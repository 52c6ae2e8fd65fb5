import Pneumatic.Proofs.Run.Alike
import Pneumatic.Proofs.Run.Order

/-!
# The progress of a run

With the repeat variable at one value, the visits in the log of a run are those of a walk.  A
run makes every visit of a walk as long as the field obliges: it accepts every write, every
sensor is on when it is looked at, and the timer variable suits the timers.
-/

namespace Pneumatic.Run

/-! ## The visits of a log -/

/-- The answers to a request when the repeat variable reads as a value. -/
def Request.Allows (value : Int16) : (request : Request) → request.Reply → Prop
  | .read tag, reply =>
      tag = Tag.repeatVariable → ∀ seen : Int16, reply = .ok (.int seen) → seen = value
  | _, _ => True

/-- The events in which the repeat variable, if it is read, reads as a value. -/
def Event.Allows (value : Int16) : Event → Prop
  | .asked request reply => request.Allows value reply
  | _ => True

instance (value : Int16) (event : Event) : Decidable (event.Allows value) :=
  match event with
  | .asked (.read tag) (.ok (.int seen)) =>
      decidable_of_iff (tag = Tag.repeatVariable → seen = value)
        ⟨fun same read _ found => Field.Value.int.inj (Except.ok.inj found) ▸ same read,
          fun allows read => allows read seen rfl⟩
  | .asked (.read _) (.ok (.bool _)) | .asked (.read _) (.error _) => .isTrue nofun
  | .asked .connect _ | .asked .openSession _ | .asked (.write _) _ | .asked .checkStop _
  | .asked .closeSession _ | .asked .disconnect _ | .slept _ _ | .yielded => .isTrue trivial

variable {sequence : Sequence} {first : Run} {value : Int16} {visited : List (Nat × Step)}
  {before log : List Event} {index : Nat} {step : Step} {walk after : Walk} {reads : List Region}
  {next : Option Nat}

/-- A way on on which the repeat variable reads as a value. -/
theorem Departs.answered {leave : Walk.Leave}
    (departs : Departs sequence index leave log after next)
    (leaves : ∃ (walk : Walk) (regions : List Nat), leave = walk.leave sequence index regions)
    (allowed : ∀ event ∈ log, event.Allows value) :
    ∃ reads, Walk.Answered sequence (fun _ => value) index leave reads after next := by
  induction departs with
  | back => exact ⟨[], .go⟩
  | on => exact ⟨[], .go⟩
  | @ask walk after region rest seen log next _ ih =>
      obtain ⟨earlier, regions, leaveEq⟩ := leaves
      obtain ⟨found, here⟩ := Walk.exists_of_leave_ask leaveEq.symm
      rw [List.forall_mem_cons] at allowed
      obtain rfl := allowed.1 rfl seen rfl
      obtain ⟨reads, answered⟩ := ih ⟨_, _, rfl⟩ allowed.2
      exact ⟨found :: reads, .ask here answered⟩

/-- The visits in a log in which the repeat variable reads as a value. -/
theorem History.visits (history : History first visited before next walk)
    (allowed : ∀ event ∈ before, event.Allows value) :
    ∃ reads like, walk.Like like ∧
      Visits first.sequence (fun _ => value) visited.length visited reads next like := by
  induction history with
  | opening => exact ⟨[], _, ⟨rfl, rfl⟩, .start⟩
  | @visit visited before wait work leave index walk after step next _ here _ _ departs ih =>
      simp only [List.forall_mem_append] at allowed
      obtain ⟨⟨⟨earlier, -⟩, -⟩, leaving⟩ := allowed
      obtain ⟨reads, like, alike, visits⟩ := ih earlier
      obtain ⟨more, answered⟩ := departs.answered ⟨_, _, rfl⟩ leaving
      have wrote : (walk.wrote step).Like like := alike
      obtain ⟨after', alike', answered'⟩ := answered.like
        (wrote.leave (Sequence.regionsEndingAt first.sequence.regions index))
      rw [List.length_append, List.length_singleton]
      exact ⟨reads ++ more, after', alike', .visit visits here answered'⟩

/-! ## A field that obliges -/

/-- A round of looks that finds every sensor on. -/
theorem logged_look (pending : List Actuation) (run : Run) (watch : Watch) (now : Nat) :
    ∃ phase, Logged (run.look watch now (pending.map sensor))
      (pending.map fun actuation => .asked (.read (sensor actuation)) (.ok (.bool true)))
      ((run.enter phase).beginStep now watch.goal) := by
  induction pending generalizing run with
  | nil => exact ⟨run.phase, .start⟩
  | cons actuation rest ih =>
      obtain ⟨phase, looks⟩ :=
        ih (run.enter (.looking watch (sensor actuation) (rest.map sensor)))
      have asks : (run.enter (.looking watch (sensor actuation) (rest.map sensor))).move = _ := rfl
      exact ⟨phase, (Goes.of_ask asks now (.ok (.bool true))).logged.append looks⟩

/-- A timer that depends on the timer variable looks at it. -/
theorem logged_timing {seconds : Int16} {delay : Delay} {span : Duration}
    (resolved : delay.resolve seconds.toInt = some span) (run : Run) (work : Work) (now : Nat) :
    Logged (run.enter (.timing work delay))
      [.asked (.read Tag.timerVariable) (.ok (.int seconds))]
      ((run.enter (.timing work delay)).carryOut now work.index work.writes (max work.delay span)
        work.tokens) := by
  have asks : (run.enter (.timing work delay)).move = _ := rfl
  have timed := (Goes.of_ask asks now (.ok (.int seconds))).logged
  simp only [orFail, Except.bind, Field.Value.asInt, resolved] at timed
  exact timed

theorem allows_timing (value : Int16) (reply : Except Field.Error Field.Value) :
    Event.Allows value (.asked (.read Tag.timerVariable) reply) := by
  intro same
  simp [Tag.timerVariable, Tag.repeatVariable] at same

/-- The timer variable is read for every timer that needs it. -/
theorem logged_carryOut {seconds : Int16} {tokens : List Token}
    (noPressure : ∀ token ∈ tokens, token.isPressure = false)
    (resolves : ∀ delay ∈ tokens.filterMap Token.delay?,
      (delay.resolve seconds.toInt).isSome = true)
    (run : Run) (writes : List Field.Write) (delay : Duration) (index now : Nat) :
    ∃ phase longest timings,
      (∀ event ∈ timings, event.Times ∧ event.Allows value) ∧
      Logged (run.carryOut now index writes delay tokens) timings
        ((run.enter phase).carryOut now index
          (writes ++ (tokens.filterMap Token.actuation?).flatMap command) longest []) := by
  induction tokens generalizing run writes delay with
  | nil =>
      refine ⟨run.phase, delay, [], by simp, ?_⟩
      rw [List.filterMap_nil, List.flatMap_nil, List.append_nil]
      exact .start
  | cons token rest ih =>
      rw [List.forall_mem_cons] at noPressure
      cases token with
      | actuation actuation =>
          obtain ⟨phase, longest, timings, timing, carried⟩ :=
            ih noPressure.2 resolves run (writes ++ command actuation) delay
          rw [List.append_assoc] at carried
          rw [carryOut]
          exact ⟨phase, longest, timings, timing, carried⟩
      | timer timer =>
          have resolves' : (timer.resolve seconds.toInt).isSome = true ∧
              ∀ delay ∈ rest.filterMap Token.delay?,
                (delay.resolve seconds.toInt).isSome = true :=
            List.forall_mem_cons.mp resolves
          cases timer with
          | fixed span =>
              rw [carryOut]
              exact ih noPressure.2 resolves'.2 run writes (max delay span)
          | relative offset =>
              rw [carryOut]
              obtain ⟨span, resolved⟩ := Option.isSome_iff_exists.mp resolves'.1
              have timed := logged_timing resolved run ⟨index, rest, writes, delay⟩ now
              obtain ⟨phase, longest, timings, timing, carried⟩ := ih noPressure.2 resolves'.2
                (run.enter (.timing ⟨index, rest, writes, delay⟩ (.relative offset))) writes
                (max delay span)
              refine ⟨phase, longest, _, ?_, timed.append carried⟩
              rw [List.singleton_append, List.forall_mem_cons]
              exact ⟨⟨rfl, allows_timing value _⟩, timing⟩
      | pressure pressure => exact absurd noPressure.1 (by simp [Token.isPressure])

/-- The combined write of a step is accepted. -/
theorem logged_written (run : Run) (step : Step) (delay : Duration) (index now : Nat) :
    ∃ phase,
      Logged (run.carryOut now index (step.actuations.flatMap command) delay []) (written step)
        (({ run with walk := run.walk.wrote step, phase }).beginDelay index delay now) := by
  by_cases still : step.actuations = []
  · have same : run.walk.wrote step = run.walk := by simp [Walk.wrote, still]
    rw [same, written_eq_nil still, still]
    exact ⟨run.phase, .start⟩
  · have something : (step.actuations.flatMap command).isEmpty = false := by
      rwa [List.isEmpty_eq_false_iff, ne_eq, flatMap_command_eq_nil_iff]
    have wrote : run.walk.wrote step =
        { run.walk with actuationWrites := run.walk.actuationWrites + 1 } := by
      simp [Walk.wrote, still]
    let acting : Run := run.enter (.acting ⟨index, [], step.actuations.flatMap command, delay⟩)
    have moves : run.carryOut now index (step.actuations.flatMap command) delay [] = acting := by
      rw [carryOut, something]
      rfl
    have asks : acting.move = _ := rfl
    rw [moves, written_eq_singleton still, wrote]
    exact ⟨acting.phase, (Goes.of_ask asks now (.ok ())).logged⟩

/-- The timers of a step pass, and nothing stops the run. -/
theorem logged_beginDelay (run : Run) (delay : Duration) (index now : Nat) :
    ∃ phase pause,
      (pause = [] ∨ ∃ span, pause = [.asked .checkStop false, .slept span false]) ∧
      Logged (run.beginDelay index delay now) pause ((run.enter phase).leaveStep index now) := by
  rw [beginDelay]
  split
  · exact ⟨run.phase, [], .inl rfl, .start⟩
  · have asks : (run.enter (.delaying index delay)).move = _ := rfl
    have sleeps : (run.enter (.delayed index delay)).move = _ := rfl
    have begun := (Goes.of_ask asks now false).logged
    have slept := (Goes.of_sleep sleeps now false).logged
    exact ⟨_, _, .inr ⟨delay, rfl⟩, begun.append slept⟩

/-- The way on from a step is the one of a walk whose questions the repeat variable answers. -/
theorem logged_follow {leave : Walk.Leave}
    (answered : Walk.Answered sequence (fun _ => value) index leave reads after next)
    (here : sequence.steps[index]? = some step) (run : Run) (sequenceEq : run.sequence = sequence)
    (now : Nat) :
    ∃ departure, Departs sequence index leave departure after next ∧
      (∀ event ∈ departure, event.Allows value) ∧
      Logged (run.follow index now leave) departure
        (({ run with walk := after }).await step.actuations next now) := by
  have pending : (run.sequence.steps[index]?.map Step.actuations).getD [] = step.actuations := by
    rw [sequenceEq, here]
    rfl
  induction answered generalizing run with
  | @go walk next =>
      cases next with
      | none =>
          simp only [follow, pending]
          exact ⟨[], .on (by simp), by simp, .start⟩
      | some target =>
          simp only [follow, pending]
          split
          · next earlier =>
              let rewinding : Run := { run with walk, phase := .rewinding index target }
              have yields : rewinding.move = _ := rfl
              have yielded := (Goes.of_yield yields now).logged
              rw [pending] at yielded
              exact ⟨_, .back earlier, List.forall_mem_singleton.mpr trivial, yielded⟩
          · next later => exact ⟨[], .on (by simpa using later), by simp, .start⟩
  | @ask walk after position rest region reads next found _ ih =>
      let asking : Run := { run with walk, phase := .asking index position rest }
      have asks : asking.move = _ := rfl
      have asked := (Goes.of_ask asks now (.ok (.int value))).logged
      subst sequenceEq
      obtain ⟨departure, departs, allowed, goesOn⟩ := ih asking rfl pending
      refine ⟨_, .ask departs, ?_, asked.append goesOn⟩
      rw [List.forall_mem_cons]
      refine ⟨?_, allowed⟩
      rintro - seen same
      exact (Field.Value.int.inj (Except.ok.inj same)).symm

/-- The variables get their values, and every actuator is sent to rest. -/
theorem logged_rested (run : Run) (now : Nat) :
    Logged (run.enter .connecting) (rested run) (run.enter .settling) := by
  have connects : (run.enter .connecting).move = _ := rfl
  have opens : (run.enter .opening).move = _ := rfl
  have seeding : (run.enter .seeding).move = _ := rfl
  have connected : Logged (run.enter .connecting) [.asked .connect (.ok ())]
      (run.enter .opening) := (Goes.of_ask connects now (.ok ())).logged
  have opened : Logged (run.enter .opening) [.asked .openSession (.ok ())]
      (run.enter .seeding) := (Goes.of_ask opens now (.ok ())).logged
  have seeds : Logged (run.enter .seeding) [.asked (.write run.seeds) (.ok ())]
      (run.enter (if run.restWrites.isEmpty then .settling else .resting)) :=
    (Goes.of_ask seeding now (.ok ())).logged
  have begun : Logged (run.enter .connecting) (seeded run) _ :=
    (connected.append opened).append seeds
  rw [rested]
  cases still : run.restWrites.isEmpty with
  | true =>
      rw [still] at begun
      exact begun.append .start
  | false =>
      rw [still] at begun
      have resting : (run.enter .resting).move = _ := rfl
      exact begun.append (Goes.of_ask resting now (.ok ())).logged

/-- A run opens, and waits for its first step. -/
theorem logged_opened (run : Run) (now : Nat) :
    Logged (run.enter .connecting) (opened run) (run.await [] (some 0) now) := by
  have settling : (run.enter .settling).move = _ := rfl
  have settled : (run.enter .settled).move = _ := rfl
  have settles : Logged (run.enter .settling) [.asked .checkStop false]
      (if run.settings.settle = 0 then run.await [] (some 0) now else run.enter .settled) :=
    (Goes.of_ask settling now false).logged
  refine (logged_rested run now).append ?_
  split
  · next instant =>
      rw [if_pos instant] at settles
      exact settles
  · next later =>
      rw [if_neg later] at settles
      exact settles.append (Goes.of_sleep settled now false).logged

/-- What is allowed of an opening. -/
theorem allows_opened (first : Run) (value : Int16) :
    ∀ event ∈ opened first, event.Allows value := by
  simp only [opened, rested, seeded]
  split <;> split <;> simp [Event.Allows, Request.Allows]

theorem allows_confirmation (pending : List Actuation) (value : Int16) :
    ∀ event ∈ confirmation pending, event.Allows value := by
  simp only [confirmation, List.forall_mem_cons, List.forall_mem_map]
  refine ⟨trivial, ?_⟩
  rintro actuation - same seen number
  cases Except.ok.inj number

theorem allows_written (step : Step) (value : Int16) :
    ∀ event ∈ written step, event.Allows value := by
  rw [written]
  split <;> simp [Event.Allows, Request.Allows]

/-- A run that waits for the last of its visits makes the next one. -/
theorem exists_visit {seconds : Int16}
    (noPressure : ∀ token ∈ step.tokens, token.isPressure = false)
    (resolves : ∀ delay ∈ step.delays, (delay.resolve seconds.toInt).isSome = true)
    (history : History first visited before (some index) walk)
    (allowed : ∀ event ∈ before, event.Allows value)
    (logged : Logged first before
      (({ first with walk }).await (awaited visited) (some index) 0))
    (here : first.sequence.steps[index]? = some step)
    (answered : Walk.Answered first.sequence (fun _ => value) index
      ((walk.wrote step).advance first.sequence index) reads after next) :
    ∃ log, History first (visited ++ [(index, step)]) log next after ∧
      (∀ event ∈ log, event.Allows value) ∧
      Logged first log
        (({ first with walk := after }).await (awaited (visited ++ [(index, step)])) next 0) := by
  let waiting : Run := ({ first with walk }).await (awaited visited) (some index) 0
  have asks : waiting.move = _ := rfl
  have asked : Logged waiting [.asked .checkStop false]
      (waiting.look ⟨awaited visited, 0, some index⟩ 0 ((awaited visited).map sensor)) :=
    (Goes.of_ask asks 0 false).logged
  obtain ⟨seen, looked⟩ := logged_look (awaited visited) waiting ⟨awaited visited, 0, some index⟩ 0
  have confirmed : Logged waiting (confirmation (awaited visited)) _ := asked.append looked
  obtain ⟨timed, longest, timings, timing, carried⟩ :=
    @logged_carryOut value seconds step.tokens noPressure resolves (waiting.enter seen) [] .zero
      index 0
  have begins : (waiting.enter seen).beginStep 0 (some index) =
      (waiting.enter seen).carryOut 0 index [] .zero step.tokens := by
    rw [beginStep, show (waiting.enter seen).sequence.steps[index]? = some step from here]
    rfl
  obtain ⟨issued, wrote⟩ := logged_written ((waiting.enter seen).enter timed) step longest index 0
  obtain ⟨passed, pause, pauses, paused⟩ := logged_beginDelay
    { first with walk := walk.wrote step, phase := issued } longest index 0
  obtain ⟨departure, departs, leaving, left⟩ := logged_follow answered here
    { first with walk := walk.wrote step, phase := passed } rfl 0
  have confirms : Confirms (awaited visited) (confirmation (awaited visited)) :=
    ⟨[], (List.nil_append _).symm, by simp⟩
  have carriedOut : CarriesOut step (timings ++ written step ++ pause) :=
    ⟨timings, pause, rfl, fun event among => (timing event among).1, pauses⟩
  refine ⟨_, .visit history here confirms carriedOut departs, ?_, ?_⟩
  · simp only [List.forall_mem_append]
    refine ⟨⟨⟨allowed, allows_confirmation _ value⟩, ⟨fun event among => (timing event among).2,
      allows_written step value⟩, ?_⟩, leaving⟩
    rcases pauses with rfl | ⟨span, rfl⟩
    · simp
    · simp [Event.Allows, Request.Allows]
  · rw [awaited_append, List.append_assoc, List.append_assoc]
    rw [begins] at confirmed
    exact logged.append (confirmed.append (((carried.append wrote).append paused).append left))

/-- A run makes the visits of a walk, whatever they are, if the field obliges it. -/
theorem exists_history {settings : Settings} {lease : Device.Lease}
    {timerSeed repeatSeed seconds : Int16}
    (noPressure : ∀ step ∈ sequence.steps, ∀ token ∈ step.tokens, token.isPressure = false)
    (resolves : ∀ step ∈ sequence.steps, ∀ delay ∈ step.delays,
      (delay.resolve seconds.toInt).isSome = true) {count : Nat}
    (visits : Visits sequence (fun _ => value) count visited reads next walk) :
    ∃ log tallied,
      History (start sequence settings lease timerSeed repeatSeed) visited log next tallied ∧
      walk.Like tallied ∧ (∀ event ∈ log, event.Allows value) ∧
      Logged (start sequence settings lease timerSeed repeatSeed) log
        (({ start sequence settings lease timerSeed repeatSeed with walk := tallied }).await
          (awaited visited) next 0) := by
  induction visits with
  | start =>
      exact ⟨_, _, .opening, ⟨rfl, rfl⟩, allows_opened _ value,
        logged_opened (start sequence settings lease timerSeed repeatSeed) 0⟩
  | @visit count index visited reads more walk after step next _ here answered ih =>
      obtain ⟨before, tallied, history, like, allowed, logged⟩ := ih
      have among := List.mem_of_getElem? here
      have wrote : walk.Like (tallied.wrote step) := like
      obtain ⟨after', like', answered'⟩ := answered.like
        (wrote.leave (Sequence.regionsEndingAt sequence.regions index))
      obtain ⟨log, history', allowed', logged'⟩ := exists_visit (noPressure step among)
        (resolves step among) history allowed logged here answered'
      exact ⟨log, after', history', like', allowed', logged'⟩
  | rest _ ih => exact ih

end Pneumatic.Run
