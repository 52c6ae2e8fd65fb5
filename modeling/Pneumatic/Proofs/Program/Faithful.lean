import Pneumatic.Proofs.Except
import Pneumatic.Proofs.Program.Lockstep
import Pneumatic.Proofs.Run.Progress

/-!
# A program does what a run does

Each case commands what a run writes for its step, and waits for what the run waits for and
for the timers of the step.  With the repeat variable at one value, the program and the run
go through the same steps: the log of a run shows visit after visit what the cases of the
program do, one transition after the other.
-/

namespace Pneumatic

/-! ## The work of a case -/

/-- The assignments to coils in the body of a case, as a run writes them. -/
def Case.writes (case : Case) : List Field.Write :=
  ((Instruction.bits case.body).filter fun assignment => Tag.isCoil assignment.1).map
    fun (tag, value) => ⟨tag, .bool value⟩

/-- A case does for a step what a run does: it commands what the run writes, and waits for the
sensors that the run waits for and for the timers of the step. -/
structure Case.DoesWork (case : Case) (step : Step) (parts : List Part) : Prop where
  writes : case.writes = step.actuations.flatMap Run.command
  waits : ∀ signal, signal ∈ case.waits ↔
    signal ∈ step.actuations.map Run.sensor ∨
      ∃ number, ComponentId.timer number ∈ parts.map (·.component) ∧
        signal = (Tag.Timer.auto number).done

namespace Part

theorem bits_assign (command : List (String × Bool)) :
    Instruction.bits (Program.Builder.assign command) = command := by
  induction command with
  | nil => rfl
  | cons assignment rest ih =>
      change assignment :: Instruction.bits (Program.Builder.assign rest) = _
      rw [ih]

/-- The coils that the parts of a step assign to. -/
theorem coils_flatMap_body {parts : List Part} (runs : ∀ part ∈ parts, part.Runs) :
    (((Instruction.bits (parts.flatMap body)).filter fun assignment =>
        Tag.isCoil assignment.1).map fun (tag, value) => Field.Write.mk tag (.bool value)) =
      ((parts.map (·.token)).filterMap Token.actuation?).flatMap Run.command := by
  induction parts with
  | nil => rfl
  | cons part rest ih =>
      rw [List.forall_mem_cons] at runs
      rw [List.flatMap_cons, Instruction.bits_append, List.filter_append, List.map_append,
        ih runs.2]
      cases runs.1 with
      | actuation actuation =>
          have all : ((Tag.Actuator.auto actuation.label).command actuation.direction).filter
              (fun assignment => Tag.isCoil assignment.1) = _ :=
            List.filter_eq_self.mpr (Tag.isCoil_command actuation)
          simp only [body, bits_assign, all]
          rfl
      | timer delay number =>
          have noCoil : Tag.isCoil (Tag.Timer.auto number).power = false := Tag.isCoil_autoName rfl
          rw [List.map_cons, List.filterMap_cons_none rfl]
          simp [body, Instruction.bits, noCoil]

end Part

namespace Program

variable {sequence : Sequence} {program : Program}

/-- A program and a walk are at the same place: in the case of the next step, which does the
work of the step, and with the same passes counted. -/
structure Together (sequence : Sequence) (program : Program) (next : Option Nat)
    (walk : Run.Walk) (state : Nat × Memory) : Prop where
  place : ∀ index < sequence.length, state.1 = caseNumber index ↔ next = some index
  rests : next = none ↔ program.case? state.1 = none
  counters : ∀ (position : Nat) (region : Region) (number : Nat),
    sequence.regions[position]? = some region →
      sequence.counters[position]?.join = some number →
        ∃ passes, walk.completed[position]? = some passes ∧
          state.2.words (Tag.counterName number) = (passes : Int)
  work : ∀ index, next = some index →
    ∃ step parts case, sequence.steps[index]? = some step ∧ sequence.parts[index]? = some parts ∧
      program.case? state.1 = some case ∧ case.DoesWork step parts

variable {builder : Builder} {cases : List Case}

/-- The case of a step does the work of the step. -/
theorem Built.work (built : Built sequence program builder cases)
    (plain : sequence.wrapped = false) {index : Nat} {step : Step}
    (here : sequence.steps[index]? = some step) :
    ∃ parts case, sequence.parts[index]? = some parts ∧
      program.case? (caseNumber index) = some case ∧ case.DoesWork step parts := by
  obtain ⟨parts, case, partsEq, tokens, runs, there, serves⟩ := built.serves here
  refine ⟨parts, case, partsEq, (built.case?_caseNumber plain index).trans there, ?_, ?_⟩
  · rw [Case.writes, serves.body, Part.coils_flatMap_body runs, tokens]
    rfl
  · intro signal
    rw [serves.waits, Part.exists_signal_iff runs, tokens]
    simp [Step.actuations, Run.sensor, eq_comm]

/-- At the place of the next step, with the words of the counts, a program is together with
the walk that has these counts. -/
theorem Built.together (built : Built sequence program builder cases)
    (plain : sequence.wrapped = false) {value : Int16} {memory : Memory} {counts : Region → Nat}
    {next : Option Nat} {reads : List Region} {walk : Run.Walk}
    (inside : ∀ index ∈ next, index < sequence.length)
    (agrees : Agrees sequence value memory counts)
    (tracks : Run.Tracks sequence (fun _ => value) reads walk counts) :
    Together sequence program next walk (place sequence next, memory) := by
  have counters : ∀ (position : Nat) (region : Region) (number : Nat),
      sequence.regions[position]? = some region →
        sequence.counters[position]?.join = some number →
          ∃ passes, walk.completed[position]? = some passes ∧
            memory.words (Tag.counterName number) = (passes : Int) := by
    intro position region number here counter
    exact ⟨counts region, tracks.completed position region here,
      agrees.counters position region number here counter⟩
  cases next with
  | none =>
      refine ⟨?_, ?_, counters, fun _ equal => nomatch equal⟩
      · intro index within
        simp only [place, Option.getD_none, caseNumber, reduceCtorEq, iff_false]
        omega
      · rw [place, built.case?_caseNumber plain]
        simp [built.length]
  | some index =>
      have here := List.getElem?_eq_getElem (inside index rfl)
      obtain ⟨parts, case, partsEq, there, work⟩ := built.work plain here
      refine ⟨?_, ?_, counters, ?_⟩
      · intro other _
        simp only [place, Option.getD_some, caseNumber, Option.some.injEq]
        omega
      · rw [place, Option.getD_some, there]
        simp
      · rintro other ⟨rfl⟩
        exact ⟨_, parts, case, here, partsEq, there, work⟩

/-! ## The log of a run beside a program -/

end Program

namespace Run

/-- What a run does while it waits for tags to come on. -/
def Event.Watches (tags : List String) : Event → Prop
  | .asked .checkStop _ | .slept _ _ => True
  | .asked (.read tag) _ => tag ∈ tags
  | _ => False

/-- A wait for tags that ends with a round of looks: one after the other, with nothing in
between, each of them is on. -/
def Sees (tags : List String) (log : List Event) : Prop :=
  ∃ polls, (∀ event ∈ polls, event.Watches tags) ∧
    log = polls ++ .asked .checkStop false ::
      tags.map fun tag => .asked (.read tag) (.ok (.bool true))

theorem watches_of_polls {pending : List Actuation} {polls : List Event}
    (polling : ∀ event ∈ polls, event.Polls pending) :
    ∀ event ∈ polls, event.Watches (pending.map sensor) := by
  intro event among
  have polls := polling event among
  cases event with
  | slept => trivial
  | yielded => exact polls
  | asked request reply =>
      cases request with
      | checkStop => trivial
      | read tag =>
          obtain ⟨actuation, membership, rfl⟩ := polls
          exact List.mem_map_of_mem membership
      | connect | openSession | write | closeSession | disconnect => exact polls

theorem Confirms.sees {pending : List Actuation} {log : List Event}
    (confirms : Confirms pending log) : Sees (pending.map sensor) log := by
  obtain ⟨polls, rfl, polling⟩ := confirms
  refine ⟨polls, watches_of_polls polling, ?_⟩
  rw [confirmation, List.map_map]
  rfl

end Run

namespace Case

/-- The assignments of a case to coils as a run issues them: in one write, or not at all if there
are none. -/
def issued (case : Case) : List Run.Event :=
  if case.writes.isEmpty then [] else [.asked (.write case.writes) (.ok ())]

/-- A log in which a run issues the assignments of a case, and nothing else.  Before, it looks at
the timer variable; behind, it may sleep. -/
def CarriedOut (case : Case) (log : List Run.Event) : Prop :=
  ∃ timings pause, log = timings ++ case.issued ++ pause ∧ (∀ event ∈ timings, event.Times) ∧
    (pause = [] ∨ ∃ span, pause = [.asked .checkStop false, .slept span false])

/-- A log in which a run begins to do so. -/
inductive Begun (case : Case) : List Run.Event → Prop where
  | timing {timings : List Run.Event} :
      (∀ event ∈ timings, event.Times) → Begun case timings
  | writing {timings : List Run.Event} {reply : Except Field.Error Unit} :
      (∀ event ∈ timings, event.Times) → case.writes ≠ [] →
      Begun case (timings ++ [.asked (.write case.writes) reply])
  | lingering {timings rest : List Run.Event} :
      (∀ event ∈ timings, event.Times) → (∀ event ∈ rest, event.Lingers) →
      Begun case (timings ++ case.issued ++ rest)

/-- A case waits for tags and for the timers among some parts; no tag is that of a timer. -/
structure Awaits (case : Case) (parts : List Part) (tags : List String) : Prop where
  waits : ∀ signal, signal ∈ case.waits ↔
    signal ∈ tags ∨
      ∃ number, ComponentId.timer number ∈ parts.map (·.component) ∧
        signal = (Tag.Timer.auto number).done
  apart : ∀ tag ∈ tags, ∀ number, tag ≠ (Tag.Timer.auto number).done

namespace DoesWork

variable {case : Case} {step : Step} {parts : List Part} {work : List Run.Event}

theorem issued_eq (does : case.DoesWork step parts) : case.issued = Run.written step := by
  rw [issued, Run.written, does.writes]
  cases step.actuations with
  | nil => rfl
  | cons actuation rest => simp [Run.command_ne_nil]

theorem writes_ne_nil (does : case.DoesWork step parts) (moves : step.actuations ≠ []) :
    case.writes ≠ [] := by
  rwa [does.writes, ne_eq, Run.flatMap_command_eq_nil_iff]

theorem carriedOut (does : case.DoesWork step parts) (carried : Run.CarriesOut step work) :
    case.CarriedOut work := by
  rw [CarriedOut, does.issued_eq]
  exact carried

theorem begun (does : case.DoesWork step parts) (attempts : Run.Attempts step work) :
    case.Begun work := by
  cases attempts with
  | timing timing => exact .timing timing
  | writing timing moves =>
      rw [← does.writes]
      exact .writing timing (does.writes_ne_nil moves)
  | lingering timing lingers =>
      rw [← does.issued_eq]
      exact .lingering timing lingers

theorem awaits (does : case.DoesWork step parts) :
    case.Awaits parts (step.actuations.map Run.sensor) := by
  refine ⟨does.waits, ?_⟩
  intro tag among number
  obtain ⟨actuation, -, rfl⟩ := List.mem_map.mp among
  exact Tag.sensor_ne_done actuation.label actuation.direction number

end DoesWork

end Case

namespace Program

variable {sequence : Sequence} {program : Program}

/-- The log of a run beside a program.  For each step that the run visited, the program took one
transition: it was in the case of the step when the run saw what the case before waits for and
issued what this one assigns to coils.  `tags` are what the run waits for next, and the program
is together with the walk of the run. -/
inductive Beside (program : Program) (first : Run) (start : Nat × Memory) :
    Nat → List String → List Run.Event → Option Nat → Run.Walk → Prop where
  | opening :
      Together first.sequence program (some 0) (.start first.sequence) start →
      Beside program first start 0 [] (Run.opened first) (some 0) (.start first.sequence)
  | visit {count index : Nat} {tags tags' : List String}
      {before wait work leave : List Run.Event} {walk after : Run.Walk} {step : Step}
      {parts : List Part} {case : Case} {next : Option Nat} :
      Beside program first start count tags before (some index) walk →
      program.case? (program.advance^[count] start).1 = some case →
      first.sequence.steps[index]? = some step → first.sequence.parts[index]? = some parts →
      Run.Sees tags wait →
      case.CarriedOut work →
      case.Awaits parts tags' →
      Run.Departs first.sequence index ((walk.wrote step).advance first.sequence index) leave
        after next →
      Together first.sequence program next after (program.advance^[count + 1] start) →
      Beside program first start (count + 1) tags' (before ++ wait ++ work ++ leave) next after

/-- A log of a run that goes beside a program: not beyond the opening, waiting for what the case
performed last waits for, or with the work of the next case begun. -/
inductive Accompanies (program : Program) (first : Run) (start : Nat × Memory) :
    List Run.Event → Prop where
  | opening {log : List Run.Event} :
      (∀ event ∈ log, event.Opens first) → Accompanies program first start log
  | waiting {count : Nat} {tags : List String} {before polls : List Run.Event}
      {next : Option Nat} {walk : Run.Walk} :
      Beside program first start count tags before next walk →
      (∀ event ∈ polls, event.Watches tags) →
      Accompanies program first start (before ++ polls)
  | working {count index : Nat} {tags : List String} {before wait work : List Run.Event}
      {walk : Run.Walk} {case : Case} :
      Beside program first start count tags before (some index) walk →
      program.case? (program.advance^[count] start).1 = some case →
      Run.Sees tags wait →
      case.Begun work →
      Accompanies program first start (before ++ wait ++ work)

theorem Beside.together {first : Run} {start : Nat × Memory} {count : Nat} {tags : List String}
    {log : List Run.Event} {next : Option Nat} {walk : Run.Walk}
    (beside : Beside program first start count tags log next walk) :
    Together first.sequence program next walk (program.advance^[count] start) := by
  cases beside with
  | opening together => exact together
  | visit _ _ _ _ _ _ _ _ together => exact together

/-! ## A program and the runs of its sequence -/

/-- A program that is together with every walk of a sequence, the repeat variable being at a
value, after as many transitions as the walk has visits. -/
def Keeps (sequence : Sequence) (program : Program) (value : Int16) (start : Nat × Memory) : Prop :=
  ∀ ⦃count visited reads next walk⦄,
    Run.Visits sequence (fun _ => value) count visited reads next walk →
      Together sequence program next walk (program.advance^[count] start)

section

variable {value : Int16} {start : Nat × Memory} {first run : Run} {visited : List (Nat × Step)}
  {before log : List Run.Event} {next : Option Nat} {walk walk' : Run.Walk}

theorem Together.like {state : Nat × Memory} (together : Together sequence program next walk' state)
    (like : walk.Like walk') : Together sequence program next walk state := by
  refine ⟨together.place, together.rests, ?_, together.work⟩
  intro position region number here counter
  rw [like.2]
  exact together.counters position region number here counter

/-- The visits in the log of a run are beside the transitions of the program. -/
theorem Keeps.beside (keeps : Keeps first.sequence program value start)
    (history : Run.History first visited before next walk)
    (allowed : ∀ event ∈ before, event.Allows value) :
    Beside program first start visited.length ((Run.awaited visited).map Run.sensor) before next
      walk := by
  obtain ⟨reads, like, alike, visits⟩ := history.visits allowed
  have together := (keeps visits).like alike
  induction history generalizing reads like with
  | opening => exact .opening together
  | @visit visited before wait work leave index walk after step next earlier here confirms carried
      departs ih =>
      simp only [List.forall_mem_append] at allowed
      obtain ⟨⟨⟨allowed, -⟩, -⟩, -⟩ := allowed
      obtain ⟨reads, like, alike, visits⟩ := earlier.visits allowed
      have beside := ih allowed _ _ alike visits ((keeps visits).like alike)
      obtain ⟨found, parts, case, stepEq, partsEq, there, does⟩ :=
        beside.together.work index rfl
      obtain rfl := Option.some.inj (here.symm.trans stepEq)
      rw [List.length_append, List.length_singleton] at together ⊢
      rw [Run.awaited_append]
      exact .visit beside there here partsEq confirms.sees (does.carriedOut carried) does.awaits
        departs together

theorem Keeps.accompanies (keeps : Keeps first.sequence program value start)
    (ordered : Run.InOrder first log) (allowed : ∀ event ∈ log, event.Allows value) :
    Accompanies program first start log := by
  cases ordered with
  | opening opens => exact .opening opens
  | waiting history polling =>
      rw [List.forall_mem_append] at allowed
      exact .waiting (keeps.beside history allowed.1) (Run.watches_of_polls polling)
  | working history here confirms attempts =>
      simp only [List.forall_mem_append] at allowed
      have beside := keeps.beside history allowed.1.1
      obtain ⟨step, parts, case, stepEq, -, there, does⟩ := beside.together.work _ rfl
      obtain rfl := Option.some.inj (here.symm.trans stepEq)
      exact .working beside there confirms.sees (does.begun attempts)

end

/-- From the first case on, with all counters at zero, the program of a sequence that is not
wrapped keeps together with the walks of the sequence. -/
theorem keeps_of_compile {source : String} (parsed : Sequence.parse source = .ok sequence)
    (plain : sequence.wrapped = false) (compiled : compile sequence none = .ok program)
    {value : Int16} {memory : Memory} (repeats : memory.words Tag.repeatVariable = value.toInt)
    (fresh : ∀ number, memory.words (Tag.counterName number) = 0) :
    Keeps sequence program value (10, memory) := by
  intro count visited reads next walk visits
  have nonempty := Sequence.nodes_ne_nil_of_parse parsed
  have solid := Sequence.solid_of_parse parsed
  obtain ⟨builder, cases, built⟩ := built_of_compile compiled
  have agrees : Agrees sequence value memory fun _ => 0 :=
    ⟨repeats, fun _ _ number _ _ => fresh number⟩
  obtain ⟨counts, tracks, tourEq, -⟩ := visits.tracks
  obtain ⟨memory', ran, agrees'⟩ := built.iterate_advance plain nonempty solid agrees count
  have inside := Run.iterate_hop_lt (fun _ => value) nonempty solid count
  rw [← tourEq] at ran agrees' inside
  change program.advance^[count] (10, memory) = _ at ran
  rw [ran]
  exact built.together plain inside agrees' tracks

/-- A compiled sequence that is not wrapped takes the path of its runs, with the repeat variable
at one value, from the first case on with all counters at zero.

After any number of steps the program is together with the walk of the interpreter.  In the log
of every run, whatever the field answers and wherever the log ends, each visit of a step shows
the work of the case that the program is in after as many transitions; so it does up to the end
if the run completes.  And a run makes every visit of the walk if the field obliges it. -/
theorem together_of_compile {source : String} (parsed : Sequence.parse source = .ok sequence)
    (plain : sequence.wrapped = false) (compiled : compile sequence none = .ok program)
    (value : Int16) (memory : Memory) (repeats : memory.words Tag.repeatVariable = value.toInt)
    (fresh : ∀ number, memory.words (Tag.counterName number) = 0) :
    (∀ count, ∃ visited reads next walk,
      Run.Visits sequence (fun _ => value) count visited reads next walk ∧
      Together sequence program next walk (program.advance^[count] (10, memory))) ∧
    (∀ settings lease timerSeed repeatSeed log run,
      Run.Logged (.start sequence settings lease timerSeed repeatSeed) log run →
      (∀ event ∈ log, event.Allows value) →
      ∃ steps closing, log = steps ++ closing ∧ (∀ event ∈ closing, event.Closes) ∧
        Accompanies program (.start sequence settings lease timerSeed repeatSeed) (10, memory)
          steps ∧
        ∀ report, run.move = .halt (.ok report) → report.outcome = .completed →
          ∃ count tags before wait walk, steps = before ++ wait ∧
            Beside program (.start sequence settings lease timerSeed repeatSeed) (10, memory)
              count tags before none walk ∧
            Run.Sees tags wait) ∧
    ∀ settings lease timerSeed repeatSeed (seconds : Int16),
      (∀ step ∈ sequence.steps, ∀ delay ∈ step.delays,
        (delay.resolve seconds.toInt).isSome = true) →
      ∀ count visited reads next walk,
        Run.Visits sequence (fun _ => value) count visited reads next walk →
        ∃ log run tags tallied,
          Run.Logged (.start sequence settings lease timerSeed repeatSeed) log run ∧
          (∀ event ∈ log, event.Allows value) ∧
          Beside program (.start sequence settings lease timerSeed repeatSeed) (10, memory)
            visited.length tags log next tallied := by
  have keeps := keeps_of_compile parsed plain compiled repeats fresh
  refine ⟨?_, ?_, ?_⟩
  · intro count
    obtain ⟨visited, reads, next, walk, visits⟩ :=
      Run.exists_visits (fun _ => value) (Sequence.nodes_ne_nil_of_parse parsed)
        (Sequence.solid_of_parse parsed) count
    exact ⟨visited, reads, next, walk, visits, keeps visits⟩
  · intro settings lease timerSeed repeatSeed log run logged allowed
    have long : 0 < sequence.length := Sequence.length_pos_of_parse parsed
    have told : Run.Told (.start sequence settings lease timerSeed repeatSeed) log run :=
      .of_logged long logged ⟨rfl, rfl⟩
    obtain ⟨steps, closing, rfl, ordered, closes, concluded⟩ := told.concluded
    rw [List.forall_mem_append] at allowed
    refine ⟨steps, closing, rfl, closes, keeps.accompanies ordered allowed.1, ?_⟩
    intro report halts completed
    obtain ⟨visited, before, wait, walk, rfl, history, confirms⟩ :=
      (concluded (.ok report) halts).2 report rfl completed
    have earlier := (List.forall_mem_append.mp allowed.1).1
    exact ⟨_, _, before, wait, walk, rfl, keeps.beside history earlier, confirms.sees⟩
  · intro settings lease timerSeed repeatSeed seconds resolves count visited reads next walk visits
    obtain ⟨builder, cases, built⟩ := built_of_compile compiled
    have noPressure : ∀ step ∈ sequence.steps, ∀ token ∈ step.tokens, token.isPressure = false := by
      intro step among token inside
      obtain ⟨index, here⟩ := List.mem_iff_getElem?.mp among
      obtain ⟨parts, -, -, tokens, runs, -⟩ := built.serves here
      rw [← tokens] at inside
      obtain ⟨part, partAmong, rfl⟩ := List.mem_map.mp inside
      exact (runs part partAmong).isPressure
    obtain ⟨log, tallied, history, -, allowed, logged⟩ :=
      Run.exists_history noPressure resolves visits
    exact ⟨log, _, _, tallied, logged, allowed, keeps.beside history allowed⟩

/-- With the repeat variable at two, the run of a sequence on a controller whose actuators take
time completes with six writes, and its log is beside the program up to the end. -/
theorem together_of_compile_repeat :
    ∃ sequence program log run steps closing count tags before wait walk,
      Sequence.parse "A+,[B+,B-]^N,A-" = .ok sequence ∧ compile sequence none = .ok program ∧
      Run.Logged (.start sequence .default ⟨"plc", 0⟩ 1 2) log run ∧
      run.move = .halt (.ok ⟨0, "plc", .completed, 6, 1, 1, 2⟩) ∧
      log = steps ++ closing ∧ steps = before ++ wait ∧
      Beside program (.start sequence .default ⟨"plc", 0⟩ 1 2)
        (10, ⟨[], fun tag => if tag = Tag.repeatVariable then 2 else 0⟩) count tags before none
        walk ∧
      Run.Sees tags wait := by
  let alone (sequence : Sequence) : Run.Solo Run.Plant :=
    ⟨.single "plc" 4840 (.withActuators 30 ['A', 'B']), 0, .start sequence .default ⟨"plc", 0⟩ 1 2⟩
  have completes : ((Sequence.parse "A+,[B+,B-]^N,A-").toOption.any fun sequence =>
      !sequence.wrapped && sequence.firstPressure?.isNone &&
        sequence.openingRetraction?.isNone &&
        decide (∀ event ∈ Run.Solo.log Run.Plant.field 60 (alone sequence), event.Allows 2) &&
        ((Run.Solo.step Run.Plant.field)^[60] (alone sequence)).result? ==
          some (.ok ⟨0, "plc", .completed, 6, 1, 1, 2⟩)) = true := by
    decide +kernel
  obtain ⟨sequence, parsed, completes⟩ := any_toOption_iff.mp completes
  simp only [Bool.and_eq_true, Bool.not_eq_true', decide_eq_true_eq, beq_iff_eq,
    Option.isNone_iff_eq_none] at completes
  obtain ⟨⟨⟨⟨plain, noPressure⟩, noRetraction⟩, allowed⟩, completed⟩ := completes
  obtain ⟨program, compiled⟩ := exists_compile noPressure noRetraction
  have fresh (number : Nat) :
      (if Tag.counterName number = Tag.repeatVariable then 2 else 0) = (0 : Int) :=
    if_neg (Tag.counterName_ne_repeatVariable number)
  have logged := Run.Solo.logged_log Run.Plant.field 60 (alone sequence)
  have halts := Run.Solo.move_of_result? completed
  obtain ⟨steps, closing, logEq, -, -, concluded⟩ :=
    (together_of_compile parsed plain compiled 2
      ⟨[], fun tag => if tag = Tag.repeatVariable then 2 else 0⟩ (by simp) fresh).2.1
      _ _ _ _ _ _ logged allowed
  obtain ⟨count, tags, before, wait, walk, stepsEq, beside, sees⟩ := concluded _ halts rfl
  exact ⟨sequence, program, _, _, steps, closing, count, tags, before, wait, walk, parsed, compiled,
    logged, halts, logEq, stepsEq, beside, sees⟩

end Program

end Pneumatic
