import Pneumatic.Proofs.Program.Plant
import Pneumatic.Proofs.Program.Turns
import Mathlib.Logic.Function.Iterate

/-!
# Programs of wrapped sequences

The setup has retracted every actuator and switched off every timer when the first case also
waits for what the last one waits for.  So its guard is met exactly if the last step has no
timer and leaves its actuators as the setup and the first step do.  Otherwise the program stays
in its first case for ever.
-/

namespace Pneumatic

/-- Where a step leaves an actuator that was retracted before. -/
def Step.leaves (step : Step) (label : Char) : Direction :=
  ((step.actuations.find? (·.label == label)).map (·.direction)).getD .retract

/-- Whether a wrapped sequence can start over: its last step has no timer, and moves its
actuators where the setup and the first step leave them. -/
def Sequence.restarts (sequence : Sequence) : Bool :=
  match sequence.steps.head?, sequence.steps.getLast? with
  | some first, some last =>
      last.delays.isEmpty &&
        last.actuations.all fun actuation => first.leaves actuation.label == actuation.direction
  | _, _ => false

namespace Program

variable {sequence : Sequence} {program : Program} {builder : Builder} {cases : List Case}
  {index : Nat} {parts : List Part} {case : Case}

/-! ## Guards in an ideal plant -/

/-- The parts of a step that moves each actuator one way, the actuators being known. -/
structure Placed (builder : Builder) (step : Step) (parts : List Part) : Prop where
  runs : ∀ part ∈ parts, part.Runs
  tokens : parts.map (·.token) = step.tokens
  oneWay : ∀ left ∈ step.actuations, ∀ right ∈ step.actuations,
    left.label = right.label → left.direction = right.direction
  known : ∀ actuation ∈ step.actuations,
    (builder.actuators.lookup actuation.label).isSome = true

/-- The actuators that a step does not move are retracted. -/
def Retracted (builder : Builder) (step : Step) (memory : Memory) : Prop :=
  ∀ label, (builder.actuators.lookup label).isSome = true →
    (∀ actuation ∈ step.actuations, actuation.label ≠ label) →
      memory.commanded label = some .retract

/-- The timers of other steps have no power. -/
def Unpowered (parts : List Part) (memory : Memory) : Prop :=
  ∀ number, .timer number ∉ parts.map (·.component) →
    memory.bit (Tag.Timer.auto number).power = false

variable {plant : Memory → String → Bool} {memory : Memory} {first last : Step}
  {firstParts lastParts : List Part} {step : Step}

theorem Built.placed (built : Built sequence program builder cases) (oneWay : sequence.OneWay)
    (here : sequence.steps[index]? = some step) :
    ∃ parts, sequence.parts[index]? = some parts ∧ Placed builder step parts := by
  obtain ⟨parts, -, partsEq, tokens, runs, -, -⟩ := built.serves here
  refine ⟨parts, partsEq, runs, tokens, oneWay step (List.mem_of_getElem? here), ?_⟩
  intro actuation among
  obtain ⟨token, inStep, isActuation⟩ := List.mem_filterMap.mp among
  rw [← tokens] at inStep
  obtain ⟨part, inParts, rfl⟩ := List.mem_map.mp inStep
  apply (built.covers.2 index parts partsEq).1 part inParts
  cases token : part.token <;> simp_all [Token.actuation?]

namespace Placed

/-- The body of a step commands its actuations. -/
theorem commanded_of_mem (placed : Placed builder step parts) {actuation : Actuation}
    (among : actuation ∈ step.actuations) :
    (Instruction.runAll (parts.flatMap Part.body) memory).commanded actuation.label =
      some actuation.direction := by
  have tokens := placed.tokens
  apply Part.commanded_of_mem placed.runs <;> rw [tokens]
  · exact among
  · exact fun other otherAmong labels =>
      placed.oneWay other otherAmong actuation among labels

/-- The body of a step brings on whatever the step waits for. -/
theorem isOn_of_body (placed : Placed builder step parts) (ideal : Plant.Ideal plant)
    {signal : String} (waits : ∃ part ∈ parts, part.signal? = some signal) :
    plant (Instruction.runAll (parts.flatMap Part.body) memory) signal = true := by
  rcases (Part.exists_signal_iff placed.runs signal).mp waits with
    ⟨actuation, among, rfl⟩ | ⟨number, among, rfl⟩
  · rw [placed.tokens] at among
    rw [ideal.sensor]
    exact placed.commanded_of_mem among
  · rw [ideal.done]
    exact Part.power_of_mem placed.runs among

/-- Where the body of a step leaves an actuator that was retracted before. -/
theorem commanded_leaves (placed : Placed builder step parts)
    (retracted : Retracted builder step memory) {label : Char}
    (known : (builder.actuators.lookup label).isSome = true) :
    (Instruction.runAll (parts.flatMap Part.body) memory).commanded label =
      some (step.leaves label) := by
  unfold Step.leaves
  cases found : step.actuations.find? (·.label == label) with
  | none =>
      have absent : ∀ actuation ∈ step.actuations, actuation.label ≠ label := by
        simpa [List.find?_eq_none] using found
      rw [Part.commanded_of_not_mem placed.runs (by rw [placed.tokens]; exact absent)]
      exact retracted label known absent
  | some actuation =>
      obtain rfl : actuation.label = label := by simpa using List.find?_some found
      exact placed.commanded_of_mem (List.mem_of_find?_eq_some found)

/-- After the body of the first step, a sensor of the last step is on exactly if the first step
leaves its actuator there. -/
theorem sensor_isOn_iff (firstPlaced : Placed builder first firstParts)
    (lastPlaced : Placed builder last lastParts) (ideal : Plant.Ideal plant)
    (retracted : Retracted builder first memory) {actuation : Actuation}
    (among : actuation ∈ last.actuations) :
    plant (Instruction.runAll (firstParts.flatMap Part.body) memory)
        ((Tag.Actuator.auto actuation.label).sensor actuation.direction) = true ↔
      first.leaves actuation.label = actuation.direction := by
  rw [ideal.sensor, firstPlaced.commanded_leaves retracted (lastPlaced.known actuation among),
    Option.some.injEq]

/-- A last step without a timer, whose actuators are where it moves them, is done. -/
theorem isOn_of_leaves (firstPlaced : Placed builder first firstParts)
    (lastPlaced : Placed builder last lastParts) (ideal : Plant.Ideal plant)
    (retracted : Retracted builder first memory) (noDelay : last.delays = [])
    (leaves : ∀ actuation ∈ last.actuations, first.leaves actuation.label = actuation.direction)
    {signal : String} (waits : ∃ part ∈ lastParts, part.signal? = some signal) :
    plant (Instruction.runAll (firstParts.flatMap Part.body) memory) signal = true := by
  rcases (Part.exists_signal_iff lastPlaced.runs signal).mp waits with
    ⟨actuation, among, rfl⟩ | ⟨number, among, rfl⟩
  · rw [lastPlaced.tokens] at among
    exact (firstPlaced.sensor_isOn_iff lastPlaced ideal retracted among).mpr
      (leaves actuation among)
  · have delays := (Part.exists_timer_iff lastPlaced.runs).mp ⟨number, among⟩
    rw [lastPlaced.tokens] at delays
    exact absurd noDelay delays

/-- A last step that is done while its timers have no power has none, and its actuators are
where it moves them. -/
theorem leaves_of_isOn (firstPlaced : Placed builder first firstParts)
    (lastPlaced : Placed builder last lastParts) (ideal : Plant.Ideal plant)
    (retracted : Retracted builder first memory) (unpowered : Unpowered firstParts memory)
    (apart : ∀ number, .timer number ∈ lastParts.map (·.component) →
      .timer number ∉ firstParts.map (·.component))
    (on : ∀ signal, (∃ part ∈ lastParts, part.signal? = some signal) →
      plant (Instruction.runAll (firstParts.flatMap Part.body) memory) signal = true) :
    last.delays = [] ∧
      ∀ actuation ∈ last.actuations, first.leaves actuation.label = actuation.direction := by
  constructor
  · by_contra delays
    rw [Step.delays, ← lastPlaced.tokens] at delays
    obtain ⟨number, among⟩ := (Part.exists_timer_iff lastPlaced.runs).mpr delays
    have done := on _ ((Part.exists_signal_iff lastPlaced.runs _).mpr (.inr ⟨number, among, rfl⟩))
    rw [ideal.done, Part.power_of_not_mem firstPlaced.runs (apart number among),
      unpowered number (apart number among)] at done
    contradiction
  · intro actuation among
    refine (firstPlaced.sensor_isOn_iff lastPlaced ideal retracted among).mp (on _ ?_)
    refine (Part.exists_signal_iff lastPlaced.runs _).mpr (.inl ⟨actuation, ?_, rfl⟩)
    rw [lastPlaced.tokens]
    exact among

end Placed

/-! ## Scans -/

/-- Whether the guard of the active case is met in a scan. -/
def Meets (program : Program) (plant : Memory → String → Bool) (state : Nat × Memory) : Prop :=
  ∃ case, program.case? state.1 = some case ∧
    case.isMet plant (Instruction.runAll case.body state.2) = true

theorem scan_of_isMet {active target : Nat} (found : program.case? active = some case)
    (next : case.next = .jump target)
    (isMet : case.isMet plant (Instruction.runAll case.body memory) = true) :
    program.scan plant (active, memory) =
      (target, Instruction.runAll case.onExit (Instruction.runAll case.body memory)) := by
  simp only [scan, found, isMet, if_true, next]
  rfl

theorem scan_of_not_isMet {active : Nat} (found : program.case? active = some case)
    (notMet : case.isMet plant (Instruction.runAll case.body memory) = false) :
    program.scan plant (active, memory) = (active, Instruction.runAll case.body memory) := by
  simp only [scan, found, notMet, Bool.false_eq_true, if_false]

/-- A wrapped sequence as its program has it: the steps at both ends with their parts, and a
case for each step. -/
structure Circle (sequence : Sequence) (program : Program) (builder : Builder)
    (first last : Step) (firstParts lastParts : List Part) : Prop where
  prepared : builder.Prepared sequence
  head : sequence.steps.head? = some first
  ends : sequence.steps.getLast? = some last
  long : 2 ≤ sequence.length
  wrapped : sequence.wrapped = true
  tail : sequence.parts.getLast? = some lastParts
  firstPlaced : Placed builder first firstParts
  lastPlaced : Placed builder last lastParts
  apart : ∀ number, .timer number ∈ lastParts.map (·.component) →
    .timer number ∉ firstParts.map (·.component)
  setup : program.case? 0 = some ⟨0, none, builder.setup, [], .jump 10⟩
  firstCase : ∃ case, program.case? 10 = some case ∧ Turns sequence 0 firstParts case
  laterCase : ∀ index < sequence.length, ∃ step parts case, Placed builder step parts ∧
    program.case? (caseNumber index) = some case ∧ Turns sequence index parts case

theorem exists_circle {source : String} (parsed : Sequence.parse source = .ok sequence)
    (wrapped : sequence.wrapped = true) (compiled : compile sequence none = .ok program)
    (oneWay : sequence.OneWay) :
    ∃ builder first last firstParts lastParts,
      Circle sequence program builder first last firstParts lastParts := by
  obtain ⟨builder, cases, built⟩ := built_of_compile compiled
  have regions := Sequence.regions_of_wrapped parsed wrapped
  have long := Sequence.two_le_length_of_wrapped parsed wrapped
  have firstLt : 0 < sequence.length := by omega
  have lastLt : sequence.length - 1 < sequence.length := by omega
  have head : sequence.steps[0]? = some sequence.steps[0] := List.getElem?_eq_getElem firstLt
  have ends : sequence.steps[sequence.length - 1]? = some sequence.steps[sequence.length - 1] :=
    List.getElem?_eq_getElem lastLt
  obtain ⟨firstParts, firstEq, firstPlaced⟩ := built.placed oneWay head
  obtain ⟨lastParts, lastEq, lastPlaced⟩ := built.placed oneWay ends
  refine ⟨builder, _, _, firstParts, lastParts, built.prepared, ?_, ?_, long, wrapped, ?_,
    firstPlaced, lastPlaced, ?_, ?_, ?_, ?_⟩
  · rw [List.head?_eq_getElem?, head]
  · rw [List.getLast?_eq_getElem?, ← Sequence.length, ends]
  · rw [List.getLast?_eq_getElem?, Sequence.length_parts, lastEq]
  · intro number among
    obtain ⟨before, lengthEq⟩ : ∃ before, sequence.length = before + 2 :=
      ⟨_, (Nat.sub_add_cancel long).symm⟩
    have there : sequence.parts[before + 1]? = some lastParts := by
      rw [← lastEq, lengthEq]
      rfl
    exact Part.timer_not_mem_of_first firstEq there among
  · rw [case?, built.cases]
    rfl
  · exact built.turns wrapped regions long firstEq
  · intro index inside
    obtain ⟨parts, partsEq, placed⟩ := built.placed oneWay (List.getElem?_eq_getElem inside)
    obtain ⟨case, found, turns⟩ := built.turns wrapped regions long partsEq
    exact ⟨_, parts, case, placed, found, turns⟩

namespace Circle

variable (circle : Circle sequence program builder first last firstParts lastParts)
include circle

theorem restarts_iff : sequence.restarts = true ↔ last.delays = [] ∧
    ∀ actuation ∈ last.actuations, first.leaves actuation.label = actuation.direction := by
  rw [Sequence.restarts, circle.head, circle.ends]
  simp

/-- The setup leads to the first case, with every actuator retracted. -/
theorem scan_zero : program.scan plant (0, memory) =
    (10, Instruction.runAll builder.setup memory) :=
  scan_of_isMet circle.setup rfl rfl

theorem meets_zero : Meets program plant (0, memory) :=
  ⟨_, circle.setup, rfl⟩

theorem retracted_setup :
    Retracted builder first (Instruction.runAll builder.setup memory) :=
  fun _ known _ => circle.prepared.commanded_setup known

theorem after_eq (index : Nat) (inside : index < sequence.length) :
    sequence.after index = 10 * ((index + 2) % (sequence.length + 1)) := by
  rw [Sequence.after, circle.wrapped, Bool.and_true, caseNumber]
  by_cases isLast : index + 1 = sequence.length
  · rw [show index + 2 = sequence.length + 1 by omega, Nat.mod_self]
    simp [isLast]
  · rw [Nat.mod_eq_of_lt (by omega), if_neg (by simpa using isLast)]
    omega

/-- The guard of the first case is met in a sequence that restarts. -/
theorem meets_first (ideal : Plant.Ideal plant) (restarts : sequence.restarts = true)
    (retracted : Retracted builder first memory) : Meets program plant (10, memory) := by
  obtain ⟨case, found, turns⟩ := circle.firstCase
  obtain ⟨noDelay, leaves⟩ := circle.restarts_iff.mp restarts
  refine ⟨case, found, List.all_eq_true.mpr ?_⟩
  intro signal waits
  rw [turns.body]
  rcases (turns.waits signal).mp waits with ofFirst | ⟨-, parts, partsEq, ofLast⟩
  · exact circle.firstPlaced.isOn_of_body ideal ofFirst
  · obtain rfl := Option.some.inj (circle.tail.symm.trans partsEq)
    exact circle.firstPlaced.isOn_of_leaves circle.lastPlaced ideal retracted noDelay leaves ofLast

/-- The guards of the later cases are always met. -/
theorem meets_later (ideal : Plant.Ideal plant) (memory : Memory) (index : Nat)
    (inside : index + 1 < sequence.length) :
    Meets program plant (caseNumber (index + 1), memory) := by
  obtain ⟨step, parts, case, placed, found, turns⟩ := circle.laterCase (index + 1) inside
  refine ⟨case, found, List.all_eq_true.mpr ?_⟩
  intro signal waits
  rw [turns.body]
  rcases (turns.waits signal).mp waits with own | ⟨isFirst, -⟩
  · exact placed.isOn_of_body ideal own
  · contradiction

/-- A case whose guard is met goes on to the one behind it. -/
theorem scan_of_meets (index : Nat) (inside : index < sequence.length)
    (meets : Meets program plant (caseNumber index, memory)) :
    (program.scan plant (caseNumber index, memory)).1 =
      10 * ((index + 2) % (sequence.length + 1)) := by
  obtain ⟨case, found, isMet⟩ := meets
  obtain ⟨-, parts, case', -, found', turns⟩ := circle.laterCase index inside
  obtain rfl := Option.some.inj (found.symm.trans found')
  rw [scan_of_isMet found turns.next isMet]
  exact circle.after_eq index inside

/-- One scan of a sequence that restarts. -/
theorem scan_of_restarts (ideal : Plant.Ideal plant) (restarts : sequence.restarts = true)
    {place : Nat} (inside : place ≤ sequence.length)
    (retracted : place = 1 → Retracted builder first memory) :
    Meets program plant (10 * place, memory) ∧
    (program.scan plant (10 * place, memory)).1 = 10 * ((place + 1) % (sequence.length + 1)) ∧
    ((place + 1) % (sequence.length + 1) = 1 →
      Retracted builder first (program.scan plant (10 * place, memory)).2) := by
  have long := circle.long
  match place with
  | 0 =>
      rw [Nat.mul_zero, circle.scan_zero, Nat.mod_eq_of_lt (by omega)]
      exact ⟨circle.meets_zero, rfl, fun _ => circle.retracted_setup⟩
  | 1 =>
      have meets := circle.meets_first ideal restarts (retracted rfl)
      refine ⟨meets, circle.scan_of_meets 0 (by omega) meets, ?_⟩
      rw [Nat.mod_eq_of_lt (by omega)]
      omega
  | index + 2 =>
      have meets := circle.meets_later ideal memory index inside
      rw [show 10 * (index + 2) = caseNumber (index + 1) by rw [caseNumber]; omega]
      refine ⟨meets, circle.scan_of_meets (index + 1) inside meets, ?_⟩
      intro first
      by_cases isLast : index + 2 = sequence.length
      · simp [isLast] at first
      · rw [Nat.mod_eq_of_lt (by omega)] at first
        omega

/-- The scans of a sequence that restarts go round and round. -/
theorem scans_of_restarts (ideal : Plant.Ideal plant) (restarts : sequence.restarts = true)
    (memory : Memory) (count : Nat) :
    ((program.scan plant)^[count] (0, memory)).1 = 10 * (count % (sequence.length + 1)) ∧
    (count % (sequence.length + 1) = 1 →
      Retracted builder first ((program.scan plant)^[count] (0, memory)).2) := by
  induction count with
  | zero => exact ⟨by simp, by simp⟩
  | succ count ih =>
      rw [Function.iterate_succ_apply']
      generalize (program.scan plant)^[count] (0, memory) = state at ih ⊢
      obtain ⟨active, before⟩ := state
      obtain ⟨rfl, retracted⟩ := ih
      have inside : count % (sequence.length + 1) ≤ sequence.length :=
        Nat.le_of_lt_succ (Nat.mod_lt _ (Nat.succ_pos _))
      obtain ⟨-, place, retracted'⟩ := circle.scan_of_restarts ideal restarts inside retracted
      rw [Nat.mod_add_mod] at place retracted'
      exact ⟨place, retracted'⟩

/-- The guard of the first case is not met in a sequence that does not restart. -/
theorem not_isMet_first (ideal : Plant.Ideal plant) (stuck : sequence.restarts = false)
    (retracted : Retracted builder first memory) (unpowered : Unpowered firstParts memory)
    {case : Case} (turns : Turns sequence 0 firstParts case) :
    case.isMet plant (Instruction.runAll case.body memory) = false := by
  rw [Bool.eq_false_iff]
  intro isMet
  rw [Bool.eq_false_iff] at stuck
  apply stuck
  apply circle.restarts_iff.mpr
  apply circle.firstPlaced.leaves_of_isOn circle.lastPlaced ideal retracted unpowered circle.apart
  intro signal waits
  rw [← turns.body]
  apply List.all_eq_true.mp isMet
  exact (turns.waits signal).mpr (.inr ⟨rfl, lastParts, circle.tail, waits⟩)

/-- The scans of a sequence that does not restart stay in the first case. -/
theorem scans_of_stuck (ideal : Plant.Ideal plant) (stuck : sequence.restarts = false)
    (off : ∀ tag, memory.bit tag = false) (count : Nat) :
    ((program.scan plant)^[count + 1] (0, memory)).1 = 10 ∧
    Retracted builder first ((program.scan plant)^[count + 1] (0, memory)).2 ∧
    Unpowered firstParts ((program.scan plant)^[count + 1] (0, memory)).2 := by
  induction count with
  | zero =>
      rw [Nat.zero_add, Function.iterate_one, circle.scan_zero]
      exact ⟨rfl, circle.retracted_setup, fun _ _ => circle.prepared.power_setup (off _)⟩
  | succ count ih =>
      rw [Function.iterate_succ_apply']
      generalize (program.scan plant)^[count + 1] (0, memory) = state at ih ⊢
      obtain ⟨active, before⟩ := state
      obtain ⟨rfl, retracted, unpowered⟩ := ih
      obtain ⟨case, found, turns⟩ := circle.firstCase
      have notMet := circle.not_isMet_first ideal stuck retracted unpowered turns
      have runs := circle.firstPlaced.runs
      rw [scan_of_not_isMet found notMet, turns.body]
      refine ⟨rfl, ?_, ?_⟩
      · intro label known absent
        rw [Part.commanded_of_not_mem runs]
        · exact retracted label known absent
        · rw [circle.firstPlaced.tokens]
          exact absent
      · intro number absent
        rw [Part.power_of_not_mem runs absent]
        exact unpowered number absent

theorem not_meets_of_stuck (ideal : Plant.Ideal plant) (stuck : sequence.restarts = false)
    (off : ∀ tag, memory.bit tag = false) (count : Nat) :
    ¬ Meets program plant ((program.scan plant)^[count + 1] (0, memory)) := by
  rintro ⟨case, found, isMet⟩
  obtain ⟨active, retracted, unpowered⟩ := circle.scans_of_stuck ideal stuck off count
  obtain ⟨case', found', turns⟩ := circle.firstCase
  rw [active, found', Option.some.injEq] at found
  subst found
  rw [circle.not_isMet_first ideal stuck retracted unpowered turns] at isMet
  contradiction

end Circle

/-- In an ideal plant the program of a wrapped sequence meets every guard exactly if the
sequence restarts.  Then it goes through its cases in order, over and over; otherwise it gets
to its first case and stays there. -/
theorem meets_iff_restarts {source : String} (parsed : Sequence.parse source = .ok sequence)
    (wrapped : sequence.wrapped = true) (compiled : compile sequence none = .ok program)
    (oneWay : sequence.OneWay) (ideal : Plant.Ideal plant) (memory : Memory)
    (off : ∀ tag, memory.bit tag = false) :
    ((∀ count, Meets program plant ((program.scan plant)^[count] (0, memory))) ↔
      sequence.restarts = true) ∧
    (sequence.restarts = true → ∀ count,
      ((program.scan plant)^[count] (0, memory)).1 = 10 * (count % (sequence.length + 1))) ∧
    (sequence.restarts = false → ∀ count,
      ((program.scan plant)^[count + 1] (0, memory)).1 = 10) := by
  obtain ⟨builder, first, last, firstParts, lastParts, circle⟩ :=
    exists_circle parsed wrapped compiled oneWay
  refine ⟨⟨?_, ?_⟩, ?_, ?_⟩
  · intro meets
    by_contra stuck
    rw [Bool.not_eq_true] at stuck
    exact circle.not_meets_of_stuck ideal stuck off 0 (meets 1)
  · intro restarts count
    obtain ⟨active, retracted⟩ := circle.scans_of_restarts ideal restarts memory count
    have inside : count % (sequence.length + 1) ≤ sequence.length :=
      Nat.le_of_lt_succ (Nat.mod_lt _ (Nat.succ_pos _))
    have meets := (circle.scan_of_restarts ideal restarts inside retracted).1
    rwa [← active] at meets
  · exact fun restarts count => (circle.scans_of_restarts ideal restarts memory count).1
  · exact fun stuck count => (circle.scans_of_stuck ideal stuck off count).1

/-- A sequence that moves every actuator back by another step starts over. -/
theorem meets_iff_restarts_square :
    ∃ sequence program plant, Sequence.parse "[A+,B+,A-,B-]" = .ok sequence ∧
      compile sequence none = .ok program ∧ Plant.Ideal plant ∧
      ∀ count, ((program.scan plant)^[count] (0, ⟨[], fun _ => 0⟩)).1 = 10 * (count % 5) := by
  have accepted : ((Sequence.parse "[A+,B+,A-,B-]").toOption.any fun sequence =>
      sequence.wrapped && sequence.firstPressure?.isNone && sequence.openingRetraction?.isNone &&
        sequence.restarts && sequence.length == 4 &&
        sequence.steps.all fun step => step.actuations.length ≤ 1) = true := by decide +kernel
  obtain ⟨sequence, parsed, accepted⟩ := any_toOption_iff.mp accepted
  simp only [Bool.and_eq_true, Option.isNone_iff_eq_none, beq_iff_eq, List.all_eq_true,
    decide_eq_true_eq] at accepted
  obtain ⟨⟨⟨⟨⟨wrapped, noPressure⟩, noRetraction⟩, restarts⟩, length⟩, single⟩ := accepted
  obtain ⟨program, compiled⟩ := exists_compile noPressure noRetraction
  obtain ⟨plant, ideal⟩ := Plant.exists_ideal
  have goes := (meets_iff_restarts parsed wrapped compiled (Sequence.oneWay_of_single single)
    ideal ⟨[], fun _ => 0⟩ fun _ => rfl).2.1 restarts
  rw [length] at goes
  exact ⟨sequence, program, plant, parsed, compiled, ideal, goes⟩

/-- A sequence that extends and retracts one actuator never leaves its first case. -/
theorem stuck_of_back_and_forth :
    ∃ sequence program, Sequence.parse "[A+,A-]" = .ok sequence ∧ sequence.wrapped = true ∧
      sequence.OneWay ∧ compile sequence none = .ok program ∧
      ∀ plant, Plant.Ideal plant → ∀ count,
        ((program.scan plant)^[count + 1] (0, ⟨[], fun _ => 0⟩)).1 = 10 ∧
        ¬ Meets program plant ((program.scan plant)^[count + 1] (0, ⟨[], fun _ => 0⟩)) := by
  have accepted : ((Sequence.parse "[A+,A-]").toOption.any fun sequence =>
      sequence.wrapped && sequence.firstPressure?.isNone && sequence.openingRetraction?.isNone &&
        !sequence.restarts &&
        sequence.steps.all fun step => step.actuations.length ≤ 1) = true := by decide +kernel
  obtain ⟨sequence, parsed, accepted⟩ := any_toOption_iff.mp accepted
  simp only [Bool.and_eq_true, Option.isNone_iff_eq_none, Bool.not_eq_true', List.all_eq_true,
    decide_eq_true_eq] at accepted
  obtain ⟨⟨⟨⟨wrapped, noPressure⟩, noRetraction⟩, stuck⟩, single⟩ := accepted
  obtain ⟨program, compiled⟩ := exists_compile noPressure noRetraction
  have oneWay := Sequence.oneWay_of_single single
  obtain ⟨builder, first, last, firstParts, lastParts, circle⟩ :=
    exists_circle parsed wrapped compiled oneWay
  refine ⟨sequence, program, parsed, wrapped, oneWay, compiled, ?_⟩
  intro plant ideal count
  exact ⟨(circle.scans_of_stuck ideal stuck (fun _ => rfl) count).1,
    circle.not_meets_of_stuck ideal stuck (fun _ => rfl) count⟩

end Program

end Pneumatic
