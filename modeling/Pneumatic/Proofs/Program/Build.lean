import Pneumatic.Proofs.Program.Cases

/-!
# The program of a sequence

Building a program with automatic names succeeds for every sequence without a pressure.
The program has a case for each step behind the one that sets everything up, and each case
serves its step.
-/

namespace Pneumatic

/-- The case behind a step that ends no region. -/
def Sequence.after (sequence : Sequence) (index : Nat) : Nat :=
  if index + 1 = sequence.length && sequence.wrapped then 0 else Program.caseNumber (index + 1)

/-- What the case of a step does, with automatic names. -/
structure Case.Serves (sequence : Sequence) (index : Nat) (parts : List Part) (case : Case) :
    Prop where
  number : case.number = Program.caseNumber index
  body : case.body = parts.flatMap Part.body
  exit : case.onExit = parts.flatMap Part.exit
  waits : ∀ signal, signal ∈ case.waits ↔ ∃ part ∈ parts, part.signal? = some signal
  next : ∃ counters : List (Nat × String),
    case.next = Program.Builder.leaveRegions counters sequence.regions
      (.jump (sequence.after index)) (Sequence.regionsEndingAt sequence.regions index) ∧
    ∀ position ∈ Sequence.regionsEndingAt sequence.regions index,
      counters.lookup position = sequence.counters[position]?.join.map Tag.counterName

namespace Program.Builder

variable {sequence : Sequence} {builder : Builder}

/-- The counters of the regions that start before a step are known. -/
def Entered (sequence : Sequence) (builder : Builder) (index : Nat) : Prop :=
  ∀ (position : Nat) (region : Region) (number : Nat), sequence.regions[position]? = some region →
    region.first < index → sequence.counters[position]?.join = some number →
      (position, Tag.counterName number) ∈ builder.counters

/-- A guard without a signal is left out. -/
theorem waits_of_done (number : Nat) (done : Condition) (body onExit : List Instruction)
    (next : Transition) :
    (Case.mk number (if done.terms.isEmpty then none else some done) body onExit next).waits =
      done.terms := by
  cases terms : done.terms with
  | nil => simp [Case.waits]
  | cons term rest => simp [Case.waits, terms]

/-- Adding a step with automatic names. -/
theorem addStep_automatic {parts : List Part} {index : Nat} (prepared : Prepared sequence builder)
    (entered : Entered sequence builder index) (runs : ∀ part ∈ parts, part.Runs)
    (cases : List Case) :
    ∃ builder' case, addStep .automatic sequence (builder, cases) (parts, index) =
        .ok (builder', cases ++ [case]) ∧
      Prepared sequence builder' ∧ Extends builder builder' ∧
      (∀ part ∈ parts, Knows builder' part) ∧ Entered sequence builder' (index + 1) ∧
      case.Serves sequence index parts := by
  obtain ⟨middle, opened, prepared', extends', started⟩ :=
    foldlM_enterRegion_automatic prepared (Sequence.regionsStartingAt sequence.regions index)
  obtain ⟨builder', worked, prepared'', extends'', known, countersEq⟩ :=
    foldlM_addPart_automatic prepared' ⟨[], [], .always⟩ runs
  obtain ⟨bodyEq, exitEq, doneIff⟩ := foldl_add ⟨[], [], .always⟩ parts
  have entered' : Entered sequence builder' (index + 1) := by
    intro position region number here before counter
    rcases Nat.lt_succ_iff_lt_or_eq.mp before with earlier | now
    · have kept := extends'.trans extends''
      exact kept.counters _ (entered position region number here earlier counter)
    · rw [countersEq]
      exact started position (Sequence.mem_regionsStartingAt.mpr ⟨region, here, now⟩) number counter
  let work := parts.foldl Work.add ⟨[], [], .always⟩
  let case : Case :=
    { number := caseNumber index
      guard := if work.done.terms.isEmpty then none else some work.done
      body := work.body
      onExit := work.onExit
      next := leaveRegions builder'.counters sequence.regions (.jump (sequence.after index))
        (Sequence.regionsEndingAt sequence.regions index) }
  refine ⟨builder', case, ?_, prepared'', extends'.trans extends'', known, entered', ?_⟩
  · simp only [addStep, opened]
    change (parts.foldlM (addPart .automatic) (middle, ⟨[], [], .always⟩)).bind _ = _
    rw [worked]
    rfl
  · refine ⟨rfl, bodyEq, exitEq, ?_, builder'.counters, rfl, ?_⟩
    · intro signal
      rw [waits_of_done, doneIff]
      simp [Condition.always]
    · intro position ending
      obtain ⟨region, here, ends⟩ := Sequence.mem_regionsEndingAt.mp ending
      have starts := (Sequence.bounds_of_mem_regions (List.mem_of_getElem? here)).1
      exact prepared''.lookup_counters fun number counter =>
        entered' position region number here (by omega) counter

/-- Each of the steps from an index on has its case, and its actuators are known. -/
def Covers (sequence : Sequence) (builder : Builder) (first : Nat) (steps : List (List Part))
    (cases : List Case) : Prop :=
  cases.length = steps.length ∧
  ∀ (offset : Nat) (parts : List Part), steps[offset]? = some parts →
    (∀ part ∈ parts, Knows builder part) ∧
    ∃ case, cases[offset]? = some case ∧ case.Serves sequence (first + offset) parts

theorem foldlM_addStep_automatic {steps : List (List Part)} {first : Nat}
    (prepared : Prepared sequence builder) (entered : Entered sequence builder first)
    (runs : ∀ parts ∈ steps, ∀ part ∈ parts, part.Runs) (cases : List Case) :
    ∃ builder' added, (steps.zipIdx first).foldlM (addStep .automatic sequence) (builder, cases) =
        .ok (builder', cases ++ added) ∧
      Prepared sequence builder' ∧ Extends builder builder' ∧
      Covers sequence builder' first steps added := by
  induction steps generalizing builder first cases with
  | nil => exact ⟨builder, [], by simp [pure, Except.pure], prepared, .refl builder, rfl, by simp⟩
  | cons parts rest ih =>
      rw [List.forall_mem_cons] at runs
      obtain ⟨middle, case, stepped, prepared', extends', known, entered', serves⟩ :=
        addStep_automatic prepared entered runs.1 cases
      obtain ⟨builder', added, folded, prepared'', extends'', length, covers⟩ :=
        ih prepared' entered' runs.2 (cases ++ [case])
      refine ⟨builder', case :: added, ?_, prepared'', extends'.trans extends'', ?_, ?_⟩
      · rw [List.append_assoc] at folded
        rw [List.zipIdx_cons, List.foldlM_cons, stepped]
        exact folded
      · rw [List.length_cons, List.length_cons, length]
      · intro offset found here
        cases offset with
        | zero =>
            obtain rfl := Option.some.inj here
            exact ⟨fun part membership => (known part membership).mono extends'', case, rfl, serves⟩
        | succ offset =>
            rw [← Nat.add_assoc, Nat.add_right_comm]
            exact covers offset found here

end Program.Builder

/-! ## The whole program -/

theorem Sequence.runs_parts {sequence : Sequence} (noPressure : sequence.firstPressure? = none) :
    ∀ parts ∈ sequence.parts, ∀ part ∈ parts, part.Runs := by
  intro parts membership
  obtain ⟨index, inside⟩ := List.mem_iff_getElem?.mp membership
  obtain ⟨found, partsEq⟩ := Part.getElem?_ofSteps ⟨0, 0⟩ sequence.steps index
  obtain ⟨step, here, rfl⟩ := Option.map_eq_some_iff.mp (partsEq.symm.trans inside)
  apply Part.runs_ofTokens
  intro token ofStep
  rw [firstPressure?, List.find?_eq_none] at noPressure
  have inTokens : token ∈ sequence.tokens :=
    List.mem_flatMap.mpr ⟨step, List.mem_of_getElem? here, ofStep⟩
  simpa using noPressure token inTokens

namespace Program

variable {sequence : Sequence} {program : Program}

/-- What building a program with automatic names leads to. -/
structure Built (sequence : Sequence) (program : Program) (builder : Builder) (cases : List Case) :
    Prop where
  runs : ∀ parts ∈ sequence.parts, ∀ part ∈ parts, part.Runs
  prepared : builder.Prepared sequence
  covers : builder.Covers sequence 0 sequence.parts cases
  cases : program.cases = ⟨0, none, builder.setup, [], .jump 10⟩ ::
    if sequence.wrapped then Builder.waitForWrap cases else cases

theorem build_automatic (runs : ∀ parts ∈ sequence.parts, ∀ part ∈ parts, part.Runs) :
    ∃ program builder cases, build .automatic sequence = .ok program ∧
      Built sequence program builder cases := by
  have prepared : Builder.empty.Prepared sequence :=
    ⟨by simp [Builder.empty], by simp [Builder.empty], by simp [Builder.empty]⟩
  have entered : Builder.empty.Entered sequence 0 := by
    intro position region number here before
    contradiction
  obtain ⟨builder, cases, folded, prepared', -, covers⟩ :=
    Builder.foldlM_addStep_automatic prepared entered runs []
  rw [List.nil_append] at folded
  have succeeds : (build .automatic sequence).isOk = true := by
    simp only [build, folded]
    rfl
  cases buildEq : build .automatic sequence with
  | error error => simp [buildEq, Except.isOk, Except.toBool] at succeeds
  | ok program =>
      refine ⟨program, builder, cases, rfl, runs, prepared', covers, ?_⟩
      simp only [build, folded] at buildEq
      rw [← Except.ok.inj buildEq]

/-- A sequence that compiles has no pressure, and its program is built. -/
theorem build_of_compile {project : Option Project}
    (compiled : compile sequence project = .ok program) :
    (∀ parts ∈ sequence.parts, ∀ part ∈ parts, part.Runs) ∧
      build (.ofProject? project) sequence = .ok program := by
  unfold compile at compiled
  split at compiled
  · contradiction
  · contradiction
  · next noPressure _ =>
      split at compiled
      · exact ⟨Sequence.runs_parts noPressure, compiled⟩
      · contradiction

/-- A sequence that compiles without a project has the program built with automatic names. -/
theorem built_of_compile (compiled : compile sequence none = .ok program) :
    ∃ builder cases, Built sequence program builder cases := by
  obtain ⟨runs, compiled⟩ := build_of_compile compiled
  obtain ⟨program', builder, cases, buildEq, built⟩ := build_automatic runs
  obtain rfl := Except.ok.inj (buildEq.symm.trans compiled)
  exact ⟨builder, cases, built⟩

/-- A sequence without a pressure that does not start by a retraction compiles. -/
theorem exists_compile (noPressure : sequence.firstPressure? = none)
    (noRetraction : sequence.openingRetraction? = none) :
    ∃ program, compile sequence none = .ok program := by
  obtain ⟨program, -, -, buildEq, -⟩ := build_automatic (Sequence.runs_parts noPressure)
  refine ⟨program, ?_⟩
  simp only [compile, noPressure, noRetraction]
  exact buildEq

/-- Cases numbered one after the other are found by their numbers. -/
theorem find?_number {cases : List Case} {first : Nat}
    (numbers : ∀ offset case, cases[offset]? = some case →
      case.number = caseNumber (first + offset)) (offset : Nat) :
    cases.find? (·.number == caseNumber (first + offset)) = cases[offset]? := by
  induction cases generalizing first offset with
  | nil => simp
  | cons case rest ih =>
      have number := numbers 0 case rfl
      rw [List.find?_cons, number]
      cases offset with
      | zero => simp
      | succ offset =>
          have apart : (caseNumber (first + 0) == caseNumber (first + (offset + 1))) = false := by
            simp only [caseNumber, beq_eq_false_iff_ne]
            omega
          have behind : ∀ offset case, rest[offset]? = some case →
              case.number = caseNumber (first + 1 + offset) := by
            intro offset case here
            rw [Nat.add_right_comm]
            exact numbers (offset + 1) case here
          rw [apart, ← Nat.add_assoc, Nat.add_right_comm]
          exact ih behind offset

/-- The cases behind the one with number zero. -/
theorem case?_of_cases {start : Case} {cases : List Case} (casesEq : program.cases = start :: cases)
    (zero : start.number = 0)
    (numbers : ∀ index case, cases[index]? = some case → case.number = caseNumber index)
    (index : Nat) : program.case? (caseNumber index) = cases[index]? := by
  have apart : (0 == caseNumber index) = false := by
    simp only [caseNumber, beq_eq_false_iff_ne]
    omega
  have found : cases.find? (·.number == caseNumber (0 + index)) = cases[index]? :=
    find?_number (fun offset case here => by simpa using numbers offset case here) index
  rw [case?, casesEq, List.find?_cons, zero, apart]
  simpa using found

namespace Built

variable {builder : Builder} {cases : List Case}

theorem length (built : Built sequence program builder cases) : cases.length = sequence.length :=
  built.covers.1.trans sequence.length_parts

/-- The cases of the steps of a sequence that is not wrapped. -/
theorem case?_caseNumber (built : Built sequence program builder cases)
    (plain : sequence.wrapped = false) (index : Nat) :
    program.case? (caseNumber index) = cases[index]? := by
  have casesEq := built.cases
  rw [plain] at casesEq
  apply case?_of_cases casesEq rfl
  intro index case here
  have inside : index < sequence.parts.length :=
    built.covers.1 ▸ (List.getElem?_eq_some_iff.mp here).1
  obtain ⟨-, found, there, serves⟩ := built.covers.2 index _ (List.getElem?_eq_getElem inside)
  obtain rfl := Option.some.inj (here.symm.trans there)
  simpa using serves.number

/-- The parts of a step and its case. -/
theorem serves (built : Built sequence program builder cases) {index : Nat} {step : Step}
    (here : sequence.steps[index]? = some step) :
    ∃ (parts : List Part) (case : Case), sequence.parts[index]? = some parts ∧
      parts.map (·.token) = step.tokens ∧ (∀ part ∈ parts, part.Runs) ∧
      cases[index]? = some case ∧ case.Serves sequence index parts := by
  obtain ⟨found, partsEq⟩ := Part.getElem?_ofSteps ⟨0, 0⟩ sequence.steps index
  rw [here, Option.map_some] at partsEq
  obtain ⟨-, case, there, serves⟩ := built.covers.2 index _ partsEq
  exact ⟨_, case, partsEq, Part.map_token_ofTokens found step.tokens,
    built.runs _ (List.mem_of_getElem? partsEq), there, by simpa using serves⟩

end Built

end Program

end Pneumatic
