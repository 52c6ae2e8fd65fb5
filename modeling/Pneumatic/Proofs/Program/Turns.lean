import Pneumatic.Proofs.Notation.Shape
import Pneumatic.Proofs.Program.Build

/-!
# The cases of a wrapped sequence

The case of a step goes on to the case of the next step, and the last one back to the setup.
The first case also waits for what the last one waits for, and their timers are never the same.
-/

namespace Pneumatic

/-! ## Timers have numbers of their own -/

namespace Part

/-- The timers of a step are numbered from the tally before it up to the one after it. -/
theorem timers_ofTokens (tally : Tally) (tokens : List Token) :
    tally.timers ≤ (ofTokens tally tokens).2.timers ∧
    ∀ number, .timer number ∈ (ofTokens tally tokens).1.map (·.component) →
      tally.timers < number ∧ number ≤ (ofTokens tally tokens).2.timers := by
  induction tokens generalizing tally with
  | nil => simp [ofTokens]
  | cons token rest ih =>
      obtain ⟨grows, between⟩ := ih (number tally token).2
      simp only [ofTokens, List.map_cons, List.mem_cons]
      cases token with
      | actuation actuation =>
          refine ⟨grows, ?_⟩
          rintro number (same | later)
          · contradiction
          · exact between number later
      | timer delay =>
          simp only [Part.number] at grows between ⊢
          refine ⟨by omega, ?_⟩
          rintro number (same | later)
          · obtain rfl := ComponentId.timer.inj same
            omega
          · have bounds := between number later
            omega
      | pressure pressure =>
          refine ⟨grows, ?_⟩
          rintro number (same | later)
          · contradiction
          · exact between number later

theorem lt_timers_ofSteps {tally : Tally} {steps : List Step} :
    ∀ parts ∈ ofSteps tally steps, ∀ number, .timer number ∈ parts.map (·.component) →
      tally.timers < number := by
  induction steps generalizing tally with
  | nil => simp [ofSteps]
  | cons step rest ih =>
      obtain ⟨grows, between⟩ := timers_ofTokens tally step.tokens
      rw [ofSteps, List.forall_mem_cons]
      refine ⟨fun number among => (between number among).1, ?_⟩
      intro parts membership number among
      exact Nat.lt_of_le_of_lt grows (ih parts membership number among)

/-- No timer belongs to the first step and to a later one. -/
theorem timer_not_mem_of_first {steps : List Step} {tally : Tally} {first later : List Part}
    {index number : Nat} (here : (ofSteps tally steps)[0]? = some first)
    (there : (ofSteps tally steps)[index + 1]? = some later)
    (among : .timer number ∈ later.map (·.component)) :
    .timer number ∉ first.map (·.component) := by
  cases steps with
  | nil => simp [ofSteps] at here
  | cons step rest =>
      simp only [ofSteps, List.getElem?_cons_zero, List.getElem?_cons_succ,
        Option.some.injEq] at here there
      intro amongFirst
      rw [← here] at amongFirst
      have before := ((timers_ofTokens tally step.tokens).2 number amongFirst).2
      have behind := lt_timers_ofSteps later (List.mem_of_getElem? there) number among
      omega

/-- The parts of a step have a timer exactly if the step has a delay. -/
theorem exists_timer_iff {parts : List Part} (runs : ∀ part ∈ parts, part.Runs) :
    (∃ number, ComponentId.timer number ∈ parts.map (·.component)) ↔
      (parts.map (·.token)).filterMap Token.delay? ≠ [] := by
  induction parts with
  | nil => simp
  | cons part rest ih =>
      rw [List.forall_mem_cons] at runs
      cases runs.1 with
      | actuation actuation =>
          have silent : Token.delay? (.actuation actuation) = none := rfl
          rw [List.map_cons, List.map_cons, List.filterMap_cons_none silent, ← ih runs.2]
          simp
      | timer delay number => simp [Token.delay?]

end Part

/-! ## Cases -/

namespace Sequence

variable {source : String} {sequence : Sequence}

theorem regions_of_wrapped (parsed : parse source = .ok sequence)
    (wrapped : sequence.wrapped = true) : sequence.regions = [] := by
  obtain ⟨steps, nodesEq, -⟩ := wrapped_of_parse parsed wrapped
  rw [regions, nodesEq, Node.regionsOf_map_step, List.mergeSort_nil]

theorem two_le_length_of_wrapped (parsed : parse source = .ok sequence)
    (wrapped : sequence.wrapped = true) : 2 ≤ sequence.length := by
  obtain ⟨steps, nodesEq, long⟩ := wrapped_of_parse parsed wrapped
  have stepsOf : ∀ found : List Step, Node.stepsOf (found.map .step) = found := by
    intro found
    induction found with
    | nil => rfl
    | cons step rest ih => rw [List.map_cons, Node.stepsOf_step, ih]
  rwa [length, Sequence.steps, nodesEq, stepsOf]

end Sequence

namespace Program

/-- The case of a step of a wrapped sequence. -/
structure Turns (sequence : Sequence) (index : Nat) (parts : List Part) (case : Case) : Prop where
  number : case.number = caseNumber index
  body : case.body = parts.flatMap Part.body
  next : case.next = .jump (sequence.after index)
  waits : ∀ signal, signal ∈ case.waits ↔
    (∃ part ∈ parts, part.signal? = some signal) ∨
      index = 0 ∧ ∃ last, sequence.parts.getLast? = some last ∧
        ∃ part ∈ last, part.signal? = some signal

theorem Builder.waitForWrap_cons (first : Case) (rest : List Case) {last : Case}
    (ends : (first :: rest).getLast? = some last) :
    ∃ first', waitForWrap (first :: rest) = first' :: rest ∧ first'.number = first.number ∧
      first'.body = first.body ∧ first'.onExit = first.onExit ∧ first'.next = first.next ∧
      ∀ signal, signal ∈ first'.waits ↔ signal ∈ first.waits ∨ signal ∈ last.waits := by
  unfold waitForWrap
  rw [ends, Option.bind_some]
  cases guard : last.guard with
  | none => exact ⟨first, rfl, rfl, rfl, rfl, rfl, by simp [Case.waits, guard]⟩
  | some condition =>
      refine ⟨_, rfl, rfl, rfl, rfl, rfl, ?_⟩
      intro signal
      simp only [Case.waits, Option.map_some, Option.getD_some, Condition.mem_andAll, guard]
      cases first.guard <;> simp [Condition.always]

variable {sequence : Sequence} {program : Program} {builder : Builder} {cases : List Case}
  {index : Nat} {parts : List Part} {case : Case}

/-- The case of a step goes on to the one behind it if there are no regions. -/
theorem next_of_serves (serves : case.Serves sequence index parts)
    (regions : sequence.regions = []) : case.next = .jump (sequence.after index) := by
  obtain ⟨counters, next, -⟩ := serves.next
  rw [next, regions, Sequence.regionsEndingAt_nil, Builder.leaveRegions]

/-- Every step of a wrapped sequence has its case. -/
theorem Built.exists_turns (built : Built sequence program builder cases)
    (wrapped : sequence.wrapped = true) (regions : sequence.regions = [])
    (long : 2 ≤ sequence.length) :
    ∃ turned, program.cases = ⟨0, none, builder.setup, [], .jump 10⟩ :: turned ∧
      turned.length = sequence.length ∧
      ∀ index parts, sequence.parts[index]? = some parts →
        ∃ case, turned[index]? = some case ∧ Turns sequence index parts case := by
  have casesEq := built.cases
  have length := built.length
  have covers := built.covers.2
  have partsLength := sequence.length_parts
  rw [if_pos wrapped] at casesEq
  cases cases with
  | nil =>
      rw [List.length_nil] at length
      omega
  | cons first rest =>
      have inside : sequence.length - 1 < sequence.parts.length := by omega
      obtain ⟨-, last, lastEq, lastServes⟩ :=
        covers (sequence.length - 1) _ (List.getElem?_eq_getElem inside)
      have ends : (first :: rest).getLast? = some last := by
        rw [List.getLast?_eq_getElem?, length, lastEq]
      have lastParts : sequence.parts.getLast? = some sequence.parts[sequence.length - 1] := by
        rw [List.getLast?_eq_getElem?, partsLength, List.getElem?_eq_getElem inside]
      obtain ⟨first', turnedEq, number, body, -, next, waits⟩ :=
        Builder.waitForWrap_cons first rest ends
      refine ⟨first' :: rest, by rw [casesEq, turnedEq], length, ?_⟩
      intro index parts here
      obtain ⟨-, case, there, serves⟩ := covers index parts here
      rw [Nat.zero_add] at serves
      have onward := next_of_serves serves regions
      cases index with
      | zero =>
          obtain rfl := Option.some.inj there
          refine ⟨first', rfl, number.trans serves.number, body.trans serves.body,
            next.trans onward, ?_⟩
          intro signal
          rw [waits, serves.waits, lastServes.waits]
          simp [lastParts]
      | succ index =>
          exact ⟨case, there, serves.number, serves.body, onward, by simpa using serves.waits⟩

/-- The case of a step of a wrapped sequence, as the program finds it. -/
theorem Built.turns (built : Built sequence program builder cases)
    (wrapped : sequence.wrapped = true) (regions : sequence.regions = [])
    (long : 2 ≤ sequence.length) (here : sequence.parts[index]? = some parts) :
    ∃ case, program.case? (caseNumber index) = some case ∧ Turns sequence index parts case := by
  obtain ⟨turned, casesEq, length, turns⟩ := built.exists_turns wrapped regions long
  obtain ⟨case, there, turn⟩ := turns index parts here
  refine ⟨case, ?_, turn⟩
  rw [case?_of_cases casesEq rfl, there]
  intro other found stands
  have inside : other < sequence.parts.length := by
    rw [Sequence.length_parts, ← length]
    exact (List.getElem?_eq_some_iff.mp stands).1
  obtain ⟨case', there', turn'⟩ := turns other _ (List.getElem?_eq_getElem inside)
  obtain rfl := Option.some.inj (stands.symm.trans there')
  exact turn'.number

end Program

end Pneumatic
