import Pneumatic.Program.Compile
import Pneumatic.Proofs.Notation.Regions
import Pneumatic.Proofs.Program.Execution
import Pneumatic.Proofs.Tag.Automatic

/-!
# The cases of a program

With automatic names every sequence without a pressure is built.  The case of a step is
determined by the step, its place, and the counters of the regions that end there; the
setup retracts every actuator, switches off every timer and resets every counter.
-/

namespace Pneumatic

namespace Part

/-- What a part adds to the body of its case. -/
def body (part : Part) : List Instruction :=
  match part.token, part.component with
  | .actuation actuation, _ =>
      Program.Builder.assign ((Tag.Actuator.auto actuation.label).command actuation.direction)
  | .timer _, .timer number => [.setBool (Tag.Timer.auto number).power true]
  | _, _ => []

/-- What a part adds to the exit of its case. -/
def exit (part : Part) : List Instruction :=
  match part.token, part.component with
  | .timer _, .timer number => [.setBool (Tag.Timer.auto number).power false]
  | _, _ => []

/-- The signal that a part makes its case wait for. -/
def signal? (part : Part) : Option String :=
  match part.token, part.component with
  | .actuation actuation, _ =>
      some ((Tag.Actuator.auto actuation.label).sensor actuation.direction)
  | .timer _, .timer number => some (Tag.Timer.auto number).done
  | _, _ => none

/-- An actuation or a timer with its component. -/
inductive Runs : Part → Prop where
  | actuation (actuation : Actuation) :
      Runs ⟨.actuation actuation, .actuator actuation.label⟩
  | timer (delay : Delay) (number : Nat) : Runs ⟨.timer delay, .timer number⟩

theorem Runs.isPressure {part : Part} (runs : part.Runs) : part.token.isPressure = false := by
  cases runs <;> rfl

/-- Numbering the tokens of a step keeps them. -/
theorem map_token_ofTokens (tally : Tally) (tokens : List Token) :
    (ofTokens tally tokens).1.map (·.token) = tokens := by
  induction tokens generalizing tally with
  | nil => rfl
  | cons token rest ih => simp [ofTokens, ih]

theorem runs_ofTokens (tally : Tally) {tokens : List Token}
    (noPressure : ∀ token ∈ tokens, token.isPressure = false) :
    ∀ part ∈ (ofTokens tally tokens).1, part.Runs := by
  induction tokens generalizing tally with
  | nil => simp [ofTokens]
  | cons token rest ih =>
      rw [List.forall_mem_cons] at noPressure
      rw [ofTokens, List.forall_mem_cons]
      refine ⟨?_, ih _ noPressure.2⟩
      cases token with
      | actuation actuation => exact .actuation _
      | timer delay => exact .timer _ _
      | pressure pressure =>
          have isPressure := noPressure.1
          contradiction

/-- The signals that the parts of a step wait for. -/
theorem exists_signal_iff {parts : List Part} (runs : ∀ part ∈ parts, part.Runs)
    (signal : String) :
    (∃ part ∈ parts, part.signal? = some signal) ↔
      (∃ actuation ∈ (parts.map (·.token)).filterMap Token.actuation?,
        signal = (Tag.Actuator.auto actuation.label).sensor actuation.direction) ∨
      ∃ number, ComponentId.timer number ∈ parts.map (·.component) ∧
        signal = (Tag.Timer.auto number).done := by
  induction parts with
  | nil => simp
  | cons part rest ih =>
      rw [List.forall_mem_cons] at runs
      rw [List.exists_mem_cons_iff, ih runs.2]
      cases runs.1 with
      | actuation actuation =>
          simp [signal?, Token.actuation?, eq_comm, or_assoc]
      | timer delay number =>
          simp [signal?, Token.actuation?, eq_comm, or_left_comm]

theorem length_ofSteps (tally : Tally) (steps : List Step) :
    (ofSteps tally steps).length = steps.length := by
  induction steps generalizing tally with
  | nil => rfl
  | cons step rest ih => simp [ofSteps, ih]

/-- The parts of a step are its tokens, numbered from some tally on. -/
theorem getElem?_ofSteps (tally : Tally) (steps : List Step) (index : Nat) :
    ∃ found : Tally, (ofSteps tally steps)[index]? =
      steps[index]?.map fun step => (ofTokens found step.tokens).1 := by
  induction steps generalizing tally index with
  | nil => exact ⟨tally, by simp [ofSteps]⟩
  | cons step rest ih =>
      cases index with
      | zero => exact ⟨tally, by simp [ofSteps]⟩
      | succ index =>
          obtain ⟨found, equal⟩ := ih (ofTokens tally step.tokens).2 index
          exact ⟨found, by simpa [ofSteps] using equal⟩

end Part

theorem Sequence.length_parts (sequence : Sequence) : sequence.parts.length = sequence.length :=
  Part.length_ofSteps ⟨0, 0⟩ sequence.steps

namespace Condition

theorem mem_and {condition : Condition} {term other : String} :
    other ∈ (condition.and term).terms ↔ other ∈ condition.terms ∨ other = term := by
  unfold Condition.and
  split
  · next known =>
      refine ⟨.inl, ?_⟩
      rintro (before | rfl)
      · exact before
      · exact known
  · simp

theorem mem_andAll {condition : Condition} {terms : List String} {other : String} :
    other ∈ (condition.andAll terms).terms ↔ other ∈ condition.terms ∨ other ∈ terms := by
  induction terms generalizing condition with
  | nil => simp [andAll]
  | cons term rest ih =>
      have step := @ih (condition.and term)
      rw [andAll, List.foldl_cons]
      refine step.trans ?_
      rw [mem_and, List.mem_cons, or_assoc]

end Condition

namespace Program.Builder

/-- An instruction that drives an actuator, a timer or a counter to rest. -/
inductive Rests : Instruction → Prop where
  | release (label : Char) : Rests (.setBool (Tag.coil label .extend) false)
  | retract (label : Char) : Rests (.setBool (Tag.coil label .retract) true)
  | off (number : Nat) : Rests (.setBool (Tag.Timer.auto number).power false)
  | reset (number : Nat) : Rests (.setInt (Tag.counterName number) 0)

/-- The assignments that retract an actuator. -/
def retraction (label : Char) : List Instruction :=
  assign ((Tag.Actuator.auto label).command .retract)

/-- Whatever is switched on for rest retracts an actuator. -/
theorem Rests.eq_coil {tag : String} (rests : Rests (.setBool tag true)) :
    ∃ label, tag = Tag.coil label .retract := by
  cases rests with
  | retract label => exact ⟨label, rfl⟩

/-- Whatever word is reset is that of a counter. -/
theorem Rests.eq_counter {tag : String} {number : Int} (rests : Rests (.setInt tag number)) :
    ∃ counter, tag = Tag.counterName counter := by
  cases rests with
  | reset counter => exact ⟨counter, rfl⟩

theorem rests_retraction (label : Char) : ∀ instruction ∈ retraction label, Rests instruction := by
  intro instruction membership
  simp only [retraction, assign, Tag.Actuator.command, Tag.Actuator.auto, Option.map_some,
    Option.toList_some, List.map_cons, List.map_nil, List.mem_cons, List.not_mem_nil,
    or_false] at membership
  rcases membership with rfl | rfl
  · exact .release label
  · exact .retract label

/-- What holds of a builder that names automatically: the actuators mentioned have their
automatic signals and are retracted by the setup, a counter has the name of its number,
and everything set up is driven to rest. -/
structure Prepared (sequence : Sequence) (builder : Builder) : Prop where
  actuators : ∀ label tags, builder.actuators.lookup label = some tags →
    tags = .auto label ∧ ∀ instruction ∈ retraction label, instruction ∈ builder.setup
  counters : ∀ position tag, (position, tag) ∈ builder.counters →
    ∃ number, sequence.counters[position]?.join = some number ∧ tag = Tag.counterName number
  setup : ∀ instruction ∈ builder.setup, Rests instruction

/-- A builder knows the actuators and counters that another one knows. -/
structure Extends (builder builder' : Builder) : Prop where
  actuators : ∀ label, (builder.actuators.lookup label).isSome = true →
    (builder'.actuators.lookup label).isSome = true
  counters : ∀ entry ∈ builder.counters, entry ∈ builder'.counters

variable {sequence : Sequence} {builder builder' builder'' : Builder}

theorem Extends.refl (builder : Builder) : Extends builder builder :=
  ⟨fun _ known => known, fun _ membership => membership⟩

theorem Extends.trans (first : Extends builder builder') (second : Extends builder' builder'') :
    Extends builder builder'' :=
  ⟨fun label known => second.actuators label (first.actuators label known),
    fun entry membership => second.counters entry (first.counters entry membership)⟩

/-- The actuator of a part is known. -/
def Knows (builder : Builder) (part : Part) : Prop :=
  ∀ actuation, part.token = .actuation actuation →
    (builder.actuators.lookup actuation.label).isSome = true

theorem Knows.mono {part : Part} (known : Knows builder part) (more : Extends builder builder') :
    Knows builder' part :=
  fun actuation equal => more.actuators actuation.label (known actuation equal)

/-- Naming an actuator automatically. -/
theorem actuator_automatic (prepared : Prepared sequence builder) (label : Char) :
    ∃ builder', builder.actuator .automatic label = .ok (.auto label, builder') ∧
      Prepared sequence builder' ∧ Extends builder builder' ∧
      (builder'.actuators.lookup label).isSome = true ∧ builder'.counters = builder.counters := by
  unfold actuator
  cases known : builder.actuators.lookup label with
  | some tags =>
      obtain ⟨rfl, -⟩ := prepared.actuators label tags known
      exact ⟨builder, rfl, prepared, .refl builder, by simp [known], rfl⟩
  | none =>
      refine ⟨_, rfl, ⟨?_, prepared.counters, ?_⟩, ⟨?_, fun _ membership => membership⟩, ?_, rfl⟩
      · intro other tags found
        simp only [List.lookup_append] at found
        rcases Option.or_eq_some_iff.mp found with before | ⟨-, now⟩
        · obtain ⟨tagsEq, inSetup⟩ := prepared.actuators other tags before
          exact ⟨tagsEq, fun instruction membership =>
            List.mem_append_left _ (inSetup instruction membership)⟩
        · simp only [List.lookup_cons, List.lookup_nil] at now
          split at now
          · next same =>
              obtain rfl := beq_iff_eq.mp same
              exact ⟨(Option.some.inj now).symm, fun instruction membership =>
                List.mem_append_right _ membership⟩
          · contradiction
      · exact List.forall_mem_append.mpr ⟨prepared.setup, rests_retraction label⟩
      · intro other found
        simp only [List.lookup_append, Option.isSome_or, found, Bool.true_or]
      · simp [List.lookup_append, known]

/-- What a part adds to the work of its step. -/
def Work.add (work : Work) (part : Part) : Work where
  body := work.body ++ part.body
  onExit := work.onExit ++ part.exit
  done := work.done.andAll part.signal?.toList

/-- Adding a part with automatic names. -/
theorem addPart_automatic (prepared : Prepared sequence builder) (work : Work) {part : Part}
    (runs : part.Runs) :
    ∃ builder', addPart .automatic (builder, work) part = .ok (builder', work.add part) ∧
      Prepared sequence builder' ∧ Extends builder builder' ∧ Knows builder' part ∧
      builder'.counters = builder.counters := by
  cases runs with
  | actuation actuation =>
      obtain ⟨builder', named, prepared', extends', known, countersEq⟩ :=
        actuator_automatic prepared actuation.label
      refine ⟨builder', ?_, prepared', extends', ?_, countersEq⟩
      · simp only [addPart, named]
        simp only [Work.add, Part.exit, List.append_nil]
        rfl
      · intro other equal
        obtain rfl := Token.actuation.inj equal
        exact known
  | timer delay number =>
      refine ⟨_, rfl, ⟨?_, prepared.counters, ?_⟩, ⟨fun _ known => known,
        fun _ membership => membership⟩, ?_, rfl⟩
      · intro label tags found
        obtain ⟨tagsEq, inSetup⟩ := prepared.actuators label tags found
        exact ⟨tagsEq, fun instruction membership =>
          List.mem_append_left _ (inSetup instruction membership)⟩
      · exact List.forall_mem_append.mpr
          ⟨prepared.setup, List.forall_mem_singleton.mpr (.off number)⟩
      · intro actuation equal
        contradiction

/-- Adding parts with automatic names. -/
theorem foldlM_addPart_automatic (prepared : Prepared sequence builder) (work : Work)
    {parts : List Part} (runs : ∀ part ∈ parts, part.Runs) :
    ∃ builder', parts.foldlM (addPart .automatic) (builder, work) =
        .ok (builder', parts.foldl Work.add work) ∧
      Prepared sequence builder' ∧ Extends builder builder' ∧
      (∀ part ∈ parts, Knows builder' part) ∧ builder'.counters = builder.counters := by
  induction parts generalizing builder work with
  | nil => exact ⟨builder, rfl, prepared, .refl builder, by simp, rfl⟩
  | cons part rest ih =>
      rw [List.forall_mem_cons] at runs
      obtain ⟨middle, added, prepared', extends', known, middleEq⟩ :=
        addPart_automatic prepared work runs.1
      obtain ⟨builder', folded, prepared'', extends'', restKnown, builderEq⟩ :=
        ih prepared' (work.add part) runs.2
      refine ⟨builder', ?_, prepared'', extends'.trans extends'', ?_, builderEq.trans middleEq⟩
      · rw [List.foldlM_cons, added]
        exact folded
      · exact List.forall_mem_cons.mpr ⟨known.mono extends'', restKnown⟩

theorem foldl_add (work : Work) (parts : List Part) :
    (parts.foldl Work.add work).body = work.body ++ parts.flatMap Part.body ∧
    (parts.foldl Work.add work).onExit = work.onExit ++ parts.flatMap Part.exit ∧
    ∀ signal, signal ∈ (parts.foldl Work.add work).done.terms ↔
      signal ∈ work.done.terms ∨ ∃ part ∈ parts, part.signal? = some signal := by
  induction parts generalizing work with
  | nil => simp
  | cons part rest ih =>
      obtain ⟨bodyEq, exitEq, doneIff⟩ := ih (work.add part)
      refine ⟨?_, ?_, ?_⟩
      · rw [List.foldl_cons, bodyEq, Work.add, List.append_assoc, List.flatMap_cons]
      · rw [List.foldl_cons, exitEq, Work.add, List.append_assoc, List.flatMap_cons]
      · intro signal
        rw [List.foldl_cons, doneIff, Work.add, Condition.mem_andAll, Option.mem_toList]
        simp [or_assoc]

/-- Entering a region with automatic names. -/
theorem enterRegion_automatic (prepared : Prepared sequence builder) (position : Nat) :
    ∃ builder', enterRegion .automatic sequence.counters builder position = .ok builder' ∧
      Prepared sequence builder' ∧ Extends builder builder' ∧
      ∀ number, sequence.counters[position]?.join = some number →
        (position, Tag.counterName number) ∈ builder'.counters := by
  unfold enterRegion
  cases counter : sequence.counters[position]?.join with
  | none => exact ⟨builder, rfl, prepared, .refl builder, by simp⟩
  | some number =>
      refine ⟨_, rfl, ⟨?_, ?_, ?_⟩, ⟨fun _ known => known, fun _ membership =>
        List.mem_append_left _ membership⟩, ?_⟩
      · intro label tags found
        obtain ⟨tagsEq, inSetup⟩ := prepared.actuators label tags found
        exact ⟨tagsEq, fun instruction membership =>
          List.mem_append_left _ (inSetup instruction membership)⟩
      · intro other tag membership
        rcases List.mem_append.mp membership with before | now
        · exact prepared.counters other tag before
        · obtain ⟨rfl, rfl⟩ := Prod.mk.inj (List.mem_singleton.mp now)
          exact ⟨number, counter, rfl⟩
      · exact List.forall_mem_append.mpr
          ⟨prepared.setup, List.forall_mem_singleton.mpr (.reset number)⟩
      · intro found foundEq
        obtain rfl := Option.some.inj foundEq
        exact List.mem_append_right _ (List.mem_singleton_self _)

theorem foldlM_enterRegion_automatic (prepared : Prepared sequence builder)
    (positions : List Nat) :
    ∃ builder', positions.foldlM (enterRegion .automatic sequence.counters) builder =
        .ok builder' ∧
      Prepared sequence builder' ∧ Extends builder builder' ∧
      ∀ position ∈ positions, ∀ number, sequence.counters[position]?.join = some number →
        (position, Tag.counterName number) ∈ builder'.counters := by
  induction positions generalizing builder with
  | nil => exact ⟨builder, rfl, prepared, .refl builder, by simp⟩
  | cons position rest ih =>
      obtain ⟨middle, entered, prepared', extends', counted⟩ :=
        enterRegion_automatic prepared position
      obtain ⟨builder', folded, prepared'', extends'', restCounted⟩ := ih prepared'
      refine ⟨builder', ?_, prepared'', extends'.trans extends'', ?_⟩
      · rw [List.foldlM_cons, entered]
        exact folded
      · refine List.forall_mem_cons.mpr ⟨?_, restCounted⟩
        intro number counter
        exact extends''.counters _ (counted number counter)

/-- The counters of a builder are known by their automatic names. -/
theorem Prepared.lookup_counters (prepared : Prepared sequence builder) {position : Nat}
    (counted : ∀ number, sequence.counters[position]?.join = some number →
      (position, Tag.counterName number) ∈ builder.counters) :
    builder.counters.lookup position =
      sequence.counters[position]?.join.map Tag.counterName := by
  cases found : builder.counters.lookup position with
  | none =>
      rw [List.lookup_eq_none_iff] at found
      cases counter : sequence.counters[position]?.join with
      | none => rfl
      | some number =>
          have apart := found _ (counted number counter)
          simp at apart
  | some tag =>
      obtain ⟨before, behind, splits, -⟩ := List.lookup_eq_some_iff.mp found
      have membership : (position, tag) ∈ builder.counters := by simp [splits]
      obtain ⟨number, counter, rfl⟩ := prepared.counters position tag membership
      rw [counter]
      rfl

end Program.Builder

end Pneumatic
