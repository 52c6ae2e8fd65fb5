import Pneumatic.Proofs.Program.Coils
import Pneumatic.Proofs.Program.Mentions

/-!
# A program meets the needs of its sequence

The inventory lists the components of a sequence, and the builder finds them on its own while
it adds one step after the other.  Both find the same: a program drives every component of the
inventory to rest, declares the signals of every one in the same order, and calls every timer.
-/

namespace Pneumatic

open Tag (Naming Signal Table)

/-! ## Components with their signals -/

/-- A component with the names of its signals. -/
inductive Tag.Component where
  | actuator (tags : Tag.Actuator)
  | timer (tags : Tag.Timer)
  | counter (value : String)
  deriving DecidableEq, Repr

namespace Tag.Component

/-- The signals of a component in the order of a tag table. -/
def signals : Component → List Signal
  | .actuator tags =>
      [⟨tags.extend, .bool⟩] ++ (tags.retract.map fun name => ⟨name, .bool⟩).toList ++
        [⟨tags.extended, .bool⟩, ⟨tags.retracted, .bool⟩]
  | .timer tags => [⟨tags.power, .bool⟩, ⟨tags.done, .bool⟩, ⟨tags.elapsed, .time⟩]
  | .counter value => [⟨value, .int⟩]

/-- What drives a component to rest. -/
def rest : Component → List Instruction
  | .actuator tags => Program.Builder.assign (tags.command .retract)
  | .timer tags => [.setBool tags.power false]
  | .counter value => [.setInt value 0]

end Tag.Component

namespace Tag.Naming

/-- The names of a component, if all of them are given. -/
def component? (naming : Naming) : ComponentId → Option Tag.Component
  | .actuator label => (naming.actuator label).toOption.map .actuator
  | .timer number => (naming.timer number).toOption.map .timer
  | .counter number => (naming.counter number).toOption.map .counter
  | .pressure _ => none

/-- The call of a timer with its delay, under the name of its instance. -/
def call? (naming : Naming) (number : Nat) (delay : Delay) : Option Instruction :=
  (naming.timer number).toOption.map fun tags =>
    .callTimer ("Timer_" ++ String.ofList (Text.digits number) ++ "_Instance")
      tags.power tags.done tags.elapsed (Program.Builder.preset delay)

end Tag.Naming

theorem Tag.signal_bindings_actuator (tags : Tag.Actuator) (label : Char) :
    (tags.bindings label).map Tag.Binding.signal = (Tag.Component.actuator tags).signals := by
  cases retract : tags.retract <;>
    simp only [Tag.Actuator.bindings, Tag.Component.signals, retract, Option.map_none,
      Option.map_some, Option.toList_none, Option.toList_some] <;> rfl

theorem Tag.signal_bindings_timer (tags : Tag.Timer) :
    tags.bindings.map Tag.Binding.signal = (Tag.Component.timer tags).signals := rfl

theorem Tag.Naming.component?_actuator {naming : Naming} {label : Char} {tags : Tag.Actuator}
    (named : naming.actuator label = .ok tags) :
    naming.component? (.actuator label) = some (.actuator tags) := by
  rw [component?, named]
  rfl

theorem Tag.Naming.component?_timer {naming : Naming} {number : Nat} {tags : Tag.Timer}
    (named : naming.timer number = .ok tags) :
    naming.component? (.timer number) = some (.timer tags) := by
  rw [component?, named]
  rfl

theorem Tag.Naming.component?_counter {naming : Naming} {number : Nat} {value : String}
    (named : naming.counter number = .ok value) :
    naming.component? (.counter number) = some (.counter value) := by
  rw [component?, named]
  rfl

theorem Tag.Naming.label_of_timer {naming : Naming} {number : Nat} {tags : Tag.Timer}
    (named : naming.timer number = .ok tags) : tags.label = (ComponentId.timer number).label := by
  obtain ⟨power, -, named⟩ := exists_of_bind_eq_ok named
  obtain ⟨done, -, named⟩ := exists_of_bind_eq_ok named
  obtain ⟨elapsed, -, named⟩ := exists_of_bind_eq_ok named
  obtain rfl := Except.ok.inj named
  rfl

theorem filterMap_cons_toList {Element Result : Type} (function : Element → Option Result)
    (element : Element) (rest : List Element) :
    (element :: rest).filterMap function =
      (function element).toList ++ rest.filterMap function := by
  cases result : function element <;> simp [result]

namespace Program.Builder

variable {naming : Naming} {builder builder' : Builder} {work work' : Work}
  {mentions behind : List ComponentId} {timers : List (Delay × Nat)}

/-- A builder that has found the components mentioned so far: they are set up and declared in
the order in which they came first, and the timers among them are called in turn. -/
structure Found (naming : Naming) (mentions : List ComponentId) (timers : List (Delay × Nat))
    (builder : Builder) : Prop where
  components : ∃ components, mentions.eraseDups.mapM naming.component? = some components ∧
    builder.setup = components.flatMap Tag.Component.rest ∧
    builder.table = Table.empty.declare (components.flatMap Tag.Component.signals)
  calls : (timers.mapM fun (delay, number) => naming.call? number delay) = some builder.calls
  actuators : ∀ label, builder.actuators.lookup label =
    if .actuator label ∈ mentions then (naming.actuator label).toOption else none

theorem found_empty (naming : Naming) : Found naming [] [] .empty := by
  constructor
  · exact ⟨[], rfl, rfl, rfl⟩
  · rfl
  · simp [empty]

/-- A component that was not mentioned before is set up and declared behind the others. -/
theorem Found.fresh {id : ComponentId} {component : Tag.Component}
    (found : Found naming mentions timers builder) (unknown : id ∉ mentions)
    (named : naming.component? id = some component)
    (setup : builder'.setup = builder.setup ++ component.rest)
    (table : builder'.table = builder.table.declare component.signals) :
    ∃ components, (mentions ++ [id]).eraseDups.mapM naming.component? = some components ∧
      builder'.setup = components.flatMap Tag.Component.rest ∧
      builder'.table = Table.empty.declare (components.flatMap Tag.Component.signals) := by
  obtain ⟨components, mapped, setupEq, tableEq⟩ := found.components
  refine ⟨components ++ [component], ?_, ?_, ?_⟩
  · rw [eraseDups_append_of_not_mem unknown]
    exact mapM_append_singleton mapped named
  · rw [setup, setupEq, List.flatMap_append, List.flatMap_singleton]
  · rw [table, tableEq, List.flatMap_append, List.flatMap_singleton, Table.declare_append]

theorem Found.enterRegion {counters : List (Option Nat)} {region : Nat}
    (found : Found naming mentions timers builder)
    (once : ComponentId.Once
      (mentions ++ ((counters[region]?.join).map ComponentId.counter).toList))
    (entered : enterRegion naming counters builder region = .ok builder') :
    Found naming (mentions ++ ((counters[region]?.join).map ComponentId.counter).toList) timers
      builder' := by
  rcases enterRegion_eq_ok entered with ⟨uncounted, rfl⟩ | ⟨number, tag, counter, named, rfl⟩
  · simpa [uncounted] using found
  · rw [counter] at once ⊢
    refine ⟨?_, found.calls, ?_⟩
    · exact found.fresh once.counter_not_mem (Naming.component?_counter named) rfl rfl
    · simpa using found.actuators

theorem Found.actuator {label : Char} {tags : Tag.Actuator}
    (found : Found naming mentions timers builder)
    (mentioned : builder.actuator naming label = .ok (tags, builder')) :
    Found naming (mentions ++ [.actuator label]) timers builder' := by
  rcases actuator_eq_ok mentioned with ⟨lookup, rfl⟩ | ⟨lookup, named, rfl⟩
  · have known : .actuator label ∈ mentions := by
      by_contra unknown
      rw [found.actuators, if_neg unknown] at lookup
      contradiction
    refine ⟨?_, found.calls, ?_⟩
    · rw [eraseDups_append_of_mem known]
      exact found.components
    · intro other
      rw [found.actuators]
      congr 1
      simp only [List.mem_append, List.mem_singleton, ComponentId.actuator.injEq, eq_iff_iff]
      refine ⟨.inl, ?_⟩
      rintro (before | rfl)
      · exact before
      · exact known
  · have unknown : .actuator label ∉ mentions := by
      intro known
      rw [found.actuators, if_pos known, named] at lookup
      contradiction
    refine ⟨?_, found.calls, ?_⟩
    · refine found.fresh unknown (Naming.component?_actuator named) rfl ?_
      rw [← Tag.signal_bindings_actuator tags label, ← Table.extend_eq_declare]
    · intro other
      rw [List.lookup_append, found.actuators]
      by_cases same : other = label
      · subst same
        simp [unknown, named, Except.toOption]
      · have apart : (other == label) = false := beq_false_of_ne same
        simp [same, List.lookup_cons, apart]

theorem Found.timer {number : Nat} {delay : Delay} {tags : Tag.Timer}
    (found : Found naming mentions timers builder)
    (once : ComponentId.Once (mentions ++ [.timer number]))
    (mentioned : builder.timer naming number delay = .ok (tags, builder')) :
    Found naming (mentions ++ [.timer number]) (timers ++ [(delay, number)]) builder' := by
  obtain ⟨named, rfl⟩ := timer_eq_ok mentioned
  refine ⟨?_, ?_, ?_⟩
  · refine found.fresh once.timer_not_mem (Naming.component?_timer named) rfl ?_
    rw [← Tag.signal_bindings_timer, ← Table.extend_eq_declare]
  · refine mapM_append_singleton found.calls ?_
    simp only [Naming.call?, named, Naming.label_of_timer named]
    rfl
  · simpa using found.actuators

theorem Found.addPart {part : Part} (found : Found naming mentions timers builder)
    (once : ComponentId.Once (mentions ++ [part.component])) (runs : part.Runs)
    (added : addPart naming (builder, work) part = .ok (builder', work')) :
    Found naming (mentions ++ [part.component]) (timers ++ part.delay?.toList) builder' := by
  rcases addPart_eq_ok added with ⟨actuation, tags, token, mentioned, -⟩ |
    ⟨delay, number, tags, token, component, mentioned, -⟩ | ⟨rests, -⟩
  · cases runs with
    | timer delay number => contradiction
    | actuation own =>
        obtain rfl := Token.actuation.inj token
        simpa [Part.delay?] using found.actuator mentioned
  · obtain rfl : part = ⟨.timer delay, .timer number⟩ := by rw [← token, ← component]
    exact found.timer once mentioned
  · contradiction

theorem Found.enterRegions {counters : List (Option Nat)} {positions : List Nat}
    (found : Found naming mentions timers builder)
    (once : ComponentId.Once (mentions ++ positions.filterMap fun region =>
      (counters[region]?.join).map ComponentId.counter))
    (entered : positions.foldlM (Builder.enterRegion naming counters) builder = .ok builder') :
    Found naming (mentions ++ positions.filterMap fun region =>
      (counters[region]?.join).map ComponentId.counter) timers builder' := by
  induction positions generalizing mentions builder with
  | nil =>
      obtain rfl := Except.ok.inj entered
      simpa using found
  | cons position rest ih =>
      rw [List.foldlM_cons] at entered
      obtain ⟨middle, enters, entered⟩ := exists_of_bind_eq_ok entered
      rw [filterMap_cons_toList, ← List.append_assoc] at once ⊢
      exact ih (found.enterRegion once.of_append enters) once entered

theorem Found.addParts {parts : List Part} (found : Found naming mentions timers builder)
    (once : ComponentId.Once (mentions ++ parts.map (·.component)))
    (runs : ∀ part ∈ parts, part.Runs)
    (added : parts.foldlM (Builder.addPart naming) (builder, work) = .ok (builder', work')) :
    Found naming (mentions ++ parts.map (·.component)) (timers ++ parts.filterMap Part.delay?)
      builder' := by
  induction parts generalizing mentions timers builder work with
  | nil =>
      obtain ⟨rfl, -⟩ := Prod.mk.inj (Except.ok.inj added)
      simpa using found
  | cons part rest ih =>
      rw [List.forall_mem_cons] at runs
      rw [List.foldlM_cons] at added
      obtain ⟨⟨middle, _⟩, adds, added⟩ := exists_of_bind_eq_ok added
      rw [List.map_cons, List.append_cons] at once ⊢
      rw [filterMap_cons_toList, ← List.append_assoc]
      exact ih (found.addPart once.of_append runs.1 adds) once runs.2 added

theorem Found.addStep {sequence : Sequence} {cases cases' : List Case} {parts : List Part}
    {index : Nat} (found : Found naming mentions timers builder)
    (once : ComponentId.Once
      (mentions ++ Sequence.needs sequence.regions sequence.counters index parts))
    (runs : ∀ part ∈ parts, part.Runs)
    (added : addStep naming sequence (builder, cases) (parts, index) = .ok (builder', cases')) :
    Found naming (mentions ++ Sequence.needs sequence.regions sequence.counters index parts)
      (timers ++ parts.filterMap Part.delay?) builder' := by
  obtain ⟨entered, work, enters, works, -⟩ := addStep_eq_ok added
  rw [Sequence.needs, ← List.append_assoc] at once ⊢
  exact (found.enterRegions once.of_append enters).addParts once runs works

theorem Found.addSteps {sequence : Sequence} {cases cases' : List Case}
    {steps : List (List Part × Nat)} (found : Found naming mentions timers builder)
    (once : ComponentId.Once (mentions ++ steps.flatMap fun (parts, index) =>
      Sequence.needs sequence.regions sequence.counters index parts))
    (runs : ∀ step ∈ steps, ∀ part ∈ step.1, part.Runs)
    (added : steps.foldlM (Builder.addStep naming sequence) (builder, cases) =
      .ok (builder', cases')) :
    Found naming (mentions ++ steps.flatMap fun (parts, index) =>
        Sequence.needs sequence.regions sequence.counters index parts)
      (timers ++ steps.flatMap fun step => step.1.filterMap Part.delay?) builder' := by
  induction steps generalizing mentions timers builder cases with
  | nil =>
      obtain ⟨rfl, -⟩ := Prod.mk.inj (Except.ok.inj added)
      simpa using found
  | cons step rest ih =>
      rw [List.forall_mem_cons] at runs
      rw [List.foldlM_cons] at added
      obtain ⟨⟨middle, _⟩, adds, added⟩ := exists_of_bind_eq_ok added
      rw [List.flatMap_cons, ← List.append_assoc] at once ⊢
      rw [List.flatMap_cons, ← List.append_assoc]
      exact ih (found.addStep once.of_append runs.1 adds) once runs.2 added

end Program.Builder

/-! ## The whole program -/

/-- The variables of a run that a sequence depends on: both as soon as a delay or a bound is
relative. -/
def Sequence.runVariables (sequence : Sequence) : List Signal :=
  if sequence.delays.any Delay.usesVariable ||
      sequence.regions.any fun region => region.bound.usesVariable then
    [⟨Tag.timerVariable, .int⟩, ⟨Tag.repeatVariable, .int⟩]
  else []

theorem Sequence.usesVariables_eq (sequence : Sequence) :
    sequence.usesVariables = (sequence.delays.any Delay.usesVariable ||
      sequence.regions.any fun region => region.bound.usesVariable) := by
  rw [usesVariables, delays, List.any_filterMap]
  congr 2

namespace Program

variable {naming : Naming} {sequence : Sequence} {project : Option Project} {program : Program}

/-- What a built program says about the components of its sequence. -/
theorem exists_components_of_build (runs : ∀ parts ∈ sequence.parts, ∀ part ∈ parts, part.Runs)
    (built : build naming sequence = .ok program) :
    (∃ components, sequence.mentions.eraseDups.mapM naming.component? = some components ∧
      program.setup = components.flatMap Tag.Component.rest ∧
      program.tags = (Table.empty.declare
        (components.flatMap Tag.Component.signals ++ sequence.runVariables)).declarations) ∧
    ((sequence.delays.zipIdx 1).mapM fun (delay, number) => naming.call? number delay) =
      some program.calls ∧
    (program.case? 0).map (·.body) = some program.setup := by
  obtain ⟨⟨builder, cases⟩, folded, built⟩ := exists_of_bind_eq_ok built
  obtain rfl := Except.ok.inj built
  have found := (Builder.found_empty naming).addSteps
    (by simpa [Sequence.mentions] using sequence.once_mentions)
    (fun step among => runs step.1 (Sequence.mem_parts_of_mem_zipIdx among)) folded
  obtain ⟨⟨components, mapped, setup, table⟩, calls, -⟩ := found
  rw [List.nil_append, Sequence.flatMap_delay?_parts] at calls
  refine ⟨⟨components, mapped, setup, ?_⟩, calls, rfl⟩
  rw [Table.declare_append, ← table, Sequence.runVariables, ← Sequence.usesVariables_eq]
  cases sequence.usesVariables <;> rfl

theorem exists_components_of_compile (compiled : compile sequence project = .ok program) :
    (∃ components,
      sequence.mentions.eraseDups.mapM (Naming.ofProject? project).component? = some components ∧
      program.setup = components.flatMap Tag.Component.rest ∧
      program.tags = (Table.empty.declare
        (components.flatMap Tag.Component.signals ++ sequence.runVariables)).declarations) ∧
    ((sequence.delays.zipIdx 1).mapM fun (delay, number) =>
      (Naming.ofProject? project).call? number delay) = some program.calls ∧
    (program.case? 0).map (·.body) = some program.setup :=
  have ⟨runs, built⟩ := build_of_compile compiled
  exists_components_of_build runs built

/-- What a program calls are timers, which assign nothing. -/
theorem runAll_calls_of_compile (compiled : compile sequence project = .ok program)
    (memory : Memory) : Instruction.runAll program.calls memory = memory := by
  obtain ⟨-, calls, -⟩ := exists_components_of_compile compiled
  refine List.foldlRecOn program.calls _ (motive := (· = memory)) rfl ?_
  intro _ same call among
  obtain ⟨⟨delay, number⟩, -, called⟩ := exists_of_mem_mapM calls among
  obtain ⟨tags, -, rfl⟩ := Option.map_eq_some_iff.mp called
  exact same

/-- A program meets the needs of its sequence.  Its setup drives every component of the inventory
to rest, in order and each once; it declares their signals in the same order, leaving out names
that were declared before, and then the variables of a run if anything depends on them; and it
calls the timers from the first to the last. -/
theorem meets_inventory (compiled : compile sequence project = .ok program) :
    (sequence.inventory.map (·.id)).Nodup ∧
    (∃ components,
      sequence.inventory.mapM (fun component =>
        (Naming.ofProject? project).component? component.id) = some components ∧
      program.setup = components.flatMap Tag.Component.rest ∧
      program.tags.map (·.name) =
        ((components.flatMap Tag.Component.signals ++ sequence.runVariables).map
          (·.name)).eraseDups ∧
      ∀ declaration ∈ program.tags,
        (components.flatMap Tag.Component.signals ++ sequence.runVariables).find?
          (·.name == declaration.name) = some ⟨declaration.name, declaration.kind⟩) ∧
    (program.case? 0).map (·.body) = some program.setup ∧
    sequence.inventory.filterMap (·.id.timer?) = List.range' 1 sequence.delays.length ∧
    ((sequence.delays.zipIdx 1).mapM fun (delay, number) =>
      (Naming.ofProject? project).call? number delay) = some program.calls := by
  obtain ⟨⟨components, mapped, setup, tags⟩, calls, first⟩ :=
    exists_components_of_compile compiled
  refine ⟨?_, ⟨components, ?_, setup, ?_, ?_⟩, first, sequence.timers_inventory, calls⟩
  · rw [Sequence.map_id_inventory]
    exact nodup_eraseDups _
  · rw [← Sequence.map_id_inventory, List.mapM_map] at mapped
    exact mapped
  · rw [tags, Table.declarations, List.map_map, ← Table.names_declare]
    rfl
  · rw [tags]
    intro declaration among
    obtain ⟨entry, listed, rfl⟩ := List.mem_map.mp among
    exact Table.find?_of_mem_declare listed

/-- A single-acting cylinder on one coil, a timer whose done signal has the name of a sensor, and
a counter. -/
theorem meets_inventory_shared_name :
    ∃ sequence program, Sequence.parse "A+,TS,[A-,A+]^2" = .ok sequence ∧
      compile sequence (some ⟨"press",
        [.actuator ⟨"A", .singleActingSingleTag, "Y1", none, "B1", "B2"⟩,
          .timer ⟨"Timer_1", "K1", "B2", "E1"⟩, .counter ⟨"Counter_1", "C1"⟩]⟩) = .ok program ∧
      sequence.inventory.map (·.id) = [.actuator 'A', .timer 1, .counter 1] ∧
      program.setup = [.setBool "Y1" false, .setBool "K1" false, .setInt "C1" 0] ∧
      program.calls =
        [.callTimer "Timer_1_Instance" "K1" "B2" "E1" (.variable "T_VARIABLE" none)] ∧
      ∃ components : List Tag.Component,
        program.setup = components.flatMap Tag.Component.rest ∧
        program.tags.map (·.name) =
          ((components.flatMap Tag.Component.signals ++ sequence.runVariables).map
            (·.name)).eraseDups ∧
        program.tags.map (·.name) =
          ["Y1", "B1", "B2", "K1", "E1", "C1", "T_VARIABLE", "N_VARIABLE"] := by
  let project : Project := ⟨"press",
    [.actuator ⟨"A", .singleActingSingleTag, "Y1", none, "B1", "B2"⟩,
      .timer ⟨"Timer_1", "K1", "B2", "E1"⟩, .counter ⟨"Counter_1", "C1"⟩]⟩
  have compiles : ((Sequence.parse "A+,TS,[A-,A+]^2").toOption.any fun sequence =>
      sequence.inventory.map (·.id) == [.actuator 'A', .timer 1, .counter 1] &&
      (compile sequence (some project)).toOption.any fun program =>
        program.setup == [.setBool "Y1" false, .setBool "K1" false, .setInt "C1" 0] &&
        program.calls ==
          [.callTimer "Timer_1_Instance" "K1" "B2" "E1" (.variable "T_VARIABLE" none)] &&
        program.tags.map (·.name) ==
          ["Y1", "B1", "B2", "K1", "E1", "C1", "T_VARIABLE", "N_VARIABLE"]) = true := by
    decide +kernel
  obtain ⟨sequence, parsed, compiles⟩ := any_toOption_iff.mp compiles
  rw [Bool.and_eq_true, beq_iff_eq] at compiles
  obtain ⟨inventory, compiles⟩ := compiles
  obtain ⟨program, compiled, declares⟩ := any_toOption_iff.mp compiles
  simp only [Bool.and_eq_true, beq_iff_eq] at declares
  obtain ⟨⟨setup, calls⟩, names⟩ := declares
  obtain ⟨-, ⟨components, -, setupEq, namesEq, -⟩, -⟩ := meets_inventory compiled
  exact ⟨sequence, program, parsed, compiled, inventory, setup, calls, components, setupEq,
    namesEq, names⟩

end Program

end Pneumatic
