import Pneumatic.Proofs.Program.Needs
import Pneumatic.Proofs.Program.Turns

/-!
# Every signal of a program is declared

A statement, a guard or a transition uses signals, each as a bit, a word or a time.  Whatever a
program uses is a signal of a component that its sequence mentions, or a variable of the run
that the sequence depends on; so it is declared.
-/

namespace Pneumatic

open Tag (Naming Signal Table)

/-! ## Uses -/

/-- The signals that a preset reads. -/
def Preset.uses : Preset → List Signal
  | .fixed _ => []
  | .variable tag _ => [⟨tag, .int⟩]

/-- The signals of a statement, with the types it needs them to have. -/
def Instruction.uses : Instruction → List Signal
  | .setBool tag _ => [⟨tag, .bool⟩]
  | .setInt tag _ => [⟨tag, .int⟩]
  | .callTimer _ power done elapsed preset =>
      [⟨power, .bool⟩, ⟨done, .bool⟩, ⟨elapsed, .time⟩] ++ preset.uses

/-- The signals that a limit reads. -/
def Limit.uses : Limit → List Signal
  | .literal _ => []
  | .variable tag _ => [⟨tag, .int⟩]

/-- The signals of a transition. -/
def Transition.uses : Transition → List Signal
  | .jump _ => []
  | .loop _ => []
  | .count counter limit _ otherwise => ⟨counter, .int⟩ :: (limit.uses ++ otherwise.uses)

/-- The signals of a case. -/
def Case.uses (case : Case) : List Signal :=
  case.body.flatMap Instruction.uses ++ case.onExit.flatMap Instruction.uses ++
    case.waits.map (fun term => ⟨term, .bool⟩) ++ case.next.uses

/-- The signals of a program, wherever they occur. -/
def Program.uses (program : Program) : List Signal :=
  program.setup.flatMap Instruction.uses ++ program.cases.flatMap Case.uses ++
    program.calls.flatMap Instruction.uses

/-! ## Signals of a sequence -/

namespace Sequence

variable {sequence : Sequence} {naming : Naming}

theorem component_mem_mentions {parts : List Part} {part : Part} (among : parts ∈ sequence.parts)
    (inside : part ∈ parts) : part.component ∈ sequence.mentions := by
  obtain ⟨index, here⟩ := List.mem_iff_getElem?.mp among
  rw [mentions, List.mem_flatMap]
  refine ⟨(parts, index), List.mk_mem_zipIdx_iff_getElem?.mpr here, ?_⟩
  simp only [needs, List.mem_append]
  exact .inr (List.mem_map_of_mem inside)

theorem counter_mem_mentions {position number : Nat}
    (counter : sequence.counters[position]?.join = some number) :
    .counter number ∈ sequence.mentions := by
  have counted := Part.join_ofRegions 0 sequence.regions position
  rw [← counters, counter, Option.isSome_some, eq_comm, Option.any_eq_true] at counted
  obtain ⟨region, here, -⟩ := counted
  have inside : region.first < sequence.parts.length := by
    rw [length_parts]
    have bounds := bounds_of_mem_regions (List.mem_of_getElem? here)
    exact Nat.lt_of_le_of_lt bounds.1 bounds.2
  rw [mentions, List.mem_flatMap]
  refine ⟨(sequence.parts[region.first], region.first),
    List.mk_mem_zipIdx_iff_getElem?.mpr (List.getElem?_eq_getElem inside), ?_⟩
  simp only [needs, List.mem_append, List.mem_filterMap]
  exact .inl ⟨position, mem_regionsStartingAt.mpr ⟨region, here, rfl⟩, by rw [counter]; rfl⟩

theorem timer_mem_mentions {delay : Delay} {number : Nat}
    (among : (delay, number) ∈ sequence.delays.zipIdx 1) :
    .timer number ∈ sequence.mentions := by
  have inNumbers := List.mem_map_of_mem (f := Prod.snd) among
  rw [List.zipIdx_map_snd, ← timers_mentions, List.mem_filterMap] at inNumbers
  obtain ⟨id, mentioned, isTimer⟩ := inNumbers
  obtain rfl := ComponentId.timer?_eq_some_iff.mp isTimer
  exact mentioned

/-- A variable of the run that a sequence depends on, or a signal of a component it mentions. -/
def Signals (sequence : Sequence) (naming : Naming) (signal : Signal) : Prop :=
  signal ∈ sequence.runVariables ∨
    ∃ id ∈ sequence.mentions, ∃ component, naming.component? id = some component ∧
      signal ∈ component.signals

theorem Signals.of_actuator {label : Char} {tags : Tag.Actuator} {signal : Signal}
    (named : naming.actuator label = .ok tags) (mentioned : .actuator label ∈ sequence.mentions)
    (among : signal ∈ (Tag.Component.actuator tags).signals) : sequence.Signals naming signal :=
  .inr ⟨_, mentioned, _, Naming.component?_actuator named, among⟩

theorem Signals.of_timer {number : Nat} {tags : Tag.Timer} {signal : Signal}
    (named : naming.timer number = .ok tags) (mentioned : .timer number ∈ sequence.mentions)
    (among : signal ∈ (Tag.Component.timer tags).signals) : sequence.Signals naming signal :=
  .inr ⟨_, mentioned, _, Naming.component?_timer named, among⟩

theorem Signals.of_counter {number : Nat} {tag : String}
    (named : naming.counter number = .ok tag) (mentioned : .counter number ∈ sequence.mentions) :
    sequence.Signals naming ⟨tag, .int⟩ :=
  .inr ⟨_, mentioned, _, Naming.component?_counter named, List.mem_singleton_self _⟩

theorem Signals.of_preset {delay : Delay} (among : delay ∈ sequence.delays) :
    ∀ use ∈ (Program.Builder.preset delay).uses, sequence.Signals naming use := by
  intro use used
  cases delay with
  | fixed span => contradiction
  | relative offset =>
      obtain rfl := List.mem_singleton.mp used
      have depends : sequence.delays.any Delay.usesVariable = true :=
        List.any_eq_true.mpr ⟨_, among, rfl⟩
      refine .inl ?_
      simp [runVariables, depends]

theorem Signals.of_bound {region : Region} (among : region ∈ sequence.regions)
    (relative : region.bound.usesVariable = true) :
    sequence.Signals naming ⟨Tag.repeatVariable, .int⟩ := by
  have depends : (sequence.regions.any fun region => region.bound.usesVariable) = true :=
    List.any_eq_true.mpr ⟨_, among, relative⟩
  refine .inl ?_
  simp [runVariables, depends]

end Sequence

/-! ## What the builder emits -/

namespace Tag.Component

/-- Driving an actuator uses its coils. -/
theorem uses_command {tags : Tag.Actuator} (direction : Direction) :
    ∀ use ∈ (Program.Builder.assign (tags.command direction)).flatMap Instruction.uses,
      use ∈ (Component.actuator tags).signals := by
  intro use used
  cases retract : tags.retract <;> cases direction <;>
    simp only [Tag.Actuator.command, retract, Program.Builder.assign, Option.map_none,
      Option.map_some, Option.toList_none, Option.toList_some, List.map_cons, List.map_nil,
      List.cons_append, List.nil_append, List.flatMap_cons, List.flatMap_nil,
      Instruction.uses, List.mem_cons, List.not_mem_nil, or_false, signals] at used ⊢ <;>
    tauto

theorem uses_rest (component : Component) :
    ∀ use ∈ component.rest.flatMap Instruction.uses, use ∈ component.signals := by
  cases component with
  | actuator tags => exact uses_command .retract
  | timer tags => simp [rest, Instruction.uses, signals]
  | counter value => simp [rest, Instruction.uses, signals]

theorem uses_sensor {tags : Tag.Actuator} (direction : Direction) :
    ⟨tags.sensor direction, .bool⟩ ∈ (Component.actuator tags).signals := by
  cases direction <;> simp [Tag.Actuator.sensor, signals]

end Tag.Component

namespace Program.Builder

variable {naming : Naming} {sequence : Sequence} {builder builder' : Builder} {work work' : Work}

/-- A builder that knows actuators and counters by the names that the naming gives them. -/
structure Names (naming : Naming) (sequence : Sequence) (builder : Builder) : Prop where
  actuators : ∀ label tags, builder.actuators.lookup label = some tags →
    naming.actuator label = .ok tags
  counters : ∀ position tag, (position, tag) ∈ builder.counters →
    sequence.Signals naming ⟨tag, .int⟩

/-- The signals of what a step does. -/
def Work.uses (work : Work) : List Signal :=
  work.body.flatMap Instruction.uses ++ work.onExit.flatMap Instruction.uses ++
    work.done.terms.map fun term => ⟨term, .bool⟩

theorem names_empty : Names naming sequence empty :=
  ⟨nofun, nofun⟩

theorem Names.enterRegion {region : Nat} (names : Names naming sequence builder)
    (entered : enterRegion naming sequence.counters builder region = .ok builder') :
    Names naming sequence builder' := by
  rcases enterRegion_eq_ok entered with ⟨-, rfl⟩ | ⟨number, tag, counter, named, rfl⟩
  · exact names
  · refine ⟨names.actuators, ?_⟩
    intro position other known
    rcases List.mem_append.mp known with before | now
    · exact names.counters position other before
    · obtain ⟨-, rfl⟩ := Prod.mk.inj (List.mem_singleton.mp now)
      exact .of_counter named (Sequence.counter_mem_mentions counter)

theorem Names.actuator {label : Char} {tags : Tag.Actuator} (names : Names naming sequence builder)
    (mentioned : builder.actuator naming label = .ok (tags, builder')) :
    naming.actuator label = .ok tags ∧ Names naming sequence builder' := by
  rcases actuator_eq_ok mentioned with ⟨known, rfl⟩ | ⟨-, named, rfl⟩
  · exact ⟨names.actuators label tags known, names⟩
  · refine ⟨named, ?_, names.counters⟩
    intro other found known
    rcases of_lookup_append_singleton known with before | ⟨rfl, rfl⟩
    · exact names.actuators other found before
    · exact named

theorem Names.addPart {part : Part} (names : Names naming sequence builder)
    (uses : ∀ use ∈ work.uses, sequence.Signals naming use) (runs : part.Runs)
    (mentioned : part.component ∈ sequence.mentions)
    (added : addPart naming (builder, work) part = .ok (builder', work')) :
    Names naming sequence builder' ∧ ∀ use ∈ work'.uses, sequence.Signals naming use := by
  rcases addPart_eq_ok added with ⟨actuation, tags, token, mentions, rfl⟩ |
    ⟨delay, number, tags, token, component, mentions, rfl⟩ | ⟨rests, -⟩
  · have own : part.component = .actuator actuation.label := by
      cases runs with
      | timer delay number => contradiction
      | actuation other => rw [Token.actuation.inj token]
    obtain ⟨named, names'⟩ := names.actuator mentions
    refine ⟨names', ?_⟩
    rw [own] at mentioned
    intro use used
    simp only [Work.uses, List.flatMap_append, List.mem_append, List.mem_map] at used uses
    rcases used with ((before | now) | before) | ⟨term, waits, rfl⟩
    · exact uses use (.inl (.inl before))
    · exact .of_actuator named mentioned (Tag.Component.uses_command _ use now)
    · exact uses use (.inl (.inr before))
    · rcases Condition.mem_and.mp waits with before | rfl
      · exact uses _ (.inr ⟨term, before, rfl⟩)
      · exact .of_actuator named mentioned (Tag.Component.uses_sensor _)
  · obtain ⟨named, rfl⟩ := timer_eq_ok mentions
    refine ⟨⟨names.actuators, names.counters⟩, ?_⟩
    rw [component] at mentioned
    intro use used
    simp only [Work.uses, List.flatMap_append, List.mem_append, List.mem_map] at used uses
    rcases used with ((before | now) | (before | now)) | ⟨term, waits, rfl⟩
    · exact uses use (.inl (.inl before))
    · obtain rfl := List.mem_singleton.mp now
      exact .of_timer named mentioned (by simp [Tag.Component.signals])
    · exact uses use (.inl (.inr before))
    · obtain rfl := List.mem_singleton.mp now
      exact .of_timer named mentioned (by simp [Tag.Component.signals])
    · rcases Condition.mem_and.mp waits with before | rfl
      · exact uses _ (.inr ⟨term, before, rfl⟩)
      · exact .of_timer named mentioned (by simp [Tag.Component.signals])
  · contradiction

/-- A transition through regions uses their counters, and the repeat variable if one of them
depends on it. -/
theorem uses_leaveRegions {counters : List (Nat × String)} {regions : List Region} {target : Nat}
    {positions : List Nat} {use : Signal}
    (used : use ∈ (leaveRegions counters regions (.jump target) positions).uses) :
    (∃ position tag, (position, tag) ∈ counters ∧ use = ⟨tag, .int⟩) ∨
      ∃ region ∈ regions, region.bound.usesVariable = true ∧
        use = ⟨Tag.repeatVariable, .int⟩ := by
  induction positions with
  | nil => contradiction
  | cons position rest ih =>
      simp only [leaveRegions] at used
      split at used
      · exact ih used
      · next region here =>
          have known {tag : String} (found : counters.lookup position = some tag) :
              (position, tag) ∈ counters := by
            obtain ⟨before, behind, splits, -⟩ := List.lookup_eq_some_iff.mp found
            simp [splits]
          split at used
          · contradiction
          · next limit counter bound found =>
              rcases List.mem_cons.mp used with rfl | later
              · exact .inl ⟨position, counter, known found, rfl⟩
              · exact ih later
          · next offset counter bound found =>
              rcases List.mem_cons.mp used with rfl | later
              · exact .inl ⟨position, counter, known found, rfl⟩
              · rcases List.mem_cons.mp later with rfl | behind
                · exact .inr ⟨region, List.mem_of_getElem? here, by rw [bound]; rfl, rfl⟩
                · exact ih behind
          · exact ih used

theorem uses_of_done (number : Nat) (work : Work) (next : Transition) :
    (Case.mk number (if work.done.terms.isEmpty then none else some work.done) work.body
      work.onExit next).uses = work.uses ++ next.uses := by
  rw [Case.uses, waits_of_done, Work.uses]

theorem Names.addStep {cases cases' : List Case} {parts : List Part} {index : Nat}
    (names : Names naming sequence builder)
    (uses : ∀ case ∈ cases, ∀ use ∈ case.uses, sequence.Signals naming use)
    (among : parts ∈ sequence.parts) (runs : ∀ part ∈ parts, part.Runs)
    (added : addStep naming sequence (builder, cases) (parts, index) = .ok (builder', cases')) :
    Names naming sequence builder' ∧
      ∀ case ∈ cases', ∀ use ∈ case.uses, sequence.Signals naming use := by
  obtain ⟨entered, work, enters, works, rfl⟩ := addStep_eq_ok added
  have namesEntered : Names naming sequence entered :=
    foldlM_keeps (Names naming sequence) (fun _ _ _ _ names enters => names.enterRegion enters)
      enters names
  have kept : Names naming sequence builder' ∧ ∀ use ∈ work.uses, sequence.Signals naming use :=
    foldlM_keeps
      (fun state => Names naming sequence state.1 ∧
        ∀ use ∈ state.2.uses, sequence.Signals naming use)
      (fun _ part inside _ holds adds => holds.1.addPart holds.2 (runs part inside)
        (Sequence.component_mem_mentions among inside) adds)
      works ⟨namesEntered, nofun⟩
  refine ⟨kept.1, ?_⟩
  rw [List.forall_mem_append, List.forall_mem_singleton]
  refine ⟨uses, ?_⟩
  intro use used
  rw [uses_of_done, List.mem_append] at used
  rcases used with worked | follows
  · exact kept.2 use worked
  · rcases uses_leaveRegions follows with ⟨position, tag, known, rfl⟩ |
      ⟨region, inside, relative, rfl⟩
    · exact kept.1.counters position tag known
    · exact .of_bound inside relative

theorem uses_waitForWrap {cases : List Case}
    (uses : ∀ case ∈ cases, ∀ use ∈ case.uses, sequence.Signals naming use) :
    ∀ case ∈ waitForWrap cases, ∀ use ∈ case.uses, sequence.Signals naming use := by
  cases cases with
  | nil => exact uses
  | cons first rest =>
      obtain ⟨last, ends⟩ : ∃ last, (first :: rest).getLast? = some last :=
        ⟨_, List.getLast?_eq_some_getLast (List.cons_ne_nil first rest)⟩
      obtain ⟨first', turnedEq, -, body, exit, next, waits⟩ := waitForWrap_cons first rest ends
      have usesLast := uses last (List.mem_of_getLast? ends)
      rw [List.forall_mem_cons] at uses
      rw [turnedEq, List.forall_mem_cons]
      refine ⟨?_, uses.2⟩
      intro use used
      simp only [Case.uses, body, exit, next, List.mem_append, List.mem_map] at used uses usesLast
      rcases used with (work | ⟨term, waiting, rfl⟩) | follows
      · exact uses.1 use (.inl (.inl work))
      · rcases (waits term).mp waiting with own | ofLast
        · exact uses.1 _ (.inl (.inr ⟨term, own, rfl⟩))
        · exact usesLast _ (.inl (.inr ⟨term, ofLast, rfl⟩))
      · exact uses.1 use (.inr follows)

end Program.Builder

/-! ## What is used is declared -/

namespace Program

variable {naming : Naming} {sequence : Sequence} {project : Option Project} {program : Program}

theorem uses_setup {components : List Tag.Component}
    (named : sequence.mentions.eraseDups.mapM naming.component? = some components) :
    ∀ use ∈ (components.flatMap Tag.Component.rest).flatMap Instruction.uses,
      sequence.Signals naming use := by
  intro use used
  rw [List.flatMap_assoc, List.mem_flatMap] at used
  obtain ⟨component, among, used⟩ := used
  obtain ⟨id, mentioned, idEq⟩ := exists_of_mem_mapM named among
  exact .inr ⟨id, List.mem_eraseDups.mp mentioned, component, idEq, component.uses_rest use used⟩

theorem uses_calls {calls : List Instruction}
    (called : ((sequence.delays.zipIdx 1).mapM fun (delay, number) => naming.call? number delay) =
      some calls) :
    ∀ use ∈ calls.flatMap Instruction.uses, sequence.Signals naming use := by
  intro use used
  obtain ⟨call, among, used⟩ := List.mem_flatMap.mp used
  obtain ⟨⟨delay, number⟩, numbered, callEq⟩ := exists_of_mem_mapM called among
  obtain ⟨tags, named, rfl⟩ := Option.map_eq_some_iff.mp callEq
  rcases List.mem_append.mp used with own | reads
  · refine .of_timer ?_ (Sequence.timer_mem_mentions numbered) own
    cases result : naming.timer number with
    | error error => simp [result, Except.toOption] at named
    | ok found => simpa [result, Except.toOption] using named
  · exact .of_preset (List.fst_mem_of_mem_zipIdx numbered) use reads

theorem uses_cases_of_build (runs : ∀ parts ∈ sequence.parts, ∀ part ∈ parts, part.Runs)
    (built : build naming sequence = .ok program) :
    ∃ cases, program.cases = ⟨0, none, program.setup, [], .jump 10⟩ :: cases ∧
      ∀ case ∈ cases, ∀ use ∈ case.uses, sequence.Signals naming use := by
  obtain ⟨⟨builder, cases⟩, folded, built⟩ := exists_of_bind_eq_ok built
  obtain rfl := Except.ok.inj built
  obtain ⟨-, uses⟩ : Builder.Names naming sequence builder ∧
      ∀ case ∈ cases, ∀ use ∈ case.uses, sequence.Signals naming use :=
    foldlM_keeps
      (fun state => Builder.Names naming sequence state.1 ∧
        ∀ case ∈ state.2, ∀ use ∈ case.uses, sequence.Signals naming use)
      (fun _ _ among _ holds adds =>
        have inside := Sequence.mem_parts_of_mem_zipIdx among
        holds.1.addStep holds.2 inside (runs _ inside) adds)
      folded ⟨Builder.names_empty, nofun⟩
  refine ⟨_, rfl, ?_⟩
  split
  · exact Builder.uses_waitForWrap uses
  · exact uses

/-- Whatever a program uses is a signal of its sequence. -/
theorem uses_of_build (runs : ∀ parts ∈ sequence.parts, ∀ part ∈ parts, part.Runs)
    (built : build naming sequence = .ok program) :
    ∀ use ∈ program.uses, sequence.Signals naming use := by
  obtain ⟨⟨components, named, setup, -⟩, called, -⟩ := exists_components_of_build runs built
  obtain ⟨cases, casesEq, uses⟩ := uses_cases_of_build runs built
  have usesSetup := uses_setup named
  rw [← setup] at usesSetup
  intro use used
  rw [Program.uses, casesEq, List.flatMap_cons, List.mem_append, List.mem_append,
    List.mem_append] at used
  rcases used with (ofSetup | ofFirst | ofCase) | ofCall
  · exact usesSetup use ofSetup
  · exact usesSetup use (by simpa [Case.uses, Case.waits, Transition.uses] using ofFirst)
  · obtain ⟨case, among, used⟩ := List.mem_flatMap.mp ofCase
    exact uses case among use used
  · exact uses_calls called use ofCall

theorem uses_of_compile (compiled : compile sequence project = .ok program) :
    ∀ use ∈ program.uses, sequence.Signals (.ofProject? project) use :=
  have ⟨runs, built⟩ := build_of_compile compiled
  uses_of_build runs built

/-- The signals that a program declares: those of the components that its sequence mentions, and
the variables of the run. -/
theorem exists_signals_of_compile (compiled : compile sequence project = .ok program) :
    ∃ signals, program.tags = (Table.empty.declare signals).declarations ∧
      ∀ signal, signal ∈ signals ↔ sequence.Signals (.ofProject? project) signal := by
  obtain ⟨⟨components, named, -, tags⟩, -⟩ := exists_components_of_compile compiled
  refine ⟨_, tags, ?_⟩
  intro signal
  rw [List.mem_append, List.mem_flatMap, or_comm, Sequence.Signals]
  refine or_congr Iff.rfl ?_
  constructor
  · rintro ⟨component, among, inside⟩
    obtain ⟨id, mentioned, idEq⟩ := exists_of_mem_mapM named among
    exact ⟨id, List.mem_eraseDups.mp mentioned, component, idEq, inside⟩
  · rintro ⟨id, mentioned, component, idEq, inside⟩
    exact ⟨component, mem_of_mapM named (List.mem_eraseDups.mpr mentioned) idEq, inside⟩

end Program

/-! ### Automatic names -/

/-- The roles of the signals that a component has. -/
def ComponentId.roles (id : ComponentId) : List Tag.Role :=
  Tag.Role.all.filter (·.appliesTo id)

theorem ComponentId.appliesTo_of_mem_roles {id : ComponentId} {role : Tag.Role}
    (among : role ∈ id.roles) : role.appliesTo id = true :=
  (List.mem_filter.mp among).2

/-- The signal of a component in a role, with its automatic name. -/
def Tag.Role.signal (id : ComponentId) (role : Tag.Role) : Signal :=
  ⟨role.autoName id, role.kind⟩

/-- The signals of a component have the names and the types that their roles give them. -/
theorem Tag.Naming.signals_of_component? {id : ComponentId} {component : Tag.Component}
    (named : Naming.automatic.component? id = some component) :
    component.signals = id.roles.map (Tag.Role.signal id) := by
  cases id with
  | pressure number => contradiction
  | actuator label | timer number | counter number =>
      obtain rfl := Option.some.inj named
      rfl

theorem Tag.Naming.exists_role_of_component? {id : ComponentId} {component : Tag.Component}
    (named : Naming.automatic.component? id = some component) :
    ∀ signal ∈ component.signals, ∃ role : Tag.Role, role.appliesTo id = true ∧
      role.signal id = signal := by
  intro signal inside
  rw [signals_of_component? named, List.mem_map] at inside
  obtain ⟨role, among, signalEq⟩ := inside
  exact ⟨role, ComponentId.appliesTo_of_mem_roles among, signalEq⟩

namespace Sequence

variable {sequence : Sequence} {signal signal' : Signal}

theorem eq_of_mem_runVariables (among : signal ∈ sequence.runVariables) :
    signal = ⟨Tag.timerVariable, .int⟩ ∨ signal = ⟨Tag.repeatVariable, .int⟩ := by
  unfold runVariables at among
  split at among
  · simpa using among
  · contradiction

/-- The signal of a component has not the name of a variable of the run. -/
theorem name_ne_of_runVariables {role : Tag.Role} {id : ComponentId}
    (applies : role.appliesTo id = true) (among : signal ∈ sequence.runVariables) :
    role.autoName id ≠ signal.name := by
  rcases eq_of_mem_runVariables among with rfl | rfl
  · exact Tag.Role.autoName_ne_timerVariable applies
  · exact Tag.Role.autoName_ne_repeatVariable applies

/-- No two signals of a sequence share an automatic name. -/
theorem Signals.eq_of_name (here : sequence.Signals .automatic signal)
    (there : sequence.Signals .automatic signal') (same : signal.name = signal'.name) :
    signal = signal' := by
  rcases here with ofRun | ⟨id, -, component, named, inside⟩ <;>
    rcases there with ofRun' | ⟨id', -, component', named', inside'⟩
  · rcases eq_of_mem_runVariables ofRun with rfl | rfl <;>
      rcases eq_of_mem_runVariables ofRun' with rfl | rfl <;>
      first | rfl | simp [Tag.timerVariable, Tag.repeatVariable] at same
  · obtain ⟨role, applies, rfl⟩ := Naming.exists_role_of_component? named' signal' inside'
    exact absurd same.symm (name_ne_of_runVariables applies ofRun)
  · obtain ⟨role, applies, rfl⟩ := Naming.exists_role_of_component? named signal inside
    exact absurd same (name_ne_of_runVariables applies ofRun')
  · obtain ⟨role, applies, rfl⟩ := Naming.exists_role_of_component? named signal inside
    obtain ⟨role', applies', rfl⟩ := Naming.exists_role_of_component? named' signal' inside'
    obtain ⟨rfl, rfl⟩ := Tag.Role.autoName_injective applies applies' same
    rfl

end Sequence

/-! ### The whole program -/

namespace Program

variable {sequence : Sequence} {project : Option Project} {program : Program}

/-- A program declares every signal that it uses, and no name twice.  Automatic names belong to
one signal of one component each, and a signal is declared with the type it is used with. -/
theorem declares_uses (compiled : compile sequence project = .ok program) :
    (∀ use ∈ program.uses, (program.tag? use.name).isSome = true) ∧
    (program.tags.map (·.name)).Nodup ∧
    (project = none →
      (∀ (role role' : Tag.Role) (id id' : ComponentId), role.appliesTo id = true →
        role'.appliesTo id' = true → role.autoName id = role'.autoName id' →
          role = role' ∧ id = id') ∧
      ∀ use ∈ program.uses, ∃ declaration, program.tag? use.name = some declaration ∧
        declaration.kind = use.kind) := by
  obtain ⟨signals, tags, isSignal⟩ := exists_signals_of_compile compiled
  have uses := uses_of_compile compiled
  have names : program.tags.map (·.name) = (signals.map (·.name)).eraseDups := by
    rw [tags, Table.declarations, List.map_map, ← Table.names_declare]
    rfl
  have found : ∀ use ∈ program.uses, (program.tag? use.name).isSome = true := by
    intro use used
    have listed : use.name ∈ program.tags.map (·.name) := by
      rw [names, List.mem_eraseDups]
      exact List.mem_map_of_mem ((isSignal use).mpr (uses use used))
    obtain ⟨declaration, among, nameEq⟩ := List.mem_map.mp listed
    rw [tag?, List.find?_isSome]
    exact ⟨declaration, among, beq_iff_eq.mpr nameEq⟩
  refine ⟨found, names ▸ nodup_eraseDups _, ?_⟩
  rintro rfl
  refine ⟨fun _ _ _ _ => Tag.Role.autoName_injective, ?_⟩
  intro use used
  obtain ⟨declaration, declared⟩ := Option.isSome_iff_exists.mp (found use used)
  have among := List.mem_of_find?_eq_some declared
  have nameEq : declaration.name = use.name := by
    have matched := List.find?_some declared
    exact beq_iff_eq.mp matched
  rw [tags] at among
  obtain ⟨entry, listed, rfl⟩ := List.mem_map.mp among
  have first := List.mem_of_find?_eq_some (Table.find?_of_mem_declare listed)
  have same := ((isSignal _).mp first).eq_of_name (uses use used) nameEq
  exact ⟨_, declared, congrArg Signal.kind same⟩

/-- A timer and a region that depend on the variables of the run. -/
theorem declares_uses_variables :
    ∃ sequence program, Sequence.parse "A+,[(A-,TS),A+]^N" = .ok sequence ∧
      compile sequence none = .ok program ∧
      (∀ signal ∈ [(⟨"N_VARIABLE", .int⟩ : Signal), ⟨"T_VARIABLE", .int⟩, ⟨"Counter_1", .int⟩,
        ⟨"Timer_1_Elapsed", .time⟩, ⟨"Cylinder_A_Retract", .bool⟩], signal ∈ program.uses) ∧
      ∀ use ∈ program.uses, ∃ declaration, program.tag? use.name = some declaration ∧
        declaration.kind = use.kind := by
  have compiles : ((Sequence.parse "A+,[(A-,TS),A+]^N").toOption.any fun sequence =>
      (compile sequence none).toOption.any fun program =>
        [(⟨"N_VARIABLE", .int⟩ : Signal), ⟨"T_VARIABLE", .int⟩, ⟨"Counter_1", .int⟩,
          ⟨"Timer_1_Elapsed", .time⟩, ⟨"Cylinder_A_Retract", .bool⟩].all fun signal =>
            decide (signal ∈ program.uses)) = true := by decide +kernel
  obtain ⟨sequence, parsed, compiles⟩ := any_toOption_iff.mp compiles
  obtain ⟨program, compiled, used⟩ := any_toOption_iff.mp compiles
  simp only [List.all_eq_true, decide_eq_true_eq] at used
  exact ⟨sequence, program, parsed, compiled, used, ((declares_uses compiled).2.2 rfl).2⟩

end Program

end Pneumatic
