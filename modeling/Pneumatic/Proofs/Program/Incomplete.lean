import Pneumatic.Proofs.Program.Uses

/-!
# Incomplete projects

A project configures a component when it has an entry for it, with a coil for retraction if the
wiring asks for one.  That is not yet a name for every signal, since an empty name counts as none.
Building a program fails for a name exactly if a component of the sequence lacks one, so behind a
project from which nothing is missing it fails exactly for an empty name.
-/

namespace Pneumatic

open Tag (Naming)

/-! ## The names that a project gives to a component -/

namespace Project

/-- The names of an actuator that its wiring has a use for. -/
def Actuator.names (entry : Actuator) : List String :=
  entry.extension ::
    ((if entry.wiring = .singleActingSingleTag then [] else entry.retraction.toList) ++
      [entry.extended, entry.retracted])

/-- The names of a timer. -/
def Timer.names (entry : Timer) : List String :=
  [entry.power, entry.completed, entry.elapsed]

/-- The names that a project gives to the signals of a component. -/
def names (project : Project) (component : ComponentId) : List String :=
  match component with
  | .actuator _ => ((project.actuator? component.label).map Actuator.names).getD []
  | .timer _ => ((project.timer? component.label).map Timer.names).getD []
  | .counter _ => (project.counter? component.label).toList.map (·.value)
  | .pressure _ => []

end Project

namespace Tag.Naming

variable {project : Project} {role : Role} {component : ComponentId} {label : Char} {number : Nat}

/-- A signal has a name if the entry of its component gives one that is not empty. -/
theorem exists_resolve_iff {Entry : Type} (found : Option Entry) (name : Entry → String)
    (applies : role.appliesTo component = true)
    (gives : given? project component.label role = some (found.map name)) :
    (∃ tag, (Naming.configured project).resolve role component = .ok tag) ↔
      ∃ entry, found = some entry ∧ "" ≠ name entry := by
  simp only [resolve, applies, gives, Bool.not_true, Bool.false_eq_true, if_false]
  cases found with
  | none => simp
  | some entry =>
      by_cases empty : "" = name entry
      · simp [← empty]
      · simp [Ne.symm empty]

/-- The coil for retraction, if the wiring of an actuator has a use for one. -/
def retraction (naming : Naming) (label : Char) : Except NamingError (Option String) :=
  match naming.resolve .actuatorRetract (.actuator label) with
  | .ok name => .ok (some name)
  | .error (.inapplicable _ _) => .ok none
  | .error error => .error error

theorem actuator_eq (naming : Naming) (label : Char) :
    naming.actuator label = naming.retraction label >>= fun retract => do
      let extend ← naming.resolve .actuatorExtend (.actuator label)
      let extended ← naming.resolve .sensorExtended (.actuator label)
      let retracted ← naming.resolve .sensorRetracted (.actuator label)
      return { extend, retract, extended, retracted } := by
  simp only [actuator, retraction]
  cases naming.resolve .actuatorRetract (.actuator label) with
  | ok name => rfl
  | error error => cases error <;> rfl

/-- The coil for retraction is named, or the wiring has no use for it. -/
theorem exists_retraction_iff :
    (∃ retract, (Naming.configured project).retraction label = .ok retract) ↔
      ∃ entry, project.actuator? (ComponentId.actuator label).label = some entry ∧
        entry.isWired = true ∧
        "" ∉ if entry.wiring = .singleActingSingleTag then [] else entry.retraction.toList := by
  have applies : Role.actuatorRetract.appliesTo (.actuator label) = true := rfl
  simp only [retraction, resolve, applies, Bool.not_true, Bool.false_eq_true, if_false, given?]
  cases project.actuator? (ComponentId.actuator label).label with
  | none => simp
  | some entry =>
      by_cases single : entry.wiring = .singleActingSingleTag
      · simp [single, Project.Actuator.isWired]
      · cases coil : entry.retraction with
        | none => simp [single, coil, Project.Actuator.isWired]
        | some name =>
            rcases eq_or_ne "" name with rfl | given
            · simp [single, coil]
            · simp [single, coil, given.symm, Project.Actuator.isWired]

theorem exists_actuator_iff :
    (∃ tags, (Naming.configured project).actuator label = .ok tags) ↔
      ∃ entry, project.actuator? (ComponentId.actuator label).label = some entry ∧
        entry.isWired = true ∧ "" ∉ entry.names := by
  rw [actuator_eq, exists_bind_iff fun _ => exists_bind_iff fun _ => exists_bind_iff fun _ =>
    exists_bind_iff fun _ => iff_true_intro ⟨_, rfl⟩]
  rw [exists_retraction_iff, exists_resolve_iff _ Project.Actuator.extension rfl rfl,
    exists_resolve_iff _ Project.Actuator.extended rfl rfl,
    exists_resolve_iff _ Project.Actuator.retracted rfl rfl]
  cases project.actuator? (ComponentId.actuator label).label with
  | none => simp
  | some entry =>
      simp only [Option.some.injEq, exists_eq_left', Project.Actuator.names, List.mem_cons,
        List.mem_append, List.not_mem_nil, not_or, or_false, and_true, ne_eq]
      tauto

theorem exists_timer_iff :
    (∃ tags, (Naming.configured project).timer number = .ok tags) ↔
      ∃ entry, project.timer? (ComponentId.timer number).label = some entry ∧
        "" ∉ entry.names := by
  rw [timer, exists_bind_iff fun _ => exists_bind_iff fun _ => exists_bind_iff fun _ =>
    iff_true_intro ⟨_, rfl⟩]
  rw [exists_resolve_iff _ Project.Timer.power rfl rfl,
    exists_resolve_iff _ Project.Timer.completed rfl rfl,
    exists_resolve_iff _ Project.Timer.elapsed rfl rfl]
  cases project.timer? (ComponentId.timer number).label with
  | none => simp
  | some entry => simp [Project.Timer.names]

theorem exists_counter_iff :
    (∃ tag, (Naming.configured project).counter number = .ok tag) ↔
      ∃ entry, project.counter? (ComponentId.counter number).label = some entry ∧
        "" ≠ entry.value :=
  exists_resolve_iff _ Project.Counter.value rfl rfl

/-- A project names every signal of the components that it configures without an empty name. -/
theorem isSome_component?_iff {id : ComponentId} :
    ((Naming.configured project).component? id).isSome = true ↔
      project.binds id = true ∧ "" ∉ project.names id := by
  cases id with
  | actuator label =>
      rw [component?, isSome_map_toOption, exists_actuator_iff, Project.binds, Project.names]
      cases project.actuator? (ComponentId.actuator label).label <;> simp
  | timer number =>
      rw [component?, isSome_map_toOption, exists_timer_iff, Project.binds, Project.names]
      cases project.timer? (ComponentId.timer number).label <;> simp
  | counter number =>
      rw [component?, isSome_map_toOption, exists_counter_iff, Project.binds, Project.names]
      cases project.counter? (ComponentId.counter number).label <;> simp
  | pressure number => simp [component?, Project.binds]

end Tag.Naming

/-! ## When the builder fails -/

namespace Program

variable {naming : Naming} {sequence : Sequence}

namespace Builder

variable {builder : Builder} {work : Work}

theorem exists_enterRegion {counters : List (Option Nat)} {region : Nat}
    (named : ∀ number, counters[region]?.join = some number →
      (naming.component? (.counter number)).isSome = true) :
    ∃ builder', enterRegion naming counters builder region = .ok builder' := by
  unfold enterRegion
  cases counter : counters[region]?.join with
  | none => exact ⟨builder, rfl⟩
  | some number =>
      obtain ⟨tag, tagEq⟩ := isSome_map_toOption.mp (named number counter)
      simp only [tagEq]
      exact ⟨_, rfl⟩

theorem exists_addPart {part : Part} (runs : part.Runs)
    (named : (naming.component? part.component).isSome = true) :
    ∃ state, addPart naming (builder, work) part = .ok state := by
  cases runs with
  | actuation actuation =>
      obtain ⟨tags, tagsEq⟩ := isSome_map_toOption.mp named
      cases known : builder.actuators.lookup actuation.label with
      | none =>
          simp only [addPart, Builder.actuator, known, tagsEq]
          exact ⟨_, rfl⟩
      | some tags =>
          simp only [addPart, Builder.actuator, known]
          exact ⟨_, rfl⟩
  | timer delay number =>
      obtain ⟨tags, tagsEq⟩ := isSome_map_toOption.mp named
      simp only [addPart, Builder.timer, tagsEq]
      exact ⟨_, rfl⟩

/-- A part that runs fails for a name only. -/
theorem of_addPart_eq_error {part : Part} (runs : part.Runs) {error : CompileError}
    (fails : addPart naming (builder, work) part = .error error) :
    ∃ own, error = .naming own := by
  cases runs with
  | actuation actuation =>
      rcases of_bind_eq_error fails with now | ⟨_, -, later⟩
      · obtain ⟨own, -, rfl⟩ := of_mapError_eq_error now
        exact ⟨own, rfl⟩
      · contradiction
  | timer delay number =>
      rcases of_bind_eq_error fails with now | ⟨_, -, later⟩
      · obtain ⟨own, -, rfl⟩ := of_mapError_eq_error now
        exact ⟨own, rfl⟩
      · contradiction

theorem exists_addStep {cases : List Case} {parts : List Part} {index : Nat}
    (among : parts ∈ sequence.parts) (runs : ∀ part ∈ parts, part.Runs)
    (named : ∀ id ∈ sequence.mentions, (naming.component? id).isSome = true) :
    ∃ state, addStep naming sequence (builder, cases) (parts, index) = .ok state := by
  obtain ⟨entered, enters⟩ : ∃ entered, (Sequence.regionsStartingAt sequence.regions index).foldlM
      (enterRegion naming sequence.counters) builder = .ok entered :=
    exists_foldlM_eq_ok (fun _ _ _ => exists_enterRegion fun _ counter =>
      named _ (Sequence.counter_mem_mentions counter)) builder
  obtain ⟨worked, works⟩ : ∃ worked, parts.foldlM (addPart naming)
      (entered, ⟨[], [], .always⟩) = .ok worked :=
    exists_foldlM_eq_ok (fun part inside _ => exists_addPart (runs part inside)
      (named _ (Sequence.component_mem_mentions among inside))) _
  simp only [addStep, enters]
  change ∃ state, (parts.foldlM (addPart naming) (entered, ⟨[], [], .always⟩)).bind _ = .ok state
  rw [works]
  exact ⟨_, rfl⟩

theorem of_addStep_eq_error {cases : List Case} {parts : List Part} {index : Nat}
    (runs : ∀ part ∈ parts, part.Runs) {error : CompileError}
    (fails : addStep naming sequence (builder, cases) (parts, index) = .error error) :
    ∃ own, error = .naming own := by
  unfold addStep at fails
  rcases of_bind_eq_error fails with enters | ⟨entered, -, fails⟩
  · obtain ⟨own, -, rfl⟩ := of_mapError_eq_error enters
    exact ⟨own, rfl⟩
  · rcases of_bind_eq_error fails with works | ⟨_, -, later⟩
    · obtain ⟨part, inside, ⟨_, _⟩, failed⟩ := of_foldlM_eq_error works
      exact of_addPart_eq_error (runs part inside) failed
    · contradiction

end Builder

/-- A sequence without a pressure is built once every component it mentions is named. -/
theorem exists_build_iff (runs : ∀ parts ∈ sequence.parts, ∀ part ∈ parts, part.Runs) :
    (∃ program, build naming sequence = .ok program) ↔
      ∀ id ∈ sequence.mentions, (naming.component? id).isSome = true := by
  constructor
  · rintro ⟨program, built⟩ id mentioned
    obtain ⟨⟨components, mapped, -⟩, -⟩ := exists_components_of_build runs built
    obtain ⟨component, -, named⟩ :=
      exists_mem_of_mapM mapped (List.mem_eraseDups.mpr mentioned)
    rw [named]
    rfl
  · intro named
    obtain ⟨built, folded⟩ : ∃ built, sequence.parts.zipIdx.foldlM
        (Builder.addStep naming sequence) (.empty, []) = .ok built :=
      exists_foldlM_eq_ok (fun (parts, _) inside _ =>
        have among := Sequence.mem_parts_of_mem_zipIdx inside
        Builder.exists_addStep among (runs parts among) named) _
    rw [build, folded]
    exact ⟨_, rfl⟩

/-- Building a sequence without a pressure fails for a name only. -/
theorem of_build_eq_error (runs : ∀ parts ∈ sequence.parts, ∀ part ∈ parts, part.Runs)
    {error : CompileError} (fails : build naming sequence = .error error) :
    ∃ own, error = .naming own := by
  rcases of_bind_eq_error fails with folded | ⟨_, -, later⟩
  · obtain ⟨⟨parts, index⟩, inside, ⟨_, _⟩, failed⟩ := of_foldlM_eq_error folded
    exact Builder.of_addStep_eq_error (runs parts (Sequence.mem_parts_of_mem_zipIdx inside)) failed
  · contradiction

end Program

/-! ## Compiling behind a project -/

section

variable {sequence : Sequence} {project : Project}

theorem Sequence.kind_of_mem_mentions
    (runs : ∀ parts ∈ sequence.parts, ∀ part ∈ parts, part.Runs) {id : ComponentId}
    (mentioned : id ∈ sequence.mentions) : id.kind ≠ .pressure := by
  obtain ⟨⟨parts, index⟩, among, needed⟩ := List.mem_flatMap.mp mentioned
  rcases List.mem_append.mp needed with counts | works
  · obtain ⟨position, -, counter⟩ := List.mem_filterMap.mp counts
    obtain ⟨number, -, rfl⟩ := Option.map_eq_some_iff.mp counter
    nofun
  · obtain ⟨part, inside, rfl⟩ := List.mem_map.mp works
    cases runs parts (Sequence.mem_parts_of_mem_zipIdx among) part inside <;> nofun

theorem Sequence.mem_mentions_iff {id : ComponentId} :
    id ∈ sequence.mentions ↔ ∃ component ∈ sequence.inventory, component.id = id := by
  rw [← List.mem_map, Sequence.map_id_inventory, List.mem_eraseDups]

/-- Nothing is missing from a project that configures all that a sequence mentions. -/
theorem Project.missing_inventory_eq_nil_iff
    (runs : ∀ parts ∈ sequence.parts, ∀ part ∈ parts, part.Runs) :
    project.missing sequence.inventory = [] ↔
      ∀ id ∈ sequence.mentions, project.binds id = true := by
  rw [missing, List.map_eq_nil_iff, List.filter_eq_nil_iff]
  constructor
  · intro bound id mentioned
    obtain ⟨component, among, rfl⟩ := Sequence.mem_mentions_iff.mp mentioned
    simpa [Sequence.kind_of_mem_mentions runs mentioned] using bound component among
  · intro bound component among
    simp [bound _ (Sequence.mem_mentions_iff.mpr ⟨component, among, rfl⟩)]

/-- Compiling without a refusal, behind a project from which nothing is missing. -/
theorem Program.compile_eq_build (noPressure : sequence.firstPressure? = none)
    (noRetraction : sequence.openingRetraction? = none)
    (complete : project.missing sequence.inventory = []) :
    compile sequence (some project) = build (.configured project) sequence := by
  simp only [compile, noPressure, noRetraction, Option.map_some, complete, Option.getD_some]
  rfl

theorem Program.of_compile_eq_naming {error : Tag.NamingError}
    (fails : compile sequence (some project) = .error (.naming error)) :
    sequence.firstPressure? = none ∧ sequence.openingRetraction? = none ∧
      project.missing sequence.inventory = [] := by
  unfold compile at fails
  split at fails
  · nomatch Except.error.inj fails
  · nomatch Except.error.inj fails
  · next noPressure noRetraction =>
      split at fails
      · next complete => exact ⟨noPressure, noRetraction, complete⟩
      · nomatch Except.error.inj fails

/-- The builder fails for a name or not at all, so it fails exactly for an empty name once all
that a sequence mentions is configured. -/
theorem Program.build_fails_iff (runs : ∀ parts ∈ sequence.parts, ∀ part ∈ parts, part.Runs)
    (bound : ∀ id ∈ sequence.mentions, project.binds id = true) :
    (∃ error, build (.configured project) sequence = .error (.naming error)) ↔
      ∃ component ∈ sequence.inventory, "" ∈ project.names component.id := by
  constructor
  · rintro ⟨error, failed⟩
    by_contra noneEmpty
    have named : ∀ id ∈ sequence.mentions,
        ((Naming.configured project).component? id).isSome = true := by
      intro id mentioned
      obtain ⟨component, among, rfl⟩ := Sequence.mem_mentions_iff.mp mentioned
      exact Naming.isSome_component?_iff.mpr
        ⟨bound _ mentioned, fun empty => noneEmpty ⟨component, among, empty⟩⟩
    obtain ⟨program, built⟩ := (exists_build_iff runs).mpr named
    rw [built] at failed
    contradiction
  · rintro ⟨component, among, empty⟩
    have unnamed : ¬ ∃ program, build (.configured project) sequence = .ok program := by
      rw [exists_build_iff runs]
      intro named
      have mentioned := Sequence.mem_mentions_iff.mpr ⟨component, among, rfl⟩
      exact (Naming.isSome_component?_iff.mp (named _ mentioned)).2 empty
    cases built : build (.configured project) sequence with
    | ok program => exact absurd ⟨program, built⟩ unnamed
    | error error =>
        obtain ⟨own, rfl⟩ := of_build_eq_error runs built
        exact ⟨own, rfl⟩

end

namespace Program

/-- A project names all signals of a component exactly if it configures the component and gives
none of them an empty name.  A sequence that it configures therefore fails for a name exactly if
one of its components has an empty one. -/
theorem naming_fails_iff_empty (project : Project) :
    (∀ label, (∃ tags, (Naming.configured project).actuator label = .ok tags) ↔
      project.binds (.actuator label) = true ∧ "" ∉ project.names (.actuator label)) ∧
    (∀ number, (∃ tags, (Naming.configured project).timer number = .ok tags) ↔
      project.binds (.timer number) = true ∧ "" ∉ project.names (.timer number)) ∧
    (∀ number, (∃ tag, (Naming.configured project).counter number = .ok tag) ↔
      project.binds (.counter number) = true ∧ "" ∉ project.names (.counter number)) ∧
    ∀ sequence : Sequence,
      (∃ error, compile sequence (some project) = .error (.naming error)) ↔
        sequence.firstPressure? = none ∧ sequence.openingRetraction? = none ∧
          project.missing sequence.inventory = [] ∧
          ∃ component ∈ sequence.inventory, "" ∈ project.names component.id := by
  refine ⟨?_, ?_, ?_, ?_⟩
  · intro label
    rw [← Naming.isSome_component?_iff, Naming.component?, isSome_map_toOption]
  · intro number
    rw [← Naming.isSome_component?_iff, Naming.component?, isSome_map_toOption]
  · intro number
    rw [← Naming.isSome_component?_iff, Naming.component?, isSome_map_toOption]
  · intro sequence
    constructor
    · rintro ⟨error, failed⟩
      obtain ⟨noPressure, noRetraction, complete⟩ := of_compile_eq_naming failed
      have runs := Sequence.runs_parts noPressure
      refine ⟨noPressure, noRetraction, complete, ?_⟩
      rw [compile_eq_build noPressure noRetraction complete] at failed
      exact (build_fails_iff runs ((Project.missing_inventory_eq_nil_iff runs).mp complete)).mp
        ⟨error, failed⟩
    · rintro ⟨noPressure, noRetraction, complete, empty⟩
      have runs := Sequence.runs_parts noPressure
      rw [compile_eq_build noPressure noRetraction complete]
      exact (build_fails_iff runs
        ((Project.missing_inventory_eq_nil_iff runs).mp complete)).mpr empty

/-- A coil with an empty name is configured, yet it has no name. -/
theorem unnamed_of_empty_coil :
    ∃ project : Project, ∃ sequence, Sequence.parse "A+" = .ok sequence ∧
      project.binds (.actuator 'A') = true ∧ project.missing sequence.inventory = [] ∧
      (Naming.configured project).actuator 'A' =
        .error (.missing (.actuator 'A') .actuatorExtend) ∧
      compile sequence (some project) =
        .error (.naming (.missing (.actuator 'A') .actuatorExtend)) := by
  let project : Project :=
    ⟨"press", [.actuator ⟨"A", .doubleActing, "", some "Y2", "B1", "B2"⟩]⟩
  have fails : ((Sequence.parse "A+").toOption.any fun sequence =>
      project.missing sequence.inventory == [] &&
      match compile sequence (some project) with
      | .error error => error == .naming (.missing (.actuator 'A') .actuatorExtend)
      | .ok _ => false) = true := by
    decide +kernel
  obtain ⟨sequence, parsed, fails⟩ := any_toOption_iff.mp fails
  cases compiled : compile sequence (some project) with
  | ok program => simp [compiled] at fails
  | error error =>
      simp only [compiled, Bool.and_eq_true, beq_iff_eq] at fails
      obtain ⟨complete, rfl⟩ := fails
      exact ⟨project, sequence, parsed, by decide, complete, by decide, compiled⟩

end Program

end Pneumatic
