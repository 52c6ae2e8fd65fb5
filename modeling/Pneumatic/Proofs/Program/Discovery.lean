import Pneumatic.Proofs.Program.Numbering

/-!
# The order of discovery

The inventory goes through the steps and lists each component where it comes first.  Each number is
mentioned at one step only, so the inventory has every numbered component, by number, with the step
of its token or the first step of its region; an actuator it has with the step that moves it first.
-/

namespace Pneumatic

namespace Sequence

/-! ## Discovering one component after the other -/

section

variable {components : List Component} {component : Component}

theorem foldl_discover_append_of_mem (known : component.id ∈ components.map (·.id)) :
    (components ++ [component]).foldl discover [] = components.foldl discover [] := by
  rw [List.foldl_append, List.foldl_cons, List.foldl_nil, discover_of_mem]
  rwa [map_id_foldl_discover, List.mem_eraseDups]

theorem foldl_discover_append_of_not_mem (new : component.id ∉ components.map (·.id)) :
    (components ++ [component]).foldl discover [] =
      components.foldl discover [] ++ [component] := by
  rw [List.foldl_append, List.foldl_cons, List.foldl_nil, discover_of_not_mem]
  rwa [map_id_foldl_discover, List.mem_eraseDups]

/-- What is discovered stands in the order in which it came. -/
theorem sublist_foldl_discover (components : List Component) :
    (components.foldl discover []).Sublist components := by
  induction components using List.reverseRecOn with
  | nil => exact .slnil
  | append_singleton before component ih =>
      by_cases known : component.id ∈ before.map (·.id)
      · rw [foldl_discover_append_of_mem known]
        exact ih.trans (List.sublist_append_left _ _)
      · rw [foldl_discover_append_of_not_mem known]
        exact ih.append (.refl _)

/-- A component that no other step comes before with. -/
def IsFirst (components : List Component) (component : Component) : Prop :=
  component ∈ components ∧
    ∀ other ∈ components, other.id = component.id → component.firstStep ≤ other.firstStep

/-- A component that comes last is a first one only if it is new. -/
theorem isFirst_append_iff {last : Component}
    (behind : ∀ other ∈ components, other.firstStep ≤ last.firstStep) :
    IsFirst (components ++ [last]) component ↔
      IsFirst components component ∨ component = last ∧ last.id ∉ components.map (·.id) := by
  constructor
  · rintro ⟨among, least⟩
    have least' := fun other before => least other (List.mem_append_left [last] before)
    rcases List.mem_append.mp among with before | isLast
    · exact .inl ⟨before, least'⟩
    · obtain rfl := List.mem_singleton.mp isLast
      -- A component that was known before can only be the one known, which comes no later than
      -- the last one; so both come with the same step.
      by_cases known : component.id ∈ components.map (·.id)
      · obtain ⟨earlier, before, same⟩ := List.mem_map.mp known
        have sameStep := Nat.le_antisymm (behind earlier before) (least' earlier before same)
        have sameComponent : earlier = component := by
          change Component.mk earlier.id earlier.firstStep = component
          rw [same, sameStep]
        exact .inl ⟨sameComponent ▸ before, least'⟩
      · exact .inr ⟨rfl, known⟩
  · rintro (⟨among, least⟩ | ⟨rfl, new⟩)
    · refine ⟨List.mem_append_left _ among, List.forall_mem_append.mpr ⟨least, ?_⟩⟩
      exact List.forall_mem_singleton.mpr fun _ => behind component among
    · refine ⟨List.mem_append_right _ (List.mem_singleton_self _),
        List.forall_mem_append.mpr ⟨fun other among same => ?_, by simp⟩⟩
      exact absurd (List.mem_map.mpr ⟨other, among, same⟩) new

/-- Of components that come step by step, the ones that are discovered are the first ones. -/
theorem mem_foldl_discover_iff (sorted : components.Pairwise (·.firstStep ≤ ·.firstStep)) :
    component ∈ components.foldl discover [] ↔ IsFirst components component := by
  induction components using List.reverseRecOn with
  | nil => simp [IsFirst]
  | append_singleton before last ih =>
      rw [List.pairwise_append] at sorted
      have behind : ∀ other ∈ before, other.firstStep ≤ last.firstStep :=
        fun other among => sorted.2.2 other among last (List.mem_singleton_self _)
      rw [isFirst_append_iff behind, ← ih sorted.1]
      by_cases known : last.id ∈ before.map (·.id)
      · rw [foldl_discover_append_of_mem known, or_iff_left fun new => new.2 known]
      · rw [foldl_discover_append_of_not_mem known, List.mem_append, List.mem_singleton,
          and_iff_left known]

/-- Discovering components leaves out no number that comes once. -/
theorem filterMap_foldl_discover {Number : Type} {number? : ComponentId → Option Number}
    (once : (components.filterMap (number? ·.id)).Nodup) :
    (components.foldl discover []).filterMap
        (fun component => (number? component.id).map (component.firstStep, ·)) =
      components.filterMap fun component =>
        (number? component.id).map (component.firstStep, ·) := by
  induction components using List.reverseRecOn with
  | nil => rfl
  | append_singleton before component ih =>
      rw [List.filterMap_append, List.nodup_append] at once
      have ih := ih once.1
      by_cases known : component.id ∈ before.map (·.id)
      · have silent : number? component.id = none := by
          by_contra speaks
          obtain ⟨number, numberEq⟩ := Option.ne_none_iff_exists'.mp speaks
          obtain ⟨earlier, among, same⟩ := List.mem_map.mp known
          exact once.2.2 number (List.mem_filterMap.mpr ⟨earlier, among, same ▸ numberEq⟩) number
            (by simp [numberEq]) rfl
        rw [foldl_discover_append_of_mem known, ih, List.filterMap_append]
        simp [silent]
      · rw [foldl_discover_append_of_not_mem known, List.filterMap_append, ih,
          List.filterMap_append]

end

/-! ## Steps by their number -/

theorem flatMap_zipIdx {Element Result : Type} (lists : List (List Element))
    (results : Nat → List Element → List Result) :
    (lists.zipIdx.flatMap fun entry => results entry.2 entry.1) =
      (List.range lists.length).flatMap fun index => results index (lists[index]?.getD []) := by
  calc (lists.zipIdx.flatMap fun entry => results entry.2 entry.1)
    _ = lists.zipIdx.flatMap fun entry => results entry.2 (lists[entry.2]?.getD []) :=
        List.flatMap_congr fun entry among => by
          rw [List.mem_zipIdx_iff_getElem?.mp among, Option.getD_some]
    _ = (lists.zipIdx.map (·.2)).flatMap fun index =>
          results index (lists[index]?.getD []) := by
        rw [List.flatMap_map]
    _ = _ := by
        rw [List.zipIdx_map_snd, List.range_eq_range']

/-- Of components that are listed by step, the ones of a step. -/
theorem filter_flatMap_range (here : Nat → List ComponentId) (count step : Nat) :
    (((List.range count).flatMap fun index =>
        (here index).map fun id => Component.mk id index).filter (·.firstStep == step)).map
          (·.id) = if step < count then here step else [] := by
  induction count with
  | zero => rfl
  | succ count ih =>
      rw [List.range_succ, List.flatMap_append, List.filter_append, List.map_append, ih]
      by_cases same : count = step
      · subst same
        simp [List.filter_map, Function.comp_def]
      · have last : step < count + 1 ↔ step < count := by omega
        simp [List.filter_map, Function.comp_def, same, last]

/-! ## What the steps need -/

variable (sequence : Sequence) {kind : ComponentKind}

/-- The counters of the regions that start at a step. -/
def countersAt (step : Nat) : List ComponentId :=
  (regionsStartingAt sequence.regions step).filterMap fun region =>
    (sequence.counters[region]?.join).map .counter

/-- The components of the tokens of a step. -/
def componentsAt (step : Nat) : List ComponentId :=
  (sequence.parts[step]?.getD []).map (·.component)

/-- The components that the steps of a sequence need, each with the step. -/
def discoveries : List Component :=
  (List.range sequence.length).flatMap fun step =>
    (sequence.countersAt step ++ sequence.componentsAt step).map fun id => ⟨id, step⟩

theorem inventory_eq : sequence.inventory = sequence.discoveries.foldl discover [] := by
  have byStep := flatMap_zipIdx sequence.parts fun step parts =>
    (needs sequence.regions sequence.counters step parts).map fun id => Component.mk id step
  rw [length_parts] at byStep
  rw [inventory, List.mapIdx_eq_zipIdx_map, ← List.flatMap_def, byStep]
  rfl

theorem sorted_discoveries : sequence.discoveries.Pairwise (·.firstStep ≤ ·.firstStep) := by
  rw [discoveries, List.pairwise_flatMap]
  constructor
  · intro step _
    rw [List.pairwise_map]
    exact List.pairwise_of_forall fun _ _ => Nat.le_refl step
  · refine List.pairwise_lt_range.imp fun {step step'} earlier left among right among' => ?_
    obtain ⟨_, -, rfl⟩ := List.mem_map.mp among
    obtain ⟨_, -, rfl⟩ := List.mem_map.mp among'
    exact Nat.le_of_lt earlier

theorem sorted_inventory : sequence.inventory.Pairwise (·.firstStep ≤ ·.firstStep) := by
  rw [inventory_eq]
  exact sequence.sorted_discoveries.sublist (sublist_foldl_discover _)

/-- Within a step, counters stand before what the tokens of the step need, and that in reading
order. -/
theorem sublist_inventory (step : Nat) :
    ((sequence.inventory.filter (·.firstStep == step)).map (·.id)).Sublist
      (sequence.countersAt step ++ sequence.componentsAt step) := by
  have inOrder := ((sublist_foldl_discover sequence.discoveries).filter
    (·.firstStep == step)).map (·.id)
  rw [← inventory_eq, discoveries, filter_flatMap_range fun step =>
    sequence.countersAt step ++ sequence.componentsAt step] at inOrder
  refine inOrder.trans ?_
  split
  · exact .refl _
  · exact List.nil_sublist _

/-! ## Numbers and the steps that they come from -/

/-- The steps that the components of a sort come from: those of the tokens in reading order, or
the first ones of the counted regions. -/
def origins : ComponentKind → List Nat
  | .counter => (sequence.regions.filter (·.bound.isCounted)).map (·.first)
  | kind => sequence.steps.zipIdx.flatMap fun entry =>
      (entry.1.tokens.filter (·.sort = kind)).map fun _ => entry.2

theorem filterMap_discoveries {Result : Type} (number? : ComponentId → Option Result) :
    (sequence.discoveries.filterMap fun component =>
        (number? component.id).map (component.firstStep, ·)) =
      (List.range sequence.length).flatMap fun step =>
        ((sequence.countersAt step ++ sequence.componentsAt step).filterMap number?).map
          (step, ·) := by
  rw [discoveries, List.filterMap_flatMap]
  refine List.flatMap_congr fun step _ => ?_
  rw [List.filterMap_map, List.map_filterMap]
  rfl

/-- No token is numbered as a counter. -/
theorem filterMap_counter_componentsAt (step : Nat) :
    (sequence.componentsAt step).filterMap (ComponentId.number? .counter) = [] := by
  rw [componentsAt, List.filterMap_map, List.filterMap_eq_nil_iff]
  intro part among
  cases here : sequence.parts[step]? with
  | none => simp [here] at among
  | some parts =>
      rw [here] at among
      have noCounter := (ids_parts (List.mem_of_getElem? here) part among).2
      cases named : part.component <;> simp_all [ComponentId.number?, ComponentId.counter?]

/-- A region is numbered as nothing else than a counter. -/
theorem filterMap_countersAt (other : kind ≠ .counter) (step : Nat) :
    (sequence.countersAt step).filterMap (ComponentId.number? kind) = [] := by
  rw [List.filterMap_eq_nil_iff]
  intro id among
  obtain ⟨region, -, counter⟩ := List.mem_filterMap.mp among
  obtain ⟨number, -, rfl⟩ := Option.map_eq_some_iff.mp counter
  cases kind <;> first | exact absurd rfl other | rfl

/-- The regions that start at the steps, one step after the other, are all regions in their
order. -/
theorem flatMap_regionsStartingAt :
    (List.range sequence.length).flatMap (regionsStartingAt sequence.regions) =
      List.range sequence.regions.length := by
  refine List.Pairwise.eq_of_mem_iff ?_ List.pairwise_lt_range fun position => ?_
  · rw [List.pairwise_flatMap]
    refine ⟨fun step _ => List.pairwise_lt_range.filter _, ?_⟩
    refine List.pairwise_lt_range.imp fun {step step'} earlier left starts right starts' => ?_
    obtain ⟨region, here, rfl⟩ := mem_regionsStartingAt.mp starts
    obtain ⟨region', here', rfl⟩ := mem_regionsStartingAt.mp starts'
    obtain ⟨inside, rfl⟩ := List.getElem?_eq_some_iff.mp here
    obtain ⟨inside', rfl⟩ := List.getElem?_eq_some_iff.mp here'
    by_contra notBefore
    have sorted : sequence.regions.Pairwise (regionLe · ·) :=
      List.pairwise_mergeSort regionLe_trans regionLe_total _
    rcases Nat.eq_or_lt_of_le (Nat.le_of_not_lt notBefore) with rfl | behind
    · exact Nat.lt_irrefl _ earlier
    · have inOrder := List.pairwise_iff_getElem.mp sorted right left inside' inside behind
      simp only [regionLe, Bool.or_eq_true, Bool.and_eq_true, decide_eq_true_eq,
        beq_iff_eq] at inOrder
      omega
  · rw [List.mem_flatMap, List.mem_range]
    constructor
    · rintro ⟨step, -, starts⟩
      obtain ⟨region, here, -⟩ := mem_regionsStartingAt.mp starts
      exact (List.getElem?_eq_some_iff.mp here).1
    · intro inside
      have here := List.getElem?_eq_getElem inside
      have bounds := bounds_of_mem_regions (List.getElem_mem inside)
      refine ⟨sequence.regions[position].first, List.mem_range.mpr (by omega), ?_⟩
      exact mem_regionsStartingAt.mpr ⟨_, here, rfl⟩

theorem numbers_counters :
    ((List.range sequence.length).flatMap fun step =>
      ((sequence.countersAt step).filterMap (ComponentId.number? .counter)).map (step, ·)) =
        (sequence.origins .counter).zipIdx 1 := by
  let first (position : Nat) : Option (Nat × Nat) := sequence.regions[position]?.bind fun region =>
    (sequence.counters[position]?.join).map (region.first, ·)
  have atStep (step : Nat) :
      ((sequence.countersAt step).filterMap (ComponentId.number? .counter)).map (step, ·) =
        (regionsStartingAt sequence.regions step).filterMap first := by
    rw [countersAt, List.filterMap_filterMap, List.map_filterMap]
    refine List.filterMap_congr fun position starts => ?_
    obtain ⟨region, here, rfl⟩ := mem_regionsStartingAt.mp starts
    simp only [first, here, Option.bind_some]
    cases sequence.counters[position]?.join <;> rfl
  rw [List.flatMap_congr fun step _ => atStep step, ← List.filterMap_flatMap,
    flatMap_regionsStartingAt]
  exact Part.filterMap_first_ofRegions 0 sequence.regions

theorem numbers_tokens (numbered : kind ≠ .actuator) (other : kind ≠ .counter) :
    ((List.range sequence.length).flatMap fun step =>
      ((sequence.componentsAt step).filterMap (ComponentId.number? kind)).map (step, ·)) =
        (sequence.origins kind).zipIdx 1 := by
  have byStep := flatMap_zipIdx sequence.parts fun step parts =>
    (parts.filterMap (·.component.number? kind)).map (step, ·)
  have numbers := Part.flatMap_number?_ofSteps numbered ⟨0, 0⟩ sequence.steps 0
  rw [length_parts] at byStep
  simp only [componentsAt, List.filterMap_map]
  refine byStep.symm.trans (numbers.trans ?_)
  cases kind <;> first | exact absurd rfl numbered | exact absurd rfl other | rfl

/-- What is discovered of a sort is numbered from one on. -/
theorem numbers_discoveries (numbered : kind ≠ .actuator) :
    (sequence.discoveries.filterMap fun component =>
      (component.id.number? kind).map (component.firstStep, ·)) =
        (sequence.origins kind).zipIdx 1 := by
  rw [filterMap_discoveries]
  simp only [List.filterMap_append]
  by_cases counter : kind = .counter
  · subst counter
    simp only [filterMap_counter_componentsAt, List.append_nil]
    exact sequence.numbers_counters
  · simp only [sequence.filterMap_countersAt counter, List.nil_append]
    exact sequence.numbers_tokens numbered counter

theorem numbers_inventory (numbered : kind ≠ .actuator) :
    (sequence.inventory.filterMap fun component =>
      (component.id.number? kind).map (component.firstStep, ·)) =
        (sequence.origins kind).zipIdx 1 := by
  have numbers := sequence.numbers_discoveries numbered
  have once : (sequence.discoveries.filterMap (ComponentId.number? kind ·.id)).Nodup := by
    have seconds := congrArg (List.map Prod.snd) numbers
    rw [List.zipIdx_map_snd, List.map_filterMap] at seconds
    simp only [Option.map_map, Function.comp_def, Option.map_id'] at seconds
    rw [seconds]
    exact List.nodup_range'
  rw [inventory_eq, filterMap_foldl_discover once, numbers]

/-! ## Actuators -/

/-- A step moves an actuator. -/
def Moves (label : Char) (step : Nat) : Prop :=
  ∃ found direction, sequence.steps[step]? = some found ∧
    .actuation ⟨label, direction⟩ ∈ found.tokens

/-- A step is the first one that moves an actuator. -/
def MovesFirst (label : Char) (step : Nat) : Prop :=
  sequence.Moves label step ∧ ∀ other, sequence.Moves label other → step ≤ other

theorem actuator_mem_ofTokens {label : Char} (tally : Part.Tally) (tokens : List Token) :
    .actuator label ∈ (Part.ofTokens tally tokens).1.map (·.component) ↔
      ∃ direction, .actuation ⟨label, direction⟩ ∈ tokens := by
  induction tokens generalizing tally with
  | nil => simp [Part.ofTokens]
  | cons token rest ih =>
      rw [Part.ofTokens, List.map_cons, List.mem_cons, ih]
      cases token with
      | actuation actuation =>
          obtain ⟨moved, direction⟩ := actuation
          simp [Part.number, exists_or]
      | timer delay => simp [Part.number]
      | pressure pressure => simp [Part.number]

theorem actuator_mem_componentsAt {label : Char} {step : Nat} :
    .actuator label ∈ sequence.componentsAt step ↔ sequence.Moves label step := by
  obtain ⟨tally, partsEq⟩ := Part.getElem?_ofSteps ⟨0, 0⟩ sequence.steps step
  rw [componentsAt, parts, partsEq, Moves]
  cases sequence.steps[step]? with
  | none => simp
  | some found => simpa using actuator_mem_ofTokens tally found.tokens

theorem actuator_mem_discoveries {label : Char} {step : Nat} :
    ⟨.actuator label, step⟩ ∈ sequence.discoveries ↔ sequence.Moves label step := by
  have noCounter : .actuator label ∉ sequence.countersAt step := by
    intro among
    obtain ⟨region, -, counter⟩ := List.mem_filterMap.mp among
    obtain ⟨number, -, other⟩ := Option.map_eq_some_iff.mp counter
    contradiction
  rw [← actuator_mem_componentsAt, discoveries, List.mem_flatMap]
  constructor
  · rintro ⟨index, -, among⟩
    obtain ⟨id, needed, same⟩ := List.mem_map.mp among
    obtain ⟨rfl, rfl⟩ := Component.mk.inj same
    exact (List.mem_append.mp needed).resolve_left noCounter
  · intro among
    have inside : step < sequence.length := by
      rw [← length_parts]
      by_contra outside
      rw [componentsAt, List.getElem?_eq_none (Nat.le_of_not_lt outside)] at among
      exact nomatch among
    exact ⟨step, List.mem_range.mpr inside,
      List.mem_map.mpr ⟨_, List.mem_append_right _ among, rfl⟩⟩

theorem actuator_mem_inventory {label : Char} {step : Nat} :
    ⟨.actuator label, step⟩ ∈ sequence.inventory ↔ sequence.MovesFirst label step := by
  rw [inventory_eq, mem_foldl_discover_iff sequence.sorted_discoveries, IsFirst,
    actuator_mem_discoveries, MovesFirst]
  refine and_congr_right fun _ => ⟨fun least other moves => ?_, fun least other among same => ?_⟩
  · exact least ⟨.actuator label, other⟩ (sequence.actuator_mem_discoveries.mpr moves) rfl
  · obtain ⟨id, other⟩ := other
    obtain rfl : id = .actuator label := same
    exact least other (sequence.actuator_mem_discoveries.mp among)

/-! ## The inventory -/

/-- An inventory of a sequence in the order of discovery. -/
structure Discovered (inventory : List Component) : Prop where
  once : (inventory.map (·.id)).Nodup
  actuators : ∀ label step,
    ⟨.actuator label, step⟩ ∈ inventory ↔ sequence.MovesFirst label step
  numbers : ∀ kind, kind ≠ .actuator →
    (inventory.filterMap fun component =>
      (component.id.number? kind).map (component.firstStep, ·)) =
        (sequence.origins kind).zipIdx 1
  steps : inventory.Pairwise (·.firstStep ≤ ·.firstStep)
  within : ∀ step, ((inventory.filter (·.firstStep == step)).map (·.id)).Sublist
    (sequence.countersAt step ++ sequence.componentsAt step)

/-- Timers, pressures and counted regions are numbered in their order, and the inventory lists
them and the actuators, each once and in the order of discovery. -/
theorem inventory_exact (sequence : Sequence) :
    sequence.Numbered ∧ sequence.Discovered sequence.inventory := by
  refine ⟨sequence.numbered, ?_, fun _ _ => sequence.actuator_mem_inventory,
    fun _ => sequence.numbers_inventory, sequence.sorted_inventory, sequence.sublist_inventory⟩
  rw [map_id_inventory]
  exact nodup_eraseDups _

example : ((parse "A+,2S,[(B+,TS),B-]^2,4.2BAR,A-").toOption.map fun sequence =>
    sequence.inventory.map fun component => (component.id.label, component.firstStep)) =
      some [("A", 0), ("Timer_1", 1), ("Counter_1", 2), ("B", 2), ("Timer_2", 2),
        ("Pressure_1", 4)] := by
  decide +kernel

end Sequence

end Pneumatic
