import Pneumatic.Proofs.Program.Lockstep
import Pneumatic.Proofs.Tag.Table

/-!
# What a sequence mentions

The steps of a sequence mention components, each as often as a step needs it, and the
inventory lists every one of them where it came first.  Only an actuator is mentioned twice:
a counter belongs to one region, which starts at one step, and the timers are numbered as
the delays are read.
-/

namespace Pneumatic

/-- Erasing repetitions changes nothing for a function whose values do not repeat. -/
theorem filterMap_eraseDups {Element Result : Type} [BEq Element] [LawfulBEq Element]
    {function : Element → Option Result} {elements : List Element}
    (once : (elements.filterMap function).Nodup) :
    elements.eraseDups.filterMap function = elements.filterMap function := by
  induction elements using List.reverseRecOn with
  | nil => rfl
  | append_singleton before element ih =>
      rw [List.filterMap_append, List.nodup_append] at once
      obtain ⟨onceBefore, -, apart⟩ := once
      by_cases known : element ∈ before
      · have silent : function element = none := by
          by_contra speaks
          obtain ⟨result, resultEq⟩ := Option.ne_none_iff_exists'.mp speaks
          exact apart result (List.mem_filterMap.mpr ⟨element, known, resultEq⟩) result
            (by simp [resultEq]) rfl
        rw [eraseDups_append_of_mem known, ih onceBefore, List.filterMap_append,
          List.filterMap_cons_none silent, List.filterMap_nil, List.append_nil]
      · rw [eraseDups_append_of_not_mem known, List.filterMap_append, ih onceBefore,
          List.filterMap_append]

namespace ComponentId

/-- The number of a counter. -/
def counter? : ComponentId → Option Nat
  | .counter number => some number
  | _ => none

/-- The number of a timer. -/
def timer? : ComponentId → Option Nat
  | .timer number => some number
  | _ => none

theorem timer?_eq_some_iff {id : ComponentId} {number : Nat} :
    id.timer? = some number ↔ id = .timer number := by
  cases id <;> simp [timer?]

/-- No counter and no timer comes twice. -/
structure Once (mentions : List ComponentId) : Prop where
  counters : (mentions.filterMap counter?).Nodup
  timers : (mentions.filterMap timer?).Nodup

namespace Once

variable {before behind : List ComponentId} {number : Nat}

theorem of_append (once : Once (before ++ behind)) : Once before := by
  obtain ⟨counters, timers⟩ := once
  rw [List.filterMap_append] at counters timers
  exact ⟨counters.of_append_left, timers.of_append_left⟩

theorem counter_not_mem (once : Once (before ++ [.counter number])) :
    .counter number ∉ before := by
  intro known
  have counters := once.counters
  rw [List.filterMap_append, List.nodup_append] at counters
  exact counters.2.2 number (List.mem_filterMap.mpr ⟨_, known, rfl⟩) number (by simp [counter?]) rfl

theorem timer_not_mem (once : Once (before ++ [.timer number])) : .timer number ∉ before := by
  intro known
  have timers := once.timers
  rw [List.filterMap_append, List.nodup_append] at timers
  exact timers.2.2 number (List.mem_filterMap.mpr ⟨_, known, rfl⟩) number (by simp [timer?]) rfl

end Once

end ComponentId

/-! ## Timers are numbered in reading order -/

namespace Part

/-- The delay of a timer with its number. -/
def delay? (part : Part) : Option (Delay × Nat) :=
  match part.token, part.component with
  | .timer delay, .timer number => some (delay, number)
  | _, _ => none

theorem filterMap_delay?_ofTokens (tally : Tally) (tokens : List Token) :
    (ofTokens tally tokens).1.filterMap delay? =
        (tokens.filterMap Token.delay?).zipIdx (tally.timers + 1) ∧
      (ofTokens tally tokens).2.timers =
        tally.timers + (tokens.filterMap Token.delay?).length := by
  induction tokens generalizing tally with
  | nil => exact ⟨rfl, rfl⟩
  | cons token rest ih =>
      obtain ⟨delays, timers⟩ := ih (number tally token).2
      cases token with
      | actuation actuation => exact ⟨delays, timers⟩
      | pressure pressure => exact ⟨delays, timers⟩
      | timer delay =>
          simp only [ofTokens, Part.number] at delays timers ⊢
          have own : Token.delay? (.timer delay) = some delay := rfl
          have ownPart : Part.delay? ⟨.timer delay, .timer (tally.timers + 1)⟩ =
              some (delay, tally.timers + 1) := rfl
          rw [List.filterMap_cons_some own, List.filterMap_cons_some ownPart, delays, timers,
            List.zipIdx_cons, List.length_cons]
          exact ⟨rfl, by omega⟩

theorem filterMap_delay?_ofSteps (tally : Tally) (steps : List Step) :
    (ofSteps tally steps).flatten.filterMap delay? =
      ((steps.flatMap Step.tokens).filterMap Token.delay?).zipIdx (tally.timers + 1) := by
  induction steps generalizing tally with
  | nil => rfl
  | cons step rest ih =>
      obtain ⟨delays, timers⟩ := filterMap_delay?_ofTokens tally step.tokens
      rw [ofSteps, List.flatten_cons, List.filterMap_append, delays, ih, timers,
        List.flatMap_cons, List.filterMap_append, List.zipIdx_append]
      congr 2
      omega

/-- A part that is numbered as a timer has a delay, and none is numbered as a counter. -/
theorem ids_ofTokens (tally : Tally) (tokens : List Token) :
    ∀ part ∈ (ofTokens tally tokens).1,
      part.component.timer? = part.delay?.map (·.2) ∧ part.component.counter? = none := by
  induction tokens generalizing tally with
  | nil => simp [ofTokens]
  | cons token rest ih =>
      rw [ofTokens, List.forall_mem_cons]
      refine ⟨?_, ih _⟩
      cases token <;> exact ⟨rfl, rfl⟩

end Part

namespace Sequence

/-- The delays in reading order. -/
def delays (sequence : Sequence) : List Delay :=
  sequence.tokens.filterMap Token.delay?

theorem filterMap_delay?_parts (sequence : Sequence) :
    sequence.parts.flatten.filterMap Part.delay? = sequence.delays.zipIdx 1 :=
  Part.filterMap_delay?_ofSteps ⟨0, 0⟩ sequence.steps

theorem ids_parts {sequence : Sequence} {parts : List Part} (among : parts ∈ sequence.parts) :
    ∀ part ∈ parts,
      part.component.timer? = part.delay?.map (·.2) ∧ part.component.counter? = none := by
  obtain ⟨index, here⟩ := List.mem_iff_getElem?.mp among
  obtain ⟨tally, partsEq⟩ := Part.getElem?_ofSteps ⟨0, 0⟩ sequence.steps index
  obtain ⟨step, -, rfl⟩ := Option.map_eq_some_iff.mp (partsEq.symm.trans here)
  exact Part.ids_ofTokens tally step.tokens

/-! ## Mentions and inventory -/

/-- The components that the steps of a sequence need, each as often as it is needed. -/
def mentions (sequence : Sequence) : List ComponentId :=
  sequence.parts.zipIdx.flatMap fun (parts, index) =>
    needs sequence.regions sequence.counters index parts

section

variable {components : List Component} {component : Component}

theorem discover_of_mem (known : component.id ∈ components.map (·.id)) :
    discover components component = components := by
  obtain ⟨other, among, same⟩ := List.mem_map.mp known
  have found : components.any (·.id == component.id) = true :=
    List.any_eq_true.mpr ⟨other, among, beq_iff_eq.mpr same⟩
  rw [discover, if_pos found]

theorem discover_of_not_mem (new : component.id ∉ components.map (·.id)) :
    discover components component = components ++ [component] := by
  have absent : ¬ components.any (·.id == component.id) = true := by
    rw [List.any_eq_true]
    rintro ⟨other, among, same⟩
    exact new (List.mem_map.mpr ⟨other, among, beq_iff_eq.mp same⟩)
  rw [discover, if_neg absent]

end

theorem map_id_foldl_discover (components : List Component) :
    (components.foldl discover []).map (·.id) = (components.map (·.id)).eraseDups := by
  induction components using List.reverseRecOn with
  | nil => rfl
  | append_singleton before component ih =>
      have known : component.id ∈ (before.foldl discover []).map (·.id) ↔
          component.id ∈ before.map (·.id) := by
        rw [ih, List.mem_eraseDups]
      rw [List.foldl_append, List.foldl_cons, List.foldl_nil, List.map_append, List.map_cons,
        List.map_nil]
      by_cases among : component.id ∈ before.map (·.id)
      · rw [discover_of_mem (known.mpr among), eraseDups_append_of_mem among, ih]
      · rw [discover_of_not_mem (among ∘ known.mp), eraseDups_append_of_not_mem among,
          List.map_append, ih]
        rfl

/-- The inventory lists what is mentioned, each component once. -/
theorem map_id_inventory (sequence : Sequence) :
    sequence.inventory.map (·.id) = sequence.mentions.eraseDups := by
  rw [inventory, map_id_foldl_discover, List.map_flatten, List.mapIdx_eq_zipIdx_map,
    List.map_map, mentions, List.flatMap_def]
  congr 3
  funext ⟨parts, index⟩
  simp only [Function.comp_apply, List.map_map]
  exact List.map_id _

variable {sequence : Sequence} {regions : List Region} {counters : List (Option Nat)}
  {index : Nat} {parts : List Part}

theorem filterMap_timer?_needs (among : parts ∈ sequence.parts) :
    (needs regions counters index parts).filterMap ComponentId.timer? =
      (parts.filterMap Part.delay?).map (·.2) := by
  have noTimer : ((regionsStartingAt regions index).filterMap fun region =>
      (counters[region]?.join).map ComponentId.counter).filterMap ComponentId.timer? = [] := by
    simp [List.filterMap_filterMap, ComponentId.timer?]
  rw [needs, List.filterMap_append, noTimer, List.nil_append, List.filterMap_map,
    List.map_filterMap]
  exact List.filterMap_congr fun part here => (ids_parts among part here).1

theorem filterMap_counter?_needs (among : parts ∈ sequence.parts) :
    (needs regions counters index parts).filterMap ComponentId.counter? =
      (regionsStartingAt regions index).filterMap (counters[·]?.join) := by
  have noCounter : (parts.map (·.component)).filterMap ComponentId.counter? = [] := by
    rw [List.filterMap_map, List.filterMap_eq_nil_iff]
    exact fun part here => (ids_parts among part here).2
  rw [needs, List.filterMap_append, noCounter, List.append_nil, List.filterMap_filterMap]
  congr 1
  funext region
  cases counters[region]?.join <;> rfl

theorem mem_parts_of_mem_zipIdx (among : (parts, index) ∈ sequence.parts.zipIdx) :
    parts ∈ sequence.parts := by
  have inFirsts := List.mem_map_of_mem (f := Prod.fst) among
  rwa [List.zipIdx_map_fst] at inFirsts

/-- The delays of the steps with their numbers, one step after the other. -/
theorem flatMap_delay?_parts (sequence : Sequence) :
    (sequence.parts.zipIdx.flatMap fun step => step.1.filterMap Part.delay?) =
      sequence.delays.zipIdx 1 := by
  calc (sequence.parts.zipIdx.flatMap fun step => step.1.filterMap Part.delay?)
    _ = (sequence.parts.zipIdx.map (·.1)).flatMap (List.filterMap Part.delay?) := by
        rw [List.flatMap_map]
    _ = sequence.parts.flatten.filterMap Part.delay? := by
        rw [List.zipIdx_map_fst, List.filterMap_flatten, List.flatMap_def]
    _ = sequence.delays.zipIdx 1 := filterMap_delay?_parts sequence

/-- The timers are mentioned in order, each once. -/
theorem timers_mentions (sequence : Sequence) :
    sequence.mentions.filterMap ComponentId.timer? = List.range' 1 sequence.delays.length := by
  calc sequence.mentions.filterMap ComponentId.timer?
    _ = sequence.parts.zipIdx.flatMap fun step => (step.1.filterMap Part.delay?).map (·.2) := by
        rw [mentions, List.filterMap_flatMap]
        refine List.flatMap_congr fun (parts, index) among => ?_
        exact filterMap_timer?_needs (mem_parts_of_mem_zipIdx among)
    _ = (sequence.delays.zipIdx 1).map (·.2) := by
        rw [← List.map_flatMap, flatMap_delay?_parts]
    _ = List.range' 1 sequence.delays.length := List.zipIdx_map_snd ..

/-- A counter is mentioned at the step that its region starts at, and nowhere else. -/
theorem nodup_counters_mentions (sequence : Sequence) :
    (sequence.mentions.filterMap ComponentId.counter?).Nodup := by
  have same {left right number : Nat}
      (here : number ∈ sequence.counters[left]?.join)
      (there : number ∈ sequence.counters[right]?.join) : left = right :=
    Part.position_eq_of_join_ofRegions here there
  rw [mentions, List.filterMap_flatMap, List.nodup_flatMap]
  constructor
  · intro (parts, index) among
    simp only [filterMap_counter?_needs (mem_parts_of_mem_zipIdx among)]
    apply List.Nodup.filterMap
    · intro left right number here there
      exact same here there
    · exact List.nodup_range.filter _
  · rw [List.pairwise_iff_getElem]
    intro left right leftInside rightInside before number here there
    simp only [List.getElem_zipIdx] at here there
    rw [filterMap_counter?_needs (List.getElem_mem _), List.mem_filterMap] at here there
    obtain ⟨position, starts, counter⟩ := here
    obtain ⟨position', starts', counter'⟩ := there
    obtain rfl := same counter counter'
    obtain ⟨region, found, first⟩ := mem_regionsStartingAt.mp starts
    obtain ⟨region', found', first'⟩ := mem_regionsStartingAt.mp starts'
    obtain rfl := Option.some.inj (found.symm.trans found')
    omega

/-- The timers of the inventory are numbered from the first to the last. -/
theorem timers_inventory (sequence : Sequence) :
    sequence.inventory.filterMap (·.id.timer?) = List.range' 1 sequence.delays.length := by
  have ids : sequence.inventory.filterMap (·.id.timer?) =
      (sequence.inventory.map (·.id)).filterMap ComponentId.timer? := by
    rw [List.filterMap_map]
    rfl
  rw [ids, map_id_inventory, filterMap_eraseDups, timers_mentions]
  rw [timers_mentions]
  exact List.nodup_range'

theorem once_mentions (sequence : Sequence) : ComponentId.Once sequence.mentions := by
  refine ⟨nodup_counters_mentions sequence, ?_⟩
  rw [timers_mentions]
  exact List.nodup_range'

end Sequence

end Pneumatic
