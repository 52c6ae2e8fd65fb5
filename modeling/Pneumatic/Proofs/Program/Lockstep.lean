import Pneumatic.Proofs.Program.Build
import Pneumatic.Proofs.Run.Passes
import Pneumatic.Proofs.Run.Visits

/-!
# Programs and runs in lockstep

The counters of a program hold the passes that a run has finished, so a transition leads
to the case of the step that the run visits next.
-/

namespace Pneumatic

/-! ## Counters of regions -/

namespace Part

theorem join_ofRegions (counters : Nat) (regions : List Region) (position : Nat) :
    ((ofRegions counters regions)[position]?.join).isSome =
      regions[position]?.any (·.bound.isCounted) := by
  induction regions generalizing counters position with
  | nil => rfl
  | cons region rest ih =>
      cases counted : region.bound.isCounted <;> cases position <;>
        simp [ofRegions, counted, ih]

theorem lt_of_join_ofRegions {counters number : Nat} {regions : List Region} {position : Nat}
    (counter : (ofRegions counters regions)[position]?.join = some number) :
    counters < number := by
  induction regions generalizing counters position with
  | nil => simp [ofRegions] at counter
  | cons region rest ih =>
      cases counted : region.bound.isCounted with
      | false =>
          simp only [ofRegions, counted, Bool.false_eq_true, if_false] at counter
          cases position with
          | zero => simp at counter
          | succ position => exact ih counter
      | true =>
          simp only [ofRegions, counted, if_true] at counter
          cases position with
          | zero =>
              have first : counters + 1 = number := by simpa using counter
              omega
          | succ position => exact Nat.lt_of_succ_lt (ih counter)

/-- No two regions have the same counter. -/
theorem position_eq_of_join_ofRegions {counters number : Nat} {regions : List Region}
    {left right : Nat} (leftCounter : (ofRegions counters regions)[left]?.join = some number)
    (rightCounter : (ofRegions counters regions)[right]?.join = some number) : left = right := by
  induction regions generalizing counters left right with
  | nil => simp [ofRegions] at leftCounter
  | cons region rest ih =>
      cases counted : region.bound.isCounted with
      | false =>
          simp only [ofRegions, counted, Bool.false_eq_true, if_false] at leftCounter rightCounter
          cases left with
          | zero => simp at leftCounter
          | succ left =>
              cases right with
              | zero => simp at rightCounter
              | succ right => rw [ih leftCounter rightCounter]
      | true =>
          simp only [ofRegions, counted, if_true] at leftCounter rightCounter
          cases left with
          | zero =>
              cases right with
              | zero => rfl
              | succ right =>
                  have first : counters + 1 = number := by simpa using leftCounter
                  have later := lt_of_join_ofRegions rightCounter
                  omega
          | succ left =>
              cases right with
              | zero =>
                  have first : counters + 1 = number := by simpa using rightCounter
                  have later := lt_of_join_ofRegions leftCounter
                  omega
              | succ right => rw [ih leftCounter rightCounter]

end Part

namespace Sequence

variable {sequence : Sequence} {region : Region} {position : Nat}

/-- The number of the counter of a region. -/
def counter? (sequence : Sequence) (region : Region) : Option Nat :=
  sequence.counters[sequence.regions.idxOf region]?.join

theorem counter?_eq (here : sequence.regions[position]? = some region) :
    sequence.counter? region = sequence.counters[position]?.join := by
  obtain ⟨inside, rfl⟩ := List.getElem?_eq_some_iff.mp here
  rw [counter?, (Run.Tracks.nodup_regions sequence).idxOf_getElem]

theorem isSome_counter? (among : region ∈ sequence.regions) :
    (sequence.counter? region).isSome = region.bound.isCounted := by
  obtain ⟨position, here⟩ := List.mem_iff_getElem?.mp among
  rw [counter?_eq here, counters, Part.join_ofRegions, here, Option.any_some]

end Sequence

namespace Program

variable {sequence : Sequence} {value : Int16} {memory : Memory} {counts : Region → Nat}
  {position number index : Nat} {region : Region}

/-- The words of a memory are the counts of a run, with the repeat variable at a value. -/
structure Agrees (sequence : Sequence) (value : Int16) (memory : Memory)
    (counts : Region → Nat) : Prop where
  repeats : memory.words Tag.repeatVariable = value.toInt
  counters : ∀ (position : Nat) (region : Region) (number : Nat),
    sequence.regions[position]? = some region →
      sequence.counters[position]?.join = some number →
        memory.words (Tag.counterName number) = counts region

namespace Agrees

/-- Setting a counter. -/
theorem setWord (agrees : Agrees sequence value memory counts)
    (here : sequence.regions[position]? = some region)
    (counter : sequence.counters[position]?.join = some number) (count : Nat) :
    Agrees sequence value (memory.setWord (Tag.counterName number) count)
      (Function.update counts region count) := by
  constructor
  · rw [Memory.words_setWord, Function.update_of_ne (Tag.counterName_ne_repeatVariable number).symm]
    exact agrees.repeats
  · intro other found otherNumber there otherCounter
    by_cases same : other = position
    · subst same
      obtain rfl := Option.some.inj (here.symm.trans there)
      obtain rfl := Option.some.inj (counter.symm.trans otherCounter)
      rw [Memory.words_setWord, Function.update_self, Function.update_self]
    · have apart : Tag.counterName otherNumber ≠ Tag.counterName number := by
        intro equal
        obtain rfl := Tag.counterName_injective equal
        exact same (Part.position_eq_of_join_ofRegions otherCounter counter)
      rw [Memory.words_setWord, Function.update_of_ne apart,
        Function.update_of_ne (Run.Tracks.other here there same)]
      exact agrees.counters other found otherNumber there otherCounter

theorem of_words {memory' : Memory} (agrees : Agrees sequence value memory counts)
    (same : memory'.words = memory.words) : Agrees sequence value memory' counts := by
  refine ⟨?_, ?_⟩ <;> rw [same]
  · exact agrees.repeats
  · exact agrees.counters

end Agrees

/-- The case of the next step; behind the end, the case after the last one. -/
def place (sequence : Sequence) (next : Option Nat) : Nat :=
  caseNumber (next.getD sequence.length)

/-- The case behind a step that ends no region is where a tour goes beyond it. -/
theorem after_eq_place (plain : sequence.wrapped = false) (inside : index < sequence.length) :
    sequence.after index = place sequence (Tour.beyond sequence index) := by
  rw [Sequence.after, Tour.beyond, plain, Bool.and_false]
  by_cases last : index + 1 < sequence.length
  · simp [last, place]
  · simp [place, show index + 1 = sequence.length by omega]

/-- A relation of memories and counts in which the word of a tag is the count of a region, and
which setting both of them keeps. -/
structure Tells (related : Memory → (Region → Nat) → Prop) (value : Int16) (region : Region)
    (tag : String) : Prop where
  repeats : ∀ memory counts, related memory counts →
    memory.words Tag.repeatVariable = value.toInt
  reads : ∀ memory counts, related memory counts → memory.words tag = counts region
  sets : ∀ memory counts (count : Nat), related memory counts →
    related (memory.setWord tag count) (Function.update counts region count)

/-- A transition leads where a tour goes, and assigns to the tags of regions the counts that the
tour marks. -/
structure Mirrors (related : Memory → (Region → Nat) → Prop) (tags : Region → String)
    (sequence : Sequence) (memory : Memory) (transition : Transition)
    (marks : List (Region × Nat)) (tour : Tour) : Prop where
  take : ∃ memory', transition.take memory = (place sequence tour.1, memory') ∧
    related memory' tour.2
  assigned : transition.assigned memory =
    marks.map fun (region, count) => (tags region, (count : Int))

variable {related : Memory → (Region → Nat) → Prop} {tags : Region → String}

/-- Leaving a region that is counted. -/
theorem mirrors_count {limit : Limit} {total : Nat} {otherwise : Transition}
    {regions : List Region} (counted : Tells related value region (tags region))
    (agrees : related memory counts) (rounds : region.bound.rounds value = some total)
    (further : (counts region : Int) + 1 < limit.value memory ↔ counts region + 1 < total)
    (rest : ∀ memory', related memory' (Function.update counts region 0) →
      Mirrors related tags sequence memory' otherwise
        (Tour.marks (fun _ => value) (Function.update counts region 0) regions)
        (Tour.leave sequence (fun _ => value) index (Function.update counts region 0) regions)) :
    Mirrors related tags sequence memory
      (.count (tags region) limit (caseNumber region.first) otherwise)
      (Tour.marks (fun _ => value) counts (region :: regions))
      (Tour.leave sequence (fun _ => value) index counts (region :: regions)) := by
  have passes := counted.reads memory counts agrees
  rw [Tour.leave, Tour.marks, rounds]
  by_cases again : counts region + 1 < total
  · have goesBack := further.mpr again
    constructor
    · simp only [Transition.take, passes, if_pos again, if_pos goesBack]
      exact ⟨_, rfl, counted.sets memory counts (counts region + 1) agrees⟩
    · simp [Transition.assigned, passes, again, goesBack]
  · have goesOn := mt further.mp again
    have behind := rest (memory.setWord (tags region) 0) (counted.sets memory counts 0 agrees)
    constructor
    · simp only [Transition.take, passes, if_neg again, if_neg goesOn]
      exact behind.take
    · simp [Transition.assigned, passes, again, goesOn, behind.assigned]

/-- Leaving regions in a program and on a tour. -/
theorem mirrors_leaveRegions {counters : List (Nat × String)} {outer : Nat}
    {positions : List Nat} {regions : List Region}
    (found : positions.map (sequence.regions[·]?) = regions.map some)
    (known : ∀ position ∈ positions, ∀ region, sequence.regions[position]? = some region →
      region.bound.isCounted = true →
        counters.lookup position = some (tags region) ∧ Tells related value region (tags region))
    (beyond : outer = place sequence (Tour.beyond sequence index))
    (agrees : related memory counts) :
    Mirrors related tags sequence memory
      (Builder.leaveRegions counters sequence.regions (.jump outer) positions)
      (Tour.marks (fun _ => value) counts regions)
      (Tour.leave sequence (fun _ => value) index counts regions) := by
  induction regions generalizing positions memory counts with
  | nil =>
      obtain rfl := List.map_eq_nil_iff.mp found
      exact ⟨⟨memory, by rw [beyond]; rfl, agrees⟩, rfl⟩
  | cons region regions ih =>
      obtain ⟨position, rest, rfl, here, restFound⟩ := List.map_eq_cons_iff.mp found
      rw [List.forall_mem_cons] at known
      have behind : ∀ memory', related memory' (Function.update counts region 0) →
          Mirrors related tags sequence memory'
            (Builder.leaveRegions counters sequence.regions (.jump outer) rest)
            (Tour.marks (fun _ => value) (Function.update counts region 0) regions)
            (Tour.leave sequence (fun _ => value) index (Function.update counts region 0)
              regions) :=
        fun _ agrees' => ih restFound known.2 agrees'
      simp only [Builder.leaveRegions, here]
      cases bound : region.bound with
      | unbounded =>
          refine ⟨⟨memory, ?_, ?_⟩, ?_⟩ <;>
            simp only [Tour.leave, Tour.marks, bound, Bound.rounds]
          · rfl
          · exact agrees
          · rfl
      | fixed limit =>
          obtain ⟨counter, counted⟩ := known.1 region here (by rw [bound]; rfl)
          simp only [counter]
          refine mirrors_count counted agrees (by rw [bound]; rfl) ?_ behind
          simp only [Limit.value]
          omega
      | relative offset =>
          obtain ⟨counter, counted⟩ := known.1 region here (by rw [bound]; rfl)
          simp only [counter]
          refine mirrors_count counted agrees (by rw [bound]; rfl) ?_ behind
          simp only [Limit.value, counted.repeats memory counts agrees]
          omega

/-- The word of a counter is the count of its region. -/
theorem Agrees.tells (here : sequence.regions[position]? = some region)
    (counter : sequence.counters[position]?.join = some number) :
    Tells (Agrees sequence value) value region (Tag.counterName number) where
  repeats _ _ agrees := agrees.repeats
  reads _ _ agrees := agrees.counters position region number here counter
  sets _ _ count agrees := agrees.setWord here counter count

/-- A transition leads where a tour goes, and counts what the tour counts. -/
def Leads (sequence : Sequence) (value : Int16) (memory : Memory) (transition : Transition)
    (tour : Tour) : Prop :=
  ∃ memory', transition.take memory = (place sequence tour.1, memory') ∧
    Agrees sequence value memory' tour.2

/-- The counters of a program lead where a tour goes. -/
theorem leads_leaveRegions {counters : List (Nat × String)} {outer : Nat} {positions : List Nat}
    {regions : List Region} (found : positions.map (sequence.regions[·]?) = regions.map some)
    (known : ∀ position ∈ positions,
      counters.lookup position = sequence.counters[position]?.join.map Tag.counterName)
    (beyond : outer = place sequence (Tour.beyond sequence index))
    (agrees : Agrees sequence value memory counts) :
    Leads sequence value memory
      (Builder.leaveRegions counters sequence.regions (.jump outer) positions)
      (Tour.leave sequence (fun _ => value) index counts regions) := by
  let tags (region : Region) : String := ((sequence.counter? region).map Tag.counterName).getD ""
  have known' : ∀ position ∈ positions, ∀ region, sequence.regions[position]? = some region →
      region.bound.isCounted = true → counters.lookup position = some (tags region) ∧
        Tells (Agrees sequence value) value region (tags region) := by
    intro position among region here counted
    rw [← Sequence.isSome_counter? (List.mem_of_getElem? here),
      Sequence.counter?_eq here] at counted
    obtain ⟨number, counter⟩ := Option.isSome_iff_exists.mp counted
    have named : tags region = Tag.counterName number := by
      simp only [tags, Sequence.counter?_eq here, counter, Option.map_some, Option.getD_some]
    rw [named, known position among, counter]
    exact ⟨rfl, Agrees.tells here counter⟩
  exact (mirrors_leaveRegions found known' beyond agrees).take

theorem keepsWords_body (part : Part) : ∀ instruction ∈ part.body, instruction.KeepsWords := by
  intro instruction membership
  unfold Part.body at membership
  split at membership
  · obtain ⟨write, -, rfl⟩ := List.mem_map.mp membership
    trivial
  · obtain rfl := List.mem_singleton.mp membership
    trivial
  · contradiction

theorem keepsWords_exit (part : Part) : ∀ instruction ∈ part.exit, instruction.KeepsWords := by
  intro instruction membership
  unfold Part.exit at membership
  split at membership
  · obtain rfl := List.mem_singleton.mp membership
    trivial
  · contradiction

variable {program : Program} {builder : Builder} {cases : List Case}

/-- Running the active case and visiting the next step. -/
theorem Built.advance (built : Built sequence program builder cases)
    (plain : sequence.wrapped = false) {next : Option Nat}
    (inside : ∀ index ∈ next, index < sequence.length)
    (agrees : Agrees sequence value memory counts) :
    ∃ memory', program.advance (place sequence next, memory) =
        (place sequence (Tour.hop sequence (fun _ => value) (next, counts)).1, memory') ∧
      Agrees sequence value memory' (Tour.hop sequence (fun _ => value) (next, counts)).2 := by
  cases next with
  | none =>
      have outside : cases[sequence.length]? = none :=
        List.getElem?_eq_none (Nat.le_of_eq built.length)
      refine ⟨memory, ?_, agrees⟩
      simp only [Program.advance, place, Option.getD_none, built.case?_caseNumber plain, outside]
      rfl
  | some index =>
      have indexLt := inside index rfl
      have here := List.getElem?_eq_getElem indexLt
      obtain ⟨parts, case, -, -, -, there, serves⟩ := built.serves here
      obtain ⟨counters, nextEq, known⟩ := serves.next
      have keeps : ∀ instruction ∈ case.body ++ case.onExit, instruction.KeepsWords := by
        rw [serves.body, serves.exit, List.forall_mem_append]
        simp only [List.forall_mem_flatMap]
        exact ⟨fun part _ => keepsWords_body part, fun part _ => keepsWords_exit part⟩
      have beyond := after_eq_place plain indexLt
      simp only [Program.advance, place, Option.getD_some, built.case?_caseNumber plain, there,
        Case.perform, nextEq]
      exact leads_leaveRegions (Sequence.regionsEndingAt_eq sequence index) known beyond
        (agrees.of_words (Instruction.words_runAll keeps memory))

/-- A program and a tour reach the same place after any number of steps. -/
theorem Built.iterate_advance (built : Built sequence program builder cases)
    (plain : sequence.wrapped = false) (nonempty : sequence.nodes ≠ [])
    (solid : ∀ node ∈ sequence.nodes, node.Solid)
    (agrees : Agrees sequence value memory fun _ => 0) (count : Nat) :
    ∃ memory', program.advance^[count] (caseNumber 0, memory) =
        (place sequence ((Tour.hop sequence fun _ => value)^[count] Tour.start).1, memory') ∧
      Agrees sequence value memory' ((Tour.hop sequence fun _ => value)^[count] Tour.start).2 := by
  induction count with
  | zero => exact ⟨memory, rfl, agrees⟩
  | succ count ih =>
      obtain ⟨before, ran, agrees'⟩ := ih
      have inside := Run.iterate_hop_lt (fun _ => value) nonempty solid count
      rw [Function.iterate_succ_apply', Function.iterate_succ_apply', ran]
      exact built.advance plain inside agrees'

end Program

end Pneumatic
