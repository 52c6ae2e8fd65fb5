import Pneumatic.Proofs.Program.Lockstep
import Pneumatic.Proofs.Program.Uses

/-!
# The counters of a program

Whatever the signals are called, a program counts the passes of its regions in step with a tour.
Only the region around the step to visit has passes counted, so two counters may even share a
signal.  A counter takes every number up to the passes of its region; so it stays a 16-bit
integer exactly if no region that the tour comes to has more passes than that.
-/

namespace Pneumatic

open Tag (Naming)

/-! ## Cases -/

namespace Sequence

/-- The signal of the counter of a region. -/
def counterTag? (naming : Naming) (sequence : Sequence) (region : Region) : Option String :=
  (sequence.counter? region).bind fun number => (naming.counter number).toOption

end Sequence

/-- What counting depends on in the case of a step: it assigns to no word by itself, and it leaves
the regions that end at the step, with the signals of their counters. -/
structure Case.Leaves (naming : Naming) (sequence : Sequence) (index : Nat) (case : Case) :
    Prop where
  number : case.number = Program.caseNumber index
  keeps : ∀ instruction ∈ case.body ++ case.onExit, instruction.KeepsWords
  next : ∃ counters : List (Nat × String),
    case.next = Program.Builder.leaveRegions counters sequence.regions
      (.jump (sequence.after index)) (Sequence.regionsEndingAt sequence.regions index) ∧
    ∀ position ∈ Sequence.regionsEndingAt sequence.regions index, ∀ region,
      sequence.regions[position]? = some region →
        counters.lookup position = sequence.counterTag? naming region

namespace Program.Builder

variable {naming : Naming} {sequence : Sequence} {builder builder' : Builder} {work work' : Work}
  {cases cases' : List Case} {index : Nat}

theorem lookup_eq_of_mem_iff {entries : List (Nat × String)} {position : Nat}
    {found : Option String} (known : ∀ tag, (position, tag) ∈ entries ↔ found = some tag) :
    entries.lookup position = found := by
  cases result : entries.lookup position with
  | none =>
      rw [List.lookup_eq_none_iff] at result
      cases found with
      | none => rfl
      | some tag => simpa using result _ ((known tag).mpr rfl)
  | some tag =>
      obtain ⟨before, behind, splits, -⟩ := List.lookup_eq_some_iff.mp result
      exact ((known tag).mp (by simp [splits])).symm

/-- The counters of a builder are those of the regions that start before a step. -/
def KnowsCounters (naming : Naming) (sequence : Sequence) (index : Nat) (builder : Builder) :
    Prop :=
  ∀ position tag, (position, tag) ∈ builder.counters ↔
    ∃ region, sequence.regions[position]? = some region ∧ region.first < index ∧
      sequence.counterTag? naming region = some tag

theorem mem_counters_enterRegion {region : Nat}
    (entered : enterRegion naming sequence.counters builder region = .ok builder')
    (position : Nat) (tag : String) :
    (position, tag) ∈ builder'.counters ↔ (position, tag) ∈ builder.counters ∨
      position = region ∧ ∃ found, sequence.regions[position]? = some found ∧
        sequence.counterTag? naming found = some tag := by
  have tagged {found : Region} (here : sequence.regions[region]? = some found) :
      sequence.counterTag? naming found =
        sequence.counters[region]?.join.bind fun number => (naming.counter number).toOption := by
    rw [Sequence.counterTag?, Sequence.counter?_eq here]
  rcases enterRegion_eq_ok entered with ⟨uncounted, rfl⟩ | ⟨number, own, counter, named, rfl⟩
  · refine ⟨.inl, ?_⟩
    rintro (known | ⟨rfl, found, here, ofFound⟩)
    · exact known
    · rw [tagged here, uncounted] at ofFound
      contradiction
  · rw [List.mem_append, List.mem_singleton, Prod.mk.injEq]
    refine or_congr Iff.rfl (and_congr_right ?_)
    rintro rfl
    have counted := Part.join_ofRegions 0 sequence.regions position
    rw [← Sequence.counters, counter, Option.isSome_some, eq_comm, Option.any_eq_true] at counted
    obtain ⟨found, here, -⟩ := counted
    have ofFound := tagged here
    rw [counter, Option.bind_some, named] at ofFound
    constructor
    · rintro rfl
      exact ⟨found, here, ofFound⟩
    · rintro ⟨other, there, ofOther⟩
      obtain rfl := Option.some.inj (here.symm.trans there)
      exact Option.some.inj (ofOther.symm.trans ofFound)

theorem mem_counters_enterRegions {positions : List Nat}
    (entered : positions.foldlM (enterRegion naming sequence.counters) builder = .ok builder')
    (position : Nat) (tag : String) :
    (position, tag) ∈ builder'.counters ↔ (position, tag) ∈ builder.counters ∨
      position ∈ positions ∧ ∃ found, sequence.regions[position]? = some found ∧
        sequence.counterTag? naming found = some tag := by
  induction positions generalizing builder with
  | nil =>
      obtain rfl := Except.ok.inj entered
      simp
  | cons first rest ih =>
      rw [List.foldlM_cons] at entered
      obtain ⟨middle, enters, entered⟩ := exists_of_bind_eq_ok entered
      rw [ih entered, mem_counters_enterRegion enters, List.mem_cons, or_assoc, or_and_right]

theorem KnowsCounters.enterRegions (knows : KnowsCounters naming sequence index builder)
    (entered : (Sequence.regionsStartingAt sequence.regions index).foldlM
      (enterRegion naming sequence.counters) builder = .ok builder') :
    KnowsCounters naming sequence (index + 1) builder' := by
  intro position tag
  rw [mem_counters_enterRegions entered, knows position tag, Sequence.mem_regionsStartingAt]
  constructor
  · rintro (⟨region, here, before, tagged⟩ | ⟨⟨region, here, rfl⟩, found, there, tagged⟩)
    · exact ⟨region, here, Nat.lt_succ_of_lt before, tagged⟩
    · obtain rfl := Option.some.inj (here.symm.trans there)
      exact ⟨region, here, Nat.lt_succ_self _, tagged⟩
  · rintro ⟨region, here, before, tagged⟩
    rcases Nat.lt_succ_iff_lt_or_eq.mp before with earlier | now
    · exact .inl ⟨region, here, earlier, tagged⟩
    · exact .inr ⟨⟨region, here, now⟩, region, here, tagged⟩

/-- A region that ends at a step has started by then. -/
theorem KnowsCounters.lookup (knows : KnowsCounters naming sequence (index + 1) builder)
    {position : Nat} (ends : position ∈ Sequence.regionsEndingAt sequence.regions index)
    {region : Region} (here : sequence.regions[position]? = some region) :
    builder.counters.lookup position = sequence.counterTag? naming region := by
  apply lookup_eq_of_mem_iff
  intro tag
  have bounds := Sequence.bounds_of_mem_regions (List.mem_of_getElem? here)
  obtain ⟨other, found, rfl⟩ := Sequence.mem_regionsEndingAt.mp ends
  obtain rfl := Option.some.inj (here.symm.trans found)
  rw [knows position tag]
  constructor
  · rintro ⟨same, again, -, tagged⟩
    obtain rfl := Option.some.inj (here.symm.trans again)
    exact tagged
  · intro tagged
    exact ⟨region, here, Nat.lt_succ_of_le bounds.1, tagged⟩

theorem addPart_keeps {part : Part}
    (keeps : ∀ instruction ∈ work.body ++ work.onExit, instruction.KeepsWords)
    (added : addPart naming (builder, work) part = .ok (builder', work')) :
    builder'.counters = builder.counters ∧
      ∀ instruction ∈ work'.body ++ work'.onExit, instruction.KeepsWords := by
  rw [List.forall_mem_append] at keeps
  rcases addPart_eq_ok added with ⟨actuation, tags, -, mentioned, rfl⟩ |
    ⟨delay, number, tags, -, -, mentioned, rfl⟩ | ⟨-, rfl, rfl⟩
  · constructor
    · rcases actuator_eq_ok mentioned with ⟨-, rfl⟩ | ⟨-, -, rfl⟩ <;> rfl
    · rw [List.forall_mem_append, List.forall_mem_append]
      refine ⟨⟨keeps.1, ?_⟩, keeps.2⟩
      intro instruction among
      obtain ⟨write, -, rfl⟩ := List.mem_map.mp among
      trivial
  · obtain ⟨-, rfl⟩ := timer_eq_ok mentioned
    refine ⟨rfl, ?_⟩
    rw [List.forall_mem_append, List.forall_mem_append, List.forall_mem_append,
      List.forall_mem_singleton, List.forall_mem_singleton]
    exact ⟨⟨keeps.1, trivial⟩, keeps.2, trivial⟩
  · exact ⟨rfl, List.forall_mem_append.mpr keeps⟩

theorem addParts_keep {parts : List Part}
    (added : parts.foldlM (addPart naming) (builder, ⟨[], [], .always⟩) = .ok (builder', work)) :
    builder'.counters = builder.counters ∧
      ∀ instruction ∈ work.body ++ work.onExit, instruction.KeepsWords :=
  foldlM_keeps
    (fun state => state.1.counters = builder.counters ∧
      ∀ instruction ∈ state.2.body ++ state.2.onExit, instruction.KeepsWords)
    (fun _ _ _ _ holds adds =>
      (addPart_keeps holds.2 adds).imp_left fun same => same.trans holds.1)
    added ⟨rfl, nofun⟩

/-- A builder that has added the steps before one: it knows their counters and has their cases. -/
structure Left (naming : Naming) (sequence : Sequence) (index : Nat) (builder : Builder)
    (cases : List Case) : Prop where
  counters : KnowsCounters naming sequence index builder
  length : cases.length = index
  leaves : ∀ (position : Nat) (case : Case), cases[position]? = some case →
    case.Leaves naming sequence position

theorem left_empty : Left naming sequence 0 empty [] :=
  ⟨fun _ _ => by simp [empty], rfl, nofun⟩

theorem Left.addStep {parts : List Part} (left : Left naming sequence index builder cases)
    (added : addStep naming sequence (builder, cases) (parts, index) = .ok (builder', cases')) :
    Left naming sequence (index + 1) builder' cases' := by
  obtain ⟨entered, work, enters, works, rfl⟩ := addStep_eq_ok added
  obtain ⟨same, keeps⟩ := addParts_keep works
  have knows : KnowsCounters naming sequence (index + 1) builder' := by
    have knowsEntered := left.counters.enterRegions enters
    rwa [KnowsCounters, ← same] at knowsEntered
  refine ⟨knows, by rw [List.length_append, left.length]; rfl, ?_⟩
  intro position case there
  rw [List.getElem?_append, left.length] at there
  split at there
  · exact left.leaves position case there
  · next behind =>
      have inside := (List.getElem?_eq_some_iff.mp there).1
      rw [List.length_singleton] at inside
      obtain rfl : position = index := by omega
      rw [Nat.sub_self] at there
      obtain rfl := Option.some.inj there
      exact ⟨rfl, keeps, builder'.counters, rfl, fun _ ends _ here => knows.lookup ends here⟩

theorem Left.addSteps {steps : List (List Part)} (left : Left naming sequence index builder cases)
    (added : (steps.zipIdx index).foldlM (Builder.addStep naming sequence) (builder, cases) =
      .ok (builder', cases')) :
    Left naming sequence (index + steps.length) builder' cases' := by
  induction steps generalizing index builder cases with
  | nil =>
      obtain ⟨rfl, rfl⟩ := Prod.mk.inj (Except.ok.inj added)
      exact left
  | cons parts rest ih =>
      rw [List.zipIdx_cons, List.foldlM_cons] at added
      obtain ⟨⟨middle, more⟩, adds, added⟩ := exists_of_bind_eq_ok added
      rw [List.length_cons, Nat.add_comm rest.length, ← Nat.add_assoc]
      exact ih (left.addStep adds) added

/-- Waiting for the last case changes nothing that counting depends on. -/
theorem leaves_waitForWrap
    (leaves : ∀ (position : Nat) (case : Case), cases[position]? = some case →
      case.Leaves naming sequence position) :
    ∀ (position : Nat) (case : Case), (waitForWrap cases)[position]? = some case →
      case.Leaves naming sequence position := by
  cases cases with
  | nil => exact leaves
  | cons first rest =>
      obtain ⟨last, ends⟩ : ∃ last, (first :: rest).getLast? = some last :=
        ⟨_, List.getLast?_eq_some_getLast (List.cons_ne_nil first rest)⟩
      obtain ⟨first', turnedEq, number, body, exit, next, -⟩ := waitForWrap_cons first rest ends
      rw [turnedEq]
      intro position case there
      cases position with
      | zero =>
          obtain rfl := Option.some.inj there
          obtain ⟨own, keeps, follows⟩ := leaves 0 first rfl
          exact ⟨number.trans own, by rwa [body, exit], by rwa [next]⟩
      | succ position => exact leaves (position + 1) case there

theorem length_waitForWrap (cases : List Case) : (waitForWrap cases).length = cases.length := by
  unfold waitForWrap
  split <;> rfl

end Program.Builder

namespace Program

variable {naming : Naming} {sequence : Sequence} {project : Option Project} {program : Program}
  {cases : List Case} {inner outer : List Region} {own region : Region} {index : Nat}
  {value : Int16} {memory : Memory} {counts : Region → Nat}

/-- A program that sets everything up and then has a case for each step. -/
structure Counted (naming : Naming) (sequence : Sequence) (program : Program)
    (cases : List Case) : Prop where
  all : program.cases = ⟨0, none, program.setup, [], .jump 10⟩ :: cases
  length : cases.length = sequence.length
  leaves : ∀ (index : Nat) (case : Case), cases[index]? = some case →
    case.Leaves naming sequence index

theorem exists_counted_of_compile (compiled : compile sequence project = .ok program) :
    ∃ cases, Counted (.ofProject? project) sequence program cases := by
  obtain ⟨-, built⟩ := build_of_compile compiled
  obtain ⟨⟨builder, cases⟩, folded, built⟩ := exists_of_bind_eq_ok built
  obtain rfl := Except.ok.inj built
  obtain ⟨-, length, leaves⟩ := Builder.left_empty.addSteps folded
  rw [Nat.zero_add, Sequence.length_parts] at length
  refine ⟨_, rfl, ?_, ?_⟩
  · split
    · rw [Builder.length_waitForWrap, length]
    · exact length
  · split
    · exact Builder.leaves_waitForWrap leaves
    · exact leaves

theorem Counted.case?_caseNumber (counted : Counted naming sequence program cases)
    (index : Nat) : program.case? (caseNumber index) = cases[index]? :=
  case?_of_cases counted.all rfl (fun index case here => (counted.leaves index case here).number)
    index

theorem Counted.case?_zero (counted : Counted naming sequence program cases) :
    program.case? 0 = some ⟨0, none, program.setup, [], .jump 10⟩ := by
  rw [case?, counted.all, List.find?_cons, beq_self_eq_true]

/-! ## The setup -/

/-- The setup assigns nothing but zero to a word. -/
theorem eq_zero_of_mem_setup (compiled : compile sequence project = .ok program) :
    ∀ assignment ∈ Instruction.words program.setup, assignment.2 = 0 := by
  obtain ⟨⟨components, -, setup, -⟩, -⟩ := exists_components_of_compile compiled
  rintro ⟨tag, number⟩ among
  rw [Instruction.mem_words, setup, List.mem_flatMap] at among
  obtain ⟨component, -, rests⟩ := among
  cases component with
  | actuator tags =>
      obtain ⟨write, -, equal⟩ := List.mem_map.mp rests
      contradiction
  | timer tags =>
      have equal := List.mem_singleton.mp rests
      contradiction
  | counter tag =>
      obtain ⟨rfl, rfl⟩ := Instruction.setInt.inj (List.mem_singleton.mp rests)
      rfl

/-- Every region that is counted has a counter, which the setup resets. -/
theorem exists_counterTag (compiled : compile sequence project = .ok program)
    (among : region ∈ sequence.regions) (counted : region.bound.isCounted = true) :
    ∃ tag, sequence.counterTag? (.ofProject? project) region = some tag ∧
      .setInt tag 0 ∈ program.setup := by
  rw [← Sequence.isSome_counter? among] at counted
  obtain ⟨number, counter⟩ := Option.isSome_iff_exists.mp counted
  obtain ⟨⟨components, mapped, setup, -⟩, -⟩ := exists_components_of_compile compiled
  obtain ⟨component, inComponents, named⟩ := exists_mem_of_mapM mapped
    (List.mem_eraseDups.mpr (Sequence.counter_mem_mentions counter))
  obtain ⟨tag, tagEq, rfl⟩ := Option.map_eq_some_iff.mp named
  refine ⟨tag, by rw [Sequence.counterTag?, counter, Option.bind_some, tagEq], ?_⟩
  rw [setup, List.mem_flatMap]
  exact ⟨_, inComponents, List.mem_singleton_self _⟩

/-! ## Counting -/

/-- The signal of the counter of a region; no signal has the empty name. -/
def counterTag (naming : Naming) (sequence : Sequence) (region : Region) : String :=
  (sequence.counterTag? naming region).getD ""

/-- The words of a memory count the passes of a tour, with the repeat variable at a value.  A
signal tells the passes of the region that it is counting for; it is zero if it counts for none. -/
structure Counting (sequence : Sequence) (tags : Region → String) (value : Int16)
    (memory : Memory) (counts : Region → Nat) : Prop where
  repeats : memory.words Tag.repeatVariable = value.toInt
  running : ∀ region, counts region ≠ 0 → memory.words (tags region) = counts region
  resting : ∀ region ∈ sequence.regions, region.bound.isCounted = true →
    (∀ other, tags other = tags region → counts other = 0) → memory.words (tags region) = 0

variable {tags : Region → String}

theorem Counting.of_words {memory' : Memory} (counting : Counting sequence tags value memory counts)
    (same : memory'.words = memory.words) : Counting sequence tags value memory' counts := by
  obtain ⟨repeats, running, resting⟩ := counting
  rw [← same] at repeats running resting
  exact ⟨repeats, running, resting⟩

/-- Counting at a step, with passes of no region but the one around it. -/
def CountsAt (sequence : Sequence) (tags : Region → String) (value : Int16) (index : Nat)
    (memory : Memory) (counts : Region → Nat) : Prop :=
  Counting sequence tags value memory counts ∧ Tour.Within sequence (some index, counts)

/-- At the end of a region no other region has passes. -/
theorem CountsAt.eq (flat : sequence.Flat inner outer) (among : own ∈ sequence.regions)
    (counted : own.bound.isCounted = true)
    (countsAt : CountsAt sequence tags value own.last memory counts)
    (passed : counts region ≠ 0) : region = own :=
  countsAt.2.eq flat (Sequence.mem_regions.mp among) (Bound.ne_unbounded_of_isCounted counted)
    (Sequence.bounds_of_mem_regions among).1 (Nat.le_refl _) passed

/-- Setting the counter of a region at its end. -/
theorem CountsAt.setWord (flat : sequence.Flat inner outer) (among : own ∈ sequence.regions)
    (counted : own.bound.isCounted = true) (apart : tags own ≠ Tag.repeatVariable)
    (countsAt : CountsAt sequence tags value own.last memory counts) (count : Nat) :
    CountsAt sequence tags value own.last (memory.setWord (tags own) count)
      (Function.update counts own count) := by
  have alone {region : Region} (passed : Function.update counts own count region ≠ 0) :
      region = own := by
    by_contra differ
    rw [Function.update_of_ne differ] at passed
    exact differ (countsAt.eq flat among counted passed)
  obtain ⟨counting, -⟩ := countsAt
  refine ⟨⟨?_, ?_, ?_⟩, ?_⟩
  · rw [Memory.words_setWord, Function.update_of_ne apart.symm]
    exact counting.repeats
  · intro region passed
    obtain rfl := alone passed
    rw [Memory.words_setWord, Function.update_self, Function.update_self]
  · intro region inRegions regionCounted rests
    rw [Memory.words_setWord]
    by_cases same : tags region = tags own
    · have zero := rests own same.symm
      rw [Function.update_self] at zero
      rw [same, Function.update_self, zero]
      rfl
    · rw [Function.update_of_ne same]
      apply counting.resting region inRegions regionCounted
      intro other shared
      have differ : other ≠ own := by
        rintro rfl
        exact same shared.symm
      rw [← rests other shared, Function.update_of_ne differ]
  · intro region passed
    obtain rfl := alone passed
    exact ⟨Sequence.mem_regions.mp among, Bound.ne_unbounded_of_isCounted counted, region.last,
      rfl, (Sequence.bounds_of_mem_regions among).1, Nat.le_refl _⟩

/-- At the end of a region its signal tells its passes. -/
theorem tells_countsAt (flat : sequence.Flat inner outer) (among : own ∈ sequence.regions)
    (counted : own.bound.isCounted = true) (apart : tags own ≠ Tag.repeatVariable) :
    Tells (CountsAt sequence tags value own.last) value own (tags own) where
  repeats _ _ countsAt := countsAt.1.repeats
  reads memory counts countsAt := by
    by_cases fresh : counts own = 0
    · rw [fresh, countsAt.1.resting own among counted]
      · rfl
      · intro other _
        by_contra passed
        rw [countsAt.eq flat among counted passed] at passed
        exact passed fresh
    · exact countsAt.1.running own fresh
  sets _ _ count countsAt := countsAt.setWord flat among counted apart count

/-- The counters of a sequence have signals of their own, none the repeat variable. -/
def Tagged (naming : Naming) (sequence : Sequence) : Prop :=
  ∀ region ∈ sequence.regions, region.bound.isCounted = true →
    ∃ tag, sequence.counterTag? naming region = some tag ∧ tag ≠ Tag.repeatVariable

/-- The case of a step counts what a tour counts when it leaves the step. -/
theorem mirrors_of_leaves {case : Case} (leaves : case.Leaves naming sequence index)
    (flat : sequence.Flat inner outer) (plain : sequence.wrapped = false)
    (tagged : Tagged naming sequence) (inside : index < sequence.length)
    (countsAt : CountsAt sequence (counterTag naming sequence) value index memory counts) :
    Mirrors (CountsAt sequence (counterTag naming sequence) value index)
      (counterTag naming sequence) sequence memory case.next
      (Tour.marks (fun _ => value) counts (sequence.ending index))
      (Tour.leave sequence (fun _ => value) index counts (sequence.ending index)) := by
  obtain ⟨-, -, counters, nextEq, known⟩ := leaves
  rw [nextEq]
  refine mirrors_leaveRegions (Sequence.regionsEndingAt_eq sequence index) ?_
    (after_eq_place plain inside) countsAt
  intro position ends region here isCounted
  have among := List.mem_of_getElem? here
  obtain ⟨tag, tagEq, apart⟩ := tagged region among isCounted
  have named : counterTag naming sequence region = tag := by
    rw [counterTag, tagEq, Option.getD_some]
  obtain ⟨found, foundEq, rfl⟩ := Sequence.mem_regionsEndingAt.mp ends
  obtain rfl := Option.some.inj (here.symm.trans foundEq)
  refine ⟨by rw [known position ends region here, tagEq, named], ?_⟩
  exact tells_countsAt flat among isCounted (named ▸ apart)

/-- Running the active case counts what a hop counts. -/
theorem Counted.advance (counted : Counted naming sequence program cases)
    (flat : sequence.Flat inner outer) (plain : sequence.wrapped = false)
    (tagged : Tagged naming sequence) {next : Option Nat}
    (inside : ∀ index ∈ next, index < sequence.length)
    (counting : Counting sequence (counterTag naming sequence) value memory counts)
    (within : Tour.Within sequence (next, counts)) :
    (∃ memory', program.advance (place sequence next, memory) =
        (place sequence (Tour.hop sequence (fun _ => value) (next, counts)).1, memory') ∧
      Counting sequence (counterTag naming sequence) value memory'
        (Tour.hop sequence (fun _ => value) (next, counts)).2) ∧
    program.assigned (place sequence next, memory) =
      (Tour.marked sequence (fun _ => value) (next, counts)).map fun (region, count) =>
        (counterTag naming sequence region, (count : Int)) := by
  cases next with
  | none =>
      have outside : cases[sequence.length]? = none :=
        List.getElem?_eq_none (Nat.le_of_eq counted.length)
      refine ⟨⟨memory, ?_, counting⟩, ?_⟩
      · simp only [Program.advance, place, Option.getD_none, counted.case?_caseNumber, outside]
        rfl
      · simp only [Program.assigned, place, Option.getD_none, counted.case?_caseNumber, outside]
        rfl
  | some index =>
      have indexLt := inside index rfl
      obtain ⟨case, there⟩ : ∃ case, cases[index]? = some case :=
        ⟨_, List.getElem?_eq_getElem (counted.length ▸ indexLt)⟩
      have leaves := counted.leaves index case there
      have mirrors := mirrors_of_leaves leaves flat plain tagged indexLt
        ⟨counting.of_words (Instruction.words_runAll leaves.keeps memory), within⟩
      obtain ⟨memory', taken, counting', -⟩ := mirrors.take
      refine ⟨⟨memory', ?_, counting'⟩, ?_⟩
      · simp only [Program.advance, place, Option.getD_some, counted.case?_caseNumber, there,
          Case.perform]
        exact taken
      · simp only [Program.assigned, place, Option.getD_some, counted.case?_caseNumber, there,
          Case.assigned, Instruction.words_eq_nil leaves.keeps, List.nil_append]
        exact mirrors.assigned

/-- From the first case on, with all counters at zero, a program assigns what a tour marks. -/
theorem Counted.assigned_iterate {source : String} (parsed : Sequence.parse source = .ok sequence)
    (counted : Counted naming sequence program cases) (flat : sequence.Flat inner outer)
    (plain : sequence.wrapped = false) (tagged : Tagged naming sequence)
    (counting : Counting sequence (counterTag naming sequence) value memory fun _ => 0)
    (count : Nat) :
    program.assigned (program.advance^[count] (caseNumber 0, memory)) =
      (Tour.marked sequence (fun _ => value)
        ((Tour.hop sequence fun _ => value)^[count] Tour.start)).map fun (region, count) =>
          (counterTag naming sequence region, (count : Int)) := by
  have inside (count : Nat) := Run.iterate_hop_lt (fun _ => value)
    (Sequence.nodes_ne_nil_of_parse parsed) (Sequence.solid_of_parse parsed) count
  have within := Tour.within_iterate flat fun _ => value
  have together : ∃ memory', program.advance^[count] (caseNumber 0, memory) =
      (place sequence ((Tour.hop sequence fun _ => value)^[count] Tour.start).1, memory') ∧
        Counting sequence (counterTag naming sequence) value memory'
          ((Tour.hop sequence fun _ => value)^[count] Tour.start).2 := by
    induction count with
    | zero => exact ⟨memory, rfl, counting⟩
    | succ count ih =>
        obtain ⟨before, ran, counting'⟩ := ih
        rw [Function.iterate_succ_apply', Function.iterate_succ_apply', ran]
        exact (counted.advance flat plain tagged (inside count) counting' (within count)).1
  obtain ⟨memory', ran, counting'⟩ := together
  rw [ran]
  exact (counted.advance flat plain tagged (inside count) counting' (within count)).2

/-! ## From the setup on -/

theorem Counted.advance_zero (counted : Counted naming sequence program cases) (memory : Memory) :
    program.advance (0, memory) = (caseNumber 0, Instruction.runAll program.setup memory) ∧
      program.assigned (0, memory) = Instruction.words program.setup := by
  simp [Program.advance, Program.assigned, counted.case?_zero, Case.perform, Case.assigned,
    Transition.take, Transition.assigned, caseNumber]

/-- The setup begins counting, unless it resets the repeat variable. -/
theorem counting_setup (compiled : compile sequence project = .ok program)
    (repeats : memory.words Tag.repeatVariable = value.toInt)
    (kept : .setInt Tag.repeatVariable 0 ∉ program.setup) :
    Counting sequence (counterTag (.ofProject? project) sequence) value
      (Instruction.runAll program.setup memory) fun _ => 0 := by
  have zero := eq_zero_of_mem_setup compiled
  refine ⟨?_, nofun, ?_⟩
  · rw [Instruction.words_runAll_eq, Memory.wordsAfter_of_not_mem, repeats]
    intro assigned
    obtain ⟨⟨tag, number⟩, among, rfl⟩ := List.mem_map.mp assigned
    obtain rfl := zero _ among
    exact kept (Instruction.mem_words.mp among)
  · intro region among isCounted _
    obtain ⟨tag, tagEq, resets⟩ := exists_counterTag compiled among isCounted
    have named : counterTag (.ofProject? project) sequence region = tag := by
      rw [counterTag, tagEq, Option.getD_some]
    rw [named, Instruction.words_runAll_eq]
    exact Memory.wordsAfter_of_forall_eq
      (List.mem_map.mpr ⟨(tag, 0), Instruction.mem_words.mpr resets, rfl⟩) zero

/-- No automatic name of a counter is the repeat variable. -/
theorem repeatVariable_not_mem_setup (compiled : compile sequence none = .ok program) :
    .setInt Tag.repeatVariable 0 ∉ program.setup := by
  obtain ⟨builder, cases, built⟩ := built_of_compile compiled
  obtain ⟨cases', counted⟩ := exists_counted_of_compile compiled
  have setup : program.setup = builder.setup :=
    congrArg Case.body (List.cons.inj (counted.all.symm.trans built.cases)).1
  rw [setup]
  intro among
  obtain ⟨counter, named⟩ := (built.prepared.setup _ among).eq_counter
  exact Tag.counterName_ne_repeatVariable counter named.symm

theorem tagged_of_compile (compiled : compile sequence project = .ok program)
    (kept : .setInt Tag.repeatVariable 0 ∉ program.setup) :
    Tagged (.ofProject? project) sequence := by
  intro region among isCounted
  obtain ⟨tag, tagEq, resets⟩ := exists_counterTag compiled among isCounted
  refine ⟨tag, tagEq, ?_⟩
  rintro rfl
  exact kept resets

/-- A wrapped program assigns nothing to words behind its setup. -/
theorem Counted.assigned_of_wrapped (counted : Counted naming sequence program cases)
    (regions : sequence.regions = []) (state : Nat × Memory) :
    ∀ assignment ∈ program.assigned state, assignment ∈ Instruction.words program.setup := by
  obtain ⟨active, memory⟩ := state
  intro assignment assigns
  rw [assigned] at assigns
  split at assigns
  · next case found =>
      have among := List.mem_of_find?_eq_some found
      rw [counted.all, List.mem_cons] at among
      rcases among with rfl | behind
      · simpa [Case.assigned, Transition.assigned] using assigns
      · obtain ⟨index, there⟩ := List.mem_iff_getElem?.mp behind
        obtain ⟨-, keeps, counters, nextEq, -⟩ := counted.leaves index case there
        rw [Case.assigned, Instruction.words_eq_nil keeps, nextEq, regions,
          Sequence.regionsEndingAt_nil] at assigns
        contradiction
  · contradiction

end Program

/-! ## The numbers that counters take -/

/-- No endless region ends before a region, so that a run comes to it. -/
def Sequence.Enters (sequence : Sequence) (region : Region) : Prop :=
  ∀ other ∈ sequence.regions, other.bound = .unbounded → region.first ≤ other.last

namespace Program

variable {source : String} {sequence : Sequence} {project : Option Project} {program : Program}
  {region : Region} {value : Int16} {memory : Memory} {tag : String} {number : Int} {total : Nat}

/-- Some time after its start from the setup, a program assigns a number to a word. -/
def Takes (program : Program) (memory : Memory) (tag : String) (number : Int) : Prop :=
  ∃ count, (tag, number) ∈ program.assigned (program.advance^[count] (0, memory))

/-- What a program assigns: what its setup does, and then what a tour marks. -/
theorem takes_iff (parsed : Sequence.parse source = .ok sequence)
    (compiled : compile sequence project = .ok program)
    (repeats : memory.words Tag.repeatVariable = value.toInt)
    (kept : .setInt Tag.repeatVariable 0 ∉ program.setup) :
    program.Takes memory tag number ↔ .setInt tag number ∈ program.setup ∨
      ∃ count region passes, (region, passes) ∈ Tour.marked sequence (fun _ => value)
          ((Tour.hop sequence fun _ => value)^[count] Tour.start) ∧
        (counterTag (.ofProject? project) sequence region, (passes : Int)) = (tag, number) := by
  obtain ⟨cases, counted⟩ := exists_counted_of_compile compiled
  obtain ⟨inner, outer, flat⟩ := Sequence.exists_flat_of_parse parsed
  have later (plain : sequence.wrapped = false) := counted.assigned_iterate parsed flat plain
    (tagged_of_compile compiled kept) (counting_setup compiled repeats kept)
  have wrappedRegions := Sequence.regions_of_wrapped parsed
  obtain ⟨first, setup⟩ := counted.advance_zero memory
  constructor
  · rintro ⟨count, assigns⟩
    cases count with
    | zero =>
        rw [Function.iterate_zero_apply, setup, Instruction.mem_words] at assigns
        exact .inl assigns
    | succ count =>
        rw [Function.iterate_succ_apply, first] at assigns
        cases wrapped : sequence.wrapped with
        | true =>
            exact .inl (Instruction.mem_words.mp
              (counted.assigned_of_wrapped (wrappedRegions wrapped) _ _ assigns))
        | false =>
            rw [later wrapped, List.mem_map] at assigns
            obtain ⟨⟨region, passes⟩, marked, equal⟩ := assigns
            exact .inr ⟨count, region, passes, marked, equal⟩
  · rintro (resets | ⟨count, region, passes, marked, equal⟩)
    · refine ⟨0, ?_⟩
      rw [Function.iterate_zero_apply, setup, Instruction.mem_words]
      exact resets
    · have plain : sequence.wrapped = false := by
        by_contra wrapped
        rw [Bool.not_eq_false] at wrapped
        have below := Tour.below_iterate sequence (fun _ => value) count
        obtain ⟨among, -⟩ := below.of_mem_marked marked
        rw [wrappedRegions wrapped] at among
        exact List.not_mem_nil among
      refine ⟨count + 1, ?_⟩
      rw [Function.iterate_succ_apply, first, later plain, List.mem_map]
      exact ⟨_, marked, equal⟩

/-- The counter of a region that a run comes to takes the number of its passes, at which the
region is left. -/
theorem takes_total (parsed : Sequence.parse source = .ok sequence)
    (compiled : compile sequence project = .ok program)
    (repeats : memory.words Tag.repeatVariable = value.toInt)
    (kept : .setInt Tag.repeatVariable 0 ∉ program.setup) (among : region ∈ sequence.regions)
    (enters : sequence.Enters region) (rounds : region.bound.rounds value = some total) :
    program.Takes memory (counterTag (.ofProject? project) sequence region) total := by
  obtain ⟨inner, outer, flat⟩ := Sequence.exists_flat_of_parse parsed
  have inNodes := Sequence.mem_regions.mp among
  have reaches : Tour.Reaches sequence (fun _ => value) Tour.start
      (some region.last, Function.update (fun _ => 0) region (total - 1)) :=
    Tour.reaches_last_pass_of_open flat inNodes rounds fun other otherAmong =>
      enters other (Sequence.mem_regions.mpr otherAmong)
  obtain ⟨count, reached⟩ := reaches
  rw [takes_iff parsed compiled repeats kept]
  refine .inr ⟨count, region, total, ?_, rfl⟩
  rw [reached]
  exact Tour.mem_marked_last_pass flat inNodes rounds

/-- A counter takes no number beyond the passes of a region that a run comes to. -/
theorem exists_total_of_takes (parsed : Sequence.parse source = .ok sequence)
    (compiled : compile sequence project = .ok program)
    (repeats : memory.words Tag.repeatVariable = value.toInt)
    (kept : .setInt Tag.repeatVariable 0 ∉ program.setup)
    (takes : program.Takes memory tag number) :
    number = 0 ∨ ∃ region ∈ sequence.regions, sequence.Enters region ∧
      ∃ total, region.bound.rounds value = some total ∧ 0 ≤ number ∧ number ≤ total := by
  rcases (takes_iff parsed compiled repeats kept).mp takes with
    resets | ⟨count, region, passes, marked, equal⟩
  · exact .inl (eq_zero_of_mem_setup compiled _ (Instruction.mem_words.mpr resets))
  · obtain ⟨rfl, rfl⟩ := Prod.mk.inj equal
    have below := Tour.below_iterate sequence (fun _ => value) count
    obtain ⟨among, here, total, rounds, fits⟩ := below.of_mem_marked marked
    refine .inr ⟨region, among, ?_, total, rounds, Int.natCast_nonneg passes,
      Int.ofNat_le.mpr fits⟩
    intro other otherAmong unbounded
    have later := Tour.open_iterate sequence (fun _ => value) count region.last here other
      (Sequence.mem_regions.mp otherAmong) unbounded
    exact Nat.le_trans (Sequence.bounds_of_mem_regions among).1 later

/-- With the repeat variable at a value, and not used as a counter, the counters of a program
stay within 16 bits exactly if no region that a run comes to has more passes than that.  The
counter of every such region gets to the number of its passes, at which the region is left. -/
theorem counters_fit_iff (parsed : Sequence.parse source = .ok sequence)
    (compiled : compile sequence project = .ok program)
    (repeats : memory.words Tag.repeatVariable = value.toInt)
    (kept : .setInt Tag.repeatVariable 0 ∉ program.setup) :
    ((∀ tag number, program.Takes memory tag number → 0 ≤ number ∧ number ≤ 32767) ↔
      ∀ region ∈ sequence.regions, sequence.Enters region →
        ∀ total, region.bound.rounds value = some total → total ≤ 32767) ∧
    ∀ region ∈ sequence.regions, sequence.Enters region →
      ∀ total : Nat, region.bound.rounds value = some total →
        program.Takes memory (counterTag (.ofProject? project) sequence region) total := by
  have reached : ∀ region ∈ sequence.regions, sequence.Enters region →
      ∀ total : Nat, region.bound.rounds value = some total →
        program.Takes memory (counterTag (.ofProject? project) sequence region) total :=
    fun _ among enters _ rounds => takes_total parsed compiled repeats kept among enters rounds
  refine ⟨⟨?_, ?_⟩, reached⟩
  · intro fit region among enters total rounds
    have bounds := fit _ _ (reached region among enters total rounds)
    omega
  · intro fit tag number takes
    rcases exists_total_of_takes parsed compiled repeats kept takes with
      rfl | ⟨region, among, enters, total, rounds, nonneg, le⟩
    · decide
    · have bound := fit region among enters total rounds
      omega

/-- A region with more passes than 16 bits hold does no harm behind an endless one. -/
theorem counters_fit_iff_behind_endless :
    ∃ sequence program, Sequence.parse "[A+,A-]^N,[B+,B-],[C+,C-]^40000" = .ok sequence ∧
      compile sequence none = .ok program ∧
      sequence.regions.map (·.bound) = [.relative 0, .unbounded, .fixed 40000] ∧
      (∀ tag number,
        program.Takes ⟨[], fun tag => if tag = Tag.repeatVariable then 3 else 0⟩ tag number →
          0 ≤ number ∧ number ≤ 32767) ∧
      program.Takes ⟨[], fun tag => if tag = Tag.repeatVariable then 3 else 0⟩ "Counter_1" 3 := by
  let regions : List Region :=
    [⟨0, 1, .relative 0, 0⟩, ⟨2, 3, .unbounded, 0⟩, ⟨4, 5, .fixed 40000, 0⟩]
  have accepted : ((Sequence.parse "[A+,A-]^N,[B+,B-],[C+,C-]^40000").toOption.any fun sequence =>
      Node.regionsOf 0 0 sequence.nodes == regions && sequence.firstPressure?.isNone &&
        sequence.openingRetraction?.isNone) = true := by decide +kernel
  obtain ⟨sequence, parsed, accepted⟩ := any_toOption_iff.mp accepted
  simp only [Bool.and_eq_true, beq_iff_eq, Option.isNone_iff_eq_none] at accepted
  obtain ⟨⟨inNodes, noPressure⟩, noRetraction⟩ := accepted
  have inOrder : sequence.regions = regions := by
    rw [Sequence.regions, inNodes]
    exact List.mergeSort_of_pairwise (by decide)
  obtain ⟨program, compiled⟩ := exists_compile noPressure noRetraction
  let memory : Memory := ⟨[], fun tag => if tag = Tag.repeatVariable then 3 else 0⟩
  have repeats : memory.words Tag.repeatVariable = (3 : Int16).toInt := by simp [memory]
  obtain ⟨fit, reached⟩ :=
    counters_fit_iff parsed compiled repeats (repeatVariable_not_mem_setup compiled)
  rw [inOrder] at fit reached
  refine ⟨sequence, program, parsed, compiled, by rw [inOrder]; rfl, fit.mpr ?_, ?_⟩
  · intro region among enters total rounds
    simp only [regions, List.mem_cons, List.not_mem_nil, or_false] at among
    rcases among with rfl | rfl | rfl
    · obtain rfl := Option.some.inj rounds
      decide
    · exact absurd rfl (Bound.ne_unbounded_of_rounds rounds)
    · have before := enters ⟨2, 3, .unbounded, 0⟩ (by simp [inOrder, regions]) rfl
      exact absurd before (by decide)
  · have enters : sequence.Enters ⟨0, 1, .relative 0, 0⟩ := fun _ _ _ => Nat.zero_le _
    have takes := reached ⟨0, 1, .relative 0, 0⟩ List.mem_cons_self enters 3 rfl
    have named : counterTag .automatic sequence ⟨0, 1, .relative 0, 0⟩ = "Counter_1" := by
      rw [counterTag, Sequence.counterTag?, Sequence.counter?, Sequence.counters, inOrder]
      decide
    exact named ▸ takes

/-- A counter takes a number that no 16-bit integer is. -/
theorem takes_beyond_of_long_loop :
    ∃ sequence program, Sequence.parse "[A+,A-]^32768" = .ok sequence ∧
      compile sequence none = .ok program ∧
      (program.tag? "Counter_1").map (·.kind) = some .int ∧
      program.Takes ⟨[], fun _ => 0⟩ "Counter_1" 32768 := by
  let looping : Region := ⟨0, 1, .fixed 32768, 0⟩
  have accepted : ((Sequence.parse "[A+,A-]^32768").toOption.any fun sequence =>
      sequence.regions == [looping] && counterTag .automatic sequence looping == "Counter_1" &&
      (compile sequence none).toOption.any fun program =>
        (program.tag? "Counter_1").map (·.kind) == some .int) = true := by
    decide +kernel
  obtain ⟨sequence, parsed, accepted⟩ := any_toOption_iff.mp accepted
  simp only [Bool.and_eq_true, beq_iff_eq] at accepted
  obtain ⟨⟨regions, named⟩, compiles⟩ := accepted
  obtain ⟨program, compiled, kind⟩ := any_toOption_iff.mp compiles
  have among : looping ∈ sequence.regions := by simp [regions]
  have enters : sequence.Enters looping := fun _ _ _ => Nat.zero_le _
  have repeats : (Memory.mk [] fun _ => 0).words Tag.repeatVariable = (0 : Int16).toInt :=
    rfl
  have takes := takes_total parsed compiled repeats
    (repeatVariable_not_mem_setup compiled) among enters rfl
  exact ⟨sequence, program, parsed, compiled, beq_iff_eq.mp kind, named ▸ takes⟩

end Program

end Pneumatic
