import Pneumatic.Proofs.Notation.Shape
import Pneumatic.Proofs.Run.Tour
import Pneumatic.Run.Walk
import Mathlib.Logic.Function.Iterate

/-!
# The walk of a run

A walk through the steps of a sequence, the repeat variable read whenever a region needs
it.  What such a read gives is chosen for each region.  The walk is on a tour at any
time, so it visits the steps of the unfolding.
-/

namespace Pneumatic.Run

/-- How a step is left when every question for the repeat variable is answered: the
regions that asked, the walk behind, and the next step. -/
inductive Walk.Answered (sequence : Sequence) (choice : Region → Int16) (index : Nat) :
    Walk.Leave → List Region → Walk → Option Nat → Prop where
  | go {walk : Walk} {next : Option Nat} :
      Answered sequence choice index (.go walk next) [] walk next
  | ask {walk after : Walk} {position : Nat} {rest : List Nat} {region : Region}
      {reads : List Region} {next : Option Nat} :
      sequence.regions[position]? = some region →
      Answered sequence choice index
        (walk.answer sequence index position rest (choice region).toInt) reads after next →
      Answered sequence choice index (.ask walk position rest) (region :: reads) after next

/-- The first visits of a run: the steps visited, the regions whose bounds were read, the
next step, and the walk.  Behind the end nothing happens. -/
inductive Visits (sequence : Sequence) (choice : Region → Int16) :
    Nat → List (Nat × Step) → List Region → Option Nat → Walk → Prop where
  | start : Visits sequence choice 0 [] [] (some 0) (.start sequence)
  | visit {count index : Nat} {visited : List (Nat × Step)} {reads more : List Region}
      {walk after : Walk} {step : Step} {next : Option Nat} :
      Visits sequence choice count visited reads (some index) walk →
      sequence.steps[index]? = some step →
      Walk.Answered sequence choice index (walk.advance sequence index) more after next →
      Visits sequence choice (count + 1) (visited ++ [(index, step)]) (reads ++ more) next after
  | rest {count : Nat} {visited : List (Nat × Step)} {reads : List Region} {walk : Walk} :
      Visits sequence choice count visited reads none walk →
      Visits sequence choice (count + 1) visited reads none walk

variable {sequence : Sequence} {choice : Region → Int16}

/-- A step is left in one way. -/
theorem Walk.Answered.unique {index : Nat} {leave : Walk.Leave} {reads reads' : List Region}
    {walk walk' : Walk} {next next' : Option Nat}
    (answered : Walk.Answered sequence choice index leave reads walk next)
    (answered' : Walk.Answered sequence choice index leave reads' walk' next') :
    reads = reads' ∧ walk = walk' ∧ next = next' := by
  induction answered generalizing reads' with
  | go =>
      cases answered'
      exact ⟨rfl, rfl, rfl⟩
  | ask found _ ih =>
      cases answered' with
      | ask found' rest =>
          rw [found, Option.some.injEq] at found'
          subst found'
          obtain ⟨rfl, rfl, rfl⟩ := ih rest
          exact ⟨rfl, rfl, rfl⟩

/-! ## A walk on a tour -/

/-- The counts of a walk are those of a tour, and a bound that is settled is the one that
was chosen.  The bounds that were read are settled, each after one read. -/
structure Tracks (sequence : Sequence) (choice : Region → Int16) (reads : List Region)
    (walk : Walk) (counts : Region → Nat) : Prop where
  completed : ∀ (position : Nat) (region : Region), sequence.regions[position]? = some region →
    walk.completed[position]? = some (counts region)
  bounds : ∀ (position : Nat) (region : Region), sequence.regions[position]? = some region →
    walk.bounds[position]? = some none ∨
      walk.bounds[position]? = some (some (region.bound.rounds (choice region)))
  settled : ∀ (position : Nat) (region : Region), sequence.regions[position]? = some region →
    region ∈ reads → walk.bounds[position]? = some (some (region.bound.rounds (choice region)))
  nodup : reads.Nodup

namespace Tracks

variable {reads : List Region} {walk : Walk} {counts : Region → Nat} {position : Nat}
  {region : Region}

theorem start : Tracks sequence choice [] (.start sequence) (fun _ => 0) := by
  refine ⟨?_, ?_, by simp, List.nodup_nil⟩
  · intro position region found
    obtain ⟨inside, -⟩ := List.getElem?_eq_some_iff.mp found
    simp [Walk.start, inside]
  · intro position region found
    obtain ⟨inside, -⟩ := List.getElem?_eq_some_iff.mp found
    exact .inl (by simp [Walk.start, inside])

theorem nodup_regions (sequence : Sequence) : sequence.regions.Nodup :=
  (List.mergeSort_perm _ _).nodup_iff.mpr (Node.nodup_regionsOf sequence.nodes 0 0)

/-- No region stands at two positions. -/
theorem other {position other : Nat} {region found : Region}
    (here : sequence.regions[position]? = some region)
    (there : sequence.regions[other]? = some found) (apart : other ≠ position) :
    found ≠ region := by
  rintro rfl
  obtain ⟨inside, hereEq⟩ := List.getElem?_eq_some_iff.mp here
  obtain ⟨otherInside, thereEq⟩ := List.getElem?_eq_some_iff.mp there
  apply apart
  exact (nodup_regions sequence).getElem_inj_iff.mp (thereEq.trans hereEq.symm)

theorem bounds_settle (tracks : Tracks sequence choice reads walk counts)
    (here : sequence.regions[position]? = some region) (passes : Option Nat) (other : Nat) :
    (walk.settle position passes).bounds[other]? =
      if other = position then some (some passes) else walk.bounds[other]? := by
  have inside : position < walk.bounds.length := by
    rcases tracks.bounds position region here with found | found <;>
      exact (List.getElem?_eq_some_iff.mp found).1
  rw [Walk.settle, List.getElem?_set]
  by_cases same : position = other
  · subst same
    simp [inside]
  · simp [same, Ne.symm same]

/-- Settling a bound as chosen, after a read or without one. -/
theorem settle {more : List Region} (tracks : Tracks sequence choice reads walk counts)
    (here : sequence.regions[position]? = some region)
    (asked : ∀ found ∈ more, found ∈ reads ∨ found = region) (nodup : more.Nodup) :
    Tracks sequence choice more
      (walk.settle position (region.bound.rounds (choice region))) counts := by
  refine ⟨tracks.completed, ?_, ?_, nodup⟩
  · intro other found there
    rw [tracks.bounds_settle here]
    split
    · next same =>
        subst same
        obtain rfl := Option.some.inj (here.symm.trans there)
        exact .inr rfl
    · exact tracks.bounds other found there
  · intro other found there membership
    rw [tracks.bounds_settle here]
    split
    · next same =>
        subst same
        obtain rfl := Option.some.inj (here.symm.trans there)
        rfl
    · next apart =>
        rcases asked found membership with before | now
        · exact tracks.settled other found there before
        · exact absurd now (Tracks.other here there apart)

/-- Setting the count of a region. -/
theorem set (tracks : Tracks sequence choice reads walk counts)
    (here : sequence.regions[position]? = some region) (value : Nat) :
    Tracks sequence choice reads
      { walk with completed := walk.completed.set position value }
      (Function.update counts region value) := by
  refine ⟨?_, tracks.bounds, tracks.settled, tracks.nodup⟩
  intro other found there
  have inside := (List.getElem?_eq_some_iff.mp (tracks.completed position region here)).1
  rw [List.getElem?_set]
  by_cases same : position = other
  · subst same
    obtain rfl := Option.some.inj (here.symm.trans there)
    simp [inside]
  · rw [if_neg same, Function.update_of_ne (Tracks.other here there (Ne.symm same))]
    exact tracks.completed other found there

theorem passes?_of_settled (tracks : Tracks sequence choice reads walk counts)
    (here : sequence.regions[position]? = some region)
    (known : region.bound.usesVariable = false ∨
      walk.bounds[position]? = some (some (region.bound.rounds (choice region)))) :
    walk.passes? sequence.regions position = some (region.bound.rounds (choice region)) := by
  unfold Walk.passes?
  rcases tracks.bounds position region here with unsettled | settled
  · rcases known with constant | settled
    · simp [unsettled, here, constant, Bound.rounds_of_not_usesVariable constant (choice region)]
    · simp [settled]
  · simp [settled]

theorem passes?_of_unsettled (here : sequence.regions[position]? = some region)
    (asks : region.bound.usesVariable = true)
    (unsettled : walk.bounds[position]? = some none) :
    walk.passes? sequence.regions position = none := by
  simp [Walk.passes?, unsettled, here, asks]

end Tracks

variable {reads : List Region} {walk : Walk} {counts : Region → Nat} {index : Nat}

/-- Leaving regions keeps a walk on its tour. -/
def Leaves (sequence : Sequence) (choice : Region → Int16) (index : Nat) (positions : List Nat)
    (regions : List Region) : Prop :=
  ∀ (reads : List Region) (walk : Walk) (counts : Region → Nat),
    Tracks sequence choice reads walk counts →
    ∃ (more : List Region) (after : Walk),
      Walk.Answered sequence choice index (walk.leave sequence index positions) more after
        (Tour.leave sequence choice index counts regions).1 ∧
      Tracks sequence choice (reads ++ more) after
        (Tour.leave sequence choice index counts regions).2

theorem leaves_nil : Leaves sequence choice index [] [] := by
  intro reads walk counts tracks
  rw [Walk.leave, Walk.beyond, Tour.leave, Tour.beyond]
  split
  · exact ⟨[], walk, .go, by simpa using tracks⟩
  · split
    · exact ⟨[], _, .go, by
        simpa using ⟨tracks.completed, tracks.bounds, tracks.settled, tracks.nodup⟩⟩
    · exact ⟨[], walk, .go, by simpa using tracks⟩

/-- Leaving a region whose passes are known. -/
theorem leaves_known {position : Nat} {region : Region} {positions : List Nat}
    {regions : List Region} (here : sequence.regions[position]? = some region)
    (rest : Leaves sequence choice index positions regions)
    (tracks : Tracks sequence choice reads walk counts)
    (known : region.bound.usesVariable = false ∨
      walk.bounds[position]? = some (some (region.bound.rounds (choice region)))) :
    ∃ (more : List Region) (after : Walk),
      Walk.Answered sequence choice index
        (walk.leave sequence index (position :: positions)) more after
        (Tour.leave sequence choice index counts (region :: regions)).1 ∧
      Tracks sequence choice (reads ++ more) after
        (Tour.leave sequence choice index counts (region :: regions)).2 := by
  have passes := tracks.passes?_of_settled here known
  have settled := tracks.settle here (fun _ membership => .inl membership) tracks.nodup
  rw [Walk.leave, Tour.leave, passes]
  cases rounds : region.bound.rounds (choice region) with
  | none =>
      rw [rounds] at settled
      simp only [here, Option.map_some, Option.getD_some]
      exact ⟨[], _, .go, by simpa using settled⟩
  | some total =>
      rw [rounds] at settled
      have counted := settled.completed position region here
      have next := settled.set here (counts region + 1)
      simp only [here, Option.map_some, Option.getD_some, Walk.count, counted]
      have counted' := next.completed position region here
      simp only [Function.update_self] at counted'
      simp only [counted', Option.getD_some]
      by_cases further : counts region + 1 < total
      · simp only [if_pos further]
        exact ⟨[], _, .go, by simpa using next⟩
      · simp only [if_neg further]
        have anew := next.set here 0
        rw [Function.update_idem] at anew
        exact rest reads _ _ anew

/-- Leaving a region and the regions around it. -/
theorem leaves_cons {position : Nat} {region : Region} {positions : List Nat}
    {regions : List Region} (here : sequence.regions[position]? = some region)
    (rest : Leaves sequence choice index positions regions) :
    Leaves sequence choice index (position :: positions) (region :: regions) := by
  intro reads walk counts tracks
  by_cases known : region.bound.usesVariable = false ∨
      walk.bounds[position]? = some (some (region.bound.rounds (choice region)))
  · exact leaves_known here rest tracks known
  · rw [not_or, Bool.not_eq_false] at known
    obtain ⟨asks, notSettled⟩ := known
    have unsettled := (tracks.bounds position region here).resolve_right notSettled
    have unread : region ∉ reads := by
      intro membership
      exact notSettled (tracks.settled position region here membership)
    have nodup : (reads ++ [region]).Nodup := by
      rw [List.nodup_append]
      refine ⟨tracks.nodup, List.nodup_singleton region, ?_⟩
      intro found membership asked askedMem
      rw [List.mem_singleton] at askedMem
      rintro rfl
      exact unread (askedMem ▸ membership)
    have asked : ∀ found ∈ reads ++ [region], found ∈ reads ∨ found = region := by
      intro found membership
      simpa using membership
    have settled := tracks.settle here asked nodup
    have now := settled.settled position region here (by simp)
    obtain ⟨more, after, answered, tracks'⟩ := leaves_known here rest settled (.inr now)
    refine ⟨region :: more, after, ?_, by simpa using tracks'⟩
    rw [Walk.leave, Tracks.passes?_of_unsettled here asks unsettled]
    apply Walk.Answered.ask here
    rw [Walk.answer, here, Option.map_some, Option.bind_some, Bound.passes_eq_rounds]
    exact answered

theorem leaves {positions : List Nat} {regions : List Region}
    (found : positions.map (sequence.regions[·]?) = regions.map some) :
    Leaves sequence choice index positions regions := by
  induction regions generalizing positions with
  | nil =>
      obtain rfl := List.map_eq_nil_iff.mp found
      exact leaves_nil
  | cons region regions ih =>
      obtain ⟨position, rest, rfl, here, restFound⟩ := List.map_eq_cons_iff.mp found
      exact leaves_cons here (ih restFound)

/-- Leaving a step keeps a walk on its tour. -/
theorem exists_answered (index : Nat) (tracks : Tracks sequence choice reads walk counts) :
    ∃ (more : List Region) (after : Walk),
      Walk.Answered sequence choice index (walk.advance sequence index) more after
        (Tour.hop sequence choice (some index, counts)).1 ∧
      Tracks sequence choice (reads ++ more) after
        (Tour.hop sequence choice (some index, counts)).2 :=
  leaves (Sequence.regionsEndingAt_eq sequence index) reads walk counts tracks

/-! ## The visits of a run -/

/-- A run is on the tour from the first step. -/
theorem Visits.tracks {count : Nat} {visited : List (Nat × Step)} {next : Option Nat}
    (visits : Visits sequence choice count visited reads next walk) :
    ∃ counts : Region → Nat, Tracks sequence choice reads walk counts ∧
      (next, counts) = (Tour.hop sequence choice)^[count] Tour.start ∧
      ∀ later, Tour.visits sequence choice (count + later) Tour.start =
        visited ++ Tour.visits sequence choice later (next, counts) := by
  induction visits with
  | start => exact ⟨_, Tracks.start, rfl, by simp [Tour.start]⟩
  | @visit count index visited reads more walk after step next _ here answered ih =>
      obtain ⟨counts, tracks, tourEq, visitsEq⟩ := ih
      obtain ⟨more', after', answered', tracks'⟩ := exists_answered index tracks
      obtain ⟨rfl, rfl, rfl⟩ := answered.unique answered'
      refine ⟨_, tracks', ?_, ?_⟩
      · rw [Function.iterate_succ_apply', ← tourEq]
      · intro later
        rw [Nat.add_right_comm, Nat.add_assoc, visitsEq (later + 1), Tour.visits]
        simp [here]
  | @rest count visited reads walk _ ih =>
      obtain ⟨counts, tracks, tourEq, visitsEq⟩ := ih
      refine ⟨counts, tracks, ?_, ?_⟩
      · rw [Function.iterate_succ_apply', ← tourEq]
        rfl
      · intro later
        rw [Nat.add_right_comm, Nat.add_assoc, visitsEq (later + 1), Tour.visits_none,
          Tour.visits_none]

/-- As long as a run has not ended, each of its visits was made. -/
theorem Visits.length {count index : Nat} {visited : List (Nat × Step)}
    (visits : Visits sequence choice count visited reads (some index) walk) :
    visited.length = count := by
  generalize nextEq : some index = next at visits
  induction visits generalizing index with
  | start => rfl
  | visit before _ _ ih =>
      rw [List.length_append, ih rfl, List.length_singleton]
  | rest _ _ => contradiction

theorem iterate_hop_lt (choice : Region → Int16) (nonempty : sequence.nodes ≠ [])
    (solid : ∀ node ∈ sequence.nodes, node.Solid) (count : Nat) :
    ∀ index ∈ ((Tour.hop sequence choice)^[count] Tour.start).1, index < sequence.length := by
  induction count with
  | zero =>
      have length : 0 < sequence.length :=
        List.length_pos_iff.mpr (Node.stepsOf_ne_nil solid nonempty)
      simpa [Tour.start] using length
  | succ count ih =>
      rw [Function.iterate_succ_apply']
      exact Tour.hop_lt nonempty solid ih

theorem exists_visits (choice : Region → Int16) (nonempty : sequence.nodes ≠ [])
    (solid : ∀ node ∈ sequence.nodes, node.Solid) (count : Nat) :
    ∃ visited reads next walk, Visits sequence choice count visited reads next walk := by
  induction count with
  | zero => exact ⟨_, _, _, _, .start⟩
  | succ count ih =>
      obtain ⟨visited, reads, next, walk, visits⟩ := ih
      cases next with
      | none => exact ⟨_, _, _, _, .rest visits⟩
      | some index =>
          obtain ⟨counts, tracks, tourEq, -⟩ := visits.tracks
          have inside := iterate_hop_lt choice nonempty solid count
          rw [← tourEq] at inside
          obtain ⟨more, after, answered, -⟩ := exists_answered index tracks
          exact ⟨_, _, _, _, .visit visits (List.getElem?_eq_getElem (inside index rfl)) answered⟩

theorem full_unfolding (nonempty : sequence.nodes ≠ [])
    (solid : ∀ node ∈ sequence.nodes, node.Solid) : (sequence.unfolding choice).Full := by
  have full := Tour.full_unfoldAll choice sequence.nodes 0 0 solid nonempty
  rw [Sequence.unfolding]
  split
  · exact Course.full_forever full
  · exact full

theorem isEnding_unfolding (solid : ∀ node ∈ sequence.nodes, node.Solid) :
    (sequence.unfolding choice).isEnding = true ↔
      (∀ region ∈ sequence.regions, region.bound ≠ .unbounded) ∧ sequence.wrapped = false := by
  have regions : (∀ region ∈ sequence.regions, region.bound ≠ .unbounded) ↔
      ∀ region ∈ Node.regionsOf 0 0 sequence.nodes, region.bound ≠ .unbounded := by
    simp only [Sequence.mem_regions]
  rw [regions, ← Tour.isEnding_unfoldAll choice sequence.nodes 0 0 solid, Sequence.unfolding]
  cases sequence.wrapped with
  | true => simp [Course.isEnding_forever]
  | false => simp

/-- The first visits of a run are the first steps of the unfolding. -/
theorem Visits.eq_take (nonempty : sequence.nodes ≠ [])
    (solid : ∀ node ∈ sequence.nodes, node.Solid) {count : Nat} {visited : List (Nat × Step)}
    {next : Option Nat} (visits : Visits sequence choice count visited reads next walk) :
    visited = (sequence.unfolding choice).take count := by
  obtain ⟨counts, -, -, visitsEq⟩ := visits.tracks
  have now := visitsEq 0
  rw [Nat.add_zero, Tour.visits_start solid nonempty, Tour.visits, List.append_nil] at now
  exact now.symm

/-- A run has ended at some time exactly if its unfolding ends. -/
theorem exists_end_iff (nonempty : sequence.nodes ≠ [])
    (solid : ∀ node ∈ sequence.nodes, node.Solid) :
    (∃ count visited reads walk, Visits sequence choice count visited reads none walk) ↔
      (sequence.unfolding choice).isEnding = true := by
  constructor
  · rintro ⟨count, visited, reads, walk, visits⟩
    by_contra endless
    rw [Bool.not_eq_true] at endless
    have lengths := Course.length_take_of_full (full_unfolding nonempty solid) endless
    have now := lengths count
    have later := lengths (count + 1)
    rw [← visits.eq_take nonempty solid] at now
    rw [← (Visits.rest visits).eq_take nonempty solid] at later
    omega
  · intro ends
    obtain ⟨count, countEq⟩ : ∃ count, ((sequence.unfolding choice).take count).length < count := by
      cases course : sequence.unfolding choice with
      | cycles lead round => simp [course, Course.isEnding] at ends
      | ends elements => exact ⟨elements.length + 1, by simp [Course.take]⟩
    obtain ⟨visited, reads, next, walk, visits⟩ := exists_visits choice nonempty solid count
    cases next with
    | none => exact ⟨_, _, _, _, visits⟩
    | some index =>
        rw [← visits.eq_take nonempty solid, visits.length] at countEq
        omega

/-- A run that has ended has visited the whole unfolding. -/
theorem Visits.unfolding_eq (nonempty : sequence.nodes ≠ [])
    (solid : ∀ node ∈ sequence.nodes, node.Solid) {count : Nat} {visited : List (Nat × Step)}
    (visits : Visits sequence choice count visited reads none walk) :
    sequence.unfolding choice = .ends visited := by
  have ends := (exists_end_iff nonempty solid).mp ⟨count, visited, reads, walk, visits⟩
  have later (more : Nat) : Visits sequence choice (count + more) visited reads none walk := by
    induction more with
    | zero => exact visits
    | succ more ih => exact .rest ih
  cases course : sequence.unfolding choice with
  | cycles lead round => simp [course, Course.isEnding] at ends
  | ends elements =>
      have visitedEq := (later elements.length).eq_take nonempty solid
      rw [course, Course.take, List.take_of_length_le (Nat.le_add_left _ _)] at visitedEq
      rw [visitedEq]

/-- What is visited are steps of the sequence. -/
theorem Visits.getElem? {count : Nat} {visited : List (Nat × Step)} {next : Option Nat}
    (visits : Visits sequence choice count visited reads next walk) :
    ∀ visit ∈ visited, sequence.steps[visit.1]? = some visit.2 := by
  induction visits with
  | start => simp
  | visit _ here _ ih => exact List.forall_mem_append.mpr ⟨ih, List.forall_mem_singleton.mpr here⟩
  | rest _ ih => exact ih

/-- The run of a sequence that was read visits exactly the steps of its unfolding, in
order.  It ends if no region is without end and the sequence is not wrapped.  The bound
of a region is read at most once, and then kept. -/
theorem visits_follow_unfolding {source : String} (parsed : Sequence.parse source = .ok sequence)
    (choice : Region → Int16) :
    (∀ count, ∃ visited reads next walk, Visits sequence choice count visited reads next walk) ∧
    (∀ count visited reads next walk, Visits sequence choice count visited reads next walk →
      visited = (sequence.unfolding choice).take count ∧ reads.Nodup ∧
      ∀ (position : Nat) (region : Region), sequence.regions[position]? = some region →
        region ∈ reads →
          walk.bounds[position]? = some (some (region.bound.rounds (choice region)))) ∧
    ((∃ count visited reads walk, Visits sequence choice count visited reads none walk) ↔
      (∀ region ∈ sequence.regions, region.bound ≠ .unbounded) ∧ sequence.wrapped = false) := by
  have nonempty := Sequence.nodes_ne_nil_of_parse parsed
  have solid := Sequence.solid_of_parse parsed
  refine ⟨exists_visits choice nonempty solid, ?_, ?_⟩
  · intro count visited reads next walk visits
    obtain ⟨counts, tracks, -, -⟩ := visits.tracks
    exact ⟨visits.eq_take nonempty solid, tracks.nodup, tracks.settled⟩
  · exact (exists_end_iff nonempty solid).trans (isEnding_unfolding solid)

/-- With the repeat variable at two, a region runs twice between the steps around it. -/
theorem visits_follow_unfolding_twice :
    ∃ sequence visited reads next walk, Sequence.parse "A+,[B+,B-]^N,A-" = .ok sequence ∧
      Visits sequence (fun _ => 2) 7 visited reads next walk ∧
      visited.map (·.1) = [0, 1, 2, 1, 2, 3] := by
  have indices : ((Sequence.parse "A+,[B+,B-]^N,A-").toOption.any fun sequence =>
      ((sequence.unfolding fun _ => 2).take 7).map (·.1) == [0, 1, 2, 1, 2, 3]) = true := by
    decide +kernel
  obtain ⟨sequence, parsed, indices⟩ := any_toOption_iff.mp indices
  obtain ⟨exist, follow, -⟩ := visits_follow_unfolding parsed fun _ => 2
  obtain ⟨visited, reads, next, walk, visits⟩ := exist 7
  refine ⟨sequence, visited, reads, next, walk, parsed, visits, ?_⟩
  rw [(follow 7 visited reads next walk visits).1]
  exact beq_iff_eq.mp indices

end Pneumatic.Run
