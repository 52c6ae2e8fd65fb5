import Pneumatic.Proofs.Notation.Shape
import Pneumatic.Proofs.Run.Tour
import Mathlib.Data.List.Pairwise
import Mathlib.Logic.Function.Iterate

/-!
# The passes of a region

Regions that are read lie one behind the other, but for an endless one around them all.  So a
tour comes to every step that no endless region ends before, it finishes every pass of the
regions on its way, and it never counts more passes of a region than it makes.
-/

namespace Pneumatic

/-! ## Regions one behind the other -/

namespace Sequence

/-- The regions of a sequence lie one behind the other, and one without end may lie around them
all. -/
structure Flat (sequence : Sequence) (inner outer : List Region) : Prop where
  regions : Node.regionsOf 0 0 sequence.nodes = inner ++ outer
  pairwise : inner.Pairwise fun before behind => before.last < behind.first
  around : ∀ region ∈ outer,
    region.first = 0 ∧ region.last = sequence.length - 1 ∧ region.bound = .unbounded

theorem exists_flat_of_parse {source : String} {sequence : Sequence}
    (parsed : parse source = .ok sequence) : ∃ inner outer, sequence.Flat inner outer := by
  rcases flat_of_parse parsed with flat | ⟨items, nodesEq, flat, -⟩
  · exact ⟨_, [], (List.append_nil _).symm, Node.pairwise_regionsOf_flat flat 0 0, nofun⟩
  · have regionsEq := Node.regionsOf_region 0 0 .unbounded items []
    rw [← nodesEq] at regionsEq
    refine ⟨_, _, regionsEq, Node.pairwise_regionsOf_flat flat 1 0, ?_⟩
    intro region among
    rw [Node.regionsOf, List.append_nil] at among
    obtain ⟨rfl, positive⟩ := Node.eq_own among
    simp [Node.own, length, steps, nodesEq, Node.stepsOf, Node.steps]

namespace Flat

variable {sequence : Sequence} {inner outer : List Region} {own other : Region}

theorem mem_inner (flat : sequence.Flat inner outer)
    (among : own ∈ Node.regionsOf 0 0 sequence.nodes) (bounded : own.bound ≠ .unbounded) :
    own ∈ inner := by
  rw [flat.regions] at among
  rcases List.mem_append.mp among with inside | around
  · exact inside
  · exact absurd (flat.around own around).2.2 bounded

/-- Another region lies before, behind, or around one with a bound. -/
theorem apart (flat : sequence.Flat inner outer)
    (among : own ∈ Node.regionsOf 0 0 sequence.nodes) (bounded : own.bound ≠ .unbounded)
    (otherAmong : other ∈ Node.regionsOf 0 0 sequence.nodes) (differ : own ≠ other) :
    other.last < own.first ∨ own.last < other.first ∨
      other.last = sequence.length - 1 ∧ other.bound = .unbounded := by
  have inside := flat.mem_inner among bounded
  rw [flat.regions] at otherAmong
  rcases List.mem_append.mp otherAmong with otherInside | around
  · have symmetric : inner.Pairwise fun left right =>
        right.last < left.first ∨ left.last < right.first := flat.pairwise.imp .inr
    have : Std.Symm fun left right : Region =>
        right.last < left.first ∨ left.last < right.first := ⟨fun _ _ => Or.symm⟩
    rcases symmetric.forall inside otherInside differ with before | behind
    · exact .inl before
    · exact .inr (.inl behind)
  · exact .inr (.inr (flat.around other around).2)

theorem mem_ending {index : Nat} :
    own ∈ sequence.ending index ↔
      own ∈ Node.regionsOf 0 0 sequence.nodes ∧ own.last = index := by
  rw [ending, List.mem_filter, beq_iff_eq]

/-- Behind a region with a bound, only regions without end are left with it. -/
theorem ending_eq_cons (flat : sequence.Flat inner outer)
    (among : own ∈ Node.regionsOf 0 0 sequence.nodes) (bounded : own.bound ≠ .unbounded) :
    ∃ rest, sequence.ending own.last = own :: rest ∧ ∀ other ∈ rest, other.bound = .unbounded := by
  obtain ⟨before, behind, innerEq⟩ := List.append_of_mem (flat.mem_inner among bounded)
  have pairwise := flat.pairwise
  rw [innerEq, List.pairwise_append, List.pairwise_cons] at pairwise
  obtain ⟨-, ⟨later, -⟩, earlier⟩ := pairwise
  have regions := flat.regions
  rw [innerEq] at regions
  have ownBounds := Node.bounds_of_mem_regionsOf among
  have noneBefore : before.filter (·.last == own.last) = [] := by
    rw [List.filter_eq_nil_iff]
    intro other inBefore ends
    have apart := earlier other inBefore own List.mem_cons_self
    have same := beq_iff_eq.mp ends
    omega
  have noneBehind : behind.filter (·.last == own.last) = [] := by
    rw [List.filter_eq_nil_iff]
    intro other inBehind ends
    have inRegions : other ∈ Node.regionsOf 0 0 sequence.nodes := by simp [regions, inBehind]
    have bounds := Node.bounds_of_mem_regionsOf inRegions
    have apart := later other inBehind
    have same := beq_iff_eq.mp ends
    omega
  refine ⟨outer.filter (·.last == own.last), ?_, ?_⟩
  · rw [ending, regions, List.filter_append, List.filter_append, noneBefore,
      List.filter_cons, if_pos (beq_self_eq_true own.last), noneBehind]
    rfl
  · intro other inOuter
    exact (flat.around other (List.mem_of_mem_filter inOuter)).2.2

/-- No region ends within a region with a bound. -/
theorem ending_eq_nil (flat : sequence.Flat inner outer)
    (among : own ∈ Node.regionsOf 0 0 sequence.nodes) (bounded : own.bound ≠ .unbounded)
    {index : Nat} (inside : own.first ≤ index) (before : index < own.last) :
    sequence.ending index = [] := by
  rw [List.eq_nil_iff_forall_not_mem]
  intro other ends
  obtain ⟨otherAmong, rfl⟩ := mem_ending.mp ends
  have differ : own ≠ other := by
    rintro rfl
    omega
  have bounds := Node.bounds_of_mem_regionsOf otherAmong
  have ownBounds := Node.bounds_of_mem_regionsOf among
  have apart := flat.apart among bounded otherAmong differ
  rw [length, steps] at apart
  omega

end Flat

end Sequence

theorem Bound.ne_unbounded_of_rounds {bound : Bound} {value : Int16} {total : Nat}
    (counted : bound.rounds value = some total) : bound ≠ .unbounded := by
  rintro rfl
  contradiction

theorem Bound.ne_unbounded_of_isCounted {bound : Bound} (counted : bound.isCounted = true) :
    bound ≠ .unbounded := by
  rintro rfl
  contradiction

/-! ## Where a tour comes -/

namespace Tour

variable {sequence : Sequence} {choice : Region → Int16} {inner outer : List Region}
  {counts : Region → Nat} {tour tour' tour'' : Tour} {own : Region} {total : Nat}

/-- A tour comes to another one. -/
def Reaches (sequence : Sequence) (choice : Region → Int16) (tour tour' : Tour) : Prop :=
  ∃ count, (hop sequence choice)^[count] tour = tour'

theorem Reaches.refl (tour : Tour) : Reaches sequence choice tour tour := ⟨0, rfl⟩

theorem Reaches.trans (first : Reaches sequence choice tour tour')
    (second : Reaches sequence choice tour' tour'') : Reaches sequence choice tour tour'' := by
  obtain ⟨count, rfl⟩ := first
  obtain ⟨more, rfl⟩ := second
  exact ⟨more + count, Function.iterate_add_apply _ more count tour⟩

theorem Reaches.hop (sequence : Sequence) (choice : Region → Int16) (tour : Tour) :
    Reaches sequence choice tour (Tour.hop sequence choice tour) := ⟨1, rfl⟩

/-- A tour goes on where no region ends. -/
theorem reaches_of_ending_eq_nil {first steps : Nat} (within : first + steps < sequence.length)
    (plain : ∀ index, first ≤ index → index < first + steps → sequence.ending index = []) :
    Reaches sequence choice (some first, counts) (some (first + steps), counts) := by
  induction steps with
  | zero => exact .refl _
  | succ steps ih =>
      refine (ih (by omega) fun index inside before => plain index inside (by omega)).trans ?_
      have onward := Reaches.hop sequence choice (some (first + steps), counts)
      rw [Tour.hop, plain _ (by omega) (by omega), leave, beyond, if_pos (by omega)] at onward
      exact onward

/-- Leaving a region with passes left goes through it once more. -/
theorem hop_of_lt (flat : sequence.Flat inner outer)
    (among : own ∈ Node.regionsOf 0 0 sequence.nodes)
    (counted : own.bound.rounds (choice own) = some total) (further : counts own + 1 < total) :
    hop sequence choice (some own.last, counts) =
      (some own.first, Function.update counts own (counts own + 1)) := by
  obtain ⟨rest, ending, -⟩ := flat.ending_eq_cons among (Bound.ne_unbounded_of_rounds counted)
  simp only [hop, ending, leave, counted, if_pos further]

/-- A tour that comes to the end of a region goes through it for the rest of its passes. -/
theorem reaches_last_pass (flat : sequence.Flat inner outer)
    (among : own ∈ Node.regionsOf 0 0 sequence.nodes)
    (counted : own.bound.rounds (choice own) = some total) {left done : Nat}
    (split : done + (left + 1) = total) :
    Reaches sequence choice (some own.last, Function.update counts own done)
      (some own.last, Function.update counts own (total - 1)) := by
  induction left generalizing done with
  | zero =>
      obtain rfl : done = total - 1 := by omega
      exact .refl _
  | succ left ih =>
      have again := Reaches.hop sequence choice (some own.last, Function.update counts own done)
      rw [hop_of_lt flat among counted (by rw [Function.update_self]; omega),
        Function.update_self, Function.update_idem] at again
      have bounds := Node.bounds_of_mem_regionsOf among
      have through : Reaches sequence choice
          (some own.first, Function.update counts own (done + 1))
          (some (own.first + (own.last - own.first)), Function.update counts own (done + 1)) := by
        refine reaches_of_ending_eq_nil ?_ ?_
        · rw [Sequence.length, Sequence.steps]
          omega
        · intro index inside before
          exact flat.ending_eq_nil among (Bound.ne_unbounded_of_rounds counted) inside (by omega)
      rw [Nat.add_sub_cancel' bounds.2.1] at through
      exact (again.trans through).trans (ih (by omega))

/-- A tour comes to every step that no endless region ends before, with no pass counted. -/
theorem reaches_step (flat : sequence.Flat inner outer) {index : Nat}
    (within : index < sequence.length)
    (open' : ∀ other ∈ Node.regionsOf 0 0 sequence.nodes, other.bound = .unbounded →
      index ≤ other.last) :
    Reaches sequence choice start (some index, fun _ => 0) := by
  induction index with
  | zero => exact .refl _
  | succ index ih =>
      have here : Reaches sequence choice start (some index, fun _ => 0) := by
        refine ih (by omega) ?_
        intro other among unbounded
        have later := open' other among unbounded
        omega
      have onward : beyond sequence index = some (index + 1) := if_pos within
      -- The regions that end here have a bound, so there is at most one.
      cases ending : sequence.ending index with
      | nil =>
          have moves := Reaches.hop sequence choice (some index, fun _ => 0)
          rw [Tour.hop, ending, leave, onward] at moves
          exact here.trans moves
      | cons own rest =>
          have ends : own ∈ sequence.ending index := by simp [ending]
          obtain ⟨among, rfl⟩ := Sequence.Flat.mem_ending.mp ends
          have noneEndless : ∀ other ∈ sequence.ending own.last, other.bound ≠ .unbounded := by
            intro other otherEnds unbounded
            obtain ⟨otherAmong, same⟩ := Sequence.Flat.mem_ending.mp otherEnds
            have later := open' other otherAmong unbounded
            omega
          have bounded := noneEndless own ends
          obtain ⟨total, counted⟩ := Option.ne_none_iff_exists'.mp
            (mt (Bound.rounds_eq_none_iff own.bound (choice own)).mp bounded)
          obtain ⟨left, rfl⟩ := Bound.rounds_pos counted
          obtain ⟨others, othersEq, endless⟩ := flat.ending_eq_cons among bounded
          obtain rfl : others = [] := by
            rw [List.eq_nil_iff_forall_not_mem]
            intro other inOthers
            exact noneEndless other (by simp [othersEq, inOthers]) (endless other inOthers)
          have passes : Reaches sequence choice
              (some own.last, Function.update (fun _ => 0) own 0)
              (some own.last, Function.update (fun _ => 0) own left) :=
            reaches_last_pass flat among counted (Nat.zero_add _)
          have moves := Reaches.hop sequence choice
            (some own.last, Function.update (fun _ => 0) own left)
          have through : ¬ left + 1 < left + 1 := Nat.lt_irrefl _
          simp only [Tour.hop, othersEq, leave, counted, Function.update_self, if_neg through,
            Function.update_idem, onward, update_own] at moves passes
          exact (here.trans passes).trans moves

/-- A tour comes to the last pass of every region that no endless region ends before. -/
theorem reaches_last_pass_of_open (flat : sequence.Flat inner outer)
    (among : own ∈ Node.regionsOf 0 0 sequence.nodes)
    (counted : own.bound.rounds (choice own) = some total)
    (open' : ∀ other ∈ Node.regionsOf 0 0 sequence.nodes, other.bound = .unbounded →
      own.first ≤ other.last) :
    Reaches sequence choice start
      (some own.last, Function.update (fun _ => 0) own (total - 1)) := by
  have bounded := Bound.ne_unbounded_of_rounds counted
  have bounds := Node.bounds_of_mem_regionsOf among
  obtain ⟨left, rfl⟩ := Bound.rounds_pos counted
  have here : Reaches sequence choice start (some own.last, fun _ => 0) := by
    refine reaches_step flat ?_ ?_
    · rw [Sequence.length, Sequence.steps]
      omega
    · intro other otherAmong unbounded
      have later := open' other otherAmong unbounded
      have differ : own ≠ other := by
        rintro rfl
        contradiction
      have apart := flat.apart among bounded otherAmong differ
      have otherBounds := Node.bounds_of_mem_regionsOf otherAmong
      rw [Sequence.length, Sequence.steps] at apart
      omega
  have passes : Reaches sequence choice
      (some own.last, Function.update (fun _ => 0) own 0)
      (some own.last, Function.update (fun _ => 0) own (left + 1 - 1)) :=
    reaches_last_pass flat among counted (Nat.zero_add _)
  rw [update_own rfl] at passes
  exact here.trans passes

/-! ## What a tour keeps -/

/-- The passes that are finished of a region are fewer than it has. -/
def Below (choice : Region → Int16) (counts : Region → Nat) : Prop :=
  ∀ region total, region.bound.rounds (choice region) = some total → counts region < total

theorem below_zero (choice : Region → Int16) : Below choice fun _ => 0 := by
  intro region total counted
  obtain ⟨less, rfl⟩ := Bound.rounds_pos counted
  exact Nat.succ_pos less

theorem Below.update (below : Below choice counts) {count : Nat}
    (fits : ∀ total, own.bound.rounds (choice own) = some total → count < total) :
    Below choice (Function.update counts own count) := by
  intro region total counted
  by_cases same : region = own
  · subst same
    rw [Function.update_self]
    exact fits total counted
  · rw [Function.update_of_ne same]
    exact below region total counted

theorem Below.reset (below : Below choice counts) (own : Region) :
    Below choice (Function.update counts own 0) :=
  below.update fun _ counted => below_zero choice own _ counted

theorem Below.leave (below : Below choice counts) {index : Nat} (regions : List Region) :
    Below choice (leave sequence choice index counts regions).2 := by
  induction regions generalizing counts with
  | nil => exact below
  | cons region rest ih =>
      rw [Tour.leave]
      split
      · exact below
      · next total counted =>
          split
          · next further =>
              refine below.update ?_
              intro other otherCounted
              obtain rfl := Option.some.inj (counted.symm.trans otherCounted)
              exact further
          · exact ih (below.reset region)

theorem Below.hop (below : Below choice tour.2) : Below choice (hop sequence choice tour).2 := by
  rcases tour with ⟨_ | index, counts⟩
  · exact below
  · exact Below.leave below (sequence.ending index)

/-- No endless region ends before the step to visit. -/
def Open (sequence : Sequence) (tour : Tour) : Prop :=
  ∀ index ∈ tour.1, ∀ other ∈ Node.regionsOf 0 0 sequence.nodes, other.bound = .unbounded →
    index ≤ other.last

/-- Leaving regions leads to the start of one of them, or beyond them all if none is endless. -/
theorem leave_cases (sequence : Sequence) (choice : Region → Int16) (index : Nat)
    (counts : Region → Nat) (regions : List Region) :
    (∃ region ∈ regions, (leave sequence choice index counts regions).1 = some region.first) ∨
      (∀ region ∈ regions, region.bound ≠ .unbounded) ∧
        (leave sequence choice index counts regions).1 = beyond sequence index := by
  induction regions generalizing counts with
  | nil => exact .inr ⟨nofun, rfl⟩
  | cons region rest ih =>
      rw [leave]
      split
      · exact .inl ⟨region, List.mem_cons_self, rfl⟩
      · next total counted =>
          split
          · exact .inl ⟨region, List.mem_cons_self, rfl⟩
          · rcases ih (Function.update counts region 0) with
              ⟨found, among, back⟩ | ⟨bounded, onward⟩
            · exact .inl ⟨found, List.mem_cons_of_mem _ among, back⟩
            · exact .inr ⟨List.forall_mem_cons.mpr
                ⟨Bound.ne_unbounded_of_rounds counted, bounded⟩, onward⟩

theorem Open.hop (isOpen : Open sequence tour) : Open sequence (hop sequence choice tour) := by
  rcases tour with ⟨_ | index, counts⟩
  · exact isOpen
  · intro next goes other among unbounded
    have later := isOpen index rfl other among unbounded
    rcases leave_cases sequence choice index counts (sequence.ending index) with
      ⟨region, ends, back⟩ | ⟨bounded, onward⟩
    · obtain ⟨inRegions, rfl⟩ := Sequence.Flat.mem_ending.mp ends
      obtain rfl := Option.some.inj (back.symm.trans goes)
      have bounds := Node.bounds_of_mem_regionsOf inRegions
      omega
    · rw [Tour.hop, onward, beyond] at goes
      split at goes
      · have further : other.last ≠ index := by
          intro same
          exact bounded other (Sequence.Flat.mem_ending.mpr ⟨among, same⟩) unbounded
        obtain rfl := Option.some.inj goes
        omega
      · split at goes
        · obtain rfl := Option.some.inj goes
          omega
        · contradiction

/-- The passes that are finished are those of a region with a bound around the step to visit. -/
def Within (sequence : Sequence) (tour : Tour) : Prop :=
  ∀ region, tour.2 region ≠ 0 → region ∈ Node.regionsOf 0 0 sequence.nodes ∧
    region.bound ≠ .unbounded ∧ ∃ index ∈ tour.1, region.first ≤ index ∧ index ≤ region.last

theorem within_of_eq_zero {next : Option Nat} (zero : ∀ region, counts region = 0) :
    Within sequence (next, counts) :=
  fun region counted => absurd (zero region) counted

/-- Two regions with a bound are not around the same step. -/
theorem Within.eq (flat : sequence.Flat inner outer) {index : Nat}
    (within : Within sequence (some index, counts))
    (among : own ∈ Node.regionsOf 0 0 sequence.nodes) (bounded : own.bound ≠ .unbounded)
    (inside : own.first ≤ index) (before : index ≤ own.last) {region : Region}
    (counted : counts region ≠ 0) : region = own := by
  obtain ⟨inRegions, otherBounded, here, equal, starts, ends⟩ := within region counted
  obtain rfl := Option.some.inj equal
  by_contra differ
  have apart := flat.apart among bounded inRegions (Ne.symm differ)
  simp only [otherBounded, and_false, or_false] at apart
  omega

/-- Leaving endless regions counts no passes. -/
theorem leave_of_unbounded {index : Nat} {regions : List Region}
    (endless : ∀ region ∈ regions, region.bound = .unbounded) :
    (leave sequence choice index counts regions).2 = counts := by
  cases regions with
  | nil => rfl
  | cons region rest =>
      rw [List.forall_mem_cons] at endless
      simp only [leave, endless.1, Bound.rounds]

theorem Within.hop (flat : sequence.Flat inner outer) (within : Within sequence tour) :
    Within sequence (hop sequence choice tour) := by
  rcases tour with ⟨_ | index, counts⟩
  · exact within
  by_cases bounded : ∃ own ∈ sequence.ending index, own.bound ≠ .unbounded
  · obtain ⟨own, ends, bounded⟩ := bounded
    obtain ⟨among, rfl⟩ := Sequence.Flat.mem_ending.mp ends
    have bounds := Node.bounds_of_mem_regionsOf among
    have alone {region : Region} (counted : counts region ≠ 0) : region = own :=
      within.eq flat among bounded bounds.2.1 (Nat.le_refl _) counted
    obtain ⟨rest, ending, endless⟩ := flat.ending_eq_cons among bounded
    rw [Tour.hop, ending, leave]
    split
    · next unbounded => exact absurd ((Bound.rounds_eq_none_iff _ _).mp unbounded) bounded
    · split
      · -- Once more through the region, whose passes are the only ones counted.
        intro region counted
        have same : region = own := by
          by_contra differ
          simp only [Function.update_of_ne differ] at counted
          exact differ (alone counted)
        subst same
        exact ⟨among, bounded, region.first, rfl, Nat.le_refl _, bounds.2.1⟩
      · intro region counted
        rw [leave_of_unbounded endless] at counted
        by_cases same : region = own
        · simp [same] at counted
        · rw [Function.update_of_ne same] at counted
          exact absurd (alone counted) same
  · push Not at bounded
    intro region counted
    rw [Tour.hop, leave_of_unbounded bounded] at counted
    obtain ⟨among, hasBound, here, equal, starts, ends⟩ := within region counted
    obtain rfl := Option.some.inj equal
    have bounds := Node.bounds_of_mem_regionsOf among
    have further : region.last ≠ index := by
      rintro rfl
      exact hasBound (bounded region (Sequence.Flat.mem_ending.mpr ⟨among, rfl⟩))
    have noEnding : sequence.ending index = [] :=
      flat.ending_eq_nil among hasBound starts (by omega)
    refine ⟨among, hasBound, index + 1, ?_, by omega, by omega⟩
    have inside : index + 1 < sequence.length := by
      rw [Sequence.length, Sequence.steps]
      omega
    rw [Tour.hop, noEnding, leave, beyond, if_pos inside]
    rfl

theorem below_iterate (sequence : Sequence) (choice : Region → Int16) (count : Nat) :
    Below choice ((hop sequence choice)^[count] start).2 :=
  Function.Iterate.rec (fun tour : Tour => Below choice tour.2) (below_zero choice)
    (fun _ => Below.hop) count

theorem open_iterate (sequence : Sequence) (choice : Region → Int16) (count : Nat) :
    Open sequence ((hop sequence choice)^[count] start) := by
  refine Function.Iterate.rec (Open sequence) ?_ (fun _ => Open.hop) count
  intro index here other _ _
  obtain rfl := Option.some.inj here
  exact Nat.zero_le _

theorem within_iterate (flat : sequence.Flat inner outer) (choice : Region → Int16)
    (count : Nat) : Within sequence ((hop sequence choice)^[count] start) :=
  Function.Iterate.rec (Within sequence) (within_of_eq_zero fun _ => rfl)
    (fun _ => Within.hop flat) count

/-! ## The passes that a tour counts -/

/-- What leaving regions makes of their counts, in order: a pass more, and none again after the
last pass. -/
def marks (choice : Region → Int16) (counts : Region → Nat) : List Region → List (Region × Nat)
  | [] => []
  | region :: rest =>
      match region.bound.rounds (choice region) with
      | none => []
      | some total =>
          (region, counts region + 1) ::
            if counts region + 1 < total then []
            else (region, 0) :: marks choice (Function.update counts region 0) rest

/-- What a hop makes of the counts. -/
def marked (sequence : Sequence) (choice : Region → Int16) : Tour → List (Region × Nat)
  | (none, _) => []
  | (some index, counts) => marks choice counts (sequence.ending index)

/-- No pass is counted beyond the last one. -/
theorem Below.of_mem_marks {regions : List Region} {count : Nat} (below : Below choice counts)
    (among : (own, count) ∈ marks choice counts regions) :
    own ∈ regions ∧ ∃ total, own.bound.rounds (choice own) = some total ∧ count ≤ total := by
  induction regions generalizing counts with
  | nil => contradiction
  | cons region rest ih =>
      rw [marks] at among
      split at among
      · contradiction
      · next total counted =>
          rcases List.mem_cons.mp among with passed | again
          · obtain ⟨rfl, rfl⟩ := Prod.mk.inj passed
            exact ⟨List.mem_cons_self, total, counted, below own total counted⟩
          · split at again
            · contradiction
            · rcases List.mem_cons.mp again with reset | behind
              · obtain ⟨rfl, rfl⟩ := Prod.mk.inj reset
                exact ⟨List.mem_cons_self, total, counted, Nat.zero_le _⟩
              · obtain ⟨inRest, fits⟩ := ih (below.reset region) behind
                exact ⟨List.mem_cons_of_mem _ inRest, fits⟩

/-- A tour only marks regions that end where it is. -/
theorem Below.of_mem_marked {count : Nat} (below : Below choice tour.2)
    (among : (own, count) ∈ marked sequence choice tour) :
    own ∈ sequence.regions ∧ tour.1 = some own.last ∧
      ∃ total, own.bound.rounds (choice own) = some total ∧ count ≤ total := by
  rcases tour with ⟨_ | index, counts⟩
  · contradiction
  · obtain ⟨ends, fits⟩ := Below.of_mem_marks below among
    obtain ⟨inNodes, rfl⟩ := Sequence.Flat.mem_ending.mp ends
    exact ⟨Sequence.mem_regions.mpr inNodes, rfl, fits⟩

/-- At the end of its last pass, a region has all its passes counted. -/
theorem mem_marked_last_pass (flat : sequence.Flat inner outer)
    (among : own ∈ Node.regionsOf 0 0 sequence.nodes)
    (counted : own.bound.rounds (choice own) = some total) :
    (own, total) ∈
      marked sequence choice (some own.last, Function.update counts own (total - 1)) := by
  obtain ⟨rest, ending, -⟩ := flat.ending_eq_cons among (Bound.ne_unbounded_of_rounds counted)
  obtain ⟨left, rfl⟩ := Bound.rounds_pos counted
  simp [marked, ending, marks, counted]

end Tour

end Pneumatic
