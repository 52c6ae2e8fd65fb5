import Pneumatic.Proofs.Notation.Shape
import Pneumatic.Proofs.Program.Counters

/-!
# Where transitions lead

A transition goes back to the regions that end at its step, the innermost first and as far as the
first endless one, or it goes on.  It goes back to an earlier case and on to the next one; so every
case it leads to exists, but for the one behind the last case of a sequence that comes to an end.
-/

namespace Pneumatic

open Tag (Naming)

/-! ## Back and on -/

namespace Transition

/-- The cases that a transition goes back to, that of the innermost region first. -/
def starts : Transition → List Nat
  | .jump _ => []
  | .loop start => [start]
  | .count _ _ start otherwise => start :: otherwise.starts

/-- Where a transition goes on once every region is left; an endless one is never left. -/
def onward? : Transition → Option Nat
  | .jump target => some target
  | .loop _ => none
  | .count _ _ _ otherwise => otherwise.onward?

theorem targets_eq (transition : Transition) :
    transition.targets = transition.starts ++ transition.onward?.toList := by
  induction transition with
  | jump target => rfl
  | loop start => rfl
  | count counter limit start otherwise ih => simp [targets, starts, onward?, ih]

theorem mem_targets {transition : Transition} {target : Nat} :
    target ∈ transition.targets ↔
      target ∈ transition.starts ∨ transition.onward? = some target := by
  rw [targets_eq, List.mem_append, Option.mem_toList]

end Transition

/-- The regions up to the first endless one. -/
def Region.upToEndless : List Region → List Region
  | [] => []
  | region :: rest => region :: if region.bound = .unbounded then [] else upToEndless rest

theorem Region.mem_of_mem_upToEndless {regions : List Region} {region : Region}
    (among : region ∈ upToEndless regions) : region ∈ regions := by
  induction regions with
  | nil => exact among
  | cons first rest ih =>
      rw [upToEndless] at among
      rcases List.mem_cons.mp among with rfl | later
      · exact List.mem_cons_self
      · split at later
        · contradiction
        · exact List.mem_cons_of_mem _ (ih later)

namespace Program

/-- Leaving regions, each of them counted or endless. -/
theorem Builder.leaveRegions_eq {counters : List (Nat × String)} {regions found : List Region}
    {after : Nat} {positions : List Nat}
    (foundEq : positions.map (regions[·]?) = found.map some)
    (known : ∀ position ∈ positions, ∀ region, regions[position]? = some region →
      region.bound.isCounted = true → (counters.lookup position).isSome = true) :
    (leaveRegions counters regions (.jump after) positions).starts =
      (Region.upToEndless found).map (caseNumber ·.first) ∧
    (leaveRegions counters regions (.jump after) positions).onward? =
      if found.any (·.bound == .unbounded) then none else some after := by
  induction positions generalizing found with
  | nil =>
      obtain rfl : found = [] := by simpa using foundEq.symm
      exact ⟨rfl, rfl⟩
  | cons position rest ih =>
      cases found with
      | nil => simp at foundEq
      | cons region others =>
          obtain ⟨here, foundEq⟩ := List.cons.inj foundEq
          rw [List.forall_mem_cons] at known
          obtain ⟨startsEq, onwardEq⟩ := ih foundEq known.2
          have counted := known.1 region here
          obtain ⟨first, last, bound, depth⟩ := region
          simp only [leaveRegions, here, Region.upToEndless, List.map_cons, List.any_cons]
          cases bound with
          | unbounded => exact ⟨rfl, rfl⟩
          | fixed count =>
              obtain ⟨counter, counterEq⟩ := Option.isSome_iff_exists.mp (counted rfl)
              simp [counterEq, Transition.starts, Transition.onward?, startsEq, onwardEq]
          | relative offset =>
              obtain ⟨counter, counterEq⟩ := Option.isSome_iff_exists.mp (counted rfl)
              simp [counterEq, Transition.starts, Transition.onward?, startsEq, onwardEq]

end Program

/-- Whether an endless region ends at a step. -/
def Sequence.loopsAt (sequence : Sequence) (index : Nat) : Bool :=
  sequence.regions.any fun region => region.last == index && region.bound == .unbounded

theorem Sequence.any_ending (sequence : Sequence) (index : Nat) :
    (sequence.ending index).any (·.bound == .unbounded) = sequence.loopsAt index := by
  rw [Bool.eq_iff_iff, loopsAt, List.any_eq_true, List.any_eq_true]
  simp only [ending, List.mem_filter, mem_regions, Bool.and_eq_true, and_assoc]

/-! ## The cases of a program -/

namespace Program

variable {source : String} {sequence : Sequence} {project : Option Project} {program : Program}
  {naming : Naming} {cases : List Case} {case : Case} {index : Nat}

/-- The numbers of the cases, in order. -/
def numbers (program : Program) : List Nat :=
  program.cases.map (·.number)

theorem Counted.numbers_eq (counted : Counted naming sequence program cases) :
    program.numbers = (List.range (sequence.length + 1)).map (10 * ·) := by
  rw [numbers, counted.all, List.map_cons, List.range_succ_eq_map, List.map_cons, List.map_map]
  congr 1
  apply List.ext_getElem?
  intro index
  rw [List.getElem?_map, List.getElem?_map]
  by_cases inside : index < sequence.length
  · have here := List.getElem?_eq_getElem (counted.length.symm ▸ inside)
    rw [here, List.getElem?_range inside, Option.map_some, Option.map_some,
      (counted.leaves index _ here).number]
    simp only [caseNumber, Function.comp_apply, Nat.succ_eq_add_one, Nat.mul_comm]
  · have outside := Nat.le_of_not_lt inside
    rw [List.getElem?_eq_none (counted.length.symm ▸ outside), List.getElem?_eq_none (by simpa)]
    rfl

theorem Counted.caseNumber_mem_numbers (counted : Counted naming sequence program cases)
    (inside : index < sequence.length) : caseNumber index ∈ program.numbers := by
  rw [counted.numbers_eq, List.mem_map]
  exact ⟨index + 1, List.mem_range.mpr (Nat.succ_lt_succ inside), Nat.mul_comm _ _⟩

theorem Counted.le_of_mem_numbers (counted : Counted naming sequence program cases) {number : Nat}
    (listed : number ∈ program.numbers) : number ≤ 10 * sequence.length := by
  rw [counted.numbers_eq, List.mem_map] at listed
  obtain ⟨step, inside, rfl⟩ := listed
  have := List.mem_range.mp inside
  omega

/-- The case of a step goes back to the regions that end there, or on to what comes after. -/
theorem Counted.next_eq (counted : Counted (.ofProject? project) sequence program cases)
    (compiled : compile sequence project = .ok program) (here : cases[index]? = some case) :
    case.next.starts =
        (Region.upToEndless (sequence.ending index)).map (caseNumber ·.first) ∧
      case.next.onward? = if sequence.loopsAt index then none else some (sequence.after index) := by
  obtain ⟨counters, nextEq, known⟩ := (counted.leaves index case here).next
  rw [nextEq, ← Sequence.any_ending]
  refine Builder.leaveRegions_eq (Sequence.regionsEndingAt_eq sequence index) ?_
  intro position among region found isCounted
  obtain ⟨tag, tagEq, -⟩ := exists_counterTag compiled (List.mem_of_getElem? found) isCounted
  rw [known position among region found, tagEq]
  rfl

theorem Counted.of_mem_starts (counted : Counted (.ofProject? project) sequence program cases)
    (compiled : compile sequence project = .ok program) (here : cases[index]? = some case)
    {start : Nat} (back : start ∈ case.next.starts) :
    ∃ region ∈ sequence.regions, region.last = index ∧ start = caseNumber region.first := by
  rw [(counted.next_eq compiled here).1] at back
  obtain ⟨region, among, rfl⟩ := List.mem_map.mp back
  obtain ⟨inTree, ends⟩ := List.mem_filter.mp (Region.mem_of_mem_upToEndless among)
  exact ⟨region, Sequence.mem_regions.mpr inTree, beq_iff_eq.mp ends, rfl⟩

theorem Counted.onward_eq_some_iff
    (counted : Counted (.ofProject? project) sequence program cases)
    (compiled : compile sequence project = .ok program) (here : cases[index]? = some case)
    {target : Nat} :
    case.next.onward? = some target ↔
      sequence.loopsAt index = false ∧ target = sequence.after index := by
  rw [(counted.next_eq compiled here).2]
  cases sequence.loopsAt index <;> simp [eq_comm]

theorem Counted.start_lt (counted : Counted (.ofProject? project) sequence program cases)
    (parsed : Sequence.parse source = .ok sequence)
    (compiled : compile sequence project = .ok program) (here : cases[index]? = some case)
    {start : Nat} (back : start ∈ case.next.starts) : start < case.number := by
  obtain ⟨region, among, rfl, rfl⟩ := counted.of_mem_starts compiled here back
  have before := Sequence.first_lt_last_of_parse parsed among
  rw [(counted.leaves _ case here).number, caseNumber, caseNumber]
  omega

theorem loopsAt_of_wrapped (parsed : Sequence.parse source = .ok sequence)
    (wrapped : sequence.wrapped = true) : sequence.loopsAt index = false := by
  rw [Sequence.loopsAt, Sequence.regions_of_wrapped parsed wrapped]
  rfl

/-- A target is the number of a case, or what would come behind the last case. -/
theorem Counted.mem_numbers_or (counted : Counted (.ofProject? project) sequence program cases)
    (compiled : compile sequence project = .ok program) (here : cases[index]? = some case)
    {target : Nat} (leads : target ∈ case.next.targets) :
    target ∈ program.numbers ∨
      index + 1 = sequence.length ∧ sequence.wrapped = false ∧ sequence.loopsAt index = false ∧
        case.next.onward? = some target ∧ target = 10 * (sequence.length + 1) := by
  have inside : index < sequence.length := by
    rw [← counted.length]
    exact (List.getElem?_eq_some_iff.mp here).1
  rcases Transition.mem_targets.mp leads with back | onward
  · obtain ⟨region, among, -, rfl⟩ := counted.of_mem_starts compiled here back
    have bounds := Sequence.bounds_of_mem_regions among
    exact .inl (counted.caseNumber_mem_numbers (Nat.lt_of_le_of_lt bounds.1 bounds.2))
  · obtain ⟨ends, rfl⟩ := (counted.onward_eq_some_iff compiled here).mp onward
    by_cases last : index + 1 = sequence.length
    · cases wrapped : sequence.wrapped with
      | true =>
          refine .inl ?_
          have wraps : sequence.after index = 0 := by simp [Sequence.after, last, wrapped]
          rw [wraps, counted.numbers_eq]
          exact List.mem_map.mpr ⟨0, by simp, rfl⟩
      | false =>
          have behind : sequence.after index = 10 * (sequence.length + 1) := by
            simp only [Sequence.after, last, wrapped, caseNumber, Nat.mul_comm, Bool.and_false,
              Bool.false_eq_true, if_false]
          exact .inr ⟨last, rfl, ends, onward, behind⟩
    · refine .inl ?_
      simp only [Sequence.after, last, decide_false, Bool.false_and, Bool.false_eq_true, if_false]
      exact counted.caseNumber_mem_numbers (by omega)

/-- Only the wrap leads to case zero. -/
theorem Counted.zero_mem_targets_iff
    (counted : Counted (.ofProject? project) sequence program cases)
    (parsed : Sequence.parse source = .ok sequence)
    (compiled : compile sequence project = .ok program) (here : cases[index]? = some case) :
    0 ∈ case.next.targets ↔ index + 1 = sequence.length ∧ sequence.wrapped = true := by
  have notBack : 0 ∉ case.next.starts := by
    intro back
    obtain ⟨region, -, -, zero⟩ := counted.of_mem_starts compiled here back
    simp [caseNumber] at zero
  rw [Transition.mem_targets, or_iff_right notBack, counted.onward_eq_some_iff compiled here,
    Sequence.after]
  by_cases wraps : index + 1 = sequence.length ∧ sequence.wrapped = true
  · simp [wraps, loopsAt_of_wrapped parsed wraps.2]
  · have plain : (decide (index + 1 = sequence.length) && sequence.wrapped) = false := by
      rw [Bool.eq_false_iff, ne_eq, Bool.and_eq_true, decide_eq_true_iff]
      exact wraps
    simp [plain, wraps, caseNumber]

/-- No transition leads astray.  Cases are numbered by tens, one behind case zero for each step.
A transition goes back to the first step of a region that ends at its own step, which comes before
it, and on to the next case, unless an endless region ends there; only the last case of a wrapped
sequence goes on to case zero instead.  So every target is the number of a case, but for where the
last case of a sequence goes on to that neither wraps nor ends in an endless region.  Up to some
four hundred million steps all of these are numbers of 32 bits. -/
theorem targets_of_compile (parsed : Sequence.parse source = .ok sequence)
    (compiled : compile sequence project = .ok program) :
    program.numbers = (List.range (sequence.length + 1)).map (10 * ·) ∧
    program.cases[0]?.map (·.next) = some (.jump 10) ∧
    (∀ index case, program.cases[index + 1]? = some case →
      (∀ start ∈ case.next.starts, start < case.number ∧
        ∃ region ∈ sequence.regions, region.last = index ∧ start = caseNumber region.first) ∧
      ∀ target, case.next.onward? = some target ↔ sequence.loopsAt index = false ∧
        target = if index + 1 = sequence.length ∧ sequence.wrapped = true then 0
          else caseNumber (index + 1)) ∧
    (∀ position case, program.cases[position]? = some case → ∀ target ∈ case.next.targets,
      target ∈ program.numbers ∨
        position = sequence.length ∧ sequence.wrapped = false ∧
          sequence.loopsAt (sequence.length - 1) = false ∧
          case.next.onward? = some target ∧ target = 10 * (sequence.length + 1)) ∧
    (∀ position case, program.cases[position]? = some case →
      (0 ∈ case.next.targets ↔ position = sequence.length ∧ sequence.wrapped = true)) ∧
    (sequence.length < UInt32.size / 10 - 2 → ∀ case ∈ program.cases,
      case.number < UInt32.size ∧ ∀ target ∈ case.next.targets, target < UInt32.size) := by
  obtain ⟨cases, counted⟩ := exists_counted_of_compile compiled
  have nonempty := Sequence.length_pos_of_parse parsed
  have start : program.cases[0]? = some ⟨0, none, program.setup, [], .jump 10⟩ := by
    rw [counted.all, List.getElem?_cons_zero]
  have behind (index : Nat) : program.cases[index + 1]? = cases[index]? := by
    rw [counted.all, List.getElem?_cons_succ]
  have listed : ∀ position case, program.cases[position]? = some case →
      ∀ target ∈ case.next.targets, target ∈ program.numbers ∨
        position = sequence.length ∧ sequence.wrapped = false ∧
          sequence.loopsAt (sequence.length - 1) = false ∧
          case.next.onward? = some target ∧ target = 10 * (sequence.length + 1) := by
    intro position case here target leads
    cases position with
    | zero =>
        obtain rfl := Option.some.inj (start.symm.trans here)
        obtain rfl := List.mem_singleton.mp leads
        exact .inl (counted.caseNumber_mem_numbers nonempty)
    | succ index =>
        rw [behind] at here
        refine (counted.mem_numbers_or compiled here leads).imp_right ?_
        rintro ⟨last, plain, ends, onward⟩
        rw [← last, Nat.add_sub_cancel]
        exact ⟨rfl, plain, ends, by rwa [last]⟩
  refine ⟨counted.numbers_eq, by rw [start]; rfl, ?_, listed, ?_, ?_⟩
  · intro index case here
    rw [behind] at here
    refine ⟨fun _ back => ⟨counted.start_lt parsed compiled here back,
      counted.of_mem_starts compiled here back⟩, fun target => ?_⟩
    rw [counted.onward_eq_some_iff compiled here, Sequence.after]
    simp only [Bool.and_eq_true, decide_eq_true_eq]
  · intro position case here
    cases position with
    | zero =>
        obtain rfl := Option.some.inj (start.symm.trans here)
        exact ⟨fun wraps => absurd (List.mem_singleton.mp wraps) (by decide),
          fun last => absurd last.1 (Nat.ne_of_lt nonempty)⟩
    | succ index =>
        rw [behind] at here
        exact counted.zero_mem_targets_iff parsed compiled here
  · intro short case among
    simp only [UInt32.size] at short ⊢
    obtain ⟨position, here⟩ := List.mem_iff_getElem?.mp among
    have number := counted.le_of_mem_numbers (List.mem_map_of_mem among)
    refine ⟨by omega, ?_⟩
    intro target leads
    rcases listed position case here target leads with known | ⟨-, -, -, -, rfl⟩
    · have := counted.le_of_mem_numbers known
      omega
    · omega

/-- The last case of a sequence that ends in a counted region. -/
theorem targets_of_compile_counted :
    ∃ sequence program case, Sequence.parse "A+,[B+,B-]^2" = .ok sequence ∧
      compile sequence none = .ok program ∧ program.cases[3]? = some case ∧
      program.numbers = [0, 10, 20, 30] ∧ case.next.targets = [20, 40] ∧
      (∀ start ∈ case.next.starts, start < case.number) ∧ case.next.onward? = some 40 := by
  have compiles : ((Sequence.parse "A+,[B+,B-]^2").toOption.any fun sequence =>
      sequence.length == 3 && !sequence.wrapped && !sequence.loopsAt 2 &&
      (compile sequence none).toOption.any fun program =>
        program.cases[3]?.any (·.next.targets == [20, 40])) = true := by
    decide +kernel
  obtain ⟨sequence, parsed, compiles⟩ := any_toOption_iff.mp compiles
  simp only [Bool.and_eq_true, beq_iff_eq, Bool.not_eq_true'] at compiles
  obtain ⟨⟨⟨length, plain⟩, ends⟩, compiles⟩ := compiles
  obtain ⟨program, compiled, compiles⟩ := any_toOption_iff.mp compiles
  obtain ⟨case, here, targets⟩ := Option.any_eq_true _ _ |>.mp compiles
  obtain ⟨numbers, -, next, -⟩ := targets_of_compile parsed compiled
  obtain ⟨back, onward⟩ := next 2 case here
  refine ⟨sequence, program, case, parsed, compiled, here, ?_, beq_iff_eq.mp targets,
    fun start among => (back start among).1, ?_⟩
  · rw [numbers, length]
    rfl
  · exact (onward 40).mpr ⟨ends, by simp [plain, caseNumber]⟩

end Program

end Pneumatic
