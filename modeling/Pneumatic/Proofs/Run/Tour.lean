import Pneumatic.Proofs.Notation.Regions
import Pneumatic.Proofs.Run.Unfolding
import Mathlib.Logic.Function.Basic

/-!
# A tour of the steps

The index of the step to visit and, for each region, the passes finished.  Leaving a step
leaves the regions that end there, from the innermost to the outermost.  A tour from
the first step visits the steps of the unfolding in order, since nodes that are entered
with the counts of their regions at zero are left with them at zero.
-/

namespace Pneumatic

/-- The next step to visit, none at the end, and the passes finished of each region. -/
abbrev Tour := Option Nat × (Region → Nat)

namespace Tour

variable (sequence : Sequence) (choice : Region → Int16)

/-- The step that follows when every region that ends at a step is left. -/
def beyond (index : Nat) : Option Nat :=
  if index + 1 < sequence.length then some (index + 1)
  else if sequence.wrapped then some 0
  else none

/-- Leave regions, innermost first. -/
def leave (index : Nat) (counts : Region → Nat) : List Region → Tour
  | [] => (beyond sequence index, counts)
  | region :: rest =>
      match region.bound.rounds (choice region) with
      | none => (some region.first, counts)
      | some total =>
          if counts region + 1 < total then
            (some region.first, Function.update counts region (counts region + 1))
          else leave index (Function.update counts region 0) rest

/-- Visit the next step and leave it. -/
def hop : Tour → Tour
  | (none, counts) => (none, counts)
  | (some index, counts) => leave sequence choice index counts (sequence.ending index)

/-- Before the first step. -/
def start : Tour := (some 0, fun _ => 0)

/-- The steps of the next visits. -/
def visits : Nat → Tour → List (Nat × Step)
  | 0, _ => []
  | count + 1, tour =>
      match tour.1.bind fun index => sequence.steps[index]?.map (index, ·) with
      | none => []
      | some visit => visit :: visits count (hop sequence choice tour)

/-- The visits from one tour on are a course and then those from another. -/
def Follows (tour : Tour) (course : Course (Nat × Step)) (tour' : Tour) : Prop :=
  ∀ count, visits sequence choice count tour =
    course.takeThen count fun left => visits sequence choice left tour'

/-- Nodes stand at a place of a sequence: their steps are the steps there, and their
regions end there before the regions around them. -/
structure Stands (nodes : List Node) (depth first : Nat) (outer : List Region) : Prop where
  steps : ∀ offset < (Node.stepsOf nodes).length,
    sequence.steps[first + offset]? = (Node.stepsOf nodes)[offset]?
  ending : ∀ offset < (Node.stepsOf nodes).length,
    sequence.ending (first + offset) =
      (Node.regionsOf depth first nodes).filter (·.last == first + offset) ++
        if offset + 1 = (Node.stepsOf nodes).length then outer else []

variable {sequence choice} {tour tour' tour'' : Tour} {course more : Course (Nat × Step)}

theorem Follows.refl (tour : Tour) : Follows sequence choice tour (.ends []) tour := by
  intro count
  simp [Course.takeThen]

theorem Follows.append (first : Follows sequence choice tour course tour')
    (second : Follows sequence choice tour' more tour'') :
    Follows sequence choice tour (course.append more) tour'' := by
  intro count
  rw [Course.takeThen_append, first count]
  congr 1
  funext left
  exact second left

/-- What leads back to the same tour goes on for ever. -/
theorem Follows.forever (full : course.Full) (back : Follows sequence choice tour course tour) :
    Follows sequence choice tour course.forever tour' := by
  cases course with
  | cycles lead round => exact back
  | ends elements =>
      intro count
      induction count using Nat.strongRecOn with
      | ind count ih =>
          cases count with
          | zero => simp [visits, Course.forever, Course.takeThen, Course.take]
          | succ count =>
              have one : 1 ≤ elements.length := List.length_pos_iff.mpr full
              rw [back (count + 1)]
              simp only [Course.takeThen, Course.forever, Course.take, List.nil_append] at ih ⊢
              rw [ih (count + 1 - elements.length) (by omega), List.replicate_succ,
                List.flatten_cons, List.take_append,
                Course.take_flatten_replicate elements (by omega : _ ≤ count)]

/-- Entering a step that stands in the sequence visits it. -/
theorem Follows.visit {index : Nat} {found : Step} {counts : Region → Nat}
    (stands : sequence.steps[index]? = some found) :
    Follows sequence choice (some index, counts) (.ends [(index, found)])
      (leave sequence choice index counts (sequence.ending index)) := by
  intro count
  cases count with
  | zero => rfl
  | succ count => simp [visits, stands, Course.takeThen, hop]

/-- Leaving a region with passes left goes through it for the rest of them, and then leaves
it with its count at zero. -/
theorem Follows.rounds {region : Region} {index total : Nat} {outer : List Region}
    {counts : Region → Nat} (counted : region.bound.rounds (choice region) = some total)
    (pass : ∀ done, Follows sequence choice
      (some region.first, Function.update counts region done) course
      (leave sequence choice index (Function.update counts region done) (region :: outer)))
    (left done : Nat) (split : done + (left + 1) = total) :
    Follows sequence choice (some region.first, Function.update counts region done)
      (course.times (left + 1))
      (leave sequence choice index (Function.update counts region 0) outer) := by
  induction left generalizing done with
  | zero =>
      have once := pass done
      have through : ¬ done + 1 < total := by omega
      simp only [leave, counted, Function.update_self, if_neg through, Function.update_idem]
        at once
      exact once.append (.refl _)
  | succ left ih =>
      have once := pass done
      have again : done + 1 < total := by omega
      simp only [leave, counted, Function.update_self, if_pos again, Function.update_idem]
        at once
      exact once.append (ih (done + 1) (by omega))

/-! ## Nodes at their place -/

variable {node : Node} {nodes rest : List Node} {depth first : Nat} {outer : List Region}

theorem last_lt_of_mem_regions {region : Region} (membership : region ∈ node.regions depth first) :
    region.last < first + node.steps.length := by
  have inList : region ∈ Node.regionsOf depth first [node] := by
    simpa [Node.regionsOf] using membership
  have bounds := Node.bounds_of_mem_regionsOf inList
  simp only [Node.stepsOf, List.append_nil] at bounds
  exact bounds.2.2.1

/-- The node in front stands where all stand; the regions around all end with it only if
nothing is behind it. -/
theorem Stands.head (solid : ∀ node ∈ rest, node.Solid)
    (stands : Stands sequence (node :: rest) depth first outer) :
    Stands sequence [node] depth first (if rest = [] then outer else []) := by
  constructor
  · intro offset inside
    simp only [Node.stepsOf, List.append_nil] at inside ⊢
    rw [stands.steps offset (by simp only [Node.stepsOf, List.length_append]; omega), Node.stepsOf,
      List.getElem?_append_left inside]
  · intro offset inside
    simp only [Node.stepsOf, List.append_nil] at inside ⊢
    rw [stands.ending offset (by simp only [Node.stepsOf, List.length_append]; omega)]
    have behind : (Node.regionsOf depth (first + node.steps.length) rest).filter
        (·.last == first + offset) = [] := by
      rw [List.filter_eq_nil_iff]
      intro region membership
      have bounds := Node.bounds_of_mem_regionsOf membership
      simp only [beq_iff_eq]
      omega
    simp only [Node.regionsOf, List.filter_append, behind, List.append_nil, Node.stepsOf,
      List.length_append]
    congr 1
    by_cases alone : rest = []
    · simp [alone, Node.stepsOf]
    · obtain ⟨next, more, rfl⟩ := List.exists_cons_of_ne_nil alone
      have positive := List.length_pos_iff.mpr ((solid next (by simp)).steps_ne_nil)
      have early : ¬ offset + 1 = node.steps.length + (Node.stepsOf (next :: more)).length := by
        simp only [Node.stepsOf, List.length_append]
        omega
      simp [alone, early]

/-- The nodes behind stand behind the steps of the node in front. -/
theorem Stands.tail (stands : Stands sequence (node :: rest) depth first outer) :
    Stands sequence rest depth (first + node.steps.length) outer := by
  constructor
  · intro offset inside
    rw [Nat.add_assoc, stands.steps _ (by simp only [Node.stepsOf, List.length_append]; omega),
      Node.stepsOf, List.getElem?_append_right (Nat.le_add_right _ _), Nat.add_sub_cancel_left]
  · intro offset inside
    rw [Nat.add_assoc, stands.ending _ (by simp only [Node.stepsOf, List.length_append]; omega)]
    have before : (node.regions depth first).filter
        (·.last == first + (node.steps.length + offset)) = [] := by
      rw [List.filter_eq_nil_iff]
      intro region membership
      have bound := last_lt_of_mem_regions membership
      simp only [beq_iff_eq]
      omega
    simp only [Node.regionsOf, List.filter_append, before, List.nil_append, Node.stepsOf,
      List.length_append, Nat.add_assoc, Nat.add_left_cancel_iff]

/-- The nodes of a region stand where it stands, and it is the innermost region around
them. -/
theorem Stands.body {bound : Bound} {body : List Node} (nonempty : Node.stepsOf body ≠ [])
    (stands : Stands sequence [.region bound body] depth first outer) :
    Stands sequence body (depth + 1) first (Node.own depth first bound body :: outer) := by
  have length : 0 < (Node.stepsOf body).length := List.length_pos_iff.mpr nonempty
  constructor
  · intro offset inside
    have here := stands.steps offset
    simp only [Node.stepsOf, Node.steps, List.append_nil] at here
    exact here inside
  · intro offset inside
    have here := stands.ending offset
    simp only [Node.stepsOf, Node.steps, List.append_nil] at here
    rw [here inside, Node.regionsOf_region, if_pos length]
    simp only [Node.regionsOf, List.append_nil, List.filter_append, List.append_assoc]
    congr 1
    by_cases atEnd : offset + 1 = (Node.stepsOf body).length
    · have last : first + (Node.stepsOf body).length - 1 = first + offset := by omega
      simp [Node.own, atEnd, last]
    · have other : ¬ first + (Node.stepsOf body).length - 1 = first + offset := by omega
      simp [Node.own, atEnd, other]

/-! ## The tour of nodes -/

/-- Something comes of solid nodes. -/
theorem full_unfoldAll (choice : Region → Int16) (nodes : List Node) : ∀ depth first : Nat,
    (∀ node ∈ nodes, node.Solid) → nodes ≠ [] → (Node.unfoldAll choice depth first nodes).Full := by
  induction nodes using Node.forestInduction with
  | nil =>
      intro depth first _ nonempty
      contradiction
  | step found rest ih =>
      intro depth first solid _
      rw [List.forall_mem_cons] at solid
      refine Course.full_append (by simp [Node.unfold, Course.Full]) ?_
      by_cases alone : rest = []
      · exact .inr (by rw [alone, Node.unfoldAll])
      · exact .inl (ih depth _ solid.2 alone)
  | region bound body rest bodyIH restIH =>
      intro depth first solid _
      rw [List.forall_mem_cons] at solid
      refine Course.full_append ?_ ?_
      · cases solid.1 with
        | region nonempty bodySolid =>
            have bodySome : body ≠ [] := by
              rintro rfl
              contradiction
            have full := bodyIH (depth + 1) first bodySolid bodySome
            simp only [Node.unfold]
            split
            · next counted =>
                obtain ⟨less, rfl⟩ := Bound.rounds_pos counted
                exact Course.full_times full less
            · exact Course.full_forever full
      · by_cases alone : rest = []
        · exact .inr (by rw [alone, Node.unfoldAll])
        · exact .inl (restIH depth _ solid.2 alone)

theorem update_own {counts : Region → Nat} {region : Region} (zero : counts region = 0) :
    Function.update counts region 0 = counts := by
  rw [← zero, Function.update_eq_self]

/-- Entering nodes at their place with no pass counted visits their unfolding, and then
their last step is left for the regions around them. -/
def Tours (sequence : Sequence) (choice : Region → Int16) (nodes : List Node) : Prop :=
  ∀ (depth first : Nat) (outer : List Region) (counts : Region → Nat),
    (∀ node ∈ nodes, node.Solid) → Stands sequence nodes depth first outer → nodes ≠ [] →
    (∀ region ∈ Node.regionsOf depth first nodes, counts region = 0) →
    Follows sequence choice (some first, counts) (Node.unfoldAll choice depth first nodes)
      (leave sequence choice (first + (Node.stepsOf nodes).length - 1) counts outer)

/-- The tour of a node goes on with the tour of the nodes behind it. -/
theorem Tours.cons (head : Tours sequence choice [node]) (tail : Tours sequence choice rest) :
    Tours sequence choice (node :: rest) := by
  intro depth first outer counts solid stands _ zero
  rw [List.forall_mem_cons] at solid
  have zeroHead : ∀ region ∈ Node.regionsOf depth first [node], counts region = 0 := by
    intro region membership
    apply zero
    simp only [Node.regionsOf, List.append_nil] at membership
    simp [Node.regionsOf, membership]
  have front := head depth first _ counts (by simpa using solid.1) (stands.head solid.2)
    (by simp) zeroHead
  simp only [Node.unfoldAll, Node.stepsOf, List.append_nil] at front
  by_cases alone : rest = []
  · subst alone
    simpa [Node.unfoldAll, Node.stepsOf] using front
  · have positive := List.length_pos_iff.mpr (solid.1.steps_ne_nil)
    have restSome := List.length_pos_iff.mpr (Node.stepsOf_ne_nil solid.2 alone)
    have further : first + node.steps.length - 1 + 1 < sequence.length := by
      have next := stands.tail.steps 0 restSome
      rw [Nat.add_zero, List.getElem?_eq_getElem restSome, List.getElem?_eq_some_iff] at next
      obtain ⟨inside, -⟩ := next
      rw [Sequence.length]
      omega
    have place : first + node.steps.length - 1 + 1 = first + node.steps.length := by omega
    rw [if_neg alone, leave, beyond, if_pos further, place] at front
    have back := tail depth (first + node.steps.length) outer counts solid.2 stands.tail alone
      (fun region membership => zero region (by simp [Node.regionsOf, membership]))
    simp only [Course.append_nil, Node.unfoldAll, Node.stepsOf, List.length_append] at front back ⊢
    rw [← Nat.add_assoc]
    exact front.append back

theorem Tours.step (found : Step) : Tours sequence choice [.step found] := by
  intro depth first outer counts _ stands _ _
  have here := stands.steps 0 (by simp [Node.stepsOf, Node.steps])
  have ending := stands.ending 0 (by simp [Node.stepsOf, Node.steps])
  simp only [Nat.add_zero, Node.regionsOf, Node.regions, List.append_nil, List.filter_nil,
    List.nil_append, Node.stepsOf, Node.steps, List.length_cons, List.length_nil, Nat.zero_add,
    ↓reduceIte] at ending
  have visit : Follows sequence choice (some _, counts) _ _ := Follows.visit here
  rw [Nat.add_zero, ending] at visit
  simpa [Node.unfoldAll, Node.unfold, Node.stepsOf, Node.steps] using visit

/-- The tour of a region goes through its body once for each of its passes. -/
theorem Tours.region {bound : Bound} {body : List Node} (inside : Tours sequence choice body) :
    Tours sequence choice [.region bound body] := by
  intro depth first outer counts solid stands _ zero
  rw [List.forall_mem_singleton] at solid
  cases solid with
  | region stepsSome bodySolid =>
      let own := Node.own depth first bound body
      have length : 0 < (Node.stepsOf body).length := List.length_pos_iff.mpr stepsSome
      have bodySome : body ≠ [] := by
        rintro rfl
        contradiction
      have regionsEq : Node.regionsOf depth first [.region bound body] =
          Node.regionsOf (depth + 1) first body ++ [own] := by
        rw [Node.regionsOf_region, if_pos length]
        rfl
      have ownZero : counts own = 0 := zero own (by simp [regionsEq])
      -- Counting passes of the region touches no region of its body.
      have pass (done : Nat) : Follows sequence choice
          (some own.first, Function.update counts own done)
          (Node.unfoldAll choice (depth + 1) first body)
          (leave sequence choice (first + (Node.stepsOf body).length - 1)
            (Function.update counts own done) (own :: outer)) := by
        apply inside (depth + 1) first (own :: outer) _ bodySolid (stands.body stepsSome) bodySome
        intro region membership
        have bounds := Node.bounds_of_mem_regionsOf membership
        have other : region ≠ own := by
          rintro rfl
          simp only [own, Node.own] at bounds
          omega
        rw [Function.update_of_ne other]
        exact zero region (by simp [regionsEq, membership])
      have begins : (some first, counts) = (some own.first, Function.update counts own 0) := by
        rw [update_own ownZero]
        rfl
      have unfoldEq : Node.unfoldAll choice depth first [.region bound body] =
          (own.bound.rounds (choice own)).elim
            (Node.unfoldAll choice (depth + 1) first body).forever
            (Node.unfoldAll choice (depth + 1) first body).times := by
        rw [Node.unfoldAll, Node.unfoldAll, Course.append_nil, Node.unfold]
        simp only [own, Node.own]
        split <;> simp only [*, Option.elim]
      have lengthEq : Node.stepsOf [.region bound body] = Node.stepsOf body := by
        simp [Node.stepsOf, Node.steps]
      rw [unfoldEq, lengthEq, begins]
      cases counted : own.bound.rounds (choice own) with
      | none =>
          have once := pass 0
          rw [leave, counted, update_own ownZero] at once
          rw [update_own ownZero]
          exact once.forever (full_unfoldAll choice body _ _ bodySolid bodySome)
      | some total =>
          obtain ⟨less, rfl⟩ := Bound.rounds_pos counted
          have rounds := Follows.rounds counted pass less 0 (by omega)
          rw [update_own ownZero] at rounds ⊢
          exact rounds

theorem tours (sequence : Sequence) (choice : Region → Int16) (nodes : List Node) :
    Tours sequence choice nodes := by
  induction nodes using Node.forestInduction with
  | nil =>
      intro depth first outer counts _ _ nonempty
      contradiction
  | step found rest ih => exact (Tours.step found).cons ih
  | region bound body rest bodyIH restIH => exact (Tours.region bodyIH).cons restIH

/-! ## The tour of a sequence -/

theorem stands_whole (sequence : Sequence) : Stands sequence sequence.nodes 0 0 [] := by
  constructor
  · intro offset _
    rw [Nat.zero_add]
    rfl
  · intro offset _
    simp [Sequence.ending]

theorem visits_none (count : Nat) (counts : Region → Nat) :
    visits sequence choice count (none, counts) = [] := by
  cases count <;> rfl

/-- A tour from the first step visits the steps of the unfolding. -/
theorem visits_start (solid : ∀ node ∈ sequence.nodes, node.Solid) (nonempty : sequence.nodes ≠ [])
    (count : Nat) :
    visits sequence choice count start = (sequence.unfolding choice).take count := by
  have around := tours sequence choice sequence.nodes 0 0 [] (fun _ => 0) solid
    (stands_whole sequence) nonempty (fun _ _ => rfl)
  have length := List.length_pos_iff.mpr (Node.stepsOf_ne_nil solid nonempty)
  have atEnd : ¬ 0 + (Node.stepsOf sequence.nodes).length - 1 + 1 < sequence.length := by
    rw [Sequence.length, Sequence.steps]
    omega
  rw [leave, beyond, if_neg atEnd] at around
  rw [Sequence.unfolding]
  cases wrapped : sequence.wrapped with
  | true =>
      rw [wrapped, if_pos rfl] at around
      have endless : Follows sequence choice start
          (Node.unfoldAll choice 0 0 sequence.nodes).forever (none, fun _ => 0) :=
        Follows.forever (full_unfoldAll choice _ 0 0 solid nonempty) around
      rw [endless count]
      simp only [visits_none, Course.takeThen_nil, ↓reduceIte]
  | false =>
      rw [wrapped, if_neg Bool.false_ne_true] at around
      have once : Follows sequence choice start (Node.unfoldAll choice 0 0 sequence.nodes)
          (none, fun _ => 0) := around
      rw [once count]
      simp only [visits_none, Course.takeThen_nil, Bool.false_eq_true, ↓reduceIte]

theorem leave_lt {index : Nat} {regions : List Region} {counts : Region → Nat}
    (nonempty : sequence.nodes ≠ []) (solid : ∀ node ∈ sequence.nodes, node.Solid)
    (inside : ∀ region ∈ regions, region.first < sequence.length) :
    ∀ next ∈ (leave sequence choice index counts regions).1, next < sequence.length := by
  induction regions generalizing counts with
  | nil =>
      intro next goes
      have length : 0 < sequence.length :=
        List.length_pos_iff.mpr (Node.stepsOf_ne_nil solid nonempty)
      simp only [leave, beyond, Option.mem_def] at goes
      split at goes
      · next further => simpa [← Option.some.inj goes] using further
      · split at goes
        · simpa [← Option.some.inj goes] using length
        · contradiction
  | cons region rest ih =>
      rw [List.forall_mem_cons] at inside
      rw [leave]
      split
      · simpa using inside.1
      · split
        · simpa using inside.1
        · exact ih inside.2

/-- A tour stays within the steps. -/
theorem hop_lt (nonempty : sequence.nodes ≠ []) (solid : ∀ node ∈ sequence.nodes, node.Solid)
    (inside : ∀ index ∈ tour.1, index < sequence.length) :
    ∀ index ∈ (hop sequence choice tour).1, index < sequence.length := by
  rcases tour with ⟨_ | index, counts⟩
  · exact inside
  · apply leave_lt nonempty solid
    intro region membership
    have bounds := Node.bounds_of_mem_regionsOf (List.mem_of_mem_filter membership)
    rw [Sequence.length, Sequence.steps]
    omega

/-- The unfolding of solid nodes ends exactly if no region is without end. -/
theorem isEnding_unfoldAll (choice : Region → Int16) (nodes : List Node) : ∀ depth first : Nat,
    (∀ node ∈ nodes, node.Solid) →
    ((Node.unfoldAll choice depth first nodes).isEnding = true ↔
      ∀ region ∈ Node.regionsOf depth first nodes, region.bound ≠ .unbounded) := by
  induction nodes using Node.forestInduction with
  | nil =>
      intro depth first _
      simp [Node.unfoldAll, Course.isEnding, Node.regionsOf]
  | step found rest ih =>
      intro depth first solid
      rw [List.forall_mem_cons] at solid
      rw [Node.unfoldAll, Course.isEnding_append, Node.unfold, Course.isEnding, Bool.true_and,
        ih _ _ solid.2]
      rfl
  | region bound body rest bodyIH restIH =>
      intro depth first solid
      rw [List.forall_mem_cons] at solid
      cases solid.1 with
      | region nonempty bodySolid =>
          have length : 0 < (Node.stepsOf body).length := List.length_pos_iff.mpr nonempty
          rw [Node.unfoldAll, Course.isEnding_append, Bool.and_eq_true, restIH _ _ solid.2,
            Node.regionsOf_region, if_pos length]
          simp only [List.forall_mem_append, List.forall_mem_singleton, Node.own, Node.steps]
          rw [← and_assoc]
          refine and_congr ?_ Iff.rfl
          rw [Node.unfold]
          cases counted : bound.rounds
              (choice ⟨first, first + (Node.stepsOf body).length - 1, bound, depth⟩) with
          | none =>
              obtain rfl := (Bound.rounds_eq_none_iff bound _).mp counted
              simp [Course.isEnding_forever]
          | some total =>
              have counts : bound ≠ .unbounded := by
                rintro rfl
                contradiction
              obtain ⟨less, rfl⟩ := Bound.rounds_pos counted
              simp [Course.isEnding_times, bodyIH _ _ bodySolid, counts]

/-- Every step of nodes whose unfolding ends comes at some time. -/
theorem exists_mem_of_unfoldAll (choice : Region → Int16) (nodes : List Node) :
    ∀ (depth first : Nat) (elements : List (Nat × Step)),
      Node.unfoldAll choice depth first nodes = .ends elements →
        ∀ step ∈ Node.stepsOf nodes, ∃ index, (index, step) ∈ elements := by
  induction nodes using Node.forestInduction with
  | nil =>
      intro depth first elements _ step among
      simp [Node.stepsOf] at among
  | step found rest ih =>
      intro depth first elements ends step among
      obtain ⟨left, right, leftEq, rightEq, rfl⟩ := Course.append_eq_ends_iff.mp ends
      obtain rfl := Course.ends.inj leftEq
      rcases List.mem_cons.mp among with rfl | later
      · exact ⟨first, by simp⟩
      · obtain ⟨index, comes⟩ := ih _ _ _ rightEq step later
        exact ⟨index, List.mem_append_right _ comes⟩
  | region bound body rest bodyIH restIH =>
      intro depth first elements ends step among
      obtain ⟨left, right, leftEq, rightEq, rfl⟩ := Course.append_eq_ends_iff.mp ends
      rcases List.mem_append.mp among with inside | later
      · rw [Node.unfold] at leftEq
        split at leftEq
        · next counted =>
            obtain ⟨less, rfl⟩ := Bound.rounds_pos counted
            obtain ⟨round, others, roundEq, rfl⟩ := Course.of_times_eq_ends leftEq
            obtain ⟨index, comes⟩ := bodyIH _ _ _ roundEq step inside
            exact ⟨index, by simp [comes]⟩
        · have endless := Course.isEnding_forever (Node.unfoldAll choice (depth + 1) first body)
          rw [leftEq] at endless
          contradiction
      · obtain ⟨index, comes⟩ := restIH _ _ _ rightEq step later
        exact ⟨index, List.mem_append_right _ comes⟩

end Tour

end Pneumatic
