import Pneumatic.Notation.Sequence
import Mathlib.Data.List.Nodup

/-!
# Regions

The regions of a tree lie within the steps of their nodes, and no two are the same.
Those that end at a step follow one another from the innermost to the outermost, both in
the tree and in the sorted list of a sequence.
-/

namespace Pneumatic

namespace Node

/-- Every region has a step. -/
inductive Solid : Node → Prop where
  | step (found : Step) : Solid (.step found)
  | region {bound : Bound} {body : List Node} :
      stepsOf body ≠ [] → (∀ node ∈ body, Solid node) → Solid (.region bound body)

theorem Solid.steps_ne_nil {node : Node} (solid : node.Solid) : node.steps ≠ [] := by
  cases solid with
  | step found => simp [steps]
  | region nonempty _ => exact nonempty

/-- Every region has two or more steps. -/
inductive Long : Node → Prop where
  | step (found : Step) : Long (.step found)
  | region {bound : Bound} {body : List Node} :
      2 ≤ (stepsOf body).length → (∀ node ∈ body, Long node) → Long (.region bound body)

theorem Long.solid {node : Node} (long : node.Long) : node.Solid := by
  induction long with
  | step found => exact .step found
  | region long _ ih =>
      refine .region ?_ ih
      intro empty
      simp [empty] at long

/-- Solid nodes have a step. -/
theorem stepsOf_ne_nil {nodes : List Node} (solid : ∀ node ∈ nodes, node.Solid)
    (nonempty : nodes ≠ []) : stepsOf nodes ≠ [] := by
  cases nodes with
  | nil => contradiction
  | cons node rest => simp [stepsOf, (solid node (by simp)).steps_ne_nil]

/-- Induction on nodes: by themselves a step or a region, with the nodes of the region
and the nodes behind. -/
theorem forestInduction {motive : List Node → Prop} (nil : motive [])
    (step : ∀ (found : Step) (rest : List Node), motive rest → motive (.step found :: rest))
    (region : ∀ (bound : Bound) (body rest : List Node), motive body → motive rest →
      motive (.region bound body :: rest)) :
    (nodes : List Node) → motive nodes
  | [] => nil
  | .step found :: rest => step found rest (forestInduction nil step region rest)
  | .region bound body :: rest =>
      region bound body rest (forestInduction nil step region body)
        (forestInduction nil step region rest)

/-- The region that a region node makes, if it has a step. -/
def own (depth first : Nat) (bound : Bound) (body : List Node) : Region :=
  ⟨first, first + (stepsOf body).length - 1, bound, depth⟩

theorem eq_own {depth first : Nat} {bound : Bound} {body : List Node} {region : Region}
    (membership : region ∈ if 0 < (stepsOf body).length then [own depth first bound body] else []) :
    region = own depth first bound body ∧ 0 < (stepsOf body).length := by
  split at membership
  · next positive => exact ⟨List.mem_singleton.mp membership, positive⟩
  · contradiction

theorem regionsOf_step (depth first : Nat) (found : Step) (rest : List Node) :
    regionsOf depth first (.step found :: rest) = regionsOf depth (first + 1) rest := rfl

theorem regionsOf_map_step (depth first : Nat) (steps : List Step) :
    regionsOf depth first (steps.map .step) = [] := by
  induction steps generalizing first with
  | nil => rfl
  | cons step rest ih => rw [List.map_cons, regionsOf_step, ih]

theorem regionsOf_region (depth first : Nat) (bound : Bound) (body rest : List Node) :
    regionsOf depth first (.region bound body :: rest) =
      regionsOf (depth + 1) first body ++
        ((if 0 < (stepsOf body).length then [own depth first bound body] else []) ++
          regionsOf depth (first + (stepsOf body).length) rest) := by
  rw [regionsOf, regions, List.append_assoc]
  rfl

theorem stepsOf_step (found : Step) (rest : List Node) :
    stepsOf (.step found :: rest) = found :: stepsOf rest := rfl

theorem stepsOf_region (bound : Bound) (body rest : List Node) :
    stepsOf (.region bound body :: rest) = stepsOf body ++ stepsOf rest := rfl

/-- Regions lie within the steps of their nodes. -/
theorem bounds_of_mem_regionsOf {nodes : List Node} : ∀ {depth first : Nat} {region : Region},
    region ∈ regionsOf depth first nodes →
      first ≤ region.first ∧ region.first ≤ region.last ∧
        region.last < first + (stepsOf nodes).length ∧ depth ≤ region.depth := by
  induction nodes using forestInduction with
  | nil =>
      intro depth first region membership
      contradiction
  | step found rest ih =>
      intro depth first region membership
      rw [regionsOf_step] at membership
      have bounds := ih membership
      rw [stepsOf_step, List.length_cons]
      omega
  | region bound body rest bodyIH restIH =>
      intro depth first region membership
      rw [stepsOf_region, List.length_append]
      rw [regionsOf_region, List.mem_append, List.mem_append] at membership
      rcases membership with inBody | isOwn | inRest
      · have bounds := bodyIH inBody
        omega
      · obtain ⟨rfl, positive⟩ := eq_own isOwn
        simp only [own]
        omega
      · have bounds := restIH inRest
        omega

/-- A long region ends behind the step it starts with. -/
theorem first_lt_last_of_mem_regionsOf {nodes : List Node} : (∀ node ∈ nodes, node.Long) →
    ∀ {depth first : Nat} {region : Region}, region ∈ regionsOf depth first nodes →
      region.first < region.last := by
  induction nodes using forestInduction with
  | nil =>
      intro _ depth first region membership
      contradiction
  | step found rest ih =>
      intro long depth first region membership
      exact ih (fun node among => long node (List.mem_cons_of_mem _ among)) membership
  | region bound body rest bodyIH restIH =>
      intro long depth first region membership
      rw [List.forall_mem_cons] at long
      obtain ⟨here, behind⟩ := long
      cases here with
      | region two inside =>
          rw [regionsOf_region, List.mem_append, List.mem_append] at membership
          rcases membership with inBody | isOwn | inRest
          · exact bodyIH inside inBody
          · obtain ⟨rfl, -⟩ := eq_own isOwn
            simp only [own]
            omega
          · exact restIH behind inRest

/-- No region occurs twice. -/
theorem nodup_regionsOf (nodes : List Node) : ∀ depth first : Nat,
    (regionsOf depth first nodes).Nodup := by
  induction nodes using forestInduction with
  | nil =>
      intro depth first
      exact List.nodup_nil
  | step found rest ih =>
      intro depth first
      exact ih depth (first + 1)
  | region bound body rest bodyIH restIH =>
      intro depth first
      rw [regionsOf_region, List.nodup_append, List.nodup_append]
      refine ⟨bodyIH _ _, ⟨?_, restIH _ _, ?_⟩, ?_⟩
      · split
        · exact List.nodup_singleton _
        · exact List.nodup_nil
      · intro left isOwn right inRest
        obtain ⟨rfl, positive⟩ := eq_own isOwn
        have bounds := bounds_of_mem_regionsOf inRest
        rintro rfl
        simp only [own] at bounds
        omega
      · intro left inBody right membership
        have bodyBounds := bounds_of_mem_regionsOf inBody
        rintro rfl
        rcases List.mem_append.mp membership with isOwn | inRest
        · obtain ⟨rfl, positive⟩ := eq_own isOwn
          simp only [own] at bodyBounds
          omega
        · have restBounds := bounds_of_mem_regionsOf inRest
          omega

/-- A region comes before those behind it and those around it. -/
theorem pairwise_regionsOf (nodes : List Node) : ∀ depth first : Nat,
    (regionsOf depth first nodes).Pairwise fun left right =>
      left.last < right.first ∨ (right.first ≤ left.first ∧ left.last ≤ right.last) := by
  induction nodes using forestInduction with
  | nil =>
      intro depth first
      exact .nil
  | step found rest ih =>
      intro depth first
      exact ih depth (first + 1)
  | region bound body rest bodyIH restIH =>
      intro depth first
      rw [regionsOf_region, List.pairwise_append, List.pairwise_append]
      refine ⟨bodyIH _ _, ⟨?_, restIH _ _, ?_⟩, ?_⟩
      · split
        · exact List.pairwise_singleton _ _
        · exact .nil
      · intro left isOwn right inRest
        obtain ⟨rfl, positive⟩ := eq_own isOwn
        have bounds := bounds_of_mem_regionsOf inRest
        simp only [own]
        omega
      · intro left inBody right membership
        have bodyBounds := bounds_of_mem_regionsOf inBody
        rcases List.mem_append.mp membership with isOwn | inRest
        · obtain ⟨rfl, positive⟩ := eq_own isOwn
          simp only [own]
          omega
        · have restBounds := bounds_of_mem_regionsOf inRest
          omega

end Node

/-! ## Sorting -/

namespace Sorting

variable {Element : Type}

/-- Sorting keeps the order of elements that are in order. -/
theorem filter_mergeSort {le : Element → Element → Bool} {keep : Element → Bool}
    (trans : ∀ a b c, le a b = true → le b c = true → le a c = true)
    (total : ∀ a b, (le a b || le b a) = true) {elements : List Element}
    (ordered : (elements.filter keep).Pairwise fun a b => le a b = true) :
    (elements.mergeSort le).filter keep = elements.filter keep := by
  have inside : (elements.filter keep).Sublist (elements.mergeSort le) :=
    List.sublist_mergeSort trans total ordered List.filter_sublist
  have kept : (elements.filter keep).Sublist ((elements.mergeSort le).filter keep) := by
    simpa using inside.filter keep
  have lengthEq : (elements.filter keep).length = ((elements.mergeSort le).filter keep).length :=
    ((List.mergeSort_perm elements le).filter keep).length_eq.symm
  exact (kept.eq_of_length lengthEq).symm

/-- A list with falling keys is determined by the elements of each key. -/
theorem eq_of_filter_eq (key : Element → Nat) : (left right : List Element) →
    left.Pairwise (fun a b => key b ≤ key a) → right.Pairwise (fun a b => key b ≤ key a) →
    (∀ value, left.filter (key · == value) = right.filter (key · == value)) → left = right
  | [], [], _, _, _ => rfl
  | [], head :: rest, _, _, same => by
      have atHead := same (key head)
      simp at atHead
  | head :: rest, [], _, _, same => by
      have atHead := same (key head)
      simp at atHead
  | left :: lefts, right :: rights, leftFalls, rightFalls, same => by
      rw [List.pairwise_cons] at leftFalls rightFalls
      have leftMem : left ∈ right :: rights := by
        have found : left ∈ (left :: lefts).filter (key · == key left) := by simp
        rw [same] at found
        exact List.mem_of_mem_filter found
      have rightMem : right ∈ left :: lefts := by
        have found : right ∈ (right :: rights).filter (key · == key right) := by simp
        rw [← same] at found
        exact List.mem_of_mem_filter found
      have keyEq : key left = key right := by
        rcases List.mem_cons.mp leftMem with rfl | leftLater
        · rfl
        · rcases List.mem_cons.mp rightMem with rfl | rightLater
          · rfl
          · exact Nat.le_antisymm (rightFalls.1 left leftLater) (leftFalls.1 right rightLater)
      have heads := same (key left)
      simp only [List.filter_cons, keyEq, beq_self_eq_true, ↓reduceIte, List.cons.injEq] at heads
      obtain ⟨rfl, -⟩ := heads
      congr 1
      apply eq_of_filter_eq key lefts rights leftFalls.2 rightFalls.2
      intro value
      have here := same value
      simp only [List.filter_cons] at here
      split at here
      · exact (List.cons.inj here).2
      · exact here

end Sorting

/-! ## Regions at a step -/

namespace Sequence

theorem mem_regionsStartingAt {regions : List Region} {index position : Nat} :
    position ∈ regionsStartingAt regions index ↔
      ∃ region, regions[position]? = some region ∧ region.first = index := by
  rw [regionsStartingAt, List.mem_filter, List.mem_range, Option.any_eq_true]
  constructor
  · rintro ⟨-, region, found, starts⟩
    exact ⟨region, found, beq_iff_eq.mp starts⟩
  · rintro ⟨region, found, starts⟩
    exact ⟨(List.getElem?_eq_some_iff.mp found).1, region, found, beq_iff_eq.mpr starts⟩

theorem regionsEndingAt_nil (index : Nat) : regionsEndingAt [] index = [] := by
  simp [regionsEndingAt]

theorem mem_regionsEndingAt {regions : List Region} {index position : Nat} :
    position ∈ regionsEndingAt regions index ↔
      ∃ region, regions[position]? = some region ∧ region.last = index := by
  rw [regionsEndingAt, List.mem_mergeSort, List.mem_filter, List.mem_range, Option.any_eq_true]
  constructor
  · rintro ⟨-, region, found, ends⟩
    exact ⟨region, found, beq_iff_eq.mp ends⟩
  · rintro ⟨region, found, ends⟩
    exact ⟨(List.getElem?_eq_some_iff.mp found).1, region, found, beq_iff_eq.mpr ends⟩

/-- The regions that end at a step, innermost first, as the tree has them. -/
def ending (sequence : Sequence) (step : Nat) : List Region :=
  (Node.regionsOf 0 0 sequence.nodes).filter (·.last == step)

theorem map_regionsEndingAt (regions : List Region) (step : Nat) :
    (regionsEndingAt regions step).map (regions[·]?) =
      ((regions.filter (·.last == step)).mergeSort
        fun left right => right.first ≤ left.first).map some := by
  let start (found : Option Region) : Nat := (found.map (·.first)).getD 0
  let ends (found : Option Region) : Bool := found.any (·.last == step)
  have found : (List.range regions.length).map (regions[·]?) = regions.map some := by
    apply List.ext_getElem?
    intro index
    rw [List.getElem?_map, List.getElem?_map]
    by_cases inside : index < regions.length <;> simp [inside]
  have kept : ((List.range regions.length).filter fun index => ends regions[index]?).map
      (regions[·]?) = (regions.filter (·.last == step)).map some := by
    have outside := List.filter_map (f := (regions[·]?)) (p := ends)
      (l := List.range regions.length)
    rw [found, List.filter_map] at outside
    exact outside.symm
  have sorted := List.map_mergeSort (f := (regions[·]?))
    (r := fun left right => start regions[right]? ≤ start regions[left]?)
    (s := fun left right => start right ≤ start left)
    (l := (List.range regions.length).filter fun index => ends regions[index]?)
    (fun _ _ _ _ => rfl)
  have sortedSome := List.map_mergeSort (f := some)
    (r := fun left right : Region => right.first ≤ left.first)
    (s := fun left right => start right ≤ start left)
    (l := regions.filter (·.last == step)) (fun _ _ _ _ => rfl)
  rw [regionsEndingAt, sortedSome, ← kept]
  exact sorted

theorem regionLe_trans (a b c : Region) (left : regionLe a b = true) (right : regionLe b c = true) :
    regionLe a c = true := by
  simp only [regionLe, Bool.or_eq_true, Bool.and_eq_true, decide_eq_true_eq, beq_iff_eq] at *
  omega

theorem regionLe_total (a b : Region) : (regionLe a b || regionLe b a) = true := by
  simp only [regionLe, Bool.or_eq_true, Bool.and_eq_true, decide_eq_true_eq, beq_iff_eq]
  omega

theorem mem_regions {sequence : Sequence} {region : Region} :
    region ∈ sequence.regions ↔ region ∈ Node.regionsOf 0 0 sequence.nodes :=
  List.mem_mergeSort

/-- A region lies within the steps of its sequence. -/
theorem bounds_of_mem_regions {sequence : Sequence} {region : Region}
    (membership : region ∈ sequence.regions) :
    region.first ≤ region.last ∧ region.last < sequence.length := by
  have bounds := Node.bounds_of_mem_regionsOf (mem_regions.mp membership)
  rw [length, steps]
  omega

/-- The list of positions of the regions that end at a step gives the regions from the
innermost to the outermost. -/
theorem regionsEndingAt_eq (sequence : Sequence) (step : Nat) :
    (regionsEndingAt sequence.regions step).map (sequence.regions[·]?) =
      (sequence.ending step).map some := by
  rw [map_regionsEndingAt]
  congr 1
  have fallTrans : ∀ a b c : Region, decide (b.first ≤ a.first) = true →
      decide (c.first ≤ b.first) = true → decide (c.first ≤ a.first) = true := by
    simp only [decide_eq_true_eq]
    omega
  have fallTotal : ∀ a b : Region,
      (decide (b.first ≤ a.first) || decide (a.first ≤ b.first)) = true := by
    simp only [Bool.or_eq_true, decide_eq_true_eq]
    omega
  apply Sorting.eq_of_filter_eq Region.first
  · have falls := List.pairwise_mergeSort fallTrans fallTotal
      (sequence.regions.filter (·.last == step))
    simpa using falls
  · have falls := (Node.pairwise_regionsOf sequence.nodes 0 0).filter (·.last == step)
    refine falls.imp_of_mem ?_
    intro left right leftMem rightMem nested
    have leftLast := List.of_mem_filter leftMem
    have rightLast := List.of_mem_filter rightMem
    have rightBounds := Node.bounds_of_mem_regionsOf (List.mem_of_mem_filter rightMem)
    simp only [beq_iff_eq] at leftLast rightLast
    omega
  · intro value
    rw [Sorting.filter_mergeSort fallTrans fallTotal, List.filter_filter, regions,
      Sorting.filter_mergeSort regionLe_trans regionLe_total, ending, List.filter_filter]
    · apply List.pairwise_of_forall_mem_list
      intro left leftMem right rightMem
      have leftKeys := List.of_mem_filter leftMem
      have rightKeys := List.of_mem_filter rightMem
      simp only [Bool.and_eq_true, beq_iff_eq] at leftKeys rightKeys
      simp only [regionLe, Bool.or_eq_true, Bool.and_eq_true, decide_eq_true_eq, beq_iff_eq]
      omega
    · apply List.pairwise_of_forall_mem_list
      intro left leftMem right rightMem
      have leftKey := List.of_mem_filter leftMem
      have rightKey := List.of_mem_filter rightMem
      simp only [beq_iff_eq, decide_eq_true_eq] at leftKey rightKey ⊢
      omega

end Sequence

end Pneumatic
