import Pneumatic.Proofs.Notation.Nesting

/-!
# The order of regions

The regions of a sequence are listed by the step they start at, and of two that start together
the longer one first.  So a region is listed before those within it, unless they have the same
steps: sorting keeps the order of the tree, in which inner regions come first.  The regions that
end at a step are listed from the innermost to the outermost in any case.
-/

namespace Pneumatic

namespace Sorting

variable {Element : Type} {elements : List Element}

/-- Sorting keeps the order of elements that may stand either way. -/
theorem pairwise_mergeSort_of_pairwise {before : Element → Element → Prop}
    (le : Element → Element → Bool) (trans : ∀ a b c, le a b = true → le b c = true → le a c = true)
    (total : ∀ a b, (le a b || le b a) = true) (ordered : elements.Pairwise before) :
    (elements.mergeSort le).Pairwise fun left right =>
      le left right = true ∧ (before left right ∨ (before right left ∧ le right left = false)) := by
  -- Sorting is the same with places to break ties.
  have sorted := List.pairwise_mergeSort (List.zipIdxLE_trans trans) (List.zipIdxLE_total total)
    elements.zipIdx
  have perm := List.mergeSort_perm elements.zipIdx (List.zipIdxLE le)
  have distinct : (elements.zipIdx.mergeSort (List.zipIdxLE le)).Pairwise
      fun left right => left.2 ≠ right.2 := by
    rw [← List.pairwise_map, ← List.Nodup, (perm.map Prod.snd).nodup_iff, List.zipIdx_map_snd]
    exact List.nodup_range'
  have placed : ∀ {left right : Element} {place place' : Nat}, (left, place) ∈ elements.zipIdx →
      (right, place') ∈ elements.zipIdx → place < place' → before left right := by
    intro left right place place' leftMem rightMem earlier
    rw [List.mk_mem_zipIdx_iff_getElem?, List.getElem?_eq_some_iff] at leftMem rightMem
    obtain ⟨inside, rfl⟩ := leftMem
    obtain ⟨inside', rfl⟩ := rightMem
    exact List.pairwise_iff_getElem.mp ordered place place' inside inside' earlier
  rw [← List.mergeSort_zipIdx, List.pairwise_map]
  refine (sorted.and distinct).imp_of_mem ?_
  rintro ⟨left, place⟩ ⟨right, place'⟩ leftMem rightMem ⟨inOrder, apart⟩
  rw [List.mem_mergeSort] at leftMem rightMem
  simp only [List.zipIdxLE] at inOrder
  split at inOrder
  · next forth =>
      refine ⟨forth, ?_⟩
      rcases Nat.lt_or_gt_of_ne apart with earlier | later
      · exact .inl (placed leftMem rightMem earlier)
      · refine .inr ⟨placed rightMem leftMem later, ?_⟩
        simp only at later
        split at inOrder
        · rw [decide_eq_true_eq] at inOrder
          omega
        · next back => exact eq_false_of_ne_true back
  · contradiction

end Sorting

theorem Address.Encloses.not_symm {outer inner : Address} (encloses : outer.Encloses inner) :
    ¬ inner.Encloses outer := by
  intro back
  exact encloses.2 (encloses.1.eq_of_length_le back.1.length_le)

/-- A region with its address. -/
abbrev Sited := Address × Region

/-- A region comes before another in the tree: it is within the other, or the other comes
behind. -/
inductive Sited.Leads (left right : Sited) : Prop where
  | within : right.1.Encloses left.1 → right.2.first ≤ left.2.first →
      left.2.last ≤ right.2.last → Leads left right
  | apart : left.2.last < right.2.first → ¬ left.1.Encloses right.1 →
      ¬ right.1.Encloses left.1 → Leads left right

/-- A region is listed before another: it is around the other and longer, or within it and as
long, or the other comes behind. -/
inductive Sited.Precedes (left right : Sited) : Prop where
  | around : left.1.Encloses right.1 → left.2.first ≤ right.2.first →
      right.2.last ≤ left.2.last → ¬ (left.2.first = right.2.first ∧ left.2.last = right.2.last) →
      Precedes left right
  | within : right.1.Encloses left.1 → left.2.first = right.2.first →
      left.2.last = right.2.last → Precedes left right
  | apart : left.2.last < right.2.first → ¬ left.1.Encloses right.1 →
      ¬ right.1.Encloses left.1 → Precedes left right

namespace Node

/-- The regions of nodes with their addresses, in the order of the tree. -/
def sited (place depth first : Nat) : List Node → List Sited
  | [] => []
  | .step _ :: rest => sited (place + 1) depth (first + 1) rest
  | .region bound body :: rest =>
      (sited 0 (depth + 1) first body).map (Prod.map (place :: ·) id) ++
        ([place], own depth first bound body) ::
          sited (place + 1) depth (first + (stepsOf body).length) rest

theorem map_fst_sited (nodes : List Node) : ∀ place depth first,
    (sited place depth first nodes).map Prod.fst = sites place nodes := by
  induction nodes using forestInduction with
  | nil =>
      intro place depth first
      rw [sited, sites, List.map_nil]
  | step found rest ih =>
      intro place depth first
      rw [sited, sites, ih]
  | region bound body rest bodyIH restIH =>
      intro place depth first
      rw [sited, sites, ← bodyIH 0 (depth + 1) first,
        ← restIH (place + 1) depth (first + (stepsOf body).length)]
      simp

theorem map_snd_sited {nodes : List Node} : (∀ node ∈ nodes, node.Solid) →
    ∀ place depth first, (sited place depth first nodes).map Prod.snd =
      regionsOf depth first nodes := by
  induction nodes using forestInduction with
  | nil =>
      intro _ place depth first
      rw [sited, regionsOf, List.map_nil]
  | step found rest ih =>
      intro solid place depth first
      rw [sited, regionsOf_step, ih fun node among => solid node (List.mem_cons_of_mem _ among)]
  | region bound body rest bodyIH restIH =>
      intro solid place depth first
      obtain ⟨here, later⟩ := List.forall_mem_cons.mp solid
      cases here with
      | region nonempty inside =>
          rw [sited, regionsOf_region, if_pos (List.length_pos_iff.mpr nonempty),
            ← bodyIH inside 0 (depth + 1) first,
            ← restIH later (place + 1) depth (first + (stepsOf body).length)]
          simp

/-- In the order of the tree a region leads those around it and those behind it. -/
theorem pairwise_sited {nodes : List Node} : (∀ node ∈ nodes, node.Solid) →
    ∀ place depth first, (sited place depth first nodes).Pairwise Sited.Leads := by
  induction nodes using forestInduction with
  | nil =>
      intro _ place depth first
      rw [sited]
      exact .nil
  | step found rest ih =>
      intro solid place depth first
      rw [sited]
      exact ih (fun node among => solid node (List.mem_cons_of_mem _ among)) _ _ _
  | region bound body rest bodyIH restIH =>
      intro solid place depth first
      obtain ⟨here, later⟩ := List.forall_mem_cons.mp solid
      cases here with
      | region nonempty inside =>
          have positive := List.length_pos_iff.mpr nonempty
          -- What is in the body lies within its steps, and what is behind comes after them.
          have inBody : ∀ entry ∈ sited 0 (depth + 1) first body,
              (∃ next more, entry.1 = next :: more) ∧ first ≤ entry.2.first ∧
                entry.2.last < first + (stepsOf body).length := by
            intro entry among
            have address := List.mem_map_of_mem (f := Prod.fst) among
            have region := List.mem_map_of_mem (f := Prod.snd) among
            rw [map_fst_sited] at address
            rw [map_snd_sited inside] at region
            obtain ⟨next, more, isCons, -⟩ := head_of_mem_sites address
            have bounds := bounds_of_mem_regionsOf region
            exact ⟨⟨next, more, isCons⟩, bounds.1, bounds.2.2.1⟩
          have inRest : ∀ entry ∈ sited (place + 1) depth (first + (stepsOf body).length) rest,
              (∃ next more, entry.1 = next :: more ∧ place ≠ next) ∧
                first + (stepsOf body).length ≤ entry.2.first := by
            intro entry among
            have address := List.mem_map_of_mem (f := Prod.fst) among
            have region := List.mem_map_of_mem (f := Prod.snd) among
            rw [map_fst_sited] at address
            rw [map_snd_sited later] at region
            obtain ⟨next, more, isCons, behind⟩ := head_of_mem_sites address
            exact ⟨⟨next, more, isCons, by omega⟩, (bounds_of_mem_regionsOf region).1⟩
          rw [sited, List.pairwise_append, List.pairwise_cons, List.pairwise_map]
          refine ⟨?_, ⟨?_, restIH later _ _ _⟩, ?_⟩
          · refine (bodyIH inside 0 (depth + 1) first).imp ?_
            rintro left right (⟨encloses, starts, ends⟩ | ⟨behind, forth, back⟩)
            · exact .within (encloses_cons_iff.mpr encloses) starts ends
            · exact .apart behind (encloses_cons_iff.not.mpr forth) (encloses_cons_iff.not.mpr back)
          · intro right among
            obtain ⟨⟨next, more, isCons, apart⟩, behind⟩ := inRest right among
            refine .apart ?_ ?_ ?_
            · simp only [own]
              omega
            · rw [isCons]
              exact not_encloses_of_ne apart
            · rw [isCons]
              exact not_encloses_of_ne apart.symm
          · intro left among right among'
            obtain ⟨entry, inside', rfl⟩ := List.mem_map.mp among
            obtain ⟨⟨next, more, isCons⟩, starts, ends⟩ := inBody entry inside'
            rcases List.mem_cons.mp among' with rfl | behind
            · refine .within ?_ starts ?_
              · simp [Address.Encloses, isCons]
              · simp only [own, Prod.map, id_eq]
                omega
            · obtain ⟨⟨other, rest', isCons', apart⟩, behind⟩ := inRest right behind
              refine .apart ?_ ?_ ?_
              · simp only [Prod.map, id_eq]
                omega
              · rw [isCons']
                exact not_encloses_of_ne apart
              · rw [isCons']
                exact not_encloses_of_ne apart.symm

end Node

namespace Sequence

variable {source : String} {sequence : Sequence} {addresses : List Address}

/-- The region at one position of a list stands around the one at another. -/
def Around (addresses : List Address) (outer inner : Nat) : Prop :=
  ∃ around within, addresses[outer]? = some around ∧ addresses[inner]? = some within ∧
    around.Encloses within

/-- The regions at two positions of a list have the same steps. -/
def Coincide (regions : List Region) (left right : Nat) : Prop :=
  ∃ region other, regions[left]? = some region ∧ regions[right]? = some other ∧
    region.first = other.first ∧ region.last = other.last

/-- The regions of a sequence with their addresses, as they are listed. -/
def sited (sequence : Sequence) : List Sited :=
  (Node.sited 0 0 0 sequence.nodes).mergeSort fun left right => regionLe left.2 right.2

theorem map_snd_sited (solid : ∀ node ∈ sequence.nodes, node.Solid) :
    sequence.sited.map Prod.snd = sequence.regions := by
  rw [sited, regions, ← Node.map_snd_sited solid 0 0 0]
  exact List.map_mergeSort fun _ _ _ _ => rfl

theorem bounds_of_mem_sited (solid : ∀ node ∈ sequence.nodes, node.Solid) {entry : Sited}
    (among : entry ∈ sequence.sited) : entry.2.first ≤ entry.2.last := by
  have region := List.mem_map_of_mem (f := Prod.snd) among
  rw [map_snd_sited solid] at region
  exact (bounds_of_mem_regions region).1

/-- Of two regions in the list the one in front is around the other and longer, or within it and
as long, or ends before the other starts. -/
theorem pairwise_sited (solid : ∀ node ∈ sequence.nodes, node.Solid) :
    sequence.sited.Pairwise Sited.Precedes := by
  have sorted := Sorting.pairwise_mergeSort_of_pairwise
    (fun left right : Sited => regionLe left.2 right.2)
    (fun a b c => regionLe_trans a.2 b.2 c.2) (fun a b => regionLe_total a.2 b.2)
    (Node.pairwise_sited solid 0 0 0)
  refine List.Pairwise.imp_of_mem ?_ sorted
  intro left right _ among ⟨inOrder, kept⟩
  have bounds := bounds_of_mem_sited solid among
  simp only [regionLe, Bool.or_eq_true, Bool.and_eq_true, decide_eq_true_eq, beq_iff_eq,
    Bool.or_eq_false_iff, Bool.and_eq_false_iff, decide_eq_false_iff_not, beq_eq_false_iff_ne]
    at inOrder kept
  rcases kept with (⟨encloses, starts, ends⟩ | ⟨behind, forth, back⟩) |
    ⟨⟨encloses, starts, ends⟩ | ⟨behind, forth, back⟩, strict⟩
  · exact .within encloses (by omega) (by omega)
  · exact .apart behind forth back
  · exact .around encloses starts ends (by omega)
  · omega

section Positions

variable {left right step : Nat} {entry other : Sited}

theorem precedes_of_lt (solid : ∀ node ∈ sequence.nodes, node.Solid) (earlier : left < right)
    (leftAt : sequence.sited[left]? = some entry) (rightAt : sequence.sited[right]? = some other) :
    entry.Precedes other := by
  rw [List.getElem?_eq_some_iff] at leftAt rightAt
  obtain ⟨inside, rfl⟩ := leftAt
  obtain ⟨inside', rfl⟩ := rightAt
  exact List.pairwise_iff_getElem.mp (pairwise_sited solid) left right inside inside' earlier

theorem around_iff : Around (sequence.sited.map Prod.fst) left right ↔
    ∃ entry other, sequence.sited[left]? = some entry ∧ sequence.sited[right]? = some other ∧
      entry.1.Encloses other.1 := by
  simp only [Around, List.getElem?_map, Option.map_eq_some_iff]
  constructor
  · rintro ⟨_, _, ⟨entry, leftAt, rfl⟩, ⟨other, rightAt, rfl⟩, encloses⟩
    exact ⟨entry, other, leftAt, rightAt, encloses⟩
  · rintro ⟨entry, other, leftAt, rightAt, encloses⟩
    exact ⟨_, _, ⟨entry, leftAt, rfl⟩, ⟨other, rightAt, rfl⟩, encloses⟩

theorem coincide_iff (solid : ∀ node ∈ sequence.nodes, node.Solid)
    (leftAt : sequence.sited[left]? = some entry) (rightAt : sequence.sited[right]? = some other) :
    Coincide sequence.regions left right ↔
      entry.2.first = other.2.first ∧ entry.2.last = other.2.last := by
  simp [Coincide, ← map_snd_sited solid, leftAt, rightAt]

/-- A region is listed before one that it stands around, unless they have the same steps. -/
theorem lt_iff_not_coincide (solid : ∀ node ∈ sequence.nodes, node.Solid)
    (around : Around (sequence.sited.map Prod.fst) left right) :
    left < right ↔ ¬ Coincide sequence.regions left right := by
  obtain ⟨outer, inner, leftAt, rightAt, encloses⟩ := around_iff.mp around
  rw [coincide_iff solid leftAt rightAt]
  rcases Nat.lt_trichotomy left right with earlier | rfl | later
  · refine ⟨fun _ => ?_, fun _ => earlier⟩
    cases precedes_of_lt solid earlier leftAt rightAt with
    | around _ _ _ longer => exact longer
    | within back _ _ => exact absurd back encloses.not_symm
    | apart _ forth _ => exact absurd encloses forth
  · obtain rfl := Option.some.inj (leftAt.symm.trans rightAt)
    exact absurd rfl encloses.2
  · refine ⟨fun earlier => absurd earlier (by omega), fun longer => ?_⟩
    cases precedes_of_lt solid later rightAt leftAt with
    | around back _ _ _ => exact absurd back encloses.not_symm
    | within _ firstEq lastEq => exact absurd ⟨firstEq.symm, lastEq.symm⟩ longer
    | apart _ _ forth => exact absurd encloses forth

/-- A region in the list has its address beside it. -/
theorem exists_sited (solid : ∀ node ∈ sequence.nodes, node.Solid) {position : Nat}
    {region : Region} (found : sequence.regions[position]? = some region) :
    ∃ entry, sequence.sited[position]? = some entry ∧ entry.2 = region ∧
      region.first ≤ region.last := by
  have bounds := bounds_of_mem_regions (List.mem_of_getElem? found)
  rw [← map_snd_sited solid, List.getElem?_map, Option.map_eq_some_iff] at found
  obtain ⟨entry, there, rfl⟩ := found
  exact ⟨entry, there, rfl, bounds.1⟩

/-- The regions that start at a step are listed from the outermost to the innermost but for those
with the same steps, which are listed the other way round. -/
theorem pairwise_regionsStartingAt (solid : ∀ node ∈ sequence.nodes, node.Solid) (step : Nat) :
    (regionsStartingAt sequence.regions step).Pairwise fun left right =>
      (Around (sequence.sited.map Prod.fst) left right ∧
          ¬ Coincide sequence.regions left right) ∨
        (Around (sequence.sited.map Prod.fst) right left ∧
          Coincide sequence.regions left right) := by
  have increasing : (regionsStartingAt sequence.regions step).Pairwise (· < ·) :=
    List.pairwise_lt_range.filter _
  refine increasing.imp_of_mem ?_
  intro left right leftMem rightMem earlier
  obtain ⟨region, leftAt, starts⟩ := mem_regionsStartingAt.mp leftMem
  obtain ⟨region', rightAt, starts'⟩ := mem_regionsStartingAt.mp rightMem
  obtain ⟨entry, leftSited, rfl, bounds⟩ := exists_sited solid leftAt
  obtain ⟨other, rightSited, rfl, -⟩ := exists_sited solid rightAt
  rw [coincide_iff solid leftSited rightSited]
  cases precedes_of_lt solid earlier leftSited rightSited with
  | around encloses _ _ longer =>
      exact .inl ⟨around_iff.mpr ⟨_, _, leftSited, rightSited, encloses⟩, longer⟩
  | within encloses firstEq lastEq =>
      exact .inr ⟨around_iff.mpr ⟨_, _, rightSited, leftSited, encloses⟩, firstEq, lastEq⟩
  | apart behind _ _ => omega

/-- The regions that end at a step are listed from the innermost to the outermost. -/
theorem pairwise_regionsEndingAt (solid : ∀ node ∈ sequence.nodes, node.Solid) (step : Nat) :
    (regionsEndingAt sequence.regions step).Pairwise fun inner outer =>
      Around (sequence.sited.map Prod.fst) outer inner := by
  let start (position : Nat) : Nat := (sequence.regions[position]?.map (·.first)).getD 0
  have increasing := (List.pairwise_lt_range (n := sequence.regions.length)).filter
    fun position => sequence.regions[position]?.any (·.last == step)
  have sorted := Sorting.pairwise_mergeSort_of_pairwise
    (fun left right => start right ≤ start left)
    (by simp only [decide_eq_true_eq]; omega)
    (by simp only [Bool.or_eq_true, decide_eq_true_eq]; omega) increasing
  refine List.Pairwise.imp_of_mem ?_ sorted
  intro left right leftMem rightMem ⟨falls, kept⟩
  obtain ⟨region, leftAt, ends⟩ := mem_regionsEndingAt.mp leftMem
  obtain ⟨region', rightAt, ends'⟩ := mem_regionsEndingAt.mp rightMem
  simp only [start, leftAt, rightAt, Option.map_some, Option.getD_some, decide_eq_true_eq,
    decide_eq_false_iff_not] at falls kept
  obtain ⟨entry, leftSited, rfl, bounds⟩ := exists_sited solid leftAt
  obtain ⟨other, rightSited, rfl, bounds'⟩ := exists_sited solid rightAt
  rw [around_iff]
  rcases kept with earlier | ⟨later, strict⟩
  · -- With one start and one end they have the same steps, and the inner one is in front.
    cases precedes_of_lt solid earlier leftSited rightSited with
    | around _ _ _ longer => omega
    | within encloses _ _ => exact ⟨_, _, rightSited, leftSited, encloses⟩
    | apart behind _ _ => omega
  · cases precedes_of_lt solid later rightSited leftSited with
    | around encloses _ _ _ => exact ⟨_, _, rightSited, leftSited, encloses⟩
    | within _ _ _ => omega
    | apart behind _ _ => omega

end Positions

/-- The addresses that go with the regions as they are listed. -/
theorem addressed_sited (solid : ∀ node ∈ sequence.nodes, node.Solid) :
    sequence.Addressed (sequence.sited.map Prod.fst) ∧
      List.Forall₂ (fun address region => region.depth + 1 = address.length)
        (sequence.sited.map Prod.fst) sequence.regions := by
  have perm : (sequence.sited.map Prod.fst).Perm (Node.sites 0 sequence.nodes) := by
    rw [← Node.map_fst_sited sequence.nodes 0 0 0]
    exact (List.mergeSort_perm _ _).map Prod.fst
  have made : ∀ entry ∈ Node.sited 0 0 0 sequence.nodes,
      Node.Makes sequence.nodes 0 entry.1 entry.2 ∧ entry.2.depth + 1 = entry.1.length := by
    have inTree : List.Forall₂ (fun address region =>
        Node.Makes sequence.nodes 0 address region ∧ region.depth + 1 = 0 + address.length)
        (Node.sites 0 sequence.nodes) (Node.regionsOf 0 0 sequence.nodes) :=
      Node.forall₂_sites solid [] 0 0
    rw [← Node.map_fst_sited sequence.nodes 0 0 0, ← Node.map_snd_sited solid 0 0 0,
      List.forall₂_map_left_iff, List.forall₂_map_right_iff, List.forall₂_same] at inTree
    simpa using inTree
  have listed : ∀ entry ∈ sequence.sited,
      Node.Makes sequence.nodes 0 entry.1 entry.2 ∧ entry.2.depth + 1 = entry.1.length :=
    fun entry among => made entry (List.mem_mergeSort.mp among)
  rw [← map_snd_sited solid]
  refine ⟨⟨perm.nodup_iff.mpr (Node.nodup_sites sequence.nodes 0), ?_, ?_⟩, ?_⟩
  · intro address
    rw [perm.mem_iff]
    exact Node.mem_sites_iff_at?
  · rw [← map_snd_sited solid, List.forall₂_map_left_iff, List.forall₂_map_right_iff,
      List.forall₂_same]
    exact fun entry among => (listed entry among).1
  · rw [List.forall₂_map_left_iff, List.forall₂_map_right_iff, List.forall₂_same]
    exact fun entry among => (listed entry among).2

/-- The regions of a sequence that was read are listed by the step they start at.  A region is
listed before one that it stands around exactly if they do not have the same steps.  So the
regions that start at a step are listed from the outermost to the innermost, but the inner one
first where two have the same steps; and those that end at a step are always listed from the
innermost to the outermost. -/
theorem regions_order_of_parse (parsed : parse source = .ok sequence) :
    sequence.regions.Pairwise (fun left right => left.first ≤ right.first) ∧
    ∃ addresses, sequence.Addressed addresses ∧
      List.Forall₂ (fun address region => region.depth + 1 = address.length)
        addresses sequence.regions ∧
      (∀ outer inner, Around addresses outer inner →
        (outer < inner ↔ ¬ Coincide sequence.regions outer inner)) ∧
      ∀ step,
        (∀ position, position ∈ regionsStartingAt sequence.regions step ↔
          ∃ region, sequence.regions[position]? = some region ∧ region.first = step) ∧
        (regionsStartingAt sequence.regions step).Pairwise (fun left right =>
          (Around addresses left right ∧ ¬ Coincide sequence.regions left right) ∨
            (Around addresses right left ∧ Coincide sequence.regions left right)) ∧
        (∀ position, position ∈ regionsEndingAt sequence.regions step ↔
          ∃ region, sequence.regions[position]? = some region ∧ region.last = step) ∧
        (regionsEndingAt sequence.regions step).Pairwise fun inner outer =>
          Around addresses outer inner := by
  have solid := solid_of_parse parsed
  obtain ⟨addressed, deep⟩ := addressed_sited solid
  have sorted := List.pairwise_mergeSort regionLe_trans regionLe_total
    (Node.regionsOf 0 0 sequence.nodes)
  refine ⟨sorted.imp fun inOrder => ?_, _, addressed, deep, fun _ _ => lt_iff_not_coincide solid,
    fun step => ⟨fun _ => mem_regionsStartingAt, pairwise_regionsStartingAt solid step,
      fun _ => mem_regionsEndingAt, pairwise_regionsEndingAt solid step⟩⟩
  simp only [regionLe, Bool.or_eq_true, Bool.and_eq_true, decide_eq_true_eq, beq_iff_eq] at inOrder
  omega

/-- A region with a count at the end of an endless one. -/
theorem regions_order_of_parse_end :
    ∃ sequence addresses, parse "[A+,[B+,B-]^2]" = .ok sequence ∧ sequence.Addressed addresses ∧
      regionsEndingAt sequence.regions 2 = [1, 0] ∧ Around addresses 0 1 := by
  have reads : ((parse "[A+,[B+,B-]^2]").toOption.any fun sequence =>
      Node.regionsOf 0 0 sequence.nodes == [⟨1, 2, .fixed 2, 1⟩, ⟨0, 2, .unbounded, 0⟩]) =
        true := by
    decide +kernel
  obtain ⟨sequence, parsed, reads⟩ := any_toOption_iff.mp reads
  have inTree := beq_iff_eq.mp reads
  have listed : sequence.regions = [⟨0, 2, .unbounded, 0⟩, ⟨1, 2, .fixed 2, 1⟩] := by
    rw [regions, inTree]
    simp [List.mergeSort, List.MergeSort.Internal.splitInTwo, regionLe]
  have ending : regionsEndingAt sequence.regions 2 = [1, 0] := by
    rw [listed]
    simp [regionsEndingAt, List.range_succ, List.mergeSort,
      List.MergeSort.Internal.splitInTwo]
  obtain ⟨-, addresses, addressed, -, -, order⟩ := regions_order_of_parse parsed
  obtain ⟨-, -, -, outward⟩ := order 2
  rw [ending] at outward
  exact ⟨sequence, addresses, parsed, addressed, ending, by simpa using outward⟩

/-- Where an endless region has the steps of the one within it, the inner one is listed first. -/
theorem inner_first_of_coincide :
    ∃ sequence addresses, parse "[[A+,A-]^2]" = .ok sequence ∧
      sequence.regions = [⟨0, 1, .fixed 2, 1⟩, ⟨0, 1, .unbounded, 0⟩] ∧
      sequence.Addressed addresses ∧ Around addresses 1 0 ∧
      regionsStartingAt sequence.regions 0 = [0, 1] := by
  have reads : ((parse "[[A+,A-]^2]").toOption.any fun sequence =>
      Node.regionsOf 0 0 sequence.nodes == [⟨0, 1, .fixed 2, 1⟩, ⟨0, 1, .unbounded, 0⟩]) =
        true := by
    decide +kernel
  obtain ⟨sequence, parsed, reads⟩ := any_toOption_iff.mp reads
  have solid := solid_of_parse parsed
  have inTree := beq_iff_eq.mp reads
  have listed : sequence.regions = [⟨0, 1, .fixed 2, 1⟩, ⟨0, 1, .unbounded, 0⟩] := by
    rw [regions, inTree]
    exact List.mergeSort_of_pairwise (by decide)
  have starting : regionsStartingAt sequence.regions 0 = [0, 1] := by
    rw [listed]
    decide
  have outward := pairwise_regionsEndingAt solid 1
  have ending : regionsEndingAt sequence.regions 1 = [0, 1] := by
    rw [listed]
    exact (List.mergeSort_of_pairwise (by decide)).trans (by decide)
  rw [ending, List.pairwise_pair] at outward
  exact ⟨sequence, _, parsed, listed, (addressed_sited solid).1, outward, starting⟩

end Sequence

end Pneumatic
