import Pneumatic.Proofs.Notation.Shape
import Mathlib.Data.List.Perm.Basic

/-!
# The nesting of regions

A region of a tree has an address: its place among the nodes, behind the address of the region
around it.  The depth of a region is the number of regions around it, in every tree.  In what is
read the regions are side by side, unless one of them is the endless region around all steps;
then the others are side by side within it.
-/

namespace Pneumatic

/-- The places on the way to a node, from the outermost. -/
abbrev Address := List Nat

/-- One region stands around another if its address leads to the other's. -/
def Address.Encloses (outer inner : Address) : Prop :=
  outer <+: inner ∧ outer ≠ inner

instance (outer inner : Address) : Decidable (outer.Encloses inner) :=
  inferInstanceAs (Decidable (outer <+: inner ∧ outer ≠ inner))

namespace Node

/-- The nodes that a node repeats. -/
def body : Node → List Node
  | .step _ => []
  | .region _ body => body

/-- The node at an address. -/
def at? (nodes : List Node) : Address → Option Node
  | [] => none
  | [place] => nodes[place]?
  | place :: rest => nodes[place]?.bind fun node => at? node.body rest

/-- The number of steps in front of an address. -/
def stepsBefore (nodes : List Node) : Address → Nat
  | [] => 0
  | place :: rest =>
      (stepsOf (nodes.take place)).length + stepsBefore ((nodes[place]?.map body).getD []) rest

/-- A region is what the node at an address makes of its bound and its steps, when so many steps
come before all nodes. -/
def Makes (nodes : List Node) (first : Nat) (address : Address) (region : Region) : Prop :=
  ∃ body, at? nodes address = some (.region region.bound body) ∧
    region.first = first + stepsBefore nodes address ∧
    region.last + 1 = region.first + (stepsOf body).length

/-! ## Addresses -/

/-- The addresses of the regions among nodes whose first one has a place, in the order in which
the regions come in the tree. -/
def sites (place : Nat) : List Node → List Address
  | [] => []
  | .step _ :: rest => sites (place + 1) rest
  | .region _ body :: rest =>
      (sites 0 body).map (place :: ·) ++ [place] :: sites (place + 1) rest

variable {nodes : List Node} {place : Nat} {address : Address}

theorem mem_sites : address ∈ sites place nodes ↔
    ∃ distance bound body rest, address = (place + distance) :: rest ∧
      nodes[distance]? = some (.region bound body) ∧ (rest = [] ∨ rest ∈ sites 0 body) := by
  induction nodes generalizing place with
  | nil => simp [sites]
  | cons node nodes ih =>
      have behind : (∃ distance bound body rest, address = (place + 1 + distance) :: rest ∧
          nodes[distance]? = some (.region bound body) ∧ (rest = [] ∨ rest ∈ sites 0 body)) ↔
          ∃ distance bound body rest, address = (place + (distance + 1)) :: rest ∧
            (node :: nodes)[distance + 1]? = some (.region bound body) ∧
            (rest = [] ∨ rest ∈ sites 0 body) := by
        simp only [List.getElem?_cons_succ, Nat.add_assoc, Nat.add_comm 1]
      cases node with
      | step found =>
          rw [sites, ih, behind]
          constructor
          · rintro ⟨distance, there⟩
            exact ⟨distance + 1, there⟩
          · rintro ⟨distance | distance, there⟩
            · simp at there
            · exact ⟨distance, there⟩
      | region bound body =>
          rw [sites, List.mem_append, List.mem_cons, ih, behind, List.mem_map]
          constructor
          · rintro (⟨rest, inside, rfl⟩ | rfl | ⟨distance, there⟩)
            · exact ⟨0, bound, body, rest, rfl, rfl, .inr inside⟩
            · exact ⟨0, bound, body, [], rfl, rfl, .inl rfl⟩
            · exact ⟨distance + 1, there⟩
          · rintro ⟨distance | distance, there⟩
            · obtain ⟨bound', body', rest, rfl, here, own | inside⟩ := there
              · exact .inr (.inl (by simp [own]))
              · obtain ⟨rfl, rfl⟩ : bound = bound' ∧ body = body' := by simpa using here
                exact .inl ⟨rest, inside, rfl⟩
            · exact .inr (.inr ⟨distance, there⟩)

theorem head_of_mem_sites (among : address ∈ sites place nodes) :
    ∃ next rest, address = next :: rest ∧ place ≤ next := by
  obtain ⟨distance, _, _, rest, rfl, -⟩ := mem_sites.mp among
  exact ⟨_, rest, rfl, Nat.le_add_right place distance⟩

/-- An address is among them if the node there is a region. -/
theorem mem_sites_iff_at? : address ∈ sites 0 nodes ↔
    ∃ bound body, at? nodes address = some (.region bound body) := by
  induction address generalizing nodes with
  | nil =>
      rw [mem_sites]
      simp [at?]
  | cons place rest ih =>
      have there : place :: rest ∈ sites 0 nodes ↔ ∃ bound body,
          nodes[place]? = some (.region bound body) ∧ (rest = [] ∨ rest ∈ sites 0 body) := by
        rw [mem_sites]
        simp only [Nat.zero_add, List.cons.injEq]
        constructor
        · rintro ⟨_, bound, body, _, ⟨rfl, rfl⟩, here, inside⟩
          exact ⟨bound, body, here, inside⟩
        · rintro ⟨bound, body, here, inside⟩
          exact ⟨place, bound, body, rest, ⟨rfl, rfl⟩, here, inside⟩
      rw [there]
      cases rest with
      | nil => simp [at?]
      | cons next rest =>
          simp only [reduceCtorEq, false_or, ih, at?]
          cases nodes[place]? with
          | none => simp
          | some node =>
              cases node with
              | step found =>
                  have nowhere : at? [] (next :: rest) = none := by
                    cases rest <;> simp [at?]
                  simp [body, nowhere]
              | region bound body => simp [Node.body]

theorem nodup_sites (nodes : List Node) : ∀ place, (sites place nodes).Nodup := by
  induction nodes using forestInduction with
  | nil =>
      intro place
      rw [sites]
      exact List.nodup_nil
  | step found rest ih =>
      intro place
      rw [sites]
      exact ih (place + 1)
  | region bound body rest bodyIH restIH =>
      intro place
      rw [sites, List.nodup_append, List.nodup_cons]
      refine ⟨(bodyIH 0).map fun _ _ => List.tail_eq_of_cons_eq, ⟨?_, restIH (place + 1)⟩, ?_⟩
      · intro among
        obtain ⟨next, _, equal, later⟩ := head_of_mem_sites among
        obtain ⟨rfl, -⟩ := List.cons.inj equal
        omega
      · intro left inBody right behind
        obtain ⟨address, inside, rfl⟩ := List.mem_map.mp inBody
        rcases List.mem_cons.mp behind with rfl | inRest
        · obtain ⟨next, more, rfl, -⟩ := head_of_mem_sites inside
          simp
        · obtain ⟨next, more, rfl, later⟩ := head_of_mem_sites inRest
          intro equal
          obtain ⟨rfl, -⟩ := List.cons.inj equal
          omega

/-! ## Depth -/

theorem encloses_cons_iff {next : Nat} {outer inner : Address} :
    Address.Encloses (next :: outer) (next :: inner) ↔ outer.Encloses inner := by
  simp [Address.Encloses, List.cons_prefix_cons]

theorem not_encloses_of_ne {next other : Nat} {outer inner : Address} (apart : next ≠ other) :
    ¬ Address.Encloses (next :: outer) (other :: inner) := by
  simp [Address.Encloses, List.cons_prefix_cons, apart]

/-- No region behind a place stands around an address that begins with the place. -/
theorem countP_sites_behind {start : Nat} (behind : place < start) (inner : Address) :
    (sites start nodes).countP (·.Encloses (place :: inner)) = 0 := by
  rw [List.countP_eq_zero]
  intro outer among
  obtain ⟨next, rest, rfl, later⟩ := head_of_mem_sites among
  rw [decide_eq_true_iff]
  exact not_encloses_of_ne (by omega)

/-- The regions around a region are the places on the way to it. -/
theorem countP_encloses (nodes : List Node) : ∀ place, ∀ address ∈ sites place nodes,
    (sites place nodes).countP (·.Encloses address) + 1 = address.length := by
  induction nodes using forestInduction with
  | nil =>
      intro place address among
      rw [sites] at among
      contradiction
  | step found rest ih =>
      intro place
      rw [sites]
      exact ih (place + 1)
  | region bound body rest bodyIH restIH =>
      intro place address among
      rw [sites, List.mem_append, List.mem_cons] at among
      rw [sites, List.countP_append, List.countP_cons]
      have behind : ∀ inner, (sites (place + 1) rest).countP
          (Address.Encloses · (place :: inner)) = 0 :=
        countP_sites_behind (Nat.lt_succ_self place)
      rcases among with inBody | rfl | inRest
      · obtain ⟨inner, inside, rfl⟩ := List.mem_map.mp inBody
        obtain ⟨next, more, rfl, -⟩ := head_of_mem_sites inside
        have own : Address.Encloses [place] (place :: next :: more) := by
          simp [Address.Encloses]
        have counted := bodyIH 0 _ inside
        rw [List.countP_map, behind, decide_eq_true own]
        simp only [Function.comp_def, encloses_cons_iff, ↓reduceIte]
        rw [List.length_cons, ← counted]
      · have inBody : ((sites 0 body).map (place :: ·)).countP
            (Address.Encloses · [place]) = 0 := by
          rw [List.countP_eq_zero]
          intro outer among
          obtain ⟨inner, inside, rfl⟩ := List.mem_map.mp among
          obtain ⟨next, more, rfl, -⟩ := head_of_mem_sites inside
          simp [Address.Encloses]
        rw [inBody, behind]
        simp [Address.Encloses]
      · obtain ⟨next, more, rfl, later⟩ := head_of_mem_sites inRest
        have apart : place ≠ next := by omega
        have inBody : ((sites 0 body).map (place :: ·)).countP
            (Address.Encloses · (next :: more)) = 0 := by
          rw [List.countP_eq_zero]
          intro outer among
          obtain ⟨inner, -, rfl⟩ := List.mem_map.mp among
          simpa using not_encloses_of_ne apart
        rw [inBody, decide_eq_false (not_encloses_of_ne apart), ← restIH _ _ inRest]
        simp

/-! ## Regions and their addresses -/

theorem makes_body {front rest : List Node} {bound : Bound} {body : List Node} {first : Nat}
    {address : Address} {region : Region}
    (makes : Makes body (first + (stepsOf front).length) address region) :
    Makes (front ++ .region bound body :: rest) first (front.length :: address) region := by
  obtain ⟨own, there, firstEq, lastEq⟩ := makes
  cases address with
  | nil => simp [at?] at there
  | cons next more =>
      refine ⟨own, ?_, ?_, lastEq⟩
      · simpa [at?, Node.body] using there
      · rw [firstEq]
        simp [stepsBefore, Node.body, Nat.add_assoc]

theorem makes_own (front rest : List Node) (bound : Bound) {body : List Node} (depth first : Nat)
    (nonempty : stepsOf body ≠ []) :
    Makes (front ++ .region bound body :: rest) first [front.length]
      (own depth (first + (stepsOf front).length) bound body) := by
  have positive := List.length_pos_iff.mpr nonempty
  refine ⟨body, by simp [at?, own], by simp [stepsBefore, own], ?_⟩
  simp only [own]
  omega

/-- The regions of a tree come in the order of their addresses.  A region lies where its node
does, and its depth is the number of places on the way to it. -/
theorem forall₂_sites {nodes : List Node} : (∀ node ∈ nodes, node.Solid) →
    ∀ (front : List Node) (depth first : Nat),
      List.Forall₂ (fun address region => Makes (front ++ nodes) first address region ∧
          region.depth + 1 = depth + address.length)
        (sites front.length nodes) (regionsOf depth (first + (stepsOf front).length) nodes) := by
  induction nodes using forestInduction with
  | nil =>
      intro _ front depth first
      rw [sites]
      exact .nil
  | step found rest ih =>
      intro solid front depth first
      have behind := ih (fun node among => solid node (List.mem_cons_of_mem _ among))
        (front ++ [.step found]) depth first
      rw [List.append_assoc, List.length_append, Spelled.stepsOf_append, List.length_append]
        at behind
      rw [sites, regionsOf_step]
      exact behind
  | region bound body rest bodyIH restIH =>
      intro solid front depth first
      obtain ⟨here, later⟩ := List.forall_mem_cons.mp solid
      cases here with
      | region nonempty inside =>
          have behind := restIH later (front ++ [.region bound body]) depth first
          rw [List.append_assoc, List.length_append, Spelled.stepsOf_append, List.length_append]
            at behind
          rw [sites, regionsOf_region, if_pos (List.length_pos_iff.mpr nonempty)]
          refine List.rel_append ?_ (.cons ⟨makes_own front rest bound depth first nonempty, ?_⟩ ?_)
          · have within := bodyIH inside [] (depth + 1) (first + (stepsOf front).length)
            rw [List.forall₂_map_left_iff]
            refine within.imp fun address region ⟨makes, deep⟩ => ⟨makes_body makes, ?_⟩
            rw [List.length_cons, deep]
            omega
          · simp [own]
          · simpa [stepsOf, steps, Nat.add_assoc] using behind

theorem regionsOf_ne_nil {nodes : List Node} (solid : ∀ node ∈ nodes, node.Solid)
    (hasRegion : nodes.any isRegion = true) (depth first : Nat) :
    regionsOf depth first nodes ≠ [] := by
  induction nodes generalizing first with
  | nil => contradiction
  | cons node rest ih =>
      obtain ⟨here, later⟩ := List.forall_mem_cons.mp solid
      cases here with
      | step found => exact ih later hasRegion (first + 1)
      | region inside _ =>
          rw [regionsOf_region, if_pos (List.length_pos_iff.mpr inside)]
          simp

end Node

namespace Grammar

theorem exists_unit_of_units {texts : List (List Char)} {steps : List Step}
    (units : List.Forall₂ Unit texts steps) : ∀ step ∈ steps, ∃ text, Unit text step := by
  induction units with
  | nil => nofun
  | cons unit _ ih => exact List.forall_mem_cons.mpr ⟨⟨_, unit⟩, ih⟩

/-- The steps of a derivation are units. -/
theorem Item.exists_unit {text : List Char} {node : Node} (item : Item text node) :
    ∀ step ∈ node.steps, ∃ text, Unit text step := by
  cases item with
  | unit unit => simpa [Node.steps] using ⟨text, unit⟩
  | region units _ _ =>
      rw [Node.steps, stepsOf_map_step]
      exact exists_unit_of_units units

theorem exists_unit_of_items {texts : List (List Char)} {nodes : List Node}
    (items : List.Forall₂ Item texts nodes) :
    ∀ step ∈ Node.stepsOf nodes, ∃ text, Unit text step := by
  induction items with
  | nil => nofun
  | cons item _ ih =>
      intro step among
      rw [Node.stepsOf, List.mem_append] at among
      exact among.elim (item.exists_unit step) (ih step)

theorem Whole.exists_unit {text : List Char} {nodes : List Node} (derives : Whole text nodes) :
    ∀ step ∈ Node.stepsOf nodes, ∃ text, Unit text step := by
  cases derives with
  | items items _ => exact exists_unit_of_items items
  | enclosed items _ =>
      rw [Node.stepsOf_region, Node.stepsOf, List.append_nil]
      exact exists_unit_of_items items

end Grammar

/-- Two regions without a common step. -/
def Region.Apart (left right : Region) : Prop :=
  left.last < right.first ∨ right.last < left.first

instance (left right : Region) : Decidable (left.Apart right) :=
  inferInstanceAs (Decidable (left.last < right.first ∨ right.last < left.first))

namespace Sequence

variable {source : String} {sequence : Sequence}

/-- The addresses of all regions in the tree of a sequence, each in the place of the region
that it leads to. -/
structure Addressed (sequence : Sequence) (addresses : List Address) : Prop where
  nodup : addresses.Nodup
  mem_iff : ∀ address, address ∈ addresses ↔
    ∃ bound body, Node.at? sequence.nodes address = some (.region bound body)
  makes : List.Forall₂ (Node.Makes sequence.nodes 0) addresses sequence.regions

/-- Regions of one depth, of which no two have a common step. -/
structure SideBySide (depth : Nat) (regions : List Region) : Prop where
  depth_eq : ∀ region ∈ regions, region.depth = depth
  apart : regions.Pairwise Region.Apart

/-- Sorting the regions sorts their addresses with them. -/
theorem exists_addressed (solid : ∀ node ∈ sequence.nodes, node.Solid) :
    ∃ addresses, sequence.Addressed addresses ∧
      List.Forall₂ (fun address region => region.depth = addresses.countP (·.Encloses address))
        addresses sequence.regions := by
  have inTree := (Node.forall₂_sites solid [] 0 0).flip
  obtain ⟨addresses, sorted, perm⟩ :=
    List.perm_comp_forall₂ (List.mergeSort_perm _ regionLe) inTree
  replace perm : addresses.Perm (Node.sites 0 sequence.nodes) := perm
  have nodup := perm.nodup_iff.mpr (Node.nodup_sites sequence.nodes 0)
  refine ⟨addresses, ⟨nodup, ?_, ?_⟩, ?_⟩
  · intro address
    rw [perm.mem_iff]
    exact Node.mem_sites_iff_at?
  · exact sorted.flip.imp fun _ _ made => made.1
  · refine sorted.flip.imp fun address region ⟨⟨body, there, _⟩, deep⟩ => ?_
    have counted := Node.countP_encloses sequence.nodes 0 address
      (Node.mem_sites_iff_at?.mpr ⟨_, body, there⟩)
    rw [perm.countP_eq]
    omega

/-- Flat nodes have their regions side by side. -/
theorem sideBySide_regionsOf {nodes : List Node} (flat : ∀ node ∈ nodes, node.IsFlat)
    (depth first : Nat) : SideBySide depth (Node.regionsOf depth first nodes) where
  depth_eq _ := Node.depth_of_mem_regionsOf_flat flat
  apart := (Node.pairwise_regionsOf_flat flat depth first).imp .inl

theorem SideBySide.of_perm {depth : Nat} {left right : List Region} (perm : left.Perm right)
    (beside : SideBySide depth right) : SideBySide depth left where
  depth_eq region among := beside.depth_eq region (perm.mem_iff.mp among)
  apart := beside.apart.perm perm.symm Or.symm

/-- A sequence that was read has its regions side by side, or one endless region around all
steps with the others side by side within it. -/
theorem sideBySide_of_parse (parsed : parse source = .ok sequence) :
    SideBySide 0 sequence.regions ∨
      ∃ outer inner, sequence.regions.Perm (outer :: inner) ∧ inner ≠ [] ∧
        outer = ⟨0, sequence.length - 1, .unbounded, 0⟩ ∧ SideBySide 1 inner := by
  have sorted := List.mergeSort_perm (Node.regionsOf 0 0 sequence.nodes) regionLe
  rcases flat_of_parse parsed with flat | ⟨items, nodesEq, flat, hasRegion⟩
  · exact .inl (.of_perm sorted (sideBySide_regionsOf flat 0 0))
  · refine .inr ⟨_, Node.regionsOf 1 0 items, ?_, ?_, rfl, sideBySide_regionsOf flat 1 0⟩
    · refine sorted.trans ?_
      have positive := length_pos_of_parse parsed
      have lengthEq : sequence.length = (Node.stepsOf items).length := by
        rw [length, steps, nodesEq, Node.stepsOf_region, Node.stepsOf, List.append_nil]
      rw [lengthEq] at positive ⊢
      rw [nodesEq, Node.regionsOf_region, if_pos positive, Node.regionsOf, List.append_nil,
        Node.own]
      simp only [Nat.zero_add]
      exact List.perm_append_singleton _ _
    · have solid := solid_of_parse parsed _ (nodesEq ▸ List.mem_singleton_self _)
      cases solid with
      | region _ solid => exact Node.regionsOf_ne_nil solid hasRegion 1 0

/-- A group that was read has two or more tokens. -/
theorem two_le_length_of_group (parsed : parse source = .ok sequence) {tokens : List Token}
    (among : .group tokens ∈ sequence.steps) : 2 ≤ tokens.length := by
  obtain ⟨-, nodes, derives, keeps⟩ := parse_eq_ok_iff_whole.mp parsed
  rw [steps, stepsOf_kept keeps] at among
  obtain ⟨text, unit⟩ := derives.exists_unit _ among
  cases unit with
  | group _ long => exact long

/-- The regions of a sequence that was read start before they end, within the sequence.  They
are the regions of the tree, and the depth of each is the number of those around it.  They are
side by side, or one endless region around all steps has all others side by side within it.  A
wrapped sequence has two or more steps and no region, and a group has two or more tokens. -/
theorem nesting_of_parse (parsed : parse source = .ok sequence) :
    (∀ region ∈ sequence.regions, region.first < region.last ∧ region.last < sequence.length) ∧
    (∃ addresses, sequence.Addressed addresses ∧
      List.Forall₂ (fun address region => region.depth = addresses.countP (·.Encloses address))
        addresses sequence.regions) ∧
    (SideBySide 0 sequence.regions ∨
      ∃ outer inner, sequence.regions.Perm (outer :: inner) ∧ inner ≠ [] ∧
        outer = ⟨0, sequence.length - 1, .unbounded, 0⟩ ∧ SideBySide 1 inner) ∧
    (sequence.wrapped = true → sequence.regions = [] ∧ 2 ≤ sequence.length) ∧
    ∀ tokens, .group tokens ∈ sequence.steps → 2 ≤ tokens.length := by
  refine ⟨fun region among => ?_, exists_addressed (solid_of_parse parsed),
    sideBySide_of_parse parsed, fun wrapped => ?_, fun _ => two_le_length_of_group parsed⟩
  · exact ⟨first_lt_last_of_parse parsed among, (bounds_of_mem_regions among).2⟩
  · obtain ⟨found, nodesEq, long⟩ := wrapped_of_parse parsed wrapped
    rw [regions, length, steps, nodesEq, Node.regionsOf_map_step, Grammar.stepsOf_map_step]
    exact ⟨List.mergeSort_nil, long⟩

/-- A region with a count, in an endless one around all steps. -/
theorem nesting_of_parse_count :
    ∃ sequence outer inner addresses, parse "[A+,[B+,B-]^2,A-]" = .ok sequence ∧
      outer ∈ sequence.regions ∧ outer = ⟨0, 3, .unbounded, 0⟩ ∧ outer.last < sequence.length ∧
      inner ∈ sequence.regions ∧ inner = ⟨1, 2, .fixed 2, 1⟩ ∧ sequence.Addressed addresses := by
  have reads : ((parse "[A+,[B+,B-]^2,A-]").toOption.any fun sequence =>
      Node.regionsOf 0 0 sequence.nodes == [⟨1, 2, .fixed 2, 1⟩, ⟨0, 3, .unbounded, 0⟩]) =
        true := by
    decide +kernel
  obtain ⟨sequence, parsed, reads⟩ := any_toOption_iff.mp reads
  have inTree := beq_iff_eq.mp reads
  have outerAmong : ⟨0, 3, .unbounded, 0⟩ ∈ sequence.regions := by simp [mem_regions, inTree]
  have innerAmong : ⟨1, 2, .fixed 2, 1⟩ ∈ sequence.regions := by simp [mem_regions, inTree]
  obtain ⟨bounds, ⟨addresses, addressed, -⟩, -⟩ := nesting_of_parse parsed
  exact ⟨sequence, _, _, addresses, parsed, outerAmong, rfl, (bounds _ outerAmong).2, innerAmong,
    rfl, addressed⟩

end Sequence

end Pneumatic
