import Pneumatic.Proofs.Notation.Reading
import Pneumatic.Proofs.Notation.Regions
import Pneumatic.Proofs.Once

/-!
# The shape of what is read

A sequence that was read has steps, every region of it has two or more, and a wrapped one
has no region.  No region is in another, unless one is around everything.  Nothing keeps a step
from commanding an actuator in both directions.
-/

namespace Pneumatic

namespace Grammar

theorem Item.long {text : List Char} {node : Node} (derives : Item text node) : node.Long := by
  cases derives with
  | unit _ => exact .step _
  | @region texts steps spec bound units long isSpec =>
      refine .region ?_ ?_
      · rwa [stepsOf_map_step]
      · intro node membership
        obtain ⟨step, -, rfl⟩ := List.mem_map.mp membership
        exact .step step

theorem long_of_items {texts : List (List Char)} {nodes : List Node}
    (derives : List.Forall₂ Item texts nodes) : ∀ node ∈ nodes, node.Long := by
  induction derives with
  | nil => simp
  | cons head _ ih =>
      rw [List.forall_mem_cons]
      exact ⟨head.long, ih⟩

/-- Every region of a derivation has two or more steps. -/
theorem Whole.long {text : List Char} {nodes : List Node} (derives : Whole text nodes) :
    ∀ node ∈ nodes, node.Long := by
  cases derives with
  | items items _ => exact long_of_items items
  | enclosed items hasRegion =>
      rw [List.forall_mem_singleton]
      exact .region (two_le_length_of_any_isRegion items hasRegion) (long_of_items items)

theorem Whole.ne_nil {text : List Char} {nodes : List Node} (derives : Whole text nodes) :
    nodes ≠ [] := by
  cases derives with
  | items _ nonempty => exact nonempty
  | enclosed _ _ => simp

end Grammar

namespace Sequence

variable {source : String} {sequence : Sequence}

theorem long_of_parse (parsed : parse source = .ok sequence) :
    ∀ node ∈ sequence.nodes, node.Long := by
  obtain ⟨-, nodes, derives, keeps⟩ := parse_eq_ok_iff_whole.mp parsed
  have long := derives.long
  generalize sequence.nodes = kept at keeps ⊢
  generalize sequence.wrapped = wrapped at keeps
  cases keeps with
  | plain _ => exact long
  | wrap steps =>
      intro node membership
      obtain ⟨step, -, rfl⟩ := List.mem_map.mp membership
      exact .step step

theorem solid_of_parse (parsed : parse source = .ok sequence) :
    ∀ node ∈ sequence.nodes, node.Solid :=
  fun node among => (long_of_parse parsed node among).solid

/-- A region of a sequence that was read ends behind the step it starts with. -/
theorem first_lt_last_of_parse (parsed : parse source = .ok sequence) {region : Region}
    (among : region ∈ sequence.regions) : region.first < region.last :=
  Node.first_lt_last_of_mem_regionsOf (long_of_parse parsed) (mem_regions.mp among)

/-- A wrapped sequence consists of two or more steps. -/
theorem wrapped_of_parse (parsed : parse source = .ok sequence)
    (wrapped : sequence.wrapped = true) :
    ∃ steps : List Step, sequence.nodes = steps.map .step ∧ 2 ≤ steps.length := by
  obtain ⟨-, nodes, derives, keeps⟩ := parse_eq_ok_iff_whole.mp parsed
  obtain ⟨steps, keptEq, region⟩ := (wrapped_iff derives keeps).mp wrapped
  obtain ⟨texts, -, long, -⟩ := Grammar.whole_unbounded_iff.mp region
  exact ⟨steps, keptEq, long⟩

theorem nodes_ne_nil_of_parse (parsed : parse source = .ok sequence) : sequence.nodes ≠ [] := by
  obtain ⟨-, nodes, derives, keeps⟩ := parse_eq_ok_iff_whole.mp parsed
  have stepsEq := stepsOf_kept keeps
  have stepsSome := Node.stepsOf_ne_nil (fun node among => (derives.long node among).solid)
    derives.ne_nil
  intro empty
  rw [empty] at stepsEq
  exact stepsSome stepsEq.symm

theorem length_pos_of_parse (parsed : parse source = .ok sequence) : 0 < sequence.length :=
  List.length_pos_iff.mpr
    (Node.stepsOf_ne_nil (solid_of_parse parsed) (nodes_ne_nil_of_parse parsed))

end Sequence

/-! ## Flat nodes -/

namespace Node

/-- A step, or a region of steps. -/
def IsFlat (node : Node) : Prop :=
  (∃ step, node = .step step) ∨ ∃ (bound : Bound) (steps : List Step),
    node = .region bound (steps.map .step)

/-- The regions of nodes without regions in regions lie one behind the other. -/
theorem pairwise_regionsOf_flat {nodes : List Node} (flat : ∀ node ∈ nodes, node.IsFlat)
    (depth first : Nat) :
    (regionsOf depth first nodes).Pairwise fun before behind => before.last < behind.first := by
  induction nodes generalizing first with
  | nil => exact .nil
  | cons node rest ih =>
      rw [List.forall_mem_cons] at flat
      rcases flat with ⟨⟨step, rfl⟩ | ⟨bound, steps, rfl⟩, flatRest⟩
      · exact ih flatRest (first + 1)
      · rw [regionsOf_region, regionsOf_map_step, List.nil_append]
        split
        · next positive =>
            rw [List.singleton_append, List.pairwise_cons]
            refine ⟨?_, ih flatRest _⟩
            intro behind inRest
            have bounds := bounds_of_mem_regionsOf inRest
            simp only [own]
            omega
        · exact ih flatRest _

/-- No region of such nodes is within another. -/
theorem depth_of_mem_regionsOf_flat {nodes : List Node} (flat : ∀ node ∈ nodes, node.IsFlat)
    {depth first : Nat} {region : Region} (among : region ∈ regionsOf depth first nodes) :
    region.depth = depth := by
  induction nodes generalizing first with
  | nil => contradiction
  | cons node rest ih =>
      rw [List.forall_mem_cons] at flat
      rcases flat with ⟨⟨step, rfl⟩ | ⟨bound, steps, rfl⟩, flatRest⟩
      · exact ih flatRest among
      · rw [regionsOf_region, regionsOf_map_step, List.nil_append, List.mem_append] at among
        rcases among with isOwn | inRest
        · obtain ⟨rfl, -⟩ := eq_own isOwn
          rfl
        · exact ih flatRest inRest

end Node

theorem Grammar.Item.isFlat {text : List Char} {node : Node} (item : Item text node) :
    node.IsFlat := by
  cases item with
  | unit _ => exact .inl ⟨_, rfl⟩
  | region _ _ _ => exact .inr ⟨_, _, rfl⟩

theorem Grammar.flat_of_items {texts : List (List Char)} {nodes : List Node}
    (derives : List.Forall₂ Item texts nodes) : ∀ node ∈ nodes, node.IsFlat := by
  induction derives with
  | nil => nofun
  | cons item _ ih => exact List.forall_mem_cons.mpr ⟨item.isFlat, ih⟩

/-- What is read are flat nodes, or one endless region of flat nodes with a region among
them. -/
theorem Sequence.flat_of_parse {source : String} {sequence : Sequence}
    (parsed : parse source = .ok sequence) :
    (∀ node ∈ sequence.nodes, node.IsFlat) ∨
      ∃ items, sequence.nodes = [.region .unbounded items] ∧
        (∀ node ∈ items, node.IsFlat) ∧ items.any Node.isRegion = true := by
  obtain ⟨-, nodes, derives, keeps⟩ := parse_eq_ok_iff_whole.mp parsed
  obtain ⟨text, kept, wrapped⟩ := sequence
  simp only at keeps ⊢
  generalize (Fragment.normalize source).toList = written at derives
  cases keeps with
  | wrap steps =>
      refine .inl fun node among => ?_
      obtain ⟨step, -, rfl⟩ := List.mem_map.mp among
      exact .inl ⟨step, rfl⟩
  | plain _ =>
      cases derives with
      | items derived _ => exact .inl (Grammar.flat_of_items derived)
      | enclosed derived hasRegion => exact .inr ⟨_, rfl, Grammar.flat_of_items derived, hasRegion⟩

/-! ## Steps that go one way -/

/-- A step that does not command an actuator in both directions. -/
def Step.OneWay (step : Step) : Prop :=
  ∀ left ∈ step.actuations, ∀ right ∈ step.actuations,
    left.label = right.label → left.direction = right.direction

instance (step : Step) : Decidable step.OneWay :=
  inferInstanceAs (Decidable (∀ left ∈ step.actuations, ∀ right ∈ step.actuations,
    left.label = right.label → left.direction = right.direction))

/-- No step commands an actuator in both directions. -/
def Sequence.OneWay (sequence : Sequence) : Prop :=
  ∀ step ∈ sequence.steps, ∀ left ∈ step.actuations, ∀ right ∈ step.actuations,
    left.label = right.label → left.direction = right.direction

theorem Sequence.oneWay_of_single {sequence : Sequence}
    (single : ∀ step ∈ sequence.steps, step.actuations.length ≤ 1) :
    sequence.OneWay := by
  intro step membership left leftAmong right rightAmong _
  have short := single step membership
  cases moves : step.actuations with
  | nil => simp [moves] at leftAmong
  | cons actuation rest =>
      obtain rfl : rest = [] := by simpa [moves] using short
      rw [moves, List.mem_singleton] at leftAmong rightAmong
      rw [leftAmong, rightAmong]

theorem Sequence.oneWay_iff {sequence : Sequence} :
    sequence.OneWay ↔ ∀ step ∈ sequence.steps, step.OneWay :=
  Iff.rfl

/-- The labels of a sequence are those of its actuations, in order, each where it comes
first. -/
theorem Sequence.labels_eq_eraseDups (sequence : Sequence) :
    sequence.labels =
      ((sequence.steps.flatMap Step.actuations).map (·.label)).eraseDups := by
  rw [Sequence.labels]
  induction sequence.steps.flatMap Step.actuations using List.reverseRecOn with
  | nil => rfl
  | append_singleton before actuation ih =>
      rw [List.foldl_append, ih, List.map_append, List.foldl_cons, List.foldl_nil, List.map_cons,
        List.map_nil]
      by_cases known : actuation.label ∈ before.map (·.label)
      · rw [eraseDups_append_of_mem known, if_pos]
        rwa [List.contains_iff_mem, List.mem_eraseDups]
      · rw [eraseDups_append_of_not_mem known, if_neg]
        rwa [List.contains_iff_mem, List.mem_eraseDups]

end Pneumatic
