import Pneumatic.Notation.Parse
import Mathlib.Data.List.Forall2

/-!
# The grammar of the notation

A sequence is a list of items between commas.  An item is a token, a group of two or
more tokens in round brackets, or a region of two or more of these in square
brackets, with or without a bound.  Square brackets without a bound may also stand
around all items when one of them is a region.

The grammar looks at whole texts and knows nothing of fragments, marks or frames.
-/

namespace Pneumatic.Grammar

/-- Texts with commas between them. -/
def joined (texts : List (List Char)) : List Char :=
  [','].intercalate texts

/-- A text is the spelling of a token. -/
def Spells (text : List Char) (token : Token) : Prop :=
  Token.ofChars? text = some token

/-- A token by itself, or a group of two or more tokens. -/
inductive Unit : List Char → Step → Prop where
  | token {text : List Char} {token : Token} :
      Spells text token → Unit text (.single token)
  | group {texts : List (List Char)} {tokens : List Token} :
      List.Forall₂ Spells texts tokens → 2 ≤ tokens.length →
      Unit ('(' :: joined texts ++ [')']) (.group tokens)

/-- What may follow the closing bracket of a region, and the bound it gives. -/
inductive Spec : List Char → Bound → Prop where
  | none : Spec [] .unbounded
  | caret {text : List Char} {bound : Bound} :
      Bound.ofChars? text = some bound → Spec ('^' :: text) bound

/-- A unit, or a region of two or more units. -/
inductive Item : List Char → Node → Prop where
  | unit {text : List Char} {step : Step} : Unit text step → Item text (.step step)
  | region {texts : List (List Char)} {steps : List Step} {spec : List Char} {bound : Bound} :
      List.Forall₂ Unit texts steps → 2 ≤ steps.length → Spec spec bound →
      Item ('[' :: joined texts ++ ']' :: spec) (.region bound (steps.map .step))

/-- The text of a whole sequence with its derivation tree. -/
inductive Whole : List Char → List Node → Prop where
  | items {texts : List (List Char)} {nodes : List Node} :
      List.Forall₂ Item texts nodes → nodes ≠ [] → Whole (joined texts) nodes
  | enclosed {texts : List (List Char)} {nodes : List Node} :
      List.Forall₂ Item texts nodes → nodes.any Node.isRegion = true →
      Whole ('[' :: joined texts ++ [']']) [.region .unbounded nodes]

/-- What a sequence keeps of its derivation tree: everything, unless the tree is one
endless region of units, which is the wrap of a sequence of these units. -/
inductive Kept : List Node → List Node → Bool → Prop where
  | wrap (steps : List Step) :
      Kept [.region .unbounded (steps.map .step)] (steps.map .step) true
  | plain {nodes : List Node} :
      (∀ steps : List Step, nodes ≠ [.region .unbounded (steps.map .step)]) →
      Kept nodes nodes false

/-! ## Joining -/

/-- Texts with a comma behind each. -/
def led (texts : List (List Char)) : List Char :=
  texts.flatMap (· ++ [','])

@[simp] theorem joined_singleton (text : List Char) : joined [text] = text := by
  simp [joined]

theorem joined_cons {text : List Char} {texts : List (List Char)} (nonempty : texts ≠ []) :
    joined (text :: texts) = text ++ ',' :: joined texts := by
  cases texts with
  | nil => contradiction
  | cons next rest => simp [joined, List.intercalate]

@[simp] theorem led_nil : led [] = [] := rfl

@[simp] theorem led_append (left right : List (List Char)) :
    led (left ++ right) = led left ++ led right := by
  simp [led]

@[simp] theorem led_singleton (text : List Char) : led [text] = text ++ [','] := by
  simp [led]

/-- The comma behind the last text is all that joining leaves out. -/
theorem led_eq_joined {texts : List (List Char)} (nonempty : texts ≠ []) :
    led texts = joined texts ++ [','] := by
  induction texts with
  | nil => contradiction
  | cons text rest ih =>
      cases rest with
      | nil => simp
      | cons next more =>
          rw [joined_cons (by simp), List.append_assoc, List.cons_append, ← ih (by simp)]
          simp [led]

theorem joined_append {left right : List (List Char)} (leftSome : left ≠ [])
    (rightSome : right ≠ []) :
    joined (left ++ right) = joined left ++ ',' :: joined right := by
  have bothSome : left ++ right ≠ [] := by simp [leftSome]
  refine List.append_cancel_right (?_ : _ ++ [','] = _ ++ [','])
  rw [← led_eq_joined bothSome, led_append, led_eq_joined leftSome, led_eq_joined rightSome]
  simp

/-! ## Trees -/

theorem isRegion_map_step (steps : List Step) :
    (steps.map Node.step).any Node.isRegion = false := by
  simp [Node.isRegion]

/-- Nodes without a region are steps. -/
theorem exists_map_step {nodes : List Node} (plain : nodes.any Node.isRegion = false) :
    ∃ steps : List Step, nodes = steps.map .step := by
  induction nodes with
  | nil => exact ⟨[], rfl⟩
  | cons node rest ih =>
      simp only [List.any_cons, Bool.or_eq_false_iff] at plain
      obtain ⟨steps, rfl⟩ := ih plain.2
      cases node with
      | step step => exact ⟨step :: steps, rfl⟩
      | region bound body => simp [Node.isRegion] at plain

@[simp] theorem stepsOf_map_step (steps : List Step) :
    Node.stepsOf (steps.map .step) = steps := by
  induction steps with
  | nil => rfl
  | cons step rest ih => simp [Node.stepsOf, Node.steps, ih]

/-- Unwrapping a tree leaves what is kept of it. -/
theorem kept_iff_unwrap {nodes kept : List Node} {wrapped : Bool} :
    Kept nodes kept wrapped ↔ Sequence.unwrap nodes = (kept, wrapped) := by
  constructor
  · intro keeps
    cases keeps with
    | wrap steps => rw [Sequence.unwrap, isRegion_map_step, if_neg Bool.false_ne_true]
    | plain other =>
        unfold Sequence.unwrap
        split
        · next body =>
            cases holds : body.any Node.isRegion with
            | true => rfl
            | false =>
                obtain ⟨steps, rfl⟩ := exists_map_step holds
                exact absurd rfl (other steps)
        · rfl
  · intro unwrapEq
    unfold Sequence.unwrap at unwrapEq
    split at unwrapEq
    · next body =>
        cases holds : body.any Node.isRegion with
        | true =>
            simp only [holds, ↓reduceIte, Prod.mk.injEq] at unwrapEq
            obtain ⟨rfl, rfl⟩ := unwrapEq
            refine .plain ?_
            rintro steps equal
            simp only [List.cons.injEq, Node.region.injEq, and_true, true_and] at equal
            rw [equal, isRegion_map_step] at holds
            contradiction
        | false =>
            simp only [holds, Bool.false_eq_true, ↓reduceIte, Prod.mk.injEq] at unwrapEq
            obtain ⟨rfl, rfl⟩ := unwrapEq
            obtain ⟨steps, rfl⟩ := exists_map_step holds
            exact .wrap steps
    · next other =>
        simp only [Prod.mk.injEq] at unwrapEq
        obtain ⟨rfl, rfl⟩ := unwrapEq
        exact .plain fun steps equal => other _ equal

end Pneumatic.Grammar
