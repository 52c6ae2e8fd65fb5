import Pneumatic.Notation.Parse
import Pneumatic.Proofs.Notation.Spelling

/-!
# Derivations are read

The words that spell a derivation pass every check of a sequence, and the tree built
from them is the derivation.
-/

namespace Pneumatic

namespace Brackets

/-- No region spans a sequence whose square brackets alternate. -/
theorem enclosesRegion_of_alternates (fragments : List Fragment) {low : Nat} {squares : List Mark}
    (alternates : Mark.Alternates false low squares) :
    enclosesRegion fragments squares = false := by
  unfold enclosesRegion
  split
  · cases alternates with
    | nil => simp
    | opens _ rest =>
        cases rest with
        | closes => simp [Mark.opening?]
  · rfl

theorem outerSpans_append_closes (kind : Bracket) (last : Nat) {isOpen : Bool} {low : Nat}
    {marks : List Mark} (alternates : Mark.Alternates isOpen low marks) :
    outerSpans (if isOpen then 2 else 1) (marks ++ [.closes kind last]) = true := by
  induction alternates with
  | nil => rfl
  | opens _ _ ih => simpa [outerSpans] using ih
  | closes _ _ ih => simpa [outerSpans] using ih

/-- Square brackets without a bound span the words between them. -/
theorem enclosesRegion_enclose {words : List Word} (long : 2 ≤ words.length)
    (squares : ∀ first, Mark.Alternates false first (ofKind .square (Word.marks first words)))
    (nonempty : ofKind .square (Word.marks 0 words) ≠ []) :
    enclosesRegion (Word.fragments 0 (Word.enclose ⟨.square, none⟩ words))
      (.opens .square 0 :: ofKind .square (Word.marks 0 words) ++
        [.closes .square (words.length - 1)]) = true := by
  obtain ⟨first, rest, rfl⟩ := List.exists_cons_of_ne_nil (l := words) (by rintro rfl; simp at long)
  rcases List.eq_nil_or_concat rest with rfl | ⟨middle, last, rfl⟩
  · simp at long
  · rw [List.concat_eq_append] at long squares nonempty ⊢
    have opened : Word.openFirst .square (first :: (middle ++ [last])) =
        ({ first with opens := .square :: first.opens } :: middle) ++ [last] := rfl
    have alternates := squares 0
    generalize ofKind .square (Word.marks 0 (first :: (middle ++ [last]))) = marks
      at nonempty alternates ⊢
    have spans := outerSpans_append_closes .square (middle.length + 1) alternates
    rw [Word.enclose, opened, Word.closeLast_eq, Word.fragments_append]
    simp only [Word.fragments, List.length_cons, Nat.zero_add]
    have lastEq {Element : Type} (head last : Element) (middle : List Element) :
        (head :: (middle ++ [last])).getLast? = Option.some last := by
      rw [← List.cons_append, List.getLast?_concat]
    simp only [List.cons_append]
    rw [enclosesRegion, lastEq, List.head?_cons, lastEq]
    cases alternates with
    | nil => contradiction
    | opens _ rest =>
        cases rest with
        | closes => simpa [outerSpans, Mark.opening?, Word.fragment] using spans

theorem kindTexts_of_alternates (fragments : List Fragment) (kind : Bracket) {low : Nat}
    {marks : List Mark} (alternates : Mark.Alternates false low (ofKind kind marks)) :
    kindTexts fragments kind marks = [] := by
  obtain ⟨even, paired, -⟩ := pairTexts_of_alternates fragments kind.rules alternates
  have all : inner fragments kind (ofKind kind marks) = ofKind kind marks := by
    rw [inner, enclosesRegion_of_alternates fragments alternates, Bool.and_false,
      if_neg Bool.false_ne_true]
  rw [kindTexts, if_pos even, all]
  exact paired

/-- There is nothing to say about the brackets of words that spell nodes. -/
theorem texts_of_spelled {words : List Word} {nodes : List Node} (spelled : Spelled words nodes) :
    texts (Word.fragments 0 words) = [] := by
  have crossing := spelled.crossing (Word.fragments 0 words) 0 [] [] rfl
  rw [List.append_nil] at crossing
  simp only [texts, Word.marks_fragments, crossing, crossingTexts, ite_self, List.append_nil,
    kindTexts_of_alternates _ .round (spelled.rounds 0),
    kindTexts_of_alternates _ .square (spelled.squares 0)]

/-- Nor is there when square brackets without a bound stand around such words and one of
the nodes is a region. -/
theorem texts_enclose_of_spelled {words : List Word} {nodes : List Node}
    (spelled : Spelled words nodes) (hasRegion : nodes.any Node.isRegion = true) :
    texts (Word.fragments 0 (Word.enclose ⟨.square, none⟩ words)) = [] := by
  have marksEq := Word.marks_enclose 0 ⟨.square, none⟩ spelled.nonempty
  have roundsEq := Word.rounds_enclose 0 none spelled.nonempty
  have squaresEq := Word.squares_enclose 0 none spelled.nonempty
  rw [Nat.zero_add] at squaresEq
  have encloses := enclosesRegion_enclose (spelled.two_le_length hasRegion) spelled.squares
    (spelled.regions hasRegion 0)
  have marksOf := Word.marks_fragments 0 (Word.enclose ⟨.square, none⟩ words)
  generalize Word.fragments 0 (Word.enclose ⟨.square, none⟩ words) = fragments at encloses marksOf ⊢
  have rounds : kindTexts fragments .round (marks fragments) = [] := by
    apply kindTexts_of_alternates
    rw [marksOf, roundsEq]
    exact spelled.rounds 0
  have squares : kindTexts fragments .square (marks fragments) = [] := by
    obtain ⟨even, paired, -⟩ :=
      pairTexts_of_alternates fragments (Bracket.rules .square) (spelled.squares 0)
    have squaresEven : balanced (ofKind .square (marks fragments)) = true := by
      rw [marksOf, squaresEq]
      simp only [balanced, beq_iff_eq] at even ⊢
      simp [List.filterMap_cons, Mark.opening?, Mark.closing?, even]
    have innerEq : inner fragments .square (ofKind .square (marks fragments)) =
        ofKind .square (Word.marks 0 words) := by
      rw [marksOf, squaresEq, inner, encloses]
      simp
    rw [kindTexts, if_pos squaresEven, innerEq]
    exact paired
  have crossing : crossingTexts fragments [] (marks fragments) = [] := by
    have inside := spelled.crossing fragments 0 [(.square, 0)]
      [.closes .square (0 + words.length - 1)] rfl
    rw [marksOf, marksEq]
    simp only [List.cons_append, crossingTexts, List.any_nil, Bool.and_false, Bool.false_eq_true,
      ↓reduceIte, List.nil_append, inside, ne_eq, not_true_eq_false]
  simp only [texts, rounds, squares, crossing, ite_self, List.append_nil]

end Brackets

namespace Grammar

/-- An item that is a region has two steps or more. -/
theorem Item.two_le_length {text : List Char} {node : Node} (derives : Item text node)
    (region : node.isRegion = true) : 2 ≤ node.steps.length := by
  cases derives with
  | unit unit => contradiction
  | region units long spec =>
      rw [Node.steps, stepsOf_map_step]
      exact long

theorem two_le_length_of_any_isRegion {texts : List (List Char)} {nodes : List Node}
    (derives : List.Forall₂ Item texts nodes) (hasRegion : nodes.any Node.isRegion = true) :
    2 ≤ (Node.stepsOf nodes).length := by
  induction derives with
  | nil => contradiction
  | cons head _ ih =>
      rw [List.any_cons, Bool.or_eq_true] at hasRegion
      rw [Node.stepsOf, List.length_append]
      rcases hasRegion with region | later
      · have long := head.two_le_length region
        omega
      · have long := ih later
        omega

/-- Every derivation is spelled by words that can be read, and reading them gives the
derivation back. -/
theorem Whole.exists_words {text : List Char} {nodes : List Node} (derives : Whole text nodes) :
    ∃ words : List Word, words ≠ [] ∧ (∀ word ∈ words, word.Readable) ∧
      joined (words.map Word.chars) = text ∧
      words.map (fun word => Token.ofChars? word.core) =
        ((Node.stepsOf nodes).flatMap Step.tokens).map some ∧
      Brackets.texts (Word.fragments 0 words) = [] ∧
      Sequence.build (Word.fragments 0 words) = .ok (nodes, []) := by
  cases derives with
  | items items nodesSome =>
      obtain ⟨words, spelled, joinedEq⟩ := Spelled.exists_of_items items nodesSome
      refine ⟨words, spelled.nonempty, spelled.readable, joinedEq, spelled.tokens,
        Brackets.texts_of_spelled spelled, ?_⟩
      have built := spelled.builds 0 _ _ [] (Builder.foldlM_addNode_root [] nodes)
      rw [Sequence.build, Builder.start, built]
      rfl
  | @enclosed texts nodes items hasRegion =>
      have nodesSome : nodes ≠ [] := by
        rintro rfl
        contradiction
      obtain ⟨words, spelled, joinedEq⟩ := Spelled.exists_of_items items nodesSome
      have closes : Close.Readable ⟨.square, none⟩ := rfl
      have noShort : ¬ (Node.stepsOf nodes).length < 2 :=
        Nat.not_lt_of_le (two_le_length_of_any_isRegion items hasRegion)
      have built := spelled.builds 0 _ _ []
        (Builder.foldlM_addNode_region 0 [.root []] [] nodes)
      refine ⟨_, Word.enclose_ne_nil ⟨.square, none⟩ spelled.nonempty,
        Word.readable_enclose closes spelled.readable, ?_, ?_,
        Brackets.texts_enclose_of_spelled spelled hasRegion, ?_⟩
      · rw [Word.joined_enclose _ spelled.nonempty, joinedEq]
        rfl
      · rw [Word.map_ofChars?_enclose, spelled.tokens]
        simp [Node.stepsOf, Node.steps]
      · rw [Sequence.build, Builder.foldlM_enclose 0 _ spelled.nonempty spelled.readable,
          Builder.openBracket, Builder.start, built]
        simp only [Except.bind, Builder.closeBracket, Bound.read?, List.nil_append, if_neg noShort]
        rfl

end Grammar

end Pneumatic
