import Pneumatic.Proofs.Notation.Soundness

/-!
# What is accepted

A sequence is accepted exactly if the grammar derives its normal form, and then its tree
is the derivation without the brackets of a wrap.
-/

namespace Pneumatic

namespace Brackets

theorem crossingTexts_left {fragments : List Fragment} {stack : List (Bracket × Nat)}
    {left right : List Mark} (clean : crossingTexts fragments stack (left ++ right) = []) :
    crossingTexts fragments stack left = [] := by
  induction left generalizing stack with
  | nil => rfl
  | cons mark left ih =>
      cases mark with
      | opens kind index =>
          simp only [List.cons_append, crossingTexts, List.append_eq_nil_iff] at clean ⊢
          exact ⟨clean.1, ih clean.2⟩
      | closes kind index =>
          cases stack with
          | nil =>
              simp only [List.cons_append, crossingTexts] at clean ⊢
              exact ih clean
          | cons opened stack =>
              simp only [List.cons_append, crossingTexts, List.append_eq_nil_iff] at clean ⊢
              exact ⟨clean.1, ih clean.2⟩

/-- Marks of a kind keep their rules. -/
theorem of_kindTexts_eq_nil {fragments : List Fragment} {kind : Bracket} {marks : List Mark}
    (clean : kindTexts fragments kind marks = []) :
    balanced (ofKind kind marks) = true ∧
      pairTexts fragments kind.rules
        ((inner fragments kind (ofKind kind marks)).filterMap Mark.opening?)
        ((inner fragments kind (ofKind kind marks)).filterMap Mark.closing?) = [] := by
  rw [kindTexts] at clean
  cases even : balanced (ofKind kind marks) with
  | true =>
      simp only [even, ↓reduceIte] at clean
      exact ⟨rfl, clean⟩
  | false =>
      simp only [even, Bool.false_eq_true, ↓reduceIte] at clean
      exact absurd clean (violation_ne_nil _ _)

theorem alternates_of_clean {fragments : List Fragment} {rules : Bracket.Rules} {kind : Bracket}
    {words : List Word} (even : balanced (ofKind kind (Word.marks 0 words)) = true)
    (paired : pairTexts fragments rules
      ((ofKind kind (Word.marks 0 words)).filterMap Mark.opening?)
      ((ofKind kind (Word.marks 0 words)).filterMap Mark.closing?) = []) :
    Mark.Alternates false 0 (ofKind kind (Word.marks 0 words)) :=
  alternates_of_pairTexts _ ((Word.marks_pairwise 0 words).filter _) even paired (by simp)

/-- A region that spans words is written around them. -/
theorem exists_enclose {words : List Word} {squares : List Mark}
    (readable : ∀ word ∈ words, word.Readable)
    (encloses : enclosesRegion (Word.fragments 0 words) squares = true) :
    4 ≤ squares.length ∧ ∃ inside : List Word, inside ≠ [] ∧
      (∀ word ∈ inside, word.Readable) ∧ words = Word.enclose ⟨.square, none⟩ inside := by
  rcases words with _ | ⟨first, rest⟩
  · simp [enclosesRegion, Word.fragments] at encloses
  · rcases List.eq_nil_or_concat rest with rfl | ⟨middle, last, rfl⟩
    · simp [enclosesRegion, Word.fragments] at encloses
    · rw [List.concat_eq_append] at readable encloses ⊢
      have lastEq : (Word.fragments 0 (first :: (middle ++ [last]))).getLast? =
          some (last.fragment (middle.length + 1)) := by
        have lastOnly (index : Nat) : Word.fragments index [last] = [last.fragment index] := rfl
        rw [← List.cons_append, Word.fragments_append, lastOnly, List.getLast?_concat,
          List.length_cons, Nat.zero_add]
      have headEq : (Word.fragments 0 (first :: (middle ++ [last]))).head? =
          some (first.fragment 0) := rfl
      rw [enclosesRegion, lastEq, headEq] at encloses
      simp only [Bool.and_eq_true, decide_eq_true_eq, beq_iff_eq] at encloses
      obtain ⟨⟨⟨⟨⟨⟨⟨long, -⟩, opens⟩, closes⟩, -⟩, -⟩, -⟩, -⟩ := encloses
      obtain ⟨firstOpens, opensEq⟩ := List.head?_eq_some_iff.mp opens
      obtain ⟨lastCloses, closesEq⟩ := List.getLast?_eq_some_iff.mp closes
      simp only [Word.fragment] at opensEq closesEq
      simp only [List.forall_mem_cons, List.forall_mem_append] at readable
      obtain ⟨firstReadable, middleReadable, lastReadable, -⟩ := readable
      refine ⟨long, { first with opens := firstOpens } ::
        (middle ++ [{ last with closes := lastCloses }]), by simp, ?_, ?_⟩
      · simp only [List.forall_mem_cons, List.forall_mem_append]
        refine ⟨⟨firstReadable.core, firstReadable.closes⟩, middleReadable,
          ⟨lastReadable.core, ?_⟩, by simp⟩
        intro close membership
        exact lastReadable.closes close (by simp [closesEq, membership])
      · have opened : Word.openFirst .square ({ first with opens := firstOpens } ::
            (middle ++ [{ last with closes := lastCloses }])) =
            (first :: middle) ++ [{ last with closes := lastCloses }] := by
          simp [Word.openFirst, ← opensEq]
        rw [Word.enclose, opened, Word.closeLast_eq, ← closesEq]
        rfl

end Brackets

namespace Grammar

/-- Words with the same text have the same marks. -/
theorem marks_eq_of_joined_eq {left right : List Word} (leftSome : left ≠ [])
    (rightSome : right ≠ []) (leftReadable : ∀ word ∈ left, word.Readable)
    (rightReadable : ∀ word ∈ right, word.Readable)
    (textEq : joined (left.map Word.chars) = joined (right.map Word.chars)) :
    Word.marks 0 left = Word.marks 0 right := by
  rw [← Word.marks_fragments, ← Word.marks_fragments, ← Word.split_joined leftSome leftReadable,
    ← Word.split_joined rightSome rightReadable, textEq]

/-- Items whose words have square brackets have a region among them. -/
theorem any_isRegion_of_squares {texts : List (List Char)} {nodes : List Node}
    {words : List Word} (derives : List.Forall₂ Item texts nodes) (nonempty : words ≠ [])
    (readable : ∀ word ∈ words, word.Readable)
    (textEq : joined texts = joined (words.map Word.chars)) (textsSome : texts ≠ [])
    (squares : Brackets.ofKind .square (Word.marks 0 words) ≠ []) :
    nodes.any Node.isRegion = true := by
  by_contra flat
  rw [Bool.not_eq_true] at flat
  obtain ⟨steps, rfl⟩ := exists_map_step flat
  have units : List.Forall₂ Unit texts steps := by
    rw [List.forall₂_map_right_iff] at derives
    refine derives.imp ?_
    intro text step item
    cases item with
    | unit unit => exact unit
  have stepsSome : steps ≠ [] := by
    rintro rfl
    cases units
    contradiction
  obtain ⟨spelling, spelled, spellingEq, plain, -⟩ := Spelled.exists_of_units units stepsSome
  have marksEq := marks_eq_of_joined_eq spelled.nonempty nonempty spelled.readable readable
    (spellingEq.trans textEq)
  rw [← marksEq] at squares
  exact squares (plain 0)

variable {words : List Word}

/-- Reading words in square brackets that keep the rules. -/
theorem Whole.of_enclosed (nonempty : words ≠ []) (readable : ∀ word ∈ words, word.Readable)
    {fragments : List Fragment}
    (rounds : Mark.Alternates false 0 (Brackets.ofKind .round (Word.marks 0 words)))
    (squares : Mark.Alternates false 0 (Brackets.ofKind .square (Word.marks 0 words)))
    (squaresSome : Brackets.ofKind .square (Word.marks 0 words) ≠ [])
    (crossing : Brackets.crossingTexts fragments [(.square, 0)] (Word.marks 0 words) = []) :
    ∃ (nodes : List Node) (short : List (Nat × Nat)),
      Sequence.build (Word.fragments 0 (Word.enclose ⟨.square, none⟩ words)) =
        .ok (nodes, short) ∧
      (short = [] →
        Whole (joined ((Word.enclose ⟨.square, none⟩ words).map Word.chars)) nodes) := by
  obtain ⟨texts, nodes, short, built, textEq, textsSome, derives⟩ :=
    Scan.exists_items nonempty readable fragments .enclosed rounds squares crossing
  refine ⟨[.region .unbounded nodes],
    short ++ if (Node.stepsOf nodes).length < 2 then [(0, 0 + words.length - 1)] else [], ?_, ?_⟩
  · simp only [Ground.enclosed] at built
    rw [Sequence.build, Builder.foldlM_enclose 0 _ nonempty readable, Builder.openBracket,
      Builder.start, built]
    rfl
  · intro noShort
    have items := derives (List.append_eq_nil_iff.mp noShort).1
    rw [Word.joined_enclose _ nonempty, ← textEq]
    exact .enclosed items
      (any_isRegion_of_squares items nonempty readable textEq textsSome squaresSome)

/-- Reading words without brackets around them that keep the rules. -/
theorem Whole.of_items (nonempty : words ≠ []) (readable : ∀ word ∈ words, word.Readable)
    {fragments : List Fragment}
    (rounds : Mark.Alternates false 0 (Brackets.ofKind .round (Word.marks 0 words)))
    (squares : Mark.Alternates false 0 (Brackets.ofKind .square (Word.marks 0 words)))
    (crossing : Brackets.crossingTexts fragments [] (Word.marks 0 words) = []) :
    ∃ (nodes : List Node) (short : List (Nat × Nat)),
      Sequence.build (Word.fragments 0 words) = .ok (nodes, short) ∧
      (short = [] → Whole (joined (words.map Word.chars)) nodes) := by
  obtain ⟨texts, nodes, short, built, textEq, textsSome, derives⟩ :=
    Scan.exists_items nonempty readable fragments .root rounds squares crossing
  refine ⟨nodes, short, ?_, ?_⟩
  · simp only [Ground.root] at built
    rw [Sequence.build, Builder.start, built]
    rfl
  · intro noShort
    rw [← textEq]
    refine .items (derives noShort) ?_
    rintro rfl
    cases derives noShort
    contradiction

/-- Words that pass the checks of the brackets are read to their end, and their text is
derived unless a region was too short. -/
theorem Whole.of_words (nonempty : words ≠ []) (readable : ∀ word ∈ words, word.Readable)
    (clean : Brackets.texts (Word.fragments 0 words) = []) :
    ∃ (nodes : List Node) (short : List (Nat × Nat)),
      Sequence.build (Word.fragments 0 words) = .ok (nodes, short) ∧
      (short = [] → Whole (joined (words.map Word.chars)) nodes) := by
  simp only [Brackets.texts, Word.marks_fragments, List.append_eq_nil_iff] at clean
  obtain ⟨⟨roundClean, squareClean⟩, crossing⟩ := clean
  obtain ⟨roundEven, roundPaired⟩ := Brackets.of_kindTexts_eq_nil roundClean
  obtain ⟨squareEven, squarePaired⟩ := Brackets.of_kindTexts_eq_nil squareClean
  rw [roundEven, squareEven, Bool.and_self, if_pos rfl] at crossing
  have rounds := Brackets.alternates_of_clean roundEven roundPaired
  cases encloses : Brackets.enclosesRegion (Word.fragments 0 words)
      (Brackets.ofKind .square (Word.marks 0 words)) with
  | false =>
      rw [Brackets.inner, encloses, Bool.and_false, if_neg Bool.false_ne_true] at squarePaired
      exact of_items nonempty readable rounds
        (Brackets.alternates_of_clean squareEven squarePaired) crossing
  | true =>
      obtain ⟨long, inside, insideSome, insideReadable, rfl⟩ :=
        Brackets.exists_enclose readable encloses
      have squaresEq := Word.squares_enclose 0 none insideSome
      rw [Brackets.inner, encloses, Bool.and_true, beq_self_eq_true, if_pos rfl, squaresEq]
        at squarePaired
      rw [squaresEq] at squareEven long
      rw [Word.rounds_enclose 0 none insideSome] at rounds
      rw [Word.marks_enclose 0 _ insideSome] at crossing
      have insideEven :
          Brackets.balanced (Brackets.ofKind .square (Word.marks 0 inside)) = true := by
        simpa [Brackets.balanced, List.filterMap_cons, Mark.opening?, Mark.closing?]
          using squareEven
      have squares := Brackets.alternates_of_clean insideEven (by simpa using squarePaired)
      have squaresSome : Brackets.ofKind .square (Word.marks 0 inside) ≠ [] := by
        intro empty
        simp [empty] at long
      simp only [List.cons_append, Brackets.crossingTexts, List.append_eq_nil_iff] at crossing
      exact of_enclosed insideSome insideReadable rounds squares squaresSome
        (Brackets.crossingTexts_left crossing.2)

end Grammar

end Pneumatic
