import Pneumatic.Proofs.Except
import Pneumatic.Proofs.Notation.Acceptance

/-!
# Reading by the grammar

A sequence is read exactly if the grammar derives its normal form.  The derivation is
the only one, and the sequence keeps it, except that one endless region of units becomes
the wrap of these units.
-/

namespace Pneumatic

namespace Sequence

theorem short_of_texts {fragments : List Fragment} {short : List (Nat × Nat)}
    (clean : (short.flatMap fun (opened, closed) =>
      Diagnostics.violation .shortRegion (Brackets.pick fragments [opened, closed])) = []) :
    short = [] := by
  cases short with
  | nil => rfl
  | cons region rest =>
      rw [List.flatMap_cons, List.append_eq_nil_iff] at clean
      exact absurd clean.1 (Brackets.violation_ne_nil _ _)

/-- A text is read if there is nothing to say about it, and then its tree is what the
builder makes of its fragments. -/
theorem parse_eq_ok_iff {source : String} {sequence : Sequence} :
    parse source = .ok sequence ↔
      (Fragment.normalize source).isEmpty = false ∧
      surfaceTexts (Fragment.split (Fragment.normalize source)) = [] ∧
      ∃ nodes : List Node, build (Fragment.split (Fragment.normalize source)) = .ok (nodes, []) ∧
        sequence = ⟨Fragment.normalize source, (unwrap nodes).1, (unwrap nodes).2⟩ := by
  unfold parse
  simp only
  generalize Fragment.normalize source = normal
  cases empty : normal.isEmpty with
  | true => simp
  | false =>
      rw [if_neg Bool.false_ne_true]
      cases surface : surfaceTexts (Fragment.split normal) with
      | cons text more => simp
      | nil =>
          cases built : build (Fragment.split normal) with
          | error misfit => simp
          | ok result =>
              obtain ⟨nodes, short⟩ := result
              simp only [true_and, Except.ok.injEq, Prod.mk.injEq]
              split
              · next text more long =>
                  constructor
                  · intro equal
                    contradiction
                  · rintro ⟨_, ⟨-, rfl⟩, -⟩
                    simp at long
              · next clean =>
                  have noShort := short_of_texts clean
                  subst noShort
                  constructor
                  · intro equal
                    exact ⟨nodes, ⟨rfl, rfl⟩, (Except.ok.inj equal).symm⟩
                  · rintro ⟨_, ⟨rfl, -⟩, rfl⟩
                    rfl

end Sequence

namespace Grammar

theorem flatMap_fragmentTexts {words : List Word} (readable : ∀ word ∈ words, word.Readable)
    (first : Nat) : (Word.fragments first words).flatMap Sequence.fragmentTexts = [] := by
  induction words generalizing first with
  | nil => rfl
  | cons word rest ih =>
      simp only [List.forall_mem_cons] at readable
      rw [Word.fragments, List.flatMap_cons, Sequence.fragmentTexts_fragment readable.1,
        List.nil_append]
      exact ih readable.2 (first + 1)

/-- The grammar derives exactly the texts that are read, with the tree that is built. -/
theorem whole_iff_build {text : String} {nodes : List Node} :
    Whole text.toList nodes ↔
      text.isEmpty = false ∧ Sequence.surfaceTexts (Fragment.split text) = [] ∧
        Sequence.build (Fragment.split text) = .ok (nodes, []) := by
  constructor
  · intro derives
    obtain ⟨words, nonempty, readable, textEq, -, clean, built⟩ := derives.exists_words
    have splitEq := Word.split_joined nonempty readable
    rw [textEq, String.ofList_toList] at splitEq
    refine ⟨?_, ?_, by rw [splitEq, built]⟩
    · by_contra empty
      rw [Bool.not_eq_false] at empty
      rw [Fragment.split, if_pos empty] at splitEq
      have lengthEq := congrArg List.length splitEq
      rw [Word.length_fragments] at lengthEq
      exact nonempty (List.length_eq_zero_iff.mp lengthEq.symm)
    · rw [splitEq, Sequence.surfaceTexts, flatMap_fragmentTexts readable, clean]
      rfl
  · rintro ⟨nonempty, clean, built⟩
    rw [Sequence.surfaceTexts, List.append_eq_nil_iff] at clean
    obtain ⟨words, wordsSome, readable, rfl⟩ := Word.exists_words nonempty clean.1
    rw [Word.split_joined wordsSome readable] at clean built
    obtain ⟨found, short, foundBuilt, derives⟩ := Whole.of_words wordsSome readable clean.2
    rw [built] at foundBuilt
    obtain ⟨rfl, rfl⟩ := Prod.mk.inj (Except.ok.inj foundBuilt)
    rw [String.toList_ofList]
    exact derives rfl

/-- A text has one derivation. -/
theorem Whole.unique {text : List Char} {left right : List Node} (leftDerives : Whole text left)
    (rightDerives : Whole text right) : left = right := by
  rw [← String.toList_ofList (l := text)] at leftDerives rightDerives
  have leftBuilt := (whole_iff_build.mp leftDerives).2.2
  have rightBuilt := (whole_iff_build.mp rightDerives).2.2
  rw [leftBuilt] at rightBuilt
  exact (Prod.mk.inj (Except.ok.inj rightBuilt)).1

/-- The tree is one endless region of units exactly if the text is a region of units
without a bound. -/
theorem whole_unbounded_iff {text : List Char} {steps : List Step} :
    Whole text [.region .unbounded (steps.map .step)] ↔
      ∃ texts : List (List Char), List.Forall₂ Unit texts steps ∧ 2 ≤ steps.length ∧
        text = '[' :: joined texts ++ [']'] := by
  constructor
  · intro derives
    generalize treeEq : [Node.region .unbounded (steps.map .step)] = tree at derives
    cases derives with
    | items items _ =>
        subst treeEq
        cases items with
        | cons item rest =>
            cases rest
            generalize nodeEq : Node.region .unbounded (steps.map .step) = node at item
            cases item with
            | unit _ => contradiction
            | region units long spec =>
                obtain ⟨rfl, stepsEq⟩ := Node.region.inj nodeEq
                have stepInjective : Function.Injective Node.step := fun _ _ => Node.step.inj
                obtain rfl := List.map_injective_iff.mpr stepInjective stepsEq
                cases spec with
                | none => exact ⟨_, units, long, joined_singleton _⟩
                | caret reads => exact absurd rfl (Bound.ne_unbounded_of_ofChars? reads)
    | enclosed items hasRegion =>
        simp only [List.cons.injEq, Node.region.injEq, and_true, true_and] at treeEq
        rw [← treeEq, isRegion_map_step] at hasRegion
        contradiction
  · rintro ⟨texts, units, long, rfl⟩
    have item : Item ('[' :: joined texts ++ [']']) (.region .unbounded (steps.map .step)) :=
      .region units long .none
    have whole := Whole.items (.cons item .nil) (by simp)
    rwa [joined_singleton] at whole

end Grammar

namespace Sequence

/-- What is read is what the grammar derives. -/
theorem parse_eq_ok_iff_whole {source : String} {sequence : Sequence} :
    parse source = .ok sequence ↔
      sequence.source = Fragment.normalize source ∧
      ∃ nodes : List Node, Grammar.Whole (Fragment.normalize source).toList nodes ∧
        Grammar.Kept nodes sequence.nodes sequence.wrapped := by
  rw [parse_eq_ok_iff]
  constructor
  · rintro ⟨nonempty, clean, nodes, built, rfl⟩
    exact ⟨rfl, nodes, Grammar.whole_iff_build.mpr ⟨nonempty, clean, built⟩,
      Grammar.kept_iff_unwrap.mpr rfl⟩
  · rintro ⟨sourceEq, nodes, derives, keeps⟩
    obtain ⟨nonempty, clean, built⟩ := Grammar.whole_iff_build.mp derives
    refine ⟨nonempty, clean, nodes, built, ?_⟩
    obtain ⟨text, kept, wrapped⟩ := sequence
    rw [Grammar.kept_iff_unwrap] at keeps
    simp only at sourceEq
    rw [keeps, sourceEq]

theorem stepsOf_kept {nodes kept : List Node} {wrapped : Bool}
    (keeps : Grammar.Kept nodes kept wrapped) : Node.stepsOf kept = Node.stepsOf nodes := by
  cases keeps with
  | wrap steps => simp [Node.stepsOf, Node.steps]
  | plain _ => rfl

theorem wrapped_iff {text : List Char} {nodes kept : List Node} {wrapped : Bool}
    (derives : Grammar.Whole text nodes) (keeps : Grammar.Kept nodes kept wrapped) :
    wrapped = true ↔ ∃ steps : List Step,
      kept = steps.map .step ∧ Grammar.Whole text [.region .unbounded (steps.map .step)] := by
  constructor
  · rintro rfl
    cases keeps with
    | wrap steps => exact ⟨steps, rfl, derives⟩
  · rintro ⟨steps, -, region⟩
    cases keeps with
    | wrap _ => rfl
    | plain other => exact absurd (derives.unique region) (other steps)

theorem map_read?_fragments (first : Nat) (words : List Word) :
    (Word.fragments first words).map (fun fragment => Token.read? fragment.core) =
      words.map fun word => Token.ofChars? word.core := by
  induction words generalizing first with
  | nil => rfl
  | cons word rest ih =>
      rw [Word.fragments, List.map_cons, List.map_cons, ih]
      simp [Word.fragment, Token.read?]

theorem tokens_of_whole {text : String} {nodes : List Node}
    (derives : Grammar.Whole text.toList nodes) :
    ((Node.stepsOf nodes).flatMap Step.tokens).map some =
      (Fragment.split text).map fun fragment => Token.read? fragment.core := by
  obtain ⟨words, wordsSome, readable, textEq, tokensEq, -, -⟩ := derives.exists_words
  have splitEq := Word.split_joined wordsSome readable
  rw [textEq, String.ofList_toList] at splitEq
  rw [splitEq, map_read?_fragments, tokensEq]

/-- A text is read exactly if the grammar derives its normal form, and the sequence keeps
its derivation.  It is wrapped exactly if the text is a region of units without a bound,
and these units are then its nodes.  Its tokens are those of the fragments, in order. -/
theorem parse_accepts_grammar (source : String) :
    ((∃ sequence, parse source = .ok sequence) ↔
      ∃ nodes, Grammar.Whole (Fragment.normalize source).toList nodes) ∧
    ∀ sequence, parse source = .ok sequence →
      sequence.source = Fragment.normalize source ∧
      (∃ nodes, Grammar.Whole (Fragment.normalize source).toList nodes) ∧
      (∀ nodes, Grammar.Whole (Fragment.normalize source).toList nodes →
        Grammar.Kept nodes sequence.nodes sequence.wrapped) ∧
      (sequence.wrapped = true ↔ ∃ texts steps, List.Forall₂ Grammar.Unit texts steps ∧
        2 ≤ steps.length ∧ sequence.nodes = steps.map .step ∧
        (Fragment.normalize source).toList = '[' :: Grammar.joined texts ++ [']']) ∧
      sequence.tokens.map some = (Fragment.split (Fragment.normalize source)).map
        fun fragment => Token.read? fragment.core := by
  refine ⟨?_, ?_⟩
  · constructor
    · rintro ⟨sequence, parsed⟩
      obtain ⟨-, nodes, derives, -⟩ := parse_eq_ok_iff_whole.mp parsed
      exact ⟨nodes, derives⟩
    · rintro ⟨nodes, derives⟩
      exact ⟨⟨_, (unwrap nodes).1, (unwrap nodes).2⟩, parse_eq_ok_iff_whole.mpr
        ⟨rfl, nodes, derives, Grammar.kept_iff_unwrap.mpr rfl⟩⟩
  · intro sequence parsed
    obtain ⟨sourceEq, nodes, derives, keeps⟩ := parse_eq_ok_iff_whole.mp parsed
    refine ⟨sourceEq, ⟨nodes, derives⟩, ?_, ?_, ?_⟩
    · intro other otherDerives
      rwa [otherDerives.unique derives]
    · rw [wrapped_iff derives keeps]
      constructor
      · rintro ⟨steps, keptEq, region⟩
        obtain ⟨texts, units, long, textEq⟩ := Grammar.whole_unbounded_iff.mp region
        exact ⟨texts, steps, units, long, keptEq, textEq⟩
      · rintro ⟨texts, steps, units, long, keptEq, textEq⟩
        exact ⟨steps, keptEq, Grammar.whole_unbounded_iff.mpr ⟨texts, units, long, textEq⟩⟩
    · rw [← tokens_of_whole derives, ← stepsOf_kept keeps]
      rfl

/-- A region of two tokens in lower case with blanks is read as the wrap of two steps, and
the grammar derives its normal form. -/
theorem parse_accepts_grammar_wrap :
    ∃ sequence, parse "[a+, a-]" = .ok sequence ∧ sequence.wrapped = true ∧
      ∃ nodes, Grammar.Whole (Fragment.normalize "[a+, a-]").toList nodes ∧
        Grammar.Kept nodes sequence.nodes sequence.wrapped := by
  have reads : (parse "[a+, a-]").toOption.any (·.wrapped) = true := by decide +kernel
  obtain ⟨sequence, parsed, wrapped⟩ := any_toOption_iff.mp reads
  obtain ⟨-, ⟨nodes, derives⟩, keeps, -⟩ := (parse_accepts_grammar "[a+, a-]").2 sequence parsed
  exact ⟨sequence, parsed, wrapped, nodes, derives, keeps nodes derives⟩

end Sequence

end Pneumatic
