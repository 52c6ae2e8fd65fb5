import Pneumatic.Proofs.Notation.Words

/-!
# Alternating marks

The brackets of one kind keep their rules exactly if they alternate: each opens in a
later fragment than the one before it closes, and closes in a later fragment than it
opens.  The marks of words are read off the words.
-/

namespace Pneumatic

namespace Mark

/-- The fragment of a mark. -/
def index : Mark → Nat
  | .opens _ index => index
  | .closes _ index => index

@[simp] theorem kind_opens (kind : Bracket) (index : Nat) : (opens kind index).kind = kind := rfl

@[simp] theorem kind_closes (kind : Bracket) (index : Nat) : (closes kind index).kind = kind := rfl

/-- Marks that open and close by turns in fragments that strictly increase from `low`
on.  The first argument says whether a bracket is open before them; none is open
after them. -/
inductive Alternates : Bool → Nat → List Mark → Prop where
  | nil {low : Nat} : Alternates false low []
  | opens {low index : Nat} {kind : Bracket} {rest : List Mark} :
      low ≤ index → Alternates true (index + 1) rest →
      Alternates false low (.opens kind index :: rest)
  | closes {low index : Nat} {kind : Bracket} {rest : List Mark} :
      low ≤ index → Alternates false (index + 1) rest →
      Alternates true low (.closes kind index :: rest)

namespace Alternates

theorem mono {isOpen : Bool} {low lower : Nat} {marks : List Mark} (le : lower ≤ low)
    (alternates : Alternates isOpen low marks) : Alternates isOpen lower marks := by
  cases alternates with
  | nil => exact .nil
  | opens bound rest => exact .opens (Nat.le_trans le bound) rest
  | closes bound rest => exact .closes (Nat.le_trans le bound) rest

/-- Alternating marks after one another alternate if the later ones lie further on. -/
theorem append {isOpen : Bool} {low middle : Nat} {left right : List Mark}
    (leftAlternates : Alternates isOpen low left)
    (rightAlternates : Alternates false middle right)
    (below : ∀ mark ∈ left, mark.index < middle) (le : low ≤ middle) :
    Alternates isOpen low (left ++ right) := by
  induction leftAlternates with
  | nil => exact rightAlternates.mono le
  | opens bound _ ih =>
      simp only [List.mem_cons, forall_eq_or_imp, Mark.index] at below
      exact .opens bound (ih below.2 below.1)
  | closes bound _ ih =>
      simp only [List.mem_cons, forall_eq_or_imp, Mark.index] at below
      exact .closes bound (ih below.2 below.1)

end Alternates

end Mark

namespace Brackets

theorem violation_ne_nil (rule : Violation) (fragments : List Fragment) :
    Diagnostics.violation rule fragments ≠ [] := by
  simp [Diagnostics.violation, Diagnostics.about]

theorem pairTexts_cons_eq_nil_iff {fragments : List Fragment} {rules : Bracket.Rules}
    {opening closing : Nat} {openings closings : List Nat} :
    pairTexts fragments rules (opening :: openings) (closing :: closings) = [] ↔
      opening < closing ∧ (∀ next ∈ openings.head?, closing < next) ∧
        pairTexts fragments rules openings closings = [] := by
  rw [pairTexts, List.append_eq_nil_iff, List.append_eq_nil_iff, and_assoc]
  refine and_congr ?_ (and_congr ?_ Iff.rfl)
  · by_cases order : closing ≤ opening
    · simp [order, violation_ne_nil]
    · simp [order, Nat.lt_of_not_le order]
  · cases openings with
    | nil => simp
    | cons next openings =>
        by_cases overlap : next ≤ closing
        · simp [overlap, violation_ne_nil]
        · simp [overlap, Nat.lt_of_not_le overlap]

/-- Alternating marks keep the rules of their kind. -/
theorem pairTexts_of_alternates {low : Nat} {marks : List Mark} (fragments : List Fragment)
    (rules : Bracket.Rules) :
    Mark.Alternates false low marks →
    balanced marks = true ∧
      pairTexts fragments rules (marks.filterMap Mark.opening?)
        (marks.filterMap Mark.closing?) = [] ∧
      ∀ opening ∈ (marks.filterMap Mark.opening?).head?, low ≤ opening
  | .nil => by simp [balanced, pairTexts]
  | .opens bound (.closes after rest) => by
      obtain ⟨even, paired, next⟩ := pairTexts_of_alternates fragments rules rest
      simp only [balanced, beq_iff_eq] at even
      refine ⟨?_, ?_, ?_⟩
      · simp [balanced, List.filterMap_cons, Mark.opening?, Mark.closing?, even]
      · simp only [List.filterMap_cons, Mark.opening?, Mark.closing?]
        rw [pairTexts_cons_eq_nil_iff]
        exact ⟨after, next, paired⟩
      · simpa [Mark.opening?] using bound

theorem mem_filterMap_opening? {marks : List Mark} {index : Nat}
    (membership : index ∈ marks.filterMap Mark.opening?) :
    ∃ mark ∈ marks, mark.index = index := by
  obtain ⟨mark, markMem, opening⟩ := List.mem_filterMap.mp membership
  refine ⟨mark, markMem, ?_⟩
  cases mark with
  | opens kind found => exact Option.some.inj opening
  | closes kind found => contradiction

theorem mem_filterMap_closing? {marks : List Mark} {index : Nat}
    (membership : index ∈ marks.filterMap Mark.closing?) :
    ∃ mark ∈ marks, mark.index = index := by
  obtain ⟨mark, markMem, closing⟩ := List.mem_filterMap.mp membership
  refine ⟨mark, markMem, ?_⟩
  cases mark with
  | opens kind found => contradiction
  | closes kind found => exact Option.some.inj closing

/-- Marks in reading order that keep the rules of their kind alternate. -/
theorem alternates_of_pairTexts {fragments : List Fragment} {rules : Bracket.Rules} {low : Nat} :
    (marks : List Mark) → marks.Pairwise (fun left right => left.index ≤ right.index) →
    balanced marks = true →
    pairTexts fragments rules (marks.filterMap Mark.opening?)
      (marks.filterMap Mark.closing?) = [] →
    (∀ opening ∈ (marks.filterMap Mark.opening?).head?, low ≤ opening) →
    Mark.Alternates false low marks
  | [], _, _, _, _ => .nil
  | .closes kind index :: rest, ordered, even, paired, _ => by
      exfalso
      simp only [balanced, beq_iff_eq, List.filterMap_cons, Mark.opening?, Mark.closing?] at even
      simp only [List.filterMap_cons, Mark.opening?, Mark.closing?] at paired
      cases openings : rest.filterMap Mark.opening? with
      | nil => simp [openings] at even
      | cons opening more =>
          rw [openings, pairTexts_cons_eq_nil_iff] at paired
          have openingMem : opening ∈ rest.filterMap Mark.opening? := by simp [openings]
          obtain ⟨mark, markMem, markIndex⟩ := mem_filterMap_opening? openingMem
          have le : index ≤ mark.index := (List.pairwise_cons.mp ordered).1 mark markMem
          omega
  | [.opens kind index], _, even, _, _ => by
      simp [balanced, List.filterMap_cons, Mark.opening?, Mark.closing?] at even
  | .opens kind index :: .opens kind' index' :: rest, ordered, even, paired, _ => by
      exfalso
      simp only [balanced, beq_iff_eq, List.filterMap_cons, Mark.opening?, Mark.closing?] at even
      simp only [List.filterMap_cons, Mark.opening?, Mark.closing?] at paired
      cases closings : rest.filterMap Mark.closing? with
      | nil => simp [closings] at even
      | cons closing more =>
          rw [closings, pairTexts_cons_eq_nil_iff] at paired
          have closingMem : closing ∈ rest.filterMap Mark.closing? := by simp [closings]
          obtain ⟨mark, markMem, markIndex⟩ := mem_filterMap_closing? closingMem
          have le : index' ≤ mark.index :=
            (List.pairwise_cons.mp (List.pairwise_cons.mp ordered).2).1 mark markMem
          have before : closing < index' := paired.2.1 index' (by simp)
          omega
  | .opens kind index :: .closes kind' index' :: rest, ordered, even, paired, bound => by
      simp only [balanced, beq_iff_eq, List.filterMap_cons, Mark.opening?, Mark.closing?,
        List.length_cons, Nat.add_right_cancel_iff] at even
      simp only [List.filterMap_cons, Mark.opening?, Mark.closing?] at paired
      rw [pairTexts_cons_eq_nil_iff] at paired
      obtain ⟨order, next, paired⟩ := paired
      have restOrdered := (List.pairwise_cons.mp (List.pairwise_cons.mp ordered).2).2
      refine .opens (bound index (by simp [Mark.opening?])) (.closes order ?_)
      exact alternates_of_pairTexts rest restOrdered (by simpa [balanced] using even) paired next

end Brackets

/-! ## The marks of words -/

namespace Word

/-- The marks of words, the first word at a given place. -/
def marks (first : Nat) : List Word → List Mark
  | [] => []
  | word :: rest =>
      word.opens.map (.opens · first) ++ word.closes.map (.closes ·.kind first) ++
        marks (first + 1) rest

theorem marks_fragments (first : Nat) (words : List Word) :
    Brackets.marks (fragments first words) = marks first words := by
  induction words generalizing first with
  | nil => rfl
  | cons word rest ih =>
      rw [fragments, Brackets.marks, List.flatMap_cons]
      exact congrArg _ (ih (first + 1))

theorem marks_append (first : Nat) (left right : List Word) :
    marks first (left ++ right) = marks first left ++ marks (first + left.length) right := by
  induction left generalizing first with
  | nil => rfl
  | cons word rest ih =>
      simp only [List.cons_append, marks, ih, List.length_cons, List.append_assoc]
      rw [Nat.add_assoc, Nat.add_comm 1]

theorem index_of_mem_marks {first : Nat} {words : List Word} :
    ∀ mark ∈ marks first words, first ≤ mark.index ∧ mark.index < first + words.length := by
  induction words generalizing first with
  | nil => simp [marks]
  | cons word rest ih =>
      intro mark membership
      simp only [marks, List.mem_append, List.mem_map] at membership
      simp only [List.length_cons]
      rcases membership with (⟨kind, -, rfl⟩ | ⟨close, -, rfl⟩) | later
      · simp [Mark.index]
      · simp [Mark.index]
      · have bounds := ih mark later
        omega

/-- Marks are in reading order. -/
theorem marks_pairwise (first : Nat) (words : List Word) :
    (marks first words).Pairwise fun left right => left.index ≤ right.index := by
  induction words generalizing first with
  | nil => exact .nil
  | cons word rest ih =>
      have here : ∀ mark ∈ word.opens.map (Mark.opens · first) ++
          word.closes.map (Mark.closes ·.kind first), mark.index = first := by
        intro mark membership
        simp only [List.mem_append, List.mem_map] at membership
        rcases membership with ⟨kind, -, rfl⟩ | ⟨close, -, rfl⟩ <;> rfl
      rw [marks, List.pairwise_append]
      refine ⟨?_, ih (first + 1), ?_⟩
      · rw [List.pairwise_iff_getElem]
        intro left right leftBound rightBound _
        have leftIndex := here _ (List.getElem_mem leftBound)
        have rightIndex := here _ (List.getElem_mem rightBound)
        omega
      · intro left leftMem right rightMem
        have bounds := index_of_mem_marks right rightMem
        rw [here left leftMem]
        omega

theorem marks_openFirst (first : Nat) (kind : Bracket) {words : List Word} (nonempty : words ≠ []) :
    marks first (openFirst kind words) = .opens kind first :: marks first words := by
  cases words with
  | nil => contradiction
  | cons word rest => rfl

theorem marks_closeLast (first : Nat) (close : Close) {words : List Word} (nonempty : words ≠ []) :
    marks first (closeLast close words) =
      marks first words ++ [.closes close.kind (first + words.length - 1)] := by
  rcases List.eq_nil_or_concat words with rfl | ⟨front, last, rfl⟩
  · contradiction
  · rw [List.concat_eq_append, closeLast_eq, marks_append, marks_append]
    simp [marks]

theorem marks_enclose (first : Nat) (close : Close) {words : List Word} (nonempty : words ≠ []) :
    marks first (enclose close words) =
      .opens close.kind first :: marks first words ++
        [.closes close.kind (first + words.length - 1)] := by
  rw [enclose, marks_closeLast first close (openFirst_ne_nil _ nonempty),
    marks_openFirst _ _ nonempty,
    length_openFirst]

/-- Square brackets around words are the outermost ones. -/
theorem squares_enclose (first : Nat) (spec : Option String) {words : List Word}
    (nonempty : words ≠ []) :
    Brackets.ofKind .square (marks first (enclose ⟨.square, spec⟩ words)) =
      .opens .square first :: Brackets.ofKind .square (marks first words) ++
        [.closes .square (first + words.length - 1)] := by
  rw [marks_enclose first _ nonempty]
  simp [Brackets.ofKind]

/-- Square brackets around words change nothing for the round ones. -/
theorem rounds_enclose (first : Nat) (spec : Option String) {words : List Word}
    (nonempty : words ≠ []) :
    Brackets.ofKind .round (marks first (enclose ⟨.square, spec⟩ words)) =
      Brackets.ofKind .round (marks first words) := by
  rw [marks_enclose first _ nonempty]
  simp [Brackets.ofKind]

end Word

end Pneumatic
