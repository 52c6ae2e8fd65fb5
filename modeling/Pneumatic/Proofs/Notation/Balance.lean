import Pneumatic.Proofs.Notation.Report

/-!
# Brackets without a partner

The balance of brackets of one kind goes up with each opening and down with each closing one.
Brackets that no matching can pair are read off it, and they are the ones that a reader with a
stack is left with.
-/

namespace Pneumatic

/-- What a bracket adds to the balance. -/
def Mark.step : Mark → Int
  | .opens _ _ => 1
  | .closes _ _ => -1

@[simp] theorem Mark.step_opens (kind : Bracket) (index : Nat) : (opens kind index).step = 1 :=
  rfl

@[simp] theorem Mark.step_closes (kind : Bracket) (index : Nat) :
    (closes kind index).step = -1 :=
  rfl

@[simp] theorem Mark.index_opens (kind : Bracket) (index : Nat) :
    (opens kind index).index = index :=
  rfl

@[simp] theorem Mark.index_closes (kind : Bracket) (index : Nat) :
    (closes kind index).index = index :=
  rfl

namespace Brackets

/-- Opening brackets minus closing ones. -/
def balance : List Mark → Int
  | [] => 0
  | mark :: rest => mark.step + balance rest

@[simp] theorem balance_nil : balance [] = 0 := rfl

@[simp] theorem balance_cons (mark : Mark) (marks : List Mark) :
    balance (mark :: marks) = mark.step + balance marks :=
  rfl

@[simp] theorem balance_append (left right : List Mark) :
    balance (left ++ right) = balance left + balance right := by
  induction left with
  | nil => simp
  | cons mark rest ih => simp [ih, Int.add_assoc]

theorem forall_prefix_cons_iff {first : Mark} {rest : List Mark} {property : List Mark → Prop} :
    (∀ front, front <+: first :: rest → property front) ↔
      property [] ∧ ∀ front, front <+: rest → property (first :: front) := by
  simp only [List.prefix_cons_iff]
  grind

/-- A bracket between others that no matching can pair: a closing one with which the balance falls
below zero and below all that it was, or an opening one after which the balance never falls back
to what it was. -/
def Lone (before : List Mark) (mark : Mark) (after : List Mark) : Prop :=
  match mark with
  | .closes _ _ => balance (before ++ [mark]) < 0 ∧
      ∀ front, front <+: before → balance (before ++ [mark]) < balance front
  | .opens _ _ => ∀ front, front <+: after → balance before < balance (before ++ mark :: front)

/-- A bracket without a partner when a number of brackets is open before all others: it takes a
closing bracket more to get below them. -/
structure Left (height : Nat) (before : List Mark) (mark : Mark) (after : List Mark) : Prop where
  lone : Lone before mark after
  below : mark.closing?.isSome → height + balance (before ++ [mark]) < 0

theorem left_zero_iff {before after : List Mark} {mark : Mark} :
    Left 0 before mark after ↔ Lone before mark after := by
  refine ⟨Left.lone, fun lone => ⟨lone, fun closing => ?_⟩⟩
  cases mark with
  | opens kind index => contradiction
  | closes kind index => simpa using lone.1

/-- The bracket at a depth of the stack stays open: the balance never falls below it. -/
def StaysOpen (depth : Nat) (marks : List Mark) : Prop :=
  ∀ front, front <+: marks → -(depth : Int) ≤ balance front

theorem staysOpen_nil (depth : Nat) : StaysOpen depth [] := by
  intro front within
  rw [List.prefix_nil.mp within, balance_nil]
  omega

/-- A bracket in front moves the depth as it moves the balance. -/
theorem staysOpen_cons_iff {depth next : Nat} {first : Mark} {rest : List Mark}
    (follows : (next : Int) = depth + first.step) :
    StaysOpen depth (first :: rest) ↔ StaysOpen next rest := by
  rw [StaysOpen, forall_prefix_cons_iff, balance_nil]
  simp only [balance_cons]
  constructor
  · rintro ⟨-, stays⟩ front within
    have above := stays front within
    omega
  · intro stays
    refine ⟨by omega, fun front within => ?_⟩
    have above := stays front within
    omega

theorem not_staysOpen_zero {index : Nat} {kind : Bracket} {rest : List Mark} :
    ¬ StaysOpen 0 (.closes kind index :: rest) := by
  intro stays
  have falls := stays [.closes kind index] (by simp)
  simp at falls

theorem left_opens_iff {height index : Nat} {kind : Bracket} {before after : List Mark} :
    Left height before (.opens kind index) after ↔ StaysOpen 0 after := by
  have above (front : List Mark) : balance before < balance (before ++ .opens kind index :: front) ↔
      -((0 : Nat) : Int) ≤ balance front := by
    rw [balance_append, balance_cons, Mark.step_opens]
    omega
  constructor
  · exact fun left front within => (above front).mp (left.lone front within)
  · exact fun stays => ⟨fun front within => (above front).mpr (stays front within), nofun⟩

theorem left_closes_iff {height index : Nat} {kind : Bracket} {before after : List Mark} :
    Left height before (.closes kind index) after ↔
      height + balance before ≤ 0 ∧ ∀ front, front <+: before → balance before ≤ balance front := by
  have one : balance (before ++ [.closes kind index]) = balance before - 1 := by
    rw [balance_append, balance_cons, balance_nil, Mark.step_closes]
    omega
  constructor
  · rintro ⟨⟨-, minimum⟩, below⟩
    have low := below rfl
    rw [one] at low
    refine ⟨by omega, fun front within => ?_⟩
    have higher := minimum front within
    omega
  · rintro ⟨low, minimum⟩
    have start := minimum [] List.nil_prefix
    rw [balance_nil] at start
    refine ⟨⟨by omega, fun front within => ?_⟩, fun _ => by omega⟩
    have higher := minimum front within
    omega

/-- A bracket in front changes nothing for the others if the number of open ones follows the
balance, which goes down without them when none is open. -/
theorem left_cons_iff {height next : Nat} {first mark : Mark} {before after : List Mark}
    (follows : (next : Int) = height + first.step ∨ height = 0 ∧ next = 0 ∧ first.step = -1) :
    Left height (first :: before) mark after ↔ Left next before mark after := by
  cases mark with
  | opens kind index => rw [left_opens_iff, left_opens_iff]
  | closes kind index =>
      simp only [left_closes_iff, forall_prefix_cons_iff, balance_cons, balance_nil,
        Int.add_le_add_iff_left]
      constructor
      · rintro ⟨low, -, minimum⟩
        have start := minimum [] List.nil_prefix
        rw [balance_nil] at start
        exact ⟨by omega, minimum⟩
      · rintro ⟨low, minimum⟩
        exact ⟨by omega, by omega, minimum⟩

theorem exists_split_cons_iff {Element : Type} {first : Element} {rest : List Element}
    {property : List Element → Element → List Element → Prop} :
    (∃ before element after, first :: rest = before ++ element :: after ∧
      property before element after) ↔
      property [] first rest ∨ ∃ before element after, rest = before ++ element :: after ∧
        property (first :: before) element after := by
  constructor
  · rintro ⟨before, element, after, split, holds⟩
    cases before with
    | nil =>
        obtain ⟨rfl, rfl⟩ := List.cons.inj split
        exact .inl holds
    | cons head before =>
        obtain ⟨rfl, rfl⟩ := List.cons.inj split
        exact .inr ⟨before, element, after, rfl, holds⟩
  · rintro (holds | ⟨before, element, after, rfl, holds⟩)
    · exact ⟨[], first, rest, rfl, holds⟩
    · exact ⟨first :: before, element, after, rfl, holds⟩

/-- What is unpaired are the brackets on the stack that stay open and the brackets without a
partner. -/
theorem mem_unpaired_iff {stack : List Nat} {marks : List Mark} {index : Nat} :
    index ∈ unpaired stack marks ↔
      (∃ depth : Nat, stack[depth]? = some index ∧ StaysOpen depth marks) ∨
      ∃ before mark after, marks = before ++ mark :: after ∧ mark.index = index ∧
        Left stack.length before mark after := by
  fun_induction unpaired stack marks with
  | case1 stack => simp [staysOpen_nil, List.mem_iff_getElem?]
  | case2 stack kind place rest ih =>
      have follows (before after : List Mark) (mark : Mark) :
          Left stack.length (.opens kind place :: before) mark after ↔
            Left (stack.length + 1) before mark after :=
        left_cons_iff (.inl (by simp))
      have stays (depth : Nat) :
          StaysOpen depth (.opens kind place :: rest) ↔ StaysOpen (depth + 1) rest :=
        staysOpen_cons_iff (by simp)
      rw [ih, exists_split_cons_iff, ← Nat.or_exists_add_one]
      simp only [follows, left_opens_iff, stays, List.getElem?_cons_zero,
        List.getElem?_cons_succ, List.length_cons, Option.some.injEq, Mark.index_opens]
      rw [or_assoc, or_left_comm]
  | case3 kind place rest ih =>
      have follows (before after : List Mark) (mark : Mark) :
          Left 0 (.closes kind place :: before) mark after ↔ Left 0 before mark after :=
        left_cons_iff (.inr ⟨rfl, rfl, rfl⟩)
      have first : Left 0 [] (.closes kind place) rest := left_closes_iff.mpr (by simp)
      rw [List.mem_cons, ih, exists_split_cons_iff]
      simp [follows, first, eq_comm]
  | case4 kind place rest top stack ih =>
      have follows (before after : List Mark) (mark : Mark) :
          Left (stack.length + 1) (.closes kind place :: before) mark after ↔
            Left stack.length before mark after :=
        left_cons_iff (.inl (by rw [Mark.step_closes]; omega))
      have stays (depth : Nat) :
          StaysOpen (depth + 1) (.closes kind place :: rest) ↔ StaysOpen depth rest :=
        staysOpen_cons_iff (by rw [Mark.step_closes]; omega)
      have paired : ¬ Left (stack.length + 1) [] (.closes kind place) rest := by
        rw [left_closes_iff, balance_nil]
        omega
      rw [exists_split_cons_iff, ← Nat.or_exists_add_one, ih]
      simp [follows, paired, stays, not_staysOpen_zero]

theorem mem_unpaired_nil_iff {marks : List Mark} {index : Nat} :
    index ∈ unpaired [] marks ↔
      ∃ before mark after, marks = before ++ mark :: after ∧ mark.index = index ∧
        Lone before mark after := by
  simp [mem_unpaired_iff, left_zero_iff]

/-- Nothing is unpaired only if the balance leaves nothing open. -/
theorem balance_of_unpaired_eq_nil {stack : List Nat} {marks : List Mark}
    (paired : unpaired stack marks = []) : stack.length + balance marks = 0 := by
  fun_induction unpaired stack marks with
  | case1 => simp [paired]
  | case2 stack kind place rest ih =>
      have rest := ih paired
      rw [List.length_cons] at rest
      rw [balance_cons, Mark.step_opens]
      omega
  | case3 => contradiction
  | case4 kind place rest top stack ih =>
      have rest := ih paired
      rw [List.length_cons, balance_cons, Mark.step_closes]
      omega

/-! ## The brackets of fragments -/

/-- How many brackets of a kind fragments open. -/
def openingCount (kind : Bracket) (fragments : List Fragment) : Nat :=
  (fragments.flatMap (·.opens)).count kind

/-- How many brackets of a kind fragments close. -/
def closingCount (kind : Bracket) (fragments : List Fragment) : Nat :=
  (fragments.flatMap (·.closes)).countP (·.kind == kind)

theorem balance_eq (marks : List Mark) :
    balance marks =
      (marks.filterMap Mark.opening?).length - (marks.filterMap Mark.closing?).length := by
  induction marks with
  | nil => rfl
  | cons mark rest ih =>
      cases mark <;> simp [List.filterMap_cons, Mark.opening?, Mark.closing?, ih] <;> omega

theorem balanced_iff {marks : List Mark} : balanced marks = true ↔ balance marks = 0 := by
  rw [balance_eq, balanced, beq_iff_eq]
  omega

theorem balance_ofKind_cons (kind : Bracket) (mark : Mark) (marks : List Mark) :
    balance (ofKind kind (mark :: marks)) =
      (if mark.kind = kind then mark.step else 0) + balance (ofKind kind marks) := by
  by_cases own : mark.kind = kind
  · rw [if_pos own, ofKind, List.filter_cons_of_pos (by simpa using own), balance_cons, ofKind]
  · rw [if_neg own, ofKind, List.filter_cons_of_neg (by simpa using own), Int.zero_add, ofKind]

theorem balance_ofKind_append (kind : Bracket) (left right : List Mark) :
    balance (ofKind kind (left ++ right)) =
      balance (ofKind kind left) + balance (ofKind kind right) := by
  rw [ofKind, List.filter_append, balance_append, ofKind, ofKind]

/-- Brackets that all open, or all close, move the balance by as many as are of the kind. -/
theorem balance_ofKind_map {Element : Type} (kind : Bracket) {mark : Element → Mark} {sign : Int}
    (alike : ∀ element, (mark element).step = sign) (elements : List Element) :
    balance (ofKind kind (elements.map mark)) =
      sign * elements.countP fun element => (mark element).kind == kind := by
  induction elements with
  | nil => exact (Int.mul_zero sign).symm
  | cons first rest ih =>
      rw [List.map_cons, balance_ofKind_cons, ih, List.countP_cons, alike]
      by_cases own : (mark first).kind = kind
      · rw [if_pos own, if_pos (beq_iff_eq.mpr own), Int.natCast_add, Int.mul_add, Int.natCast_one,
          Int.mul_one, Int.add_comm]
      · rw [if_neg own, if_neg fun same => own (beq_iff_eq.mp same), Int.zero_add, Nat.add_zero]

theorem balance_marks (kind : Bracket) (fragments : List Fragment) :
    balance (ofKind kind (marks fragments)) =
      openingCount kind fragments - closingCount kind fragments := by
  induction fragments with
  | nil => rfl
  | cons fragment rest ih =>
      have opens := balance_ofKind_map kind (fun kind => Mark.step_opens kind fragment.index)
        fragment.opens
      have closes := balance_ofKind_map kind
        (fun close : Close => Mark.step_closes close.kind fragment.index) fragment.closes
      have openingEq : openingCount kind (fragment :: rest) =
          fragment.opens.countP (· == kind) + openingCount kind rest := by
        rw [openingCount, List.flatMap_cons, List.count_append]
        rfl
      have closingEq : closingCount kind (fragment :: rest) =
          fragment.closes.countP (·.kind == kind) + closingCount kind rest := by
        rw [closingCount, List.flatMap_cons, List.countP_append]
        rfl
      rw [marks, List.flatMap_cons, balance_ofKind_append, balance_ofKind_append, opens, closes,
        openingEq, closingEq]
      simp only [Mark.kind_opens, Mark.kind_closes]
      rw [marks] at ih
      omega

theorem exists_fragment_of_mem_marks {fragments : List Fragment} {mark : Mark}
    (among : mark ∈ marks fragments) :
    ∃ fragment ∈ fragments, mark.index = fragment.index ∧
      (fragment.opens ≠ [] ∨ fragment.closes ≠ []) := by
  obtain ⟨fragment, inside, own⟩ := List.mem_flatMap.mp among
  refine ⟨fragment, inside, ?_⟩
  rcases List.mem_append.mp own with opens | closes
  · obtain ⟨kind, isOpened, rfl⟩ := List.mem_map.mp opens
    exact ⟨rfl, .inl (List.ne_nil_of_mem isOpened)⟩
  · obtain ⟨close, isClosed, rfl⟩ := List.mem_map.mp closes
    exact ⟨rfl, .inr (List.ne_nil_of_mem isClosed)⟩

/-- A fragment holds a bracket of a kind without a partner. -/
def HoldsLone (kind : Bracket) (fragments : List Fragment) (fragment : Fragment) : Prop :=
  ∃ before mark after, ofKind kind (marks fragments) = before ++ mark :: after ∧
    mark.index = fragment.index ∧ Lone before mark after

/-- Brackets that do not balance leave one without a partner. -/
theorem exists_holdsLone {kind : Bracket} {fragments : List Fragment}
    (uneven : openingCount kind fragments ≠ closingCount kind fragments) :
    ∃ fragment ∈ fragments, HoldsLone kind fragments fragment := by
  have nonempty : unpaired [] (ofKind kind (marks fragments)) ≠ [] := by
    intro paired
    have even := balance_of_unpaired_eq_nil paired
    rw [balance_marks, List.length_nil] at even
    omega
  obtain ⟨index, rest, unpairedEq⟩ := List.exists_cons_of_ne_nil nonempty
  have isUnpaired : index ∈ unpaired [] (ofKind kind (marks fragments)) := by simp [unpairedEq]
  obtain ⟨before, mark, after, split, own, lone⟩ := mem_unpaired_nil_iff.mp isUnpaired
  have isMark : mark ∈ ofKind kind (marks fragments) := by simp [split]
  obtain ⟨fragment, inside, place, -⟩ :=
    exists_fragment_of_mem_marks (List.mem_of_mem_filter isMark)
  exact ⟨fragment, inside, before, mark, after, split, place, lone⟩

theorem mem_findings_of_mem_kindFindings (kind : Bracket) {fragments : List Fragment}
    {finding : Finding} (own : finding ∈ kindFindings fragments kind (marks fragments)) :
    finding ∈ findings fragments := by
  simp only [findings, List.mem_append]
  cases kind with
  | round => exact .inl (.inl own)
  | square => exact .inl (.inr own)

/-- Brackets that do not balance are found with the fragments that hold one without a partner. -/
theorem exists_countFinding {kind : Bracket} {fragments : List Fragment}
    (uneven : openingCount kind fragments ≠ closingCount kind fragments) :
    ∃ about, .broken kind.rules.count about ∈ findings fragments ∧
      ∀ fragment, fragment ∈ about ↔ fragment ∈ fragments ∧ HoldsLone kind fragments fragment := by
  have unbalanced : balanced (ofKind kind (marks fragments)) = false := by
    rw [← Bool.not_eq_true, balanced_iff, balance_marks]
    omega
  refine ⟨fragments.filter fun fragment =>
    (unpaired [] (ofKind kind (marks fragments))).contains fragment.index, ?_, ?_⟩
  · apply mem_findings_of_mem_kindFindings kind
    simp only [kindFindings, unbalanced, Bool.false_eq_true, ↓reduceIte]
    exact List.mem_cons_self
  · intro fragment
    rw [List.mem_filter, List.contains_iff_mem, mem_unpaired_nil_iff]
    rfl

end Brackets

namespace Sequence

open Brackets

variable {source : String} {kind : Bracket} {fragment : Fragment}

theorem mem_findings_of_mem_brackets {finding : Finding}
    (broken : finding ∈ Brackets.findings (Fragment.split (Fragment.normalize source))) :
    finding ∈ findings source :=
  mem_findings_of_mem_surfaceFindings (List.mem_append_right _ broken)

theorem text_ne_empty_of_holdsLone {text : String} (inside : fragment ∈ Fragment.split text)
    (lone : HoldsLone kind (Fragment.split text) fragment) : fragment.text ≠ "" := by
  intro empty
  obtain ⟨before, mark, after, split, own, -⟩ := lone
  have isMark : mark ∈ ofKind kind (marks (Fragment.split text)) := by simp [split]
  obtain ⟨other, otherInside, place, holds⟩ :=
    exists_fragment_of_mem_marks (List.mem_of_mem_filter isMark)
  obtain rfl := Fragment.eq_of_index_eq inside otherInside (place.symm.trans own)
  obtain ⟨noOpens, -, noCloses, -⟩ := Fragment.parts_of_text_eq_empty inside empty
  rcases holds with opens | closes
  · exact opens noOpens
  · exact closes noCloses

/-- What is read is written in words whose brackets balance. -/
theorem exists_words_of_parse {sequence : Sequence} (parsed : parse source = .ok sequence) :
    ∃ words : List Word, words ≠ [] ∧ (∀ word ∈ words, word.Readable) ∧
      Fragment.normalize source = String.ofList (Grammar.joined (words.map Word.chars)) ∧
      ∀ kind, balance (ofKind kind (Word.marks 0 words)) = 0 := by
  obtain ⟨nonempty, clean, -⟩ := parse_eq_ok_iff.mp parsed
  rw [surfaceTexts, List.append_eq_nil_iff] at clean
  obtain ⟨words, wordsSome, readable, textEq⟩ := Word.exists_words nonempty clean.1
  refine ⟨words, wordsSome, readable, textEq, fun kind => ?_⟩
  have brackets := clean.2
  rw [textEq, Word.split_joined wordsSome readable, Brackets.texts] at brackets
  simp only [List.append_eq_nil_iff, Word.marks_fragments] at brackets
  obtain ⟨⟨round, square⟩, -⟩ := brackets
  rw [← balanced_iff]
  cases kind with
  | round => exact (of_kindTexts_eq_nil round).1
  | square => exact (of_kindTexts_eq_nil square).1

theorem count_mem_validate
    (uneven : openingCount kind (Fragment.split (Fragment.normalize source)) ≠
      closingCount kind (Fragment.split (Fragment.normalize source))) :
    kind.rules.count.message ∈ validate source := by
  obtain ⟨about, broken, -⟩ := exists_countFinding uneven
  exact message_mem_validate (mem_findings_of_mem_brackets broken)

theorem count_mem_validate_of_words {words : List Word} (nonempty : words ≠ [])
    (readable : ∀ word ∈ words, word.Readable)
    (textEq : Fragment.normalize source = String.ofList (Grammar.joined (words.map Word.chars)))
    (uneven : balance (ofKind kind (Word.marks 0 words)) ≠ 0) :
    kind.rules.count.message ∈ validate source := by
  apply count_mem_validate
  have counts := balance_marks kind (Fragment.split (Fragment.normalize source))
  rw [textEq, Word.split_joined nonempty readable] at counts ⊢
  rw [Word.marks_fragments] at counts
  omega

/-- Brackets of a kind that do not balance are reported, and pinned to the fragments that hold one
without a partner: these are found with the message and reported, and there is one.  So a bracket
in front of what is read, or behind it, is always reported. -/
theorem unbalanced_pinned (source : String) (kind : Bracket) :
    (openingCount kind (Fragment.split (Fragment.normalize source)) ≠
        closingCount kind (Fragment.split (Fragment.normalize source)) →
      kind.rules.count.message ∈ validate source ∧
      (∃ about, .broken kind.rules.count about ∈ findings source ∧ ∀ fragment, fragment ∈ about ↔
        fragment ∈ Fragment.split (Fragment.normalize source) ∧
          HoldsLone kind (Fragment.split (Fragment.normalize source)) fragment) ∧
      (∀ fragment ∈ Fragment.split (Fragment.normalize source),
        HoldsLone kind (Fragment.split (Fragment.normalize source)) fragment →
          fragment.text ∈ validate source) ∧
      ∃ fragment ∈ Fragment.split (Fragment.normalize source),
        HoldsLone kind (Fragment.split (Fragment.normalize source)) fragment) ∧
    ∀ sequence, parse source = .ok sequence →
      kind.rules.count.message ∈ validate (String.singleton kind.openChar ++ source) ∧
      kind.rules.count.message ∈ validate (source ++ String.singleton kind.closeChar) := by
  refine ⟨fun uneven => ?_, fun sequence parsed => ?_⟩
  · obtain ⟨about, broken, pinned⟩ := exists_countFinding uneven
    have found := mem_findings_of_mem_brackets broken
    refine ⟨count_mem_validate uneven, ⟨about, found, pinned⟩, fun fragment inside lone => ?_,
      exists_holdsLone uneven⟩
    exact text_mem_validate found ((pinned fragment).mpr ⟨inside, lone⟩)
      (text_ne_empty_of_holdsLone inside lone)
  · obtain ⟨words, nonempty, readable, textEq, even⟩ := exists_words_of_parse parsed
    constructor
    · refine count_mem_validate_of_words (Word.openFirst_ne_nil kind nonempty)
        (Word.readable_openFirst kind readable) ?_ ?_
      · rw [Fragment.normalize_append, Fragment.normalize_openChar, textEq,
          Word.joined_openFirst kind nonempty, ← String.toList_inj]
        simp
      · rw [Word.marks_openFirst 0 kind nonempty, balance_ofKind_cons, even]
        simp
    · have closeChars : (Close.mk kind none).chars = [kind.closeChar] := by cases kind <;> rfl
      have closeReadable : (Close.mk kind none).Readable := by cases kind <;> rfl
      refine count_mem_validate_of_words (Word.closeLast_ne_nil ⟨kind, none⟩ nonempty)
        (Word.readable_closeLast closeReadable readable) ?_ ?_
      · rw [Fragment.normalize_append, Fragment.normalize_closeChar, textEq,
          Word.joined_closeLast _ nonempty, closeChars, ← String.toList_inj]
        simp
      · rw [Word.marks_closeLast 0 _ nonempty, balance_ofKind_append, even, balance_ofKind_cons]
        simp [ofKind]

/-- A round bracket that closes nothing and two that stay open, with a pair between them and an
open region across: the first two are pinned.  A bracket behind a region with a bound that is read
is reported. -/
theorem unbalanced_pinned_across :
    "A+)" ∈ validate "a+), (b+, [c-, (d+), (e+" ∧ "(B+" ∈ validate "a+), (b+, [c-, (d+), (e+" ∧
      Violation.squareCount.message ∈ validate ("[A+,A-]^2" ++ String.singleton ']') := by
  have fragments : Fragment.split (Fragment.normalize "a+), (b+, [c-, (d+), (e+") =
      [⟨0, "A+)", [], "A+", [⟨.round, none⟩], ""⟩, ⟨1, "(B+", [.round], "B+", [], ""⟩,
        ⟨2, "[C-", [.square], "C-", [], ""⟩, ⟨3, "(D+)", [.round], "D+", [⟨.round, none⟩], ""⟩,
        ⟨4, "(E+", [.round], "E+", [], ""⟩] := by
    decide +kernel
  have pinned := (unbalanced_pinned "a+), (b+, [c-, (d+), (e+" .round).1
  rw [fragments] at pinned
  obtain ⟨-, -, pinned, -⟩ := pinned (by decide)
  have reads : (parse "[A+,A-]^2").toOption.any (fun _ => true) = true := by decide +kernel
  refine ⟨?_, ?_, ?_⟩
  · refine pinned ⟨0, "A+)", [], "A+", [⟨.round, none⟩], ""⟩ (by simp)
      ⟨[], .closes .round 0, _, rfl, rfl, ?_⟩
    simp [Lone]
  · refine pinned ⟨1, "(B+", [.round], "B+", [], ""⟩ (by simp)
      ⟨[.closes .round 0], .opens .round 1,
        [.opens .round 3, .closes .round 3, .opens .round 4], rfl, rfl, ?_⟩
    simp [Lone, forall_prefix_cons_iff]
  · obtain ⟨sequence, parsed, -⟩ := any_toOption_iff.mp reads
    exact ((unbalanced_pinned "[A+,A-]^2" .square).2 sequence parsed).2

end Sequence

end Pneumatic
