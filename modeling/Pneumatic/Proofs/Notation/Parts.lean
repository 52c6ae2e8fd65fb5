import Pneumatic.Notation.Fragment

/-!
# The parts of a fragment

Taking a piece apart loses nothing: the parts of its fragment, written one after another,
give the piece back.  They meet where a reader would expect it, and no other parts that do
so give the same piece.  A fragment of a text is told from the others by its place, and its
parts depend on nothing but its text.
-/

namespace Pneumatic

/-- The character that opens a bracket. -/
def Bracket.openChar : Bracket → Char
  | .round => '('
  | .square => '['

/-- The character that closes a bracket. -/
def Bracket.closeChar : Bracket → Char
  | .round => ')'
  | .square => ']'

namespace Close

/-- The characters of a closing bracket with its bound. -/
def chars : Close → List Char
  | ⟨.round, _⟩ => [')']
  | ⟨.square, none⟩ => [']']
  | ⟨.square, some spec⟩ => ']' :: '^' :: spec.toList

/-- A closing bracket as it can be written: a round one has no bound, and a bound holds no
closing bracket. -/
structure Plain (close : Close) : Prop where
  round : close.kind = .round → close.spec = none
  bound : ∀ spec ∈ close.spec, ')' ∉ spec.toList ∧ ']' ∉ spec.toList

end Close

namespace Fragment

/-- The parts of a fragment, written one after another. -/
def written (fragment : Fragment) : List Char :=
  fragment.opens.map Bracket.openChar ++ fragment.core.toList ++
    fragment.closes.flatMap Close.chars ++ fragment.trailing.toList

/-- The text behind closing brackets: it does not go on with another one, nor with a bound
for the last one, and a bound leaves nothing behind. -/
structure Behind (closes : List Close) (trailing : List Char) : Prop where
  bracket : trailing.head? ≠ some ')' ∧ trailing.head? ≠ some ']'
  caret : closes.getLast? = some ⟨.square, none⟩ → trailing.head? ≠ some '^'
  bound : ∀ close ∈ closes.getLast?, close.spec ≠ none → trailing = []

/-- The core takes no bracket from its neighbours, the closing brackets can be written, and
there is text behind them only if there are any. -/
structure Parted (fragment : Fragment) : Prop where
  opens : fragment.core.toList.head? ≠ some '(' ∧ fragment.core.toList.head? ≠ some '['
  core : ')' ∉ fragment.core.toList ∧ ']' ∉ fragment.core.toList
  closes : ∀ close ∈ fragment.closes, close.Plain
  behind : Behind fragment.closes fragment.trailing.toList
  trailing : fragment.closes = [] → fragment.trailing = ""

theorem opening?_eq_some_iff {c : Char} {kind : Bracket} :
    opening? c = some kind ↔ c = kind.openChar := by
  constructor
  · intro opens
    unfold opening? at opens
    split at opens
    · cases opens; rfl
    · cases opens; rfl
    · contradiction
  · rintro rfl
    cases kind <;> rfl

theorem isClosing_eq_false_iff {c : Char} : isClosing c = false ↔ c ≠ ')' ∧ c ≠ ']' := by
  simp [isClosing]

theorem opening?_eq_none_iff {c : Char} : opening? c = none ↔ c ≠ '(' ∧ c ≠ '[' := by
  constructor
  · intro opens
    constructor <;> rintro rfl <;> contradiction
  · rintro ⟨round, square⟩
    unfold opening?
    split <;> simp_all

/-- A text without a closing bracket. -/
theorem forall_isClosing_iff {text : List Char} :
    (∀ c ∈ text, isClosing c = false) ↔ ')' ∉ text ∧ ']' ∉ text := by
  simp only [isClosing_eq_false_iff]
  grind

/-- A text that does not begin with a closing bracket. -/
theorem forall_head_isClosing_iff {text : List Char} :
    (∀ c ∈ text.head?, isClosing c = false) ↔
      text.head? ≠ some ')' ∧ text.head? ≠ some ']' := by
  simp only [isClosing_eq_false_iff, Option.mem_def]
  grind

/-! ## What is read -/

/-- The opening brackets and the rest give the text back. -/
theorem readOpens_text (text : List Char) :
    (readOpens text).1.map Bracket.openChar ++ (readOpens text).2 = text := by
  induction text with
  | nil => rfl
  | cons c rest ih =>
      simp only [readOpens]
      cases opens : opening? c with
      | none => rfl
      | some kind =>
          rw [opening?_eq_some_iff] at opens
          simp [ih, opens]

/-- The text before a closing bracket and the text from there on give the text back. -/
theorem beforeClosing_fromClosing (text : List Char) :
    beforeClosing text ++ fromClosing text = text :=
  List.takeWhile_append_dropWhile

/-- The closing brackets and the rest give the text back. -/
theorem readCloses_text (text : List Char) :
    (readCloses text).1.flatMap Close.chars ++ (readCloses text).2 = text := by
  fun_induction readCloses text with
  | case1 rest closes left readEq ih => simpa [readEq, Close.chars] using ih
  | case2 rest closes left readEq ih =>
      rw [readEq] at ih
      simp only [List.flatMap_cons, Close.chars, String.toList_ofList, List.cons_append,
        List.append_assoc, ih]
      rw [beforeClosing_fromClosing]
  | case3 rest other closes left readEq ih => simpa [readEq, Close.chars] using ih
  | case4 => rfl

/-- A text that does not begin with an opening bracket. -/
theorem forall_head_opening?_iff {text : List Char} :
    (∀ c ∈ text.head?, opening? c = none) ↔
      text.head? ≠ some '(' ∧ text.head? ≠ some '[' := by
  simp only [opening?_eq_none_iff, Option.mem_def]
  grind

theorem opening?_head_readOpens (text : List Char) :
    ∀ c ∈ (readOpens text).2.head?, opening? c = none := by
  induction text with
  | nil => simp [readOpens]
  | cons c rest ih =>
      simp only [readOpens]
      cases opens : opening? c with
      | none => simpa using opens
      | some kind => exact ih

theorem isClosing_of_mem_beforeClosing {text : List Char} {c : Char}
    (among : c ∈ beforeClosing text) : isClosing c = false := by
  simpa using List.all_eq_true.mp List.all_takeWhile c among

/-- From a closing bracket on, a text is empty or begins with one. -/
theorem isClosing_head_fromClosing (text : List Char) :
    ∀ c ∈ (fromClosing text).head?, isClosing c = true := by
  intro c first
  have stops := List.head?_dropWhile_not (fun c => !isClosing c) text
  rw [fromClosing, Option.mem_def] at first
  rw [first] at stops
  simpa using stops

/-- A closing bracket in front is read. -/
theorem readCloses_ne_nil {c : Char} (rest : List Char) (closes : isClosing c = true) :
    (readCloses (c :: rest)).1 ≠ [] := by
  simp only [isClosing, Bool.or_eq_true, beq_iff_eq] at closes
  generalize textEq : c :: rest = text
  fun_cases readCloses text with
  | case1 | case2 | case3 => simp
  | case4 _ noRound _ noSquare =>
      rcases closes with rfl | rfl
      · exact absurd textEq.symm (noRound rest)
      · exact absurd textEq.symm (noSquare rest)

theorem plain_of_mem_readCloses (text : List Char) :
    ∀ close ∈ (readCloses text).1, close.Plain := by
  fun_induction readCloses text with
  | case1 rest closes left readEq ih =>
      rw [readEq] at ih
      exact List.forall_mem_cons.mpr ⟨⟨fun _ => rfl, nofun⟩, ih⟩
  | case2 rest closes left readEq ih =>
      rw [readEq] at ih
      refine List.forall_mem_cons.mpr ⟨⟨nofun, ?_⟩, ih⟩
      rintro _ ⟨rfl⟩
      rw [String.toList_ofList]
      exact forall_isClosing_iff.mp fun c among => isClosing_of_mem_beforeClosing among
  | case3 rest other closes left readEq ih =>
      rw [readEq] at ih
      exact List.forall_mem_cons.mpr ⟨⟨nofun, nofun⟩, ih⟩
  | case4 => simp

/-- Another closing bracket in front of some changes nothing behind them, if there are any or
if it fits what is behind it. -/
theorem Behind.cons {close : Close} {closes : List Close} {trailing : List Char}
    (behind : Behind closes trailing)
    (own : closes = [] → (close = ⟨.square, none⟩ → trailing.head? ≠ some '^') ∧
      (close.spec ≠ none → trailing = [])) : Behind (close :: closes) trailing := by
  cases closes with
  | nil =>
      refine ⟨behind.bracket, ?_, ?_⟩
      · rintro ⟨⟩
        exact (own rfl).1 rfl
      · rintro _ ⟨⟩
        exact (own rfl).2
  | cons next rest => exact ⟨behind.bracket, behind.caret, behind.bound⟩

theorem Behind.tail {close : Close} {closes : List Close} {trailing : List Char}
    (behind : Behind (close :: closes) trailing) : Behind closes trailing := by
  cases closes with
  | nil => exact ⟨behind.bracket, nofun, nofun⟩
  | cons next rest => exact ⟨behind.bracket, behind.caret, behind.bound⟩

theorem behind_readCloses (text : List Char) :
    Behind (readCloses text).1 (readCloses text).2 := by
  fun_induction readCloses text with
  | case1 rest closes left readEq ih =>
      rw [readEq] at ih
      exact ih.cons fun _ => ⟨nofun, fun nonempty => absurd rfl nonempty⟩
  | case2 rest closes left readEq ih =>
      have whole := readCloses_text (fromClosing rest)
      rw [readEq] at ih whole
      refine ih.cons fun empty => ⟨nofun, fun _ => ?_⟩
      subst empty
      simp only [List.flatMap_nil, List.nil_append] at whole
      cases rest' : fromClosing rest with
      | nil => rw [whole, rest']
      | cons c more =>
          have closing := isClosing_head_fromClosing rest c (by simp [rest'])
          have read := readCloses_ne_nil more closing
          rw [← rest', readEq] at read
          contradiction
  | case3 rest other closes left readEq ih =>
      have whole := readCloses_text rest
      rw [readEq] at ih whole
      refine ih.cons fun empty => ⟨fun _ caret => ?_, fun nonempty => absurd rfl nonempty⟩
      subst empty
      simp only [List.flatMap_nil, List.nil_append] at whole
      obtain ⟨more, leftEq⟩ := List.head?_eq_some_iff.mp caret
      exact other more (whole ▸ leftEq)
  | case4 text noRound noBound noSquare =>
      refine ⟨⟨?_, ?_⟩, nofun, nofun⟩
      · intro first
        obtain ⟨rest, rfl⟩ := List.head?_eq_some_iff.mp first
        exact noRound rest rfl
      · intro first
        obtain ⟨rest, rfl⟩ := List.head?_eq_some_iff.mp first
        exact noSquare rest rfl

/-- The parts of a piece, written one after another, give it back. -/
theorem written_ofPiece (index : Nat) (piece : List Char) :
    (ofPiece index piece).written = piece := by
  have closesEq := readCloses_text (fromClosing (readOpens piece).2)
  simp only [ofPiece, written, String.toList_ofList, List.append_assoc]
  rw [closesEq, beforeClosing_fromClosing, readOpens_text]

theorem parted_ofPiece (index : Nat) (piece : List Char) : (ofPiece index piece).Parted := by
  let rest := (readOpens piece).2
  have plain : ∀ c ∈ beforeClosing rest, isClosing c = false :=
    fun c among => isClosing_of_mem_beforeClosing among
  refine ⟨?_, ?_, plain_of_mem_readCloses _, ?_, ?_⟩
  · simp only [ofPiece, String.toList_ofList]
    have noOpening := opening?_head_readOpens piece
    cases core : beforeClosing (readOpens piece).2 with
    | nil => simp
    | cons c more =>
        have first : c ∈ (readOpens piece).2.head? := by
          rw [← beforeClosing_fromClosing (readOpens piece).2, core]
          rfl
        have notOpening := opening?_eq_none_iff.mp (noOpening c first)
        simpa using notOpening
  · simpa only [ofPiece, String.toList_ofList] using forall_isClosing_iff.mp plain
  · simpa only [ofPiece, String.toList_ofList] using behind_readCloses _
  · intro empty
    change (readCloses (fromClosing rest)).1 = [] at empty
    have whole := readCloses_text (fromClosing rest)
    rw [empty, List.flatMap_nil, List.nil_append] at whole
    cases from' : fromClosing rest with
    | nil =>
        rw [from'] at whole
        simp only [ofPiece]
        rw [show fromClosing (readOpens piece).2 = [] from from', whole]
    | cons c more =>
        have closing := isClosing_head_fromClosing rest c (by simp [from'])
        rw [from'] at empty
        exact absurd empty (readCloses_ne_nil more closing)

/-! ## The only parts -/

theorem readOpens_append {rest : List Char} (opens : List Bracket)
    (plain : ∀ c ∈ rest.head?, opening? c = none) :
    readOpens (opens.map Bracket.openChar ++ rest) = (opens, rest) := by
  induction opens with
  | nil =>
      cases rest with
      | nil => rfl
      | cons c rest =>
          have symbol := plain c (by simp)
          simp [readOpens, symbol]
  | cons kind opens ih =>
      have opening : opening? kind.openChar = some kind := opening?_eq_some_iff.mpr rfl
      simp [readOpens, opening, ih]

theorem beforeClosing_append {text rest : List Char} (plain : ∀ c ∈ text, isClosing c = false)
    (closing : ∀ c ∈ rest.head?, isClosing c = true) :
    beforeClosing (text ++ rest) = text ∧ fromClosing (text ++ rest) = rest := by
  induction text with
  | nil =>
      cases rest with
      | nil => exact ⟨rfl, rfl⟩
      | cons c rest =>
          have isClosing := closing c (by simp)
          simp [beforeClosing, fromClosing, isClosing]
  | cons c text ih =>
      simp only [List.mem_cons, forall_eq_or_imp] at plain
      obtain ⟨before, after⟩ := ih plain.2
      simp only [beforeClosing, fromClosing] at before after
      simp [beforeClosing, fromClosing, plain.1, before, after]

theorem isClosing_head_closes_append {closes : List Close} {trailing : List Char}
    (nonempty : closes ≠ []) :
    ∀ c ∈ (closes.flatMap Close.chars ++ trailing).head?, isClosing c = true := by
  obtain ⟨close, rest, rfl⟩ := List.exists_cons_of_ne_nil nonempty
  rcases close with ⟨_ | _, _ | spec⟩ <;> simp [Close.chars, isClosing]

/-- Behind a square bracket without a bound there is no caret. -/
theorem Behind.noCaret {rest : List Close} {trailing : List Char}
    (behind : Behind (⟨.square, none⟩ :: rest) trailing) :
    (rest.flatMap Close.chars ++ trailing).head? ≠ some '^' := by
  intro caret
  by_cases last : rest = []
  · subst last
    exact behind.caret rfl caret
  · have closing := isClosing_head_closes_append last '^' caret
    contradiction

/-- Behind a bound there is another closing bracket or nothing. -/
theorem Behind.closing {spec : String} {rest : List Close} {trailing : List Char}
    (behind : Behind (⟨.square, some spec⟩ :: rest) trailing) :
    ∀ c ∈ (rest.flatMap Close.chars ++ trailing).head?, isClosing c = true := by
  by_cases last : rest = []
  · subst last
    rw [behind.bound _ rfl nofun]
    simp
  · exact isClosing_head_closes_append last

/-- Closing brackets that can be written are read again. -/
theorem readCloses_append {closes : List Close} {trailing : List Char}
    (plain : ∀ close ∈ closes, close.Plain) (behind : Behind closes trailing) :
    readCloses (closes.flatMap Close.chars ++ trailing) = (closes, trailing) := by
  induction closes with
  | nil =>
      have noClosing := forall_head_isClosing_iff.mpr behind.bracket
      rw [List.flatMap_nil, List.nil_append, readCloses.eq_4]
      · rintro rest rfl
        simp [isClosing] at noClosing
      · rintro rest rfl
        simp [isClosing] at noClosing
      · rintro rest rfl
        simp [isClosing] at noClosing
  | cons close rest ih =>
      rw [List.forall_mem_cons] at plain
      have restEq := ih plain.2 behind.tail
      rw [List.flatMap_cons, List.append_assoc]
      rcases close with ⟨_ | _, _ | spec⟩
      · simp [Close.chars, readCloses, restEq]
      · exact absurd (plain.1.round rfl) (Option.some_ne_none spec)
      · simp only [Close.chars, List.cons_append, List.nil_append]
        rw [readCloses.eq_3, restEq]
        intro after caret
        exact behind.noCaret (by rw [caret]; rfl)
      · obtain ⟨before, after⟩ :=
          beforeClosing_append (forall_isClosing_iff.mpr (plain.1.bound spec rfl)) behind.closing
        simp only [Close.chars, List.cons_append]
        rw [readCloses.eq_2, after, restEq, before, String.ofList_toList]

/-- What stands behind a core begins with a closing bracket. -/
theorem Parted.closing {fragment : Fragment} (parted : fragment.Parted) :
    ∀ c ∈ (fragment.closes.flatMap Close.chars ++ fragment.trailing.toList).head?,
      isClosing c = true := by
  by_cases empty : fragment.closes = []
  · rw [empty, parted.trailing empty]
    simp
  · exact isClosing_head_closes_append empty

/-- What stands behind the opening brackets begins with no other one. -/
theorem Parted.opening {fragment : Fragment} (parted : fragment.Parted) :
    ∀ c ∈ (fragment.core.toList ++
      (fragment.closes.flatMap Close.chars ++ fragment.trailing.toList)).head?,
      opening? c = none := by
  intro c first
  rw [List.head?_append, Option.mem_def, Option.or_eq_some_iff] at first
  rw [opening?_eq_none_iff]
  rcases first with inCore | ⟨-, inCloses⟩
  · constructor <;> rintro rfl
    · exact parted.opens.1 inCore
    · exact parted.opens.2 inCore
  · have closes := parted.closing c inCloses
    constructor <;> rintro rfl <;> contradiction

/-- A piece has no other parts. -/
theorem parts_unique {fragment : Fragment} (parted : fragment.Parted) (index : Nat) :
    (ofPiece index fragment.written).opens = fragment.opens ∧
      (ofPiece index fragment.written).core = fragment.core ∧
      (ofPiece index fragment.written).closes = fragment.closes ∧
      (ofPiece index fragment.written).trailing = fragment.trailing := by
  obtain ⟨before, after⟩ :=
    beforeClosing_append (forall_isClosing_iff.mpr parted.core) parted.closing
  have read := readCloses_append parted.closes parted.behind
  simp only [written, List.append_assoc, ofPiece, readOpens_append _ parted.opening, before, after,
    read, String.ofList_toList, and_self]

end Fragment

/-! ## The fragments of a text -/

namespace Text

theorem length_pieces (separator : Char) (text : List Char) :
    (pieces separator text).length = text.count separator + 1 := by
  induction text with
  | nil => rfl
  | cons c rest ih =>
      obtain ⟨piece, more, piecesEq⟩ :=
        List.exists_cons_of_ne_nil (pieces_ne_nil separator rest)
      rw [piecesEq] at ih
      simp only [pieces, piecesEq, List.count_cons, beq_iff_eq]
      split
      · rw [List.length_cons, ih]
      · rw [← ih]
        rfl

/-- A piece holds characters of the text, and no separator. -/
theorem mem_of_mem_pieces {separator c : Char} {text piece : List Char}
    (among : piece ∈ pieces separator text) (inside : c ∈ piece) : c ∈ text ∧ c ≠ separator := by
  induction text generalizing piece with
  | nil =>
      obtain rfl := List.mem_singleton.mp among
      contradiction
  | cons first rest ih =>
      obtain ⟨next, more, piecesEq⟩ :=
        List.exists_cons_of_ne_nil (pieces_ne_nil separator rest)
      have later : ∀ other ∈ next :: more, c ∈ other → c ∈ first :: rest ∧ c ≠ separator := by
        intro other inMore inOther
        obtain ⟨inRest, apart⟩ := ih (piecesEq ▸ inMore) inOther
        exact ⟨List.mem_cons_of_mem _ inRest, apart⟩
      simp only [pieces, piecesEq] at among
      split at among
      · rcases List.mem_cons.mp among with rfl | inMore
        · contradiction
        · exact later piece inMore inside
      · next apart =>
          rcases List.mem_cons.mp among with rfl | inMore
          · rcases List.mem_cons.mp inside with rfl | inNext
            · exact ⟨List.mem_cons_self, fun same => apart (beq_iff_eq.mpr same)⟩
            · exact later next List.mem_cons_self inNext
          · exact later piece (List.mem_cons_of_mem _ inMore) inside

end Text

namespace Fragment

theorem split_of_ne_empty {text : String} (nonempty : text ≠ "") :
    split text = (Text.pieces ',' text.toList).mapIdx ofPiece := by
  rw [split, if_neg]
  rwa [String.isEmpty_iff]

theorem exists_piece {text : String} {fragment : Fragment} (among : fragment ∈ split text) :
    ∃ index, ∃ piece ∈ Text.pieces ',' text.toList, fragment = ofPiece index piece := by
  rw [split] at among
  split at among
  · contradiction
  · obtain ⟨index, inside, rfl⟩ := List.mem_mapIdx.mp among
    exact ⟨index, _, List.getElem_mem inside, rfl⟩

theorem written_of_mem_split {text : String} {fragment : Fragment}
    (among : fragment ∈ split text) : fragment.written = fragment.text.toList := by
  obtain ⟨index, piece, -, rfl⟩ := exists_piece among
  rw [written_ofPiece]
  exact String.toList_ofList.symm

theorem parted_of_mem_split {text : String} {fragment : Fragment}
    (among : fragment ∈ split text) : fragment.Parted := by
  obtain ⟨index, piece, -, rfl⟩ := exists_piece among
  exact parted_ofPiece index piece

theorem index_of_getElem?_split {text : String} {position : Nat} {fragment : Fragment}
    (at' : (split text)[position]? = some fragment) : fragment.index = position := by
  rw [split] at at'
  split at at'
  · contradiction
  · rw [List.getElem?_mapIdx, Option.map_eq_some_iff] at at'
    obtain ⟨piece, -, rfl⟩ := at'
    rfl

theorem eq_of_index_eq {text : String} {fragment other : Fragment} (inside : fragment ∈ split text)
    (otherInside : other ∈ split text) (same : other.index = fragment.index) :
    other = fragment := by
  obtain ⟨place, found⟩ := List.mem_iff_getElem?.mp inside
  obtain ⟨otherPlace, otherFound⟩ := List.mem_iff_getElem?.mp otherInside
  rw [index_of_getElem?_split found, index_of_getElem?_split otherFound] at same
  rw [same, found] at otherFound
  exact (Option.some.inj otherFound).symm

/-- Fragments with the same text have the same parts. -/
theorem eq_with_index {text : String} {fragment other : Fragment} (among : fragment ∈ split text)
    (otherAmong : other ∈ split text) (same : other.text = fragment.text) :
    other = { fragment with index := other.index } := by
  obtain ⟨index, piece, -, rfl⟩ := exists_piece among
  obtain ⟨place, otherPiece, -, rfl⟩ := exists_piece otherAmong
  obtain rfl : otherPiece = piece := String.ofList_injective same
  rfl

/-- A fragment without a text is empty. -/
theorem parts_of_text_eq_empty {text : String} {fragment : Fragment}
    (among : fragment ∈ split text) (empty : fragment.text = "") :
    fragment.opens = [] ∧ fragment.core = "" ∧ fragment.closes = [] ∧ fragment.trailing = "" := by
  have written := written_of_mem_split among
  rw [empty, String.toList_empty, Fragment.written] at written
  simp only [List.append_eq_nil_iff, List.map_eq_nil_iff, String.toList_eq_nil_iff,
    List.flatMap_eq_nil_iff] at written
  obtain ⟨⟨⟨opens, core⟩, closes⟩, trailing⟩ := written
  refine ⟨opens, core, List.eq_nil_iff_forall_not_mem.mpr fun close inCloses => ?_, trailing⟩
  have nothing := closes close inCloses
  rcases close with ⟨_ | _, _ | spec⟩ <;> contradiction

end Fragment

end Pneumatic
