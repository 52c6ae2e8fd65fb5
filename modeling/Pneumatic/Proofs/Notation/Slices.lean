import Mathlib.Data.List.Forall2
import Pneumatic.Proofs.Notation.Parts
import Pneumatic.Proofs.Text.Bytes

/-!
# Cutting bytes

A piece can be taken apart in one pass over its bytes that looks at one byte at a time and
remembers places.  No byte of a longer character looks like a bracket or a caret, so every
slice between two such places begins and ends between characters, and the slices hold the
parts of the fragment.
-/

namespace Pneumatic

/-- A range of bytes, from its first place to the place behind it. -/
structure Slice where
  start : Nat
  stop : Nat

/-- A slice of the bytes of a text that begins and ends between characters, and the part of the
text that it holds. -/
def Slice.Holds (whole part : List Char) (slice : Slice) : Prop :=
  ∃ before after, before ++ part ++ after = whole ∧
    slice.start = (Text.bytes before).length ∧ slice.stop = (Text.bytes (before ++ part)).length

/-- What a pass over the bytes of a piece takes from them. -/
structure Scanned where
  opens : List Bracket
  core : Slice
  closes : List (Bracket × Option Slice)
  trailing : Slice

/-- A closing bracket with the slice of its bound. -/
def Close.Held (whole : List Char) (taken : Bracket × Option Slice) (close : Close) : Prop :=
  taken.1 = close.kind ∧
    Option.Rel (fun slice spec => slice.Holds whole spec.toList) taken.2 close.spec

/-- The brackets are those of a fragment, and the slices hold its other parts. -/
structure Scanned.Holds (fragment : Fragment) (scanned : Scanned) : Prop where
  opens : scanned.opens = fragment.opens
  core : scanned.core.Holds fragment.text.toList fragment.core.toList
  closes : List.Forall₂ (Close.Held fragment.text.toList) scanned.closes fragment.closes
  trailing : scanned.trailing.Holds fragment.text.toList fragment.trailing.toList

namespace Scanner

/-- The bracket that a byte opens. -/
def opening? (byte : UInt8) : Option Bracket :=
  if byte = '('.toUInt8 then some .round
  else if byte = '['.toUInt8 then some .square
  else none

/-- Whether a byte closes a bracket. -/
def isClosing (byte : UInt8) : Bool :=
  byte == ')'.toUInt8 || byte == ']'.toUInt8

/-- The opening brackets from a place on, and the place behind them. -/
def readOpens (bytes : List UInt8) (place : Nat) : List Bracket × Nat :=
  match _inside : bytes[place]? with
  | none => ([], place)
  | some byte =>
      match opening? byte with
      | none => ([], place)
      | some kind =>
          let (kinds, stop) := readOpens bytes (place + 1)
          (kind :: kinds, stop)
termination_by bytes.length - place
decreasing_by
  have := (List.getElem?_eq_some_iff.mp _inside).1
  omega

/-- The place of the first closing bracket from a place on, or the end. -/
def untilClosing (bytes : List UInt8) (place : Nat) : Nat :=
  match _inside : bytes[place]? with
  | none => place
  | some byte => if isClosing byte then place else untilClosing bytes (place + 1)
termination_by bytes.length - place
decreasing_by
  have := (List.getElem?_eq_some_iff.mp _inside).1
  omega

theorem le_untilClosing (bytes : List UInt8) (place : Nat) : place ≤ untilClosing bytes place := by
  fun_induction untilClosing bytes place with
  | case1 => exact Nat.le_refl _
  | case2 => exact Nat.le_refl _
  | case3 place byte inside closes ih => omega

/-- The closing brackets from a place on, each with the slice of its bound, and the place behind
them. -/
def readCloses (bytes : List UInt8) (place : Nat) : List (Bracket × Option Slice) × Nat :=
  match _inside : bytes[place]? with
  | none => ([], place)
  | some byte =>
      if byte = ')'.toUInt8 then
        let (closes, stop) := readCloses bytes (place + 1)
        ((.round, none) :: closes, stop)
      else if byte = ']'.toUInt8 then
        if bytes[place + 1]? = some '^'.toUInt8 then
          let behind := untilClosing bytes (place + 2)
          let (closes, stop) := readCloses bytes behind
          ((.square, some ⟨place + 2, behind⟩) :: closes, stop)
        else
          let (closes, stop) := readCloses bytes (place + 1)
          ((.square, none) :: closes, stop)
      else ([], place)
termination_by bytes.length - place
decreasing_by
  all_goals
    have := (List.getElem?_eq_some_iff.mp _inside).1
    have := le_untilClosing bytes (place + 2)
    omega

/-- One pass over the bytes of a piece. -/
def scan (bytes : List UInt8) : Scanned :=
  let (opens, start) := readOpens bytes 0
  let stop := untilClosing bytes start
  let (closes, behind) := readCloses bytes stop
  ⟨opens, ⟨start, stop⟩, closes, ⟨behind, bytes.length⟩⟩

/-! ## Single steps -/

variable {bytes : List UInt8} {place : Nat} {byte : UInt8}

theorem readOpens_of_none (stops : ∀ byte ∈ bytes[place]?, opening? byte = none) :
    readOpens bytes place = ([], place) := by
  unfold readOpens
  split
  · rfl
  · next byte inside => simp [stops byte inside]

theorem readOpens_of_some {kind : Bracket} (inside : bytes[place]? = some byte)
    (opens : opening? byte = some kind) :
    readOpens bytes place =
      (kind :: (readOpens bytes (place + 1)).1, (readOpens bytes (place + 1)).2) := by
  conv => lhs; unfold readOpens
  split
  · next outside => simp [inside] at outside
  · next found at' =>
      obtain rfl := Option.some.inj (at'.symm.trans inside)
      simp [opens]

theorem untilClosing_of_none (outside : bytes[place]? = none) :
    untilClosing bytes place = place := by
  unfold untilClosing
  split
  · rfl
  · next found inside => simp [inside] at outside

theorem untilClosing_of_some (inside : bytes[place]? = some byte) :
    untilClosing bytes place =
      if isClosing byte then place else untilClosing bytes (place + 1) := by
  conv => lhs; unfold untilClosing
  split
  · next outside => simp [inside] at outside
  · next found at' =>
      obtain rfl := Option.some.inj (at'.symm.trans inside)
      rfl

theorem readCloses_of_round (inside : bytes[place]? = some ')'.toUInt8) :
    readCloses bytes place =
      ((.round, none) :: (readCloses bytes (place + 1)).1, (readCloses bytes (place + 1)).2) := by
  conv => lhs; unfold readCloses
  split
  · next outside => simp [inside] at outside
  · next found at' =>
      obtain rfl := Option.some.inj (at'.symm.trans inside)
      rw [if_pos rfl]

theorem readCloses_of_square (inside : bytes[place]? = some ']'.toUInt8)
    (noCaret : bytes[place + 1]? ≠ some '^'.toUInt8) :
    readCloses bytes place =
      ((.square, none) :: (readCloses bytes (place + 1)).1, (readCloses bytes (place + 1)).2) := by
  conv => lhs; unfold readCloses
  split
  · next outside => simp [inside] at outside
  · next found at' =>
      obtain rfl := Option.some.inj (at'.symm.trans inside)
      rw [if_neg (by decide), if_pos rfl, if_neg noCaret]

theorem readCloses_of_caret (inside : bytes[place]? = some ']'.toUInt8)
    (caret : bytes[place + 1]? = some '^'.toUInt8) :
    readCloses bytes place =
      ((.square, some ⟨place + 2, untilClosing bytes (place + 2)⟩) ::
        (readCloses bytes (untilClosing bytes (place + 2))).1,
        (readCloses bytes (untilClosing bytes (place + 2))).2) := by
  conv => lhs; unfold readCloses
  split
  · next outside => simp [inside] at outside
  · next found at' =>
      obtain rfl := Option.some.inj (at'.symm.trans inside)
      rw [if_neg (by decide), if_pos rfl, if_pos caret]

theorem readCloses_of_none (stops : ∀ byte ∈ bytes[place]?, isClosing byte = false) :
    readCloses bytes place = ([], place) := by
  unfold readCloses
  split
  · rfl
  · next byte inside =>
      have other := stops byte inside
      simp only [isClosing, Bool.or_eq_false_iff, beq_eq_false_iff_ne] at other
      rw [if_neg other.1, if_neg other.2]

/-! ## Whole texts -/

variable {whole front rest : List Char}

/-- The place behind the characters in front. -/
theorem getElem?_front (wholeEq : front ++ rest = whole) :
    (Text.bytes whole)[(Text.bytes front).length]? = (Text.bytes rest).head? := by
  rw [← wholeEq, Text.bytes_append, List.getElem?_append_right (Nat.le_refl _), Nat.sub_self,
    List.head?_eq_getElem?]

theorem getElem?_ascii {c : Char} (ascii : c.toNat < 128) (wholeEq : front ++ c :: rest = whole) :
    (Text.bytes whole)[(Text.bytes front).length]? = some c.toUInt8 := by
  rw [getElem?_front wholeEq, Text.bytes_cons_ascii ascii]
  rfl

theorem length_bytes_ascii {c : Char} (ascii : c.toNat < 128) :
    (Text.bytes front).length + 1 = (Text.bytes (front ++ [c])).length := by
  rw [Text.bytes_append, Text.bytes_cons_ascii ascii, List.length_append]
  rfl

theorem isClosing_of_mem_bytes {text : List Char} (plain : ')' ∉ text ∧ ']' ∉ text) {byte : UInt8}
    (among : byte ∈ Text.bytes text) : isClosing byte = false := by
  simp only [isClosing, Bool.or_eq_false_iff, beq_eq_false_iff_ne]
  constructor <;> rintro rfl
  · exact plain.1 (Text.mem_of_toUInt8_mem_bytes (by decide) among)
  · exact plain.2 (Text.mem_of_toUInt8_mem_bytes (by decide) among)

theorem isClosing_head_bytes (plain : rest.head? ≠ some ')' ∧ rest.head? ≠ some ']') :
    ∀ byte ∈ (Text.bytes rest).head?, isClosing byte = false := by
  intro byte first
  simp only [isClosing, Bool.or_eq_false_iff, beq_eq_false_iff_ne]
  constructor <;> rintro rfl
  · exact plain.1 (Text.head?_of_head?_bytes (by decide) first)
  · exact plain.2 (Text.head?_of_head?_bytes (by decide) first)

theorem opening?_head_bytes (plain : rest.head? ≠ some '(' ∧ rest.head? ≠ some '[') :
    ∀ byte ∈ (Text.bytes rest).head?, opening? byte = none := by
  intro byte first
  unfold opening?
  rw [if_neg, if_neg] <;> rintro rfl
  · exact plain.2 (Text.head?_of_head?_bytes (by decide) first)
  · exact plain.1 (Text.head?_of_head?_bytes (by decide) first)

/-- Opening brackets are read up to a character that opens none. -/
theorem readOpens_front {opens : List Bracket}
    (wholeEq : front ++ (opens.map Bracket.openChar ++ rest) = whole)
    (plain : rest.head? ≠ some '(' ∧ rest.head? ≠ some '[') :
    readOpens (Text.bytes whole) (Text.bytes front).length =
      (opens, (Text.bytes (front ++ opens.map Bracket.openChar)).length) := by
  induction opens generalizing front with
  | nil =>
      rw [List.map_nil, List.append_nil, readOpens_of_none]
      rw [getElem?_front wholeEq]
      exact opening?_head_bytes plain
  | cons kind opens ih =>
      have ascii : kind.openChar.toNat < 128 := by cases kind <;> decide
      have opening : opening? kind.openChar.toUInt8 = some kind := by cases kind <;> rfl
      have behind : (front ++ [kind.openChar]) ++ (opens.map Bracket.openChar ++ rest) = whole := by
        simpa using wholeEq
      have step := ih behind
      rw [readOpens_of_some (getElem?_ascii ascii wholeEq) opening, length_bytes_ascii ascii, step]
      simp

/-- A pass over bytes that close nothing. -/
theorem untilClosing_pass {bytes front plain back : List UInt8}
    (bytesEq : front ++ (plain ++ back) = bytes) (clear : ∀ byte ∈ plain, isClosing byte = false) :
    untilClosing bytes front.length = untilClosing bytes (front.length + plain.length) := by
  induction plain generalizing front with
  | nil => rfl
  | cons byte plain ih =>
      rw [List.forall_mem_cons] at clear
      have inside : bytes[front.length]? = some byte := by
        rw [← bytesEq, List.getElem?_append_right (Nat.le_refl _), Nat.sub_self]
        rfl
      have behind : (front ++ [byte]) ++ (plain ++ back) = bytes := by simpa using bytesEq
      have step := ih behind clear.2
      rw [untilClosing_of_some inside, clear.1, if_neg Bool.false_ne_true]
      simpa [Nat.add_assoc, Nat.add_comm 1] using step

/-- Text without a closing bracket is passed up to the closing bracket behind it. -/
theorem untilClosing_front {plain : List Char} (wholeEq : front ++ (plain ++ rest) = whole)
    (clear : ')' ∉ plain ∧ ']' ∉ plain)
    (closing : ∀ c ∈ rest.head?, Fragment.isClosing c = true) :
    untilClosing (Text.bytes whole) (Text.bytes front).length =
      (Text.bytes (front ++ plain)).length := by
  have bytesEq : Text.bytes front ++ (Text.bytes plain ++ Text.bytes rest) = Text.bytes whole := by
    simp [← wholeEq]
  rw [untilClosing_pass bytesEq fun byte among => isClosing_of_mem_bytes clear among,
    Text.bytes_append, List.length_append]
  cases rest with
  | nil =>
      apply untilClosing_of_none
      rw [← bytesEq]
      simp
  | cons c rest =>
      have closes := closing c rfl
      simp only [Fragment.isClosing, Bool.or_eq_true, beq_iff_eq] at closes
      have ascii : c.toNat < 128 := by rcases closes with rfl | rfl <;> decide
      have closesByte : isClosing c.toUInt8 = true := by rcases closes with rfl | rfl <;> rfl
      have behind : (front ++ plain) ++ c :: rest = whole := by simpa using wholeEq
      have inside := getElem?_ascii ascii behind
      rw [Text.bytes_append, List.length_append] at inside
      rw [untilClosing_of_some inside, if_pos closesByte]

/-- Closing brackets are read up to the text behind them, and the slices hold their bounds. -/
theorem readCloses_front {closes : List Close} {trailing : List Char}
    (wholeEq : front ++ (closes.flatMap Close.chars ++ trailing) = whole)
    (plain : ∀ close ∈ closes, close.Plain) (behind : Fragment.Behind closes trailing) :
    ∃ taken, readCloses (Text.bytes whole) (Text.bytes front).length =
        (taken, (Text.bytes (front ++ closes.flatMap Close.chars)).length) ∧
      List.Forall₂ (Close.Held whole) taken closes := by
  induction closes generalizing front with
  | nil =>
      refine ⟨[], ?_, .nil⟩
      rw [List.flatMap_nil, List.append_nil, readCloses_of_none]
      rw [getElem?_front wholeEq]
      exact isClosing_head_bytes behind.bracket
  | cons close closes ih =>
      rw [List.forall_mem_cons] at plain
      rw [List.flatMap_cons] at wholeEq ⊢
      have further :
          (front ++ close.chars) ++ (closes.flatMap Close.chars ++ trailing) = whole := by
        simpa using wholeEq
      obtain ⟨taken, step, held⟩ := ih further plain.2 behind.tail
      rw [← List.append_assoc]
      rcases close with ⟨_ | _, _ | spec⟩
      · have inside := getElem?_ascii (c := ')') (by decide) wholeEq
        refine ⟨(.round, none) :: taken, ?_, .cons ⟨rfl, .none⟩ held⟩
        rw [readCloses_of_round inside, length_bytes_ascii (c := ')') (by decide)]
        simp only [Close.chars] at step ⊢
        rw [step]
      · exact absurd (plain.1.round rfl) (Option.some_ne_none spec)
      · have inside := getElem?_ascii (c := ']') (by decide) wholeEq
        simp only [Close.chars] at further step
        refine ⟨(.square, none) :: taken, ?_, .cons ⟨rfl, .none⟩ held⟩
        rw [readCloses_of_square inside, length_bytes_ascii (c := ']') (by decide)]
        · simp only [Close.chars]
          rw [step]
        · rw [length_bytes_ascii (c := ']') (by decide), getElem?_front further]
          exact fun caret => behind.noCaret (Text.head?_of_head?_bytes (by decide) caret)
      · have inside := getElem?_ascii (c := ']') (by decide) wholeEq
        have atCaret : (front ++ [']']) ++
            '^' :: (spec.toList ++ (closes.flatMap Close.chars ++ trailing)) = whole := by
          simpa [Close.chars] using wholeEq
        have caret := getElem?_ascii (by decide) atCaret
        rw [← length_bytes_ascii (by decide)] at caret
        have atBound : (front ++ [']', '^']) ++
            (spec.toList ++ (closes.flatMap Close.chars ++ trailing)) = whole := by
          simpa [Close.chars] using wholeEq
        have bound := untilClosing_front atBound (plain.1.bound spec rfl) behind.closing
        have place : (Text.bytes (front ++ [']', '^'])).length = (Text.bytes front).length + 2 := by
          rw [Text.bytes_append, List.length_append]
          rfl
        rw [place] at bound
        let slice : Slice := ⟨(Text.bytes front).length + 2,
          (Text.bytes (front ++ [']', '^'] ++ spec.toList)).length⟩
        refine ⟨(.square, some slice) :: taken, ?_, .cons ⟨rfl, .some ?_⟩ held⟩
        · rw [readCloses_of_caret inside caret, bound]
          simp only [Close.chars, List.append_assoc, List.cons_append, List.nil_append] at step ⊢
          rw [step]
          simp [slice]
        · refine ⟨front ++ [']', '^'], closes.flatMap Close.chars ++ trailing, ?_, place.symm, rfl⟩
          simpa [Close.chars] using wholeEq

/-- The pass over the bytes of parts that meet where they have to. -/
theorem scan_holds {fragment : Fragment} (parted : fragment.Parted)
    (textEq : fragment.written = fragment.text.toList) :
    (scan (Text.bytes fragment.text.toList)).Holds fragment := by
  let front := fragment.opens.map Bracket.openChar
  let behind := fragment.closes.flatMap Close.chars ++ fragment.trailing.toList
  have atStart : [] ++ (front ++ (fragment.core.toList ++ behind)) = fragment.text.toList := by
    simpa [Fragment.written, front, behind] using textEq
  have atCore : front ++ (fragment.core.toList ++ behind) = fragment.text.toList := atStart
  have atCloses : (front ++ fragment.core.toList) ++ behind = fragment.text.toList := by
    rw [List.append_assoc, atCore]
  have opens := readOpens_front atStart (Fragment.forall_head_opening?_iff.mp parted.opening)
  have core := untilClosing_front atCore parted.core parted.closing
  obtain ⟨taken, closes, held⟩ := readCloses_front atCloses parted.closes parted.behind
  simp only [List.nil_append, Text.bytes_nil, List.length_nil] at opens
  simp only [scan, opens, core, closes, front]
  refine ⟨rfl, ⟨front, behind, ?_, rfl, rfl⟩, held, ?_⟩
  · simpa [Fragment.written, front, behind] using textEq
  · refine ⟨front ++ fragment.core.toList ++ fragment.closes.flatMap Close.chars, [], ?_, rfl, ?_⟩
    · simpa [Fragment.written, front] using textEq
    · rw [← textEq]
      rfl

end Scanner

namespace Fragment

/-- Lexing a text loses nothing.  There is one fragment for each piece between commas, in order,
and their texts with commas between them give the text back.  The parts of a fragment, written
one after another, are its text; they meet where they have to, and no other parts that do so
have this text.  And all slices that one pass over its bytes takes begin and end between
characters and hold these parts. -/
theorem split_loses_nothing {text : String} (nonempty : text ≠ "") :
    (split text).length = text.toList.count ',' + 1 ∧
    (∀ (position : Nat) (fragment : Fragment), (split text)[position]? = some fragment →
      fragment.index = position) ∧
    (∀ fragment ∈ split text, ',' ∉ fragment.text.toList) ∧
    String.intercalate "," ((split text).map (·.text)) = text ∧
    ∀ fragment ∈ split text,
      fragment.written = fragment.text.toList ∧ fragment.Parted ∧
      (∀ other : Fragment, other.Parted → other.written = fragment.text.toList →
        other.opens = fragment.opens ∧ other.core = fragment.core ∧
          other.closes = fragment.closes ∧ other.trailing = fragment.trailing) ∧
      (Scanner.scan (Text.bytes fragment.text.toList)).Holds fragment := by
  refine ⟨?_, fun position fragment => index_of_getElem?_split, ?_, ?_, ?_⟩
  · rw [split_of_ne_empty nonempty, List.length_mapIdx, Text.length_pieces]
  · intro fragment among
    obtain ⟨index, piece, inPieces, rfl⟩ := exists_piece among
    rw [show (ofPiece index piece).text.toList = piece from String.toList_ofList]
    exact fun comma => (Text.mem_of_mem_pieces inPieces comma).2 rfl
  · have texts : (split text).map (·.text) = (Text.pieces ',' text.toList).map String.ofList := by
      apply List.ext_getElem?
      intro position
      rw [split_of_ne_empty nonempty, List.getElem?_map, List.getElem?_map, List.getElem?_mapIdx,
        Option.map_map]
      rfl
    have pieces : (Text.pieces ',' text.toList).map (String.toList ∘ String.ofList) =
        Text.pieces ',' text.toList := by
      simp [Function.comp_def]
    rw [texts, ← String.toList_inj, String.toList_intercalate, List.map_map, pieces]
    exact Text.intercalate_pieces ',' text.toList
  · intro fragment among
    have written := written_of_mem_split among
    have parted := parted_of_mem_split among
    refine ⟨written, parted, fun other otherParted otherWritten => ?_,
      Scanner.scan_holds parted written⟩
    obtain ⟨opens, core, closes, trailing⟩ := parts_unique parted 0
    obtain ⟨opens', core', closes', trailing'⟩ := parts_unique otherParted 0
    rw [written] at opens core closes trailing
    rw [otherWritten] at opens' core' closes' trailing'
    exact ⟨opens'.symm.trans opens, core'.symm.trans core, closes'.symm.trans closes,
      trailing'.symm.trans trailing⟩

/-- A piece with brackets of both kinds, a bound that is none, and longer characters, the last one
behind the brackets. -/
theorem split_loses_nothing_garbage :
    "([Ä,]^²)é" ≠ "" ∧
      String.intercalate "," ((split "([Ä,]^²)é").map (·.text)) = "([Ä,]^²)é" ∧
      ∃ fragment ∈ split "([Ä,]^²)é",
        fragment.closes = [⟨.square, some "²"⟩, ⟨.round, none⟩] ∧ fragment.trailing = "é" ∧
        (Scanner.scan (Text.bytes fragment.text.toList)).Holds fragment := by
  obtain ⟨-, -, -, whole, each⟩ := split_loses_nothing (show "([Ä,]^²)é" ≠ "" by decide)
  have among : Fragment.mk 1 "]^²)é" [] "" [⟨.square, some "²"⟩, ⟨.round, none⟩] "é" ∈
      split "([Ä,]^²)é" := by
    decide +kernel
  exact ⟨by decide, whole, _, among, rfl, rfl, (each _ among).2.2.2⟩

end Fragment

end Pneumatic
