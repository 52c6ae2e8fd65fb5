import Pneumatic.Proofs.Notation.Grammar
import Pneumatic.Proofs.Notation.Parts
import Pneumatic.Proofs.Notation.Symbols

/-!
# Words

A word is what a fragment without a problem consists of: opening brackets, a token,
and closing brackets with their bounds.  Cutting and lexing a text finds no problem in
a fragment exactly if the text consists of words, and then the fragments are these
words, each with its place.
-/

namespace Pneumatic

namespace Close

/-- A round bracket has no bound, and the bound of a square one can be read. -/
def Readable : Close → Prop
  | ⟨.round, spec⟩ => spec = none
  | ⟨.square, spec⟩ => (Bound.read? spec).isSome = true

end Close

/-- A token with the brackets around it. -/
structure Word where
  opens : List Bracket
  core : List Char
  closes : List Close

namespace Word

/-- The characters of a word. -/
def chars (word : Word) : List Char :=
  word.opens.map Bracket.openChar ++ word.core ++ word.closes.flatMap Close.chars

/-- The core is a token, and the closing brackets can be read. -/
structure Readable (word : Word) : Prop where
  core : ∃ token, Grammar.Spells word.core token
  closes : ∀ close ∈ word.closes, close.Readable

/-- A word as the fragment at a place. -/
def fragment (index : Nat) (word : Word) : Fragment where
  index
  text := String.ofList word.chars
  opens := word.opens
  core := String.ofList word.core
  closes := word.closes
  trailing := ""

/-- Words as fragments, the first at a given place. -/
def fragments (first : Nat) : List Word → List Fragment
  | [] => []
  | word :: rest => word.fragment first :: fragments (first + 1) rest

@[simp] theorem length_fragments (first : Nat) (words : List Word) :
    (fragments first words).length = words.length := by
  induction words generalizing first with
  | nil => rfl
  | cons word rest ih => simp [fragments, ih]

theorem fragments_append (first : Nat) (left right : List Word) :
    fragments first (left ++ right) =
      fragments first left ++ fragments (first + left.length) right := by
  induction left generalizing first with
  | nil => rfl
  | cons word rest ih =>
      simp only [List.cons_append, fragments, ih, List.length_cons]
      rw [Nat.add_assoc, Nat.add_comm 1]

/-- Put an opening bracket in front of words. -/
def openFirst (kind : Bracket) : List Word → List Word
  | [] => []
  | word :: rest => { word with opens := kind :: word.opens } :: rest

/-- Put a closing bracket behind words. -/
def closeLast (close : Close) : List Word → List Word
  | [] => []
  | [word] => [{ word with closes := word.closes ++ [close] }]
  | word :: next :: rest => word :: closeLast close (next :: rest)

theorem closeLast_eq (close : Close) (words : List Word) (last : Word) :
    closeLast close (words ++ [last]) =
      words ++ [{ last with closes := last.closes ++ [close] }] := by
  induction words with
  | nil => rfl
  | cons word rest ih =>
      cases rest with
      | nil => rfl
      | cons next more => simpa [closeLast] using ih

@[simp] theorem length_openFirst (kind : Bracket) (words : List Word) :
    (openFirst kind words).length = words.length := by
  cases words <;> rfl

@[simp] theorem length_closeLast (close : Close) (words : List Word) :
    (closeLast close words).length = words.length := by
  rcases List.eq_nil_or_concat words with rfl | ⟨front, last, rfl⟩
  · rfl
  · simp [closeLast_eq]

@[simp] theorem map_core_openFirst (kind : Bracket) (words : List Word) :
    (openFirst kind words).map core = words.map core := by
  cases words <;> rfl

@[simp] theorem map_core_closeLast (close : Close) (words : List Word) :
    (closeLast close words).map core = words.map core := by
  rcases List.eq_nil_or_concat words with rfl | ⟨front, last, rfl⟩
  · rfl
  · simp [closeLast_eq]

theorem joined_openFirst (kind : Bracket) {words : List Word} (nonempty : words ≠ []) :
    Grammar.joined ((openFirst kind words).map chars) =
      kind.openChar :: Grammar.joined (words.map chars) := by
  rcases words with _ | ⟨word, _ | ⟨next, more⟩⟩
  · contradiction
  · simp [openFirst, chars]
  · simp [openFirst, chars, Grammar.joined_cons]

theorem joined_closeLast (close : Close) {words : List Word} (nonempty : words ≠ []) :
    Grammar.joined ((closeLast close words).map chars) =
      Grammar.joined (words.map chars) ++ close.chars := by
  rcases List.eq_nil_or_concat words with rfl | ⟨front, last, rfl⟩
  · contradiction
  · rw [List.concat_eq_append, closeLast_eq]
    cases front with
    | nil => simp [chars]
    | cons word rest =>
        rw [List.map_append, List.map_append, Grammar.joined_append (by simp) (by simp),
          Grammar.joined_append (by simp) (by simp)]
        simp [chars]

theorem readable_openFirst (kind : Bracket) {words : List Word}
    (readable : ∀ word ∈ words, word.Readable) :
    ∀ word ∈ openFirst kind words, word.Readable := by
  cases words with
  | nil => simp [openFirst]
  | cons word rest =>
      simp only [List.mem_cons, forall_eq_or_imp] at readable
      simp only [openFirst, List.mem_cons, forall_eq_or_imp]
      exact ⟨⟨readable.1.core, readable.1.closes⟩, readable.2⟩

theorem readable_closeLast {close : Close} (closeReadable : close.Readable) {words : List Word}
    (readable : ∀ word ∈ words, word.Readable) :
    ∀ word ∈ closeLast close words, word.Readable := by
  rcases List.eq_nil_or_concat words with rfl | ⟨front, last, rfl⟩
  · simp [closeLast]
  · rw [List.concat_eq_append] at readable ⊢
    simp only [List.forall_mem_append, List.forall_mem_singleton] at readable
    simp only [closeLast_eq, List.forall_mem_append, List.forall_mem_singleton]
    refine ⟨readable.1, readable.2.core, ?_⟩
    exact List.forall_mem_append.mpr ⟨readable.2.closes, by simpa using closeReadable⟩

theorem openFirst_ne_nil (kind : Bracket) {words : List Word} (nonempty : words ≠ []) :
    openFirst kind words ≠ [] := by
  cases words with
  | nil => contradiction
  | cons word rest => simp [openFirst]

theorem closeLast_ne_nil (close : Close) {words : List Word} (nonempty : words ≠ []) :
    closeLast close words ≠ [] := by
  rwa [← List.length_pos_iff_ne_nil, length_closeLast, List.length_pos_iff_ne_nil]

/-- Put words in brackets. -/
def enclose (close : Close) (words : List Word) : List Word :=
  closeLast close (openFirst close.kind words)

@[simp] theorem length_enclose (close : Close) (words : List Word) :
    (enclose close words).length = words.length := by
  simp [enclose]

@[simp] theorem map_core_enclose (close : Close) (words : List Word) :
    (enclose close words).map core = words.map core := by
  simp [enclose]

theorem map_ofChars?_enclose (close : Close) (words : List Word) :
    (enclose close words).map (fun word => Token.ofChars? word.core) =
      words.map fun word => Token.ofChars? word.core := by
  have cores := congrArg (List.map Token.ofChars?) (map_core_enclose close words)
  rwa [List.map_map, List.map_map] at cores

theorem enclose_ne_nil (close : Close) {words : List Word} (nonempty : words ≠ []) :
    enclose close words ≠ [] := by
  rw [← List.length_pos_iff_ne_nil, length_enclose, List.length_pos_iff_ne_nil]
  exact nonempty

theorem joined_enclose (close : Close) {words : List Word} (nonempty : words ≠ []) :
    Grammar.joined ((enclose close words).map chars) =
      close.kind.openChar :: Grammar.joined (words.map chars) ++ close.chars := by
  rw [enclose, joined_closeLast close (openFirst_ne_nil _ nonempty), joined_openFirst _ nonempty]

theorem readable_enclose {close : Close} (closeReadable : close.Readable) {words : List Word}
    (readable : ∀ word ∈ words, word.Readable) :
    ∀ word ∈ enclose close words, word.Readable :=
  readable_closeLast closeReadable (readable_openFirst close.kind readable)

end Word

/-! ## Reading a word -/

namespace Fragment

/-- No symbol opens a bracket. -/
theorem opening?_of_isSymbol {c : Char} (symbol : Token.isSymbol c = true) :
    opening? c = none := by
  cases opens : opening? c with
  | none => rfl
  | some kind =>
      rw [opening?_eq_some_iff] at opens
      subst opens
      cases kind <;> contradiction

/-- No symbol closes a bracket. -/
theorem isClosing_of_isSymbol {c : Char} (symbol : Token.isSymbol c = true) :
    isClosing c = false := by
  cases closes : isClosing c with
  | false => rfl
  | true =>
      simp only [isClosing, Bool.or_eq_true, beq_iff_eq] at closes
      rcases closes with rfl | rfl <;> contradiction

theorem plain_of_readable {close : Close} (readable : close.Readable) : close.Plain := by
  rcases close with ⟨_ | _, spec⟩
  · have noSpec : spec = none := readable
    exact ⟨fun _ => noSpec, by simp [noSpec]⟩
  · refine ⟨nofun, ?_⟩
    rintro text ⟨rfl⟩
    obtain ⟨bound, reads⟩ := Option.isSome_iff_exists.mp readable
    rw [← forall_isClosing_iff]
    exact fun c among => isClosing_of_isSymbol (Bound.isSymbol_of_ofChars? reads c among)

theorem written_fragment (word : Word) (index : Nat) :
    (word.fragment index).written = word.chars := by
  simp [written, Word.fragment, Word.chars]

theorem parted_fragment {word : Word} (readable : word.Readable) (index : Nat) :
    (word.fragment index).Parted := by
  obtain ⟨token, spells⟩ := readable.core
  have symbols := Token.isSymbol_of_ofChars? spells
  obtain ⟨c, core, coreEq⟩ := List.exists_cons_of_ne_nil (Token.ne_nil_of_ofChars? spells)
  have plain (close : Close) (among : close ∈ word.closes) : close.Plain :=
    plain_of_readable (readable.closes close among)
  refine ⟨?_, ?_, plain, ⟨?_, ?_, ?_⟩, ?_⟩
  · have first := opening?_of_isSymbol (symbols c (by simp [coreEq]))
    simpa [Word.fragment, coreEq] using opening?_eq_none_iff.mp first
  · simpa only [Word.fragment, String.toList_ofList] using
      forall_isClosing_iff.mp fun c among => isClosing_of_isSymbol (symbols c among)
  all_goals simp [Word.fragment]

/-- A piece that is a word becomes the fragment of the word. -/
theorem ofPiece_chars {word : Word} (readable : word.Readable) (index : Nat) :
    ofPiece index word.chars = word.fragment index := by
  obtain ⟨opens, core, closes, trailing⟩ := parts_unique (parted_fragment readable index) index
  rw [written_fragment] at opens core closes trailing
  exact (Fragment.mk.injEq ..).mpr ⟨rfl, rfl, opens, core, closes, trailing⟩

end Fragment

namespace Sequence

/-- There is nothing to say about the fragment of a word. -/
theorem fragmentTexts_fragment {word : Word} (readable : word.Readable) (index : Nat) :
    fragmentTexts (word.fragment index) = [] := by
  obtain ⟨token, spells⟩ := readable.core
  have coreSome : (String.ofList word.core).isEmpty = false := by
    simpa using Token.ne_nil_of_ofChars? spells
  have coreReads : Token.read? (String.ofList word.core) = some token := by
    rw [Token.read?, String.toList_ofList]
    exact spells
  have bounds : word.closes.any (fun close => (Bound.read? close.spec).isNone) = false := by
    simp only [List.any_eq_false, Bool.not_eq_true, Option.isNone_eq_false_iff]
    intro close membership
    have closeReads := readable.closes close membership
    rcases close with ⟨_ | _, spec⟩
    · have noSpec : spec = none := closeReads
      rw [noSpec]
      rfl
    · exact closeReads
  simp [fragmentTexts, hasBadEnd, Word.fragment, coreSome, coreReads, bounds]

/-- A piece about which there is nothing to say is a word. -/
theorem exists_word (index : Nat) {piece : List Char}
    (clean : fragmentTexts (Fragment.ofPiece index piece) = []) :
    ∃ word : Word, word.Readable ∧ word.chars = piece := by
  have parted := Fragment.parted_ofPiece index piece
  have written := Fragment.written_ofPiece index piece
  generalize Fragment.ofPiece index piece = fragment at clean parted written
  simp only [fragmentTexts, List.append_eq_nil_iff] at clean
  obtain ⟨coreClean, endClean⟩ := clean
  have coreReads : ∃ token, Grammar.Spells fragment.core.toList token := by
    split at coreClean
    · simp [Diagnostics.violation, Diagnostics.about] at coreClean
    · split at coreClean
      · contradiction
      · next reads =>
          rwa [Option.isNone_iff_eq_none, ← ne_eq, Option.ne_none_iff_exists'] at reads
  have goodEnd : ¬ hasBadEnd fragment = true := by
    intro badEnd
    rw [if_pos badEnd] at endClean
    contradiction
  simp only [hasBadEnd, Bool.or_eq_true, not_or, Bool.not_eq_true, List.any_eq_false,
    Option.isNone_eq_false_iff, Bool.not_eq_false', String.isEmpty_iff] at goodEnd
  obtain ⟨bounds, noTrailing⟩ := goodEnd
  refine ⟨⟨fragment.opens, fragment.core.toList, fragment.closes⟩, ⟨coreReads, ?_⟩, ?_⟩
  · intro close membership
    have reads := bounds close membership
    have plain := parted.closes close membership
    rcases close with ⟨_ | _, spec⟩
    · exact plain.round rfl
    · exact reads
  · rw [← written, Fragment.written, noTrailing, String.toList_empty, List.append_nil]
    rfl

end Sequence

/-! ## Reading a whole text -/

namespace Text

/-- Cutting undoes joining when no text has a comma in it. -/
theorem pieces_joined {texts : List (List Char)} (nonempty : texts ≠ [])
    (noComma : ∀ text ∈ texts, ',' ∉ text) : pieces ',' (Grammar.joined texts) = texts := by
  induction texts with
  | nil => contradiction
  | cons text rest ih =>
      rw [List.forall_mem_cons] at noComma
      cases rest with
      | nil => simpa using pieces_of_not_mem noComma.1
      | cons next more =>
          rw [Grammar.joined_cons (by simp), pieces_append_cons noComma.1, ih (by simp) noComma.2]

end Text

namespace Word

theorem comma_not_mem_chars {word : Word} (readable : word.Readable) : ',' ∉ word.chars := by
  obtain ⟨token, spells⟩ := readable.core
  have noSymbol : Token.isSymbol ',' = false := rfl
  simp only [chars, List.mem_append, not_or, List.mem_map, List.mem_flatMap]
  refine ⟨⟨?_, ?_⟩, ?_⟩
  · rintro ⟨kind, -, opens⟩
    cases kind <;> contradiction
  · intro membership
    rw [Token.isSymbol_of_ofChars? spells ',' membership] at noSymbol
    contradiction
  · rintro ⟨close, closeMem, membership⟩
    have reads := readable.closes close closeMem
    rcases close with ⟨_ | _, _ | spec⟩
    · simp [Close.chars] at membership
    · simp [Close.chars] at membership
    · simp [Close.chars] at membership
    · obtain ⟨bound, reads⟩ := Option.isSome_iff_exists.mp reads
      have inSpec : ',' ∈ spec.toList := by simpa [Close.chars] using membership
      rw [Bound.isSymbol_of_ofChars? reads ',' inSpec] at noSymbol
      contradiction

theorem mapIdx_ofPiece (first : Nat) {words : List Word}
    (readable : ∀ word ∈ words, word.Readable) :
    (words.map chars).mapIdx (fun index piece => Fragment.ofPiece (first + index) piece) =
      fragments first words := by
  induction words generalizing first with
  | nil => rfl
  | cons word rest ih =>
      simp only [List.mem_cons, forall_eq_or_imp] at readable
      rw [List.map_cons, List.mapIdx_cons, Nat.add_zero, Fragment.ofPiece_chars readable.1,
        fragments, ← ih (first + 1) readable.2]
      simp only [Nat.add_assoc, Nat.add_comm 1]

/-- Cutting the text of words gives back the words. -/
theorem split_joined {words : List Word} (nonempty : words ≠ [])
    (readable : ∀ word ∈ words, word.Readable) :
    Fragment.split (String.ofList (Grammar.joined (words.map chars))) = fragments 0 words := by
  have pieces : Text.pieces ',' (Grammar.joined (words.map chars)) = words.map chars := by
    apply Text.pieces_joined (by simpa using nonempty)
    intro text membership
    obtain ⟨word, wordMem, rfl⟩ := List.mem_map.mp membership
    exact comma_not_mem_chars (readable word wordMem)
  have textSome : Grammar.joined (words.map chars) ≠ [] := by
    intro empty
    obtain ⟨word, rest, rfl⟩ := List.exists_cons_of_ne_nil nonempty
    obtain ⟨token, spells⟩ := (readable word (by simp)).core
    rw [empty, List.map_cons] at pieces
    simp only [Text.pieces, List.cons.injEq, chars] at pieces
    have coreSome := Token.ne_nil_of_ofChars? spells
    simp_all
  have notEmpty : (String.ofList (Grammar.joined (words.map chars))).isEmpty = false := by
    simpa using textSome
  have lexed := mapIdx_ofPiece 0 readable
  simp only [Nat.zero_add] at lexed
  rw [Fragment.split, notEmpty, if_neg Bool.false_ne_true, String.toList_ofList, pieces]
  exact lexed

/-- A text whose fragments are without a problem each consists of words. -/
theorem exists_words {text : String} (nonempty : text.isEmpty = false)
    (clean : (Fragment.split text).flatMap Sequence.fragmentTexts = []) :
    ∃ words : List Word, words ≠ [] ∧ (∀ word ∈ words, word.Readable) ∧
      text = String.ofList (Grammar.joined (words.map chars)) := by
  rw [Fragment.split, nonempty, if_neg Bool.false_ne_true] at clean
  have whole := Text.intercalate_pieces ',' text.toList
  have piecesSome := Text.pieces_ne_nil ',' text.toList
  generalize Text.pieces ',' text.toList = pieces at clean whole piecesSome
  have words : ∀ piece ∈ pieces, ∃ word : Word, word.Readable ∧ word.chars = piece := by
    intro piece membership
    obtain ⟨index, bound, rfl⟩ := List.getElem_of_mem membership
    rw [List.flatMap_eq_nil_iff] at clean
    apply Sequence.exists_word index
    apply clean
    rw [List.mem_mapIdx]
    exact ⟨index, bound, rfl⟩
  have collected : ∃ words : List Word,
      (∀ word ∈ words, word.Readable) ∧ words.map chars = pieces := by
    clear clean whole piecesSome
    induction pieces with
    | nil => exact ⟨[], by simp, rfl⟩
    | cons piece rest ih =>
        simp only [List.mem_cons, forall_eq_or_imp] at words
        obtain ⟨word, readable, charsEq⟩ := words.1
        obtain ⟨more, moreReadable, moreEq⟩ := ih words.2
        refine ⟨word :: more, ?_, by simp [charsEq, moreEq]⟩
        simpa [readable] using moreReadable
  obtain ⟨found, readable, rfl⟩ := collected
  refine ⟨found, by simpa using piecesSome, readable, ?_⟩
  rw [Grammar.joined, whole, String.ofList_toList]

end Word

end Pneumatic
