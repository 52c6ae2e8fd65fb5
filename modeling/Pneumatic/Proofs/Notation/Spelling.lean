import Pneumatic.Proofs.Notation.Marks

/-!
# Spelling a tree

Every derivation of the grammar can be spelled with words.  Such words keep the rules
of the brackets, and reading them builds the tree of the derivation, wherever they
stand.
-/

namespace Pneumatic

namespace Builder

theorem foldl_openBracket_short (index : Nat) (opens : List Bracket) (builder : Builder) :
    (opens.foldl (openBracket index) builder).short = builder.short := by
  induction opens generalizing builder with
  | nil => rfl
  | cons kind rest ih => exact ih (openBracket index builder kind)

/-- Reading the fragment of a word: its brackets open, its token is added, its brackets
close. -/
theorem add_fragment (word : Word) {token : Token} (spells : Grammar.Spells word.core token)
    (index : Nat) (builder : Builder) :
    add builder (word.fragment index) =
      (addToken token (word.opens.foldl (openBracket index) builder).frames).bind fun frames =>
        word.closes.foldlM (closeBracket index) ⟨frames, builder.short⟩ := by
  have reads : Token.read? (String.ofList word.core) = some token := by
    rw [Token.read?, String.toList_ofList]
    exact spells
  simp only [add, Word.fragment, reads]
  rw [foldl_openBracket_short]
  rfl

theorem foldlM_openFirst (first : Nat) (kind : Bracket) {words : List Word} (nonempty : words ≠ [])
    (builder : Builder) :
    (Word.fragments first (Word.openFirst kind words)).foldlM add builder =
      (Word.fragments first words).foldlM add (openBracket first builder kind) := by
  cases words with
  | nil => contradiction
  | cons word rest => rfl

theorem add_closes (index : Nat) (word : Word) (close : Close) (builder : Builder)
    (readable : word.Readable) :
    add builder (Word.fragment index { word with closes := word.closes ++ [close] }) =
      (add builder (word.fragment index)).bind fun builder => closeBracket index builder close := by
  obtain ⟨token, spells⟩ := readable.core
  rw [add_fragment { word with closes := word.closes ++ [close] } spells,
    add_fragment word spells]
  cases addToken token (word.opens.foldl (openBracket index) builder).frames with
  | error misfit => rfl
  | ok frames =>
      simp only [Except.bind, List.foldlM_append, List.foldlM_cons, List.foldlM_nil, bind_pure]
      rfl

theorem foldlM_closeLast (first : Nat) (close : Close) {words : List Word} (nonempty : words ≠ [])
    (readable : ∀ word ∈ words, word.Readable) (builder : Builder) :
    (Word.fragments first (Word.closeLast close words)).foldlM add builder =
      ((Word.fragments first words).foldlM add builder).bind fun builder =>
        closeBracket (first + words.length - 1) builder close := by
  rcases List.eq_nil_or_concat words with rfl | ⟨front, last, rfl⟩
  · contradiction
  · rw [List.concat_eq_append] at readable ⊢
    rw [Word.closeLast_eq, Word.fragments_append, Word.fragments_append, List.foldlM_append,
      List.foldlM_append]
    cases (Word.fragments first front).foldlM add builder with
    | error misfit => rfl
    | ok builder =>
        have closed := add_closes (first + front.length) last close builder
          (readable last (by simp))
        simp only [Word.fragments, List.foldlM_cons, List.foldlM_nil, bind_pure,
          List.length_append, List.length_cons, List.length_nil]
        exact closed

/-- Reading words in brackets: the bracket opens, the words are read, it closes. -/
theorem foldlM_enclose (first : Nat) (close : Close) {words : List Word} (nonempty : words ≠ [])
    (readable : ∀ word ∈ words, word.Readable) (builder : Builder) :
    (Word.fragments first (Word.enclose close words)).foldlM add builder =
      ((Word.fragments first words).foldlM add (openBracket first builder close.kind)).bind
        fun builder => closeBracket (first + words.length - 1) builder close := by
  rw [Word.enclose, foldlM_closeLast first close (Word.openFirst_ne_nil _ nonempty)
    (Word.readable_openFirst _ readable), foldlM_openFirst first _ nonempty, Word.length_openFirst]

theorem foldlM_addNode_root (before nodes : List Node) :
    nodes.foldlM (fun frames node => addNode node frames) [.root before] =
      .ok [.root (before ++ nodes)] := by
  induction nodes generalizing before with
  | nil => simp; rfl
  | cons node rest ih =>
      have added := ih (before ++ [node])
      rw [List.append_assoc] at added
      exact added

theorem foldlM_addNode_region (opened : Nat) (outer : List Frame) (before nodes : List Node) :
    nodes.foldlM (fun frames node => addNode node frames) (.region opened before :: outer) =
      .ok (.region opened (before ++ nodes) :: outer) := by
  induction nodes generalizing before with
  | nil => simp; rfl
  | cons node rest ih =>
      have added := ih (before ++ [node])
      rw [List.append_assoc] at added
      exact added

end Builder

/-- Words that spell nodes.  The nodes are added to any frame that takes them; the
brackets of each kind alternate, and none is left open or crosses another. -/
structure Spelled (words : List Word) (nodes : List Node) : Prop where
  nonempty : words ≠ []
  readable : ∀ word ∈ words, word.Readable
  tokens : words.map (fun word => Token.ofChars? word.core) =
    ((Node.stepsOf nodes).flatMap Step.tokens).map Option.some
  builds : ∀ (first : Nat) (frames frames' : List Frame) (short : List (Nat × Nat)),
    nodes.foldlM (fun frames node => Builder.addNode node frames) frames = .ok frames' →
    (Word.fragments first words).foldlM Builder.add ⟨frames, short⟩ = .ok ⟨frames', short⟩
  rounds : ∀ first : Nat,
    Mark.Alternates false first (Brackets.ofKind .round (Word.marks first words))
  squares : ∀ first : Nat,
    Mark.Alternates false first (Brackets.ofKind .square (Word.marks first words))
  crossing : ∀ (fragments : List Fragment) (first : Nat) (stack : List (Bracket × Nat))
    (rest : List Mark), stack.any (·.1 == .round) = false →
    Brackets.crossingTexts fragments stack (Word.marks first words ++ rest) =
      Brackets.crossingTexts fragments stack rest
  regions : nodes.any Node.isRegion = true →
    ∀ first : Nat, Brackets.ofKind .square (Word.marks first words) ≠ []

namespace Spelled

theorem stepsOf_append (left right : List Node) :
    Node.stepsOf (left ++ right) = Node.stepsOf left ++ Node.stepsOf right := by
  induction left with
  | nil => rfl
  | cons node rest ih => simp [Node.stepsOf, ih]

theorem index_of_mem_ofKind {kind : Bracket} {first : Nat} {words : List Word} {mark : Mark}
    (membership : mark ∈ Brackets.ofKind kind (Word.marks first words)) :
    mark.index < first + words.length :=
  (Word.index_of_mem_marks mark (List.mem_of_mem_filter membership)).2

/-- Words after one another spell nodes after one another. -/
theorem append {left right : List Word} {nodes more : List Node} (leftSpelled : Spelled left nodes)
    (rightSpelled : Spelled right more) : Spelled (left ++ right) (nodes ++ more) where
  nonempty := by simp [leftSpelled.nonempty]
  readable := List.forall_mem_append.mpr ⟨leftSpelled.readable, rightSpelled.readable⟩
  tokens := by
    rw [List.map_append, leftSpelled.tokens, rightSpelled.tokens, stepsOf_append,
      List.flatMap_append, List.map_append]
  builds := by
    intro first frames frames' short builds
    rw [List.foldlM_append] at builds
    cases middle : nodes.foldlM (fun frames node => Builder.addNode node frames) frames with
    | error misfit => rw [middle] at builds; contradiction
    | ok between =>
        rw [middle] at builds
        rw [Word.fragments_append, List.foldlM_append,
          leftSpelled.builds first frames between short middle]
        exact rightSpelled.builds _ between frames' short builds
  rounds := by
    intro first
    rw [Word.marks_append, Brackets.ofKind, List.filter_append]
    exact (leftSpelled.rounds first).append (rightSpelled.rounds _)
      (fun mark membership => index_of_mem_ofKind membership) (Nat.le_add_right _ _)
  squares := by
    intro first
    rw [Word.marks_append, Brackets.ofKind, List.filter_append]
    exact (leftSpelled.squares first).append (rightSpelled.squares _)
      (fun mark membership => index_of_mem_ofKind membership) (Nat.le_add_right _ _)
  crossing := by
    intro fragments first stack rest noRound
    rw [Word.marks_append, List.append_assoc, leftSpelled.crossing _ _ _ _ noRound,
      rightSpelled.crossing _ _ _ _ noRound]
  regions := by
    intro hasRegion first
    rw [List.any_append, Bool.or_eq_true] at hasRegion
    rw [Word.marks_append, Brackets.ofKind, List.filter_append, ne_eq, List.append_eq_nil_iff,
      not_and_or]
    exact hasRegion.imp (leftSpelled.regions · first) (rightSpelled.regions · _)

end Spelled

/-! ## Tokens -/

namespace Word

/-- A token without brackets. -/
def bare (text : List Char) : Word :=
  ⟨[], text, []⟩

@[simp] theorem chars_bare (text : List Char) : (bare text).chars = text := by
  simp [bare, chars]

theorem readable_bare {text : List Char} {token : Token} (spells : Grammar.Spells text token) :
    (bare text).Readable :=
  ⟨⟨token, spells⟩, by simp [bare]⟩

@[simp] theorem marks_map_bare (first : Nat) (texts : List (List Char)) :
    marks first (texts.map bare) = [] := by
  induction texts generalizing first with
  | nil => rfl
  | cons text rest ih => simp [marks, bare, ih]

theorem readable_map_bare {texts : List (List Char)} {tokens : List Token}
    (spells : List.Forall₂ Grammar.Spells texts tokens) :
    ∀ word ∈ texts.map bare, word.Readable := by
  induction spells with
  | nil => simp
  | cons head _ ih => simpa using ⟨readable_bare head, by simpa using ih⟩

theorem map_ofChars?_map_bare {texts : List (List Char)} {tokens : List Token}
    (spells : List.Forall₂ Grammar.Spells texts tokens) :
    (texts.map bare).map (fun word => Token.ofChars? word.core) = tokens.map Option.some := by
  induction spells with
  | nil => rfl
  | cons head _ ih => simp_all [bare, Grammar.Spells]

/-- Tokens without brackets go into an open group. -/
theorem foldlM_add_bare {texts : List (List Char)} {tokens : List Token}
    (spells : List.Forall₂ Grammar.Spells texts tokens) (first opened : Nat)
    (before : List Token) (outer : List Frame) (short : List (Nat × Nat)) :
    (fragments first (texts.map bare)).foldlM Builder.add ⟨.group opened before :: outer, short⟩ =
      .ok ⟨.group opened (before ++ tokens) :: outer, short⟩ := by
  induction spells generalizing first before with
  | nil => simp [fragments]; rfl
  | @cons text token texts tokens head _ ih =>
      have added : Builder.add ⟨.group opened before :: outer, short⟩ ((bare text).fragment first) =
          .ok ⟨.group opened (before ++ [token]) :: outer, short⟩ :=
        Builder.add_fragment (bare text) head first _
      rw [List.map_cons, fragments, List.foldlM_cons, added]
      have rest := ih (first + 1) (before ++ [token])
      rw [List.append_assoc] at rest
      exact rest

end Word

namespace Spelled

theorem ofKind_of_not_mem {kind : Bracket} {marks : List Mark}
    (others : ∀ mark ∈ marks, mark.kind ≠ kind) : Brackets.ofKind kind marks = [] := by
  rw [Brackets.ofKind, List.filter_eq_nil_iff]
  intro mark membership
  simpa using others mark membership

theorem single {text : List Char} {token : Token} (spells : Grammar.Spells text token) :
    Spelled [Word.bare text] [.step (.single token)] where
  nonempty := by simp
  readable := by simpa using Word.readable_bare spells
  tokens := by
    simpa [Node.stepsOf, Node.steps, Step.tokens, Word.bare, Grammar.Spells] using spells
  builds := by
    intro first frames frames' short builds
    simp only [List.foldlM_cons, List.foldlM_nil, bind_pure] at builds
    have added := Builder.add_fragment (Word.bare text) spells first ⟨frames, short⟩
    have noGroup : Builder.addToken token frames = .ok frames' := by
      unfold Builder.addToken
      split
      · simp [Builder.addNode] at builds
      · exact builds
    simp only [Word.bare, List.foldl_nil, noGroup] at added
    simp only [Word.fragments, List.foldlM_cons, List.foldlM_nil, bind_pure, Word.bare, added]
    rfl
  rounds := by
    intro first
    simpa [Word.marks, Word.bare, Brackets.ofKind] using Mark.Alternates.nil
  squares := by
    intro first
    simpa [Word.marks, Word.bare, Brackets.ofKind] using Mark.Alternates.nil
  crossing := by
    intro fragments first stack rest noRound
    simp [Word.marks, Word.bare]
  regions := by simp [Node.isRegion]

theorem group {texts : List (List Char)} {tokens : List Token}
    (spells : List.Forall₂ Grammar.Spells texts tokens) (long : 2 ≤ tokens.length) :
    Spelled (Word.enclose ⟨.round, none⟩ (texts.map Word.bare)) [.step (.group tokens)] := by
  have lengthEq := spells.length_eq
  have textsSome : texts.map Word.bare ≠ [] := by
    rw [← List.length_pos_iff_ne_nil, List.length_map]
    omega
  have readable := Word.readable_map_bare spells
  have closes : Close.Readable ⟨.round, none⟩ := rfl
  refine ⟨Word.enclose_ne_nil _ textsSome, Word.readable_enclose closes readable,
    ?_, ?_, ?_, ?_, ?_, by simp [Node.isRegion]⟩
  · rw [Word.map_ofChars?_enclose, Word.map_ofChars?_map_bare spells]
    simp [Node.stepsOf, Node.steps, Step.tokens]
  · intro first frames frames' short builds
    simp only [List.foldlM_cons, List.foldlM_nil, bind_pure] at builds
    rw [Builder.foldlM_enclose first _ textsSome readable, Builder.openBracket,
      Word.foldlM_add_bare spells]
    simp only [Except.bind, Builder.closeBracket, List.nil_append, builds]
    rfl
  · intro first
    rw [Word.marks_enclose first _ textsSome, Word.marks_map_bare]
    refine .opens (Nat.le_refl first) (.closes ?_ .nil)
    rw [List.length_map]
    omega
  · intro first
    rw [Word.marks_enclose first _ textsSome, Word.marks_map_bare, ofKind_of_not_mem (by simp)]
    exact .nil
  · intro fragments first stack rest noRound
    rw [Word.marks_enclose first _ textsSome, Word.marks_map_bare]
    simp [Brackets.crossingTexts]

/-! ## Derivations -/

/-- Derivations after one another can be spelled if each can be, and what holds of
the words of each holds of all. -/
theorem exists_of_forall₂ {Derives : List Char → Node → Prop} {Plain : List Word → Prop}
    (each : ∀ text node, Derives text node →
      ∃ words, Spelled words [node] ∧ Grammar.joined (words.map Word.chars) = text ∧ Plain words)
    (plainAppend : ∀ left right, Plain left → Plain right → Plain (left ++ right))
    {texts : List (List Char)} {nodes : List Node} (derives : List.Forall₂ Derives texts nodes)
    (nonempty : nodes ≠ []) :
    ∃ words, Spelled words nodes ∧
      Grammar.joined (words.map Word.chars) = Grammar.joined texts ∧ Plain words ∧
      nodes.length ≤ words.length := by
  induction derives with
  | nil => contradiction
  | @cons text node texts nodes head tail ih =>
      obtain ⟨words, spelled, joinedEq, plain⟩ := each text node head
      have wordsSome : 0 < words.length := List.length_pos_iff_ne_nil.mpr spelled.nonempty
      cases nodes with
      | nil =>
          cases tail
          exact ⟨words, spelled, by simpa using joinedEq, plain, wordsSome⟩
      | cons next more =>
          obtain ⟨rest, restSpelled, restEq, restPlain, restLength⟩ := ih (by simp)
          have textsSome : texts ≠ [] := by
            cases tail
            simp
          refine ⟨words ++ rest, spelled.append restSpelled, ?_,
            plainAppend _ _ plain restPlain, ?_⟩
          · rw [List.map_append, Grammar.joined_append (by simpa using spelled.nonempty)
              (by simpa using restSpelled.nonempty), joinedEq, restEq,
              Grammar.joined_cons textsSome]
          · rw [List.length_append, List.length_cons]
            omega

/-- No square bracket is among the brackets of words. -/
def NoSquare (words : List Word) : Prop :=
  ∀ first, Brackets.ofKind .square (Word.marks first words) = []

theorem exists_of_unit {text : List Char} {step : Step} (derives : Grammar.Unit text step) :
    ∃ words, Spelled words [.step step] ∧ Grammar.joined (words.map Word.chars) = text ∧
      NoSquare words := by
  cases derives with
  | token spells =>
      refine ⟨[Word.bare text], single spells, by simp, ?_⟩
      intro first
      simp [Word.marks, Word.bare, Brackets.ofKind]
  | @group texts tokens spells long =>
      have textsSome : texts.map Word.bare ≠ [] := by
        rw [← List.length_pos_iff_ne_nil, List.length_map, spells.length_eq]
        omega
      refine ⟨_, group spells long, ?_, ?_⟩
      · rw [Word.joined_enclose _ textsSome, List.map_map]
        have chars : Word.chars ∘ Word.bare = id := funext Word.chars_bare
        rw [chars, List.map_id]
        rfl
      · intro first
        rw [Word.marks_enclose first _ textsSome, Word.marks_map_bare]
        exact ofKind_of_not_mem (by simp)

theorem exists_of_units {texts : List (List Char)} {steps : List Step}
    (derives : List.Forall₂ Grammar.Unit texts steps) (nonempty : steps ≠ []) :
    ∃ words, Spelled words (steps.map .step) ∧
      Grammar.joined (words.map Word.chars) = Grammar.joined texts ∧ NoSquare words ∧
      steps.length ≤ words.length := by
  have each : ∀ text node, (∃ step, node = Node.step step ∧ Grammar.Unit text step) →
      ∃ words, Spelled words [node] ∧ Grammar.joined (words.map Word.chars) = text ∧
        NoSquare words := by
    rintro text node ⟨step, rfl, unit⟩
    exact exists_of_unit unit
  have append : ∀ left right : List Word, NoSquare left → NoSquare right →
      NoSquare (left ++ right) := by
    intro left right leftPlain rightPlain first
    rw [Word.marks_append, Brackets.ofKind, List.filter_append]
    exact List.append_eq_nil_iff.mpr ⟨leftPlain first, rightPlain _⟩
  have nodes : List.Forall₂ (fun text node => ∃ step, node = Node.step step ∧
      Grammar.Unit text step) texts (steps.map .step) := by
    rw [List.forall₂_map_right_iff]
    exact derives.imp fun text step unit => ⟨step, rfl, unit⟩
  simpa using exists_of_forall₂ each append nodes (by simpa using nonempty)

/-- Words without square brackets spell a region when they stand in square brackets. -/
theorem region {words : List Word} {steps : List Step} {spec : Option String} {bound : Bound}
    (spelled : Spelled words (steps.map .step)) (plain : NoSquare words)
    (long : 2 ≤ steps.length) (length : steps.length ≤ words.length)
    (reads : Bound.read? spec = some bound) :
    Spelled (Word.enclose ⟨.square, spec⟩ words) [.region bound (steps.map .step)] := by
  have closes : Close.Readable ⟨.square, spec⟩ := by simp [Close.Readable, reads]
  refine ⟨Word.enclose_ne_nil _ spelled.nonempty, Word.readable_enclose closes spelled.readable,
    ?_, ?_, ?_, ?_, ?_, ?_⟩
  · rw [Word.map_ofChars?_enclose, spelled.tokens]
    simp [Node.stepsOf, Node.steps]
  · intro first frames frames' short builds
    simp only [List.foldlM_cons, List.foldlM_nil, bind_pure] at builds
    have inner := spelled.builds first (.region first [] :: frames) _ short
      (Builder.foldlM_addNode_region first frames [] (steps.map .step))
    have noShort : ¬ (Node.stepsOf (steps.map .step)).length < 2 := by
      rw [Grammar.stepsOf_map_step]
      omega
    rw [Builder.foldlM_enclose first _ spelled.nonempty spelled.readable, Builder.openBracket,
      inner]
    simp only [Except.bind, Builder.closeBracket, List.nil_append, reads, if_neg noShort,
      List.append_nil, builds]
    rfl
  · intro first
    rw [Word.rounds_enclose first spec spelled.nonempty]
    exact spelled.rounds first
  · intro first
    rw [Word.squares_enclose first spec spelled.nonempty, plain first]
    refine .opens (Nat.le_refl first) (.closes ?_ .nil)
    omega
  · intro fragments first stack rest noRound
    have inner := spelled.crossing fragments first ((.square, first) :: stack)
      (.closes .square (first + words.length - 1) :: rest) (by simpa using noRound)
    rw [Word.marks_enclose first _ spelled.nonempty]
    simp only [List.cons_append, List.append_assoc, List.nil_append, Brackets.crossingTexts,
      noRound, Bool.and_false, Bool.false_eq_true, ↓reduceIte, inner, ne_eq, not_true_eq_false]
  · intro _ first
    rw [Word.squares_enclose first spec spelled.nonempty]
    simp

theorem exists_of_item {text : List Char} {node : Node} (derives : Grammar.Item text node) :
    ∃ words, Spelled words [node] ∧ Grammar.joined (words.map Word.chars) = text := by
  cases derives with
  | unit unit =>
      obtain ⟨words, spelled, joinedEq, -⟩ := exists_of_unit unit
      exact ⟨words, spelled, joinedEq⟩
  | @region texts steps specText bound units long spec =>
      have stepsSome : steps ≠ [] := by
        rw [← List.length_pos_iff_ne_nil]
        omega
      obtain ⟨words, spelled, joinedEq, plain, length⟩ := exists_of_units units stepsSome
      cases spec with
      | none =>
          have readsNone : Bound.read? none = Option.some .unbounded := rfl
          refine ⟨_, region spelled plain long length readsNone, ?_⟩
          rw [Word.joined_enclose _ spelled.nonempty, joinedEq]
          rfl
      | @caret specText _ reads =>
          have readsSpec : Bound.read? (Option.some (String.ofList specText)) = some bound := by
            rw [Bound.read?, String.toList_ofList]
            exact reads
          refine ⟨_, region spelled plain long length readsSpec, ?_⟩
          rw [Word.joined_enclose _ spelled.nonempty, joinedEq, Close.chars, String.toList_ofList]
          rfl

theorem exists_of_items {texts : List (List Char)} {nodes : List Node}
    (derives : List.Forall₂ Grammar.Item texts nodes) (nonempty : nodes ≠ []) :
    ∃ words, Spelled words nodes ∧
      Grammar.joined (words.map Word.chars) = Grammar.joined texts := by
  have each : ∀ text node, Grammar.Item text node → ∃ words, Spelled words [node] ∧
      Grammar.joined (words.map Word.chars) = text ∧ True := by
    intro text node item
    obtain ⟨words, spelled, joinedEq⟩ := exists_of_item item
    exact ⟨words, spelled, joinedEq, trivial⟩
  obtain ⟨words, spelled, joinedEq, -⟩ :=
    exists_of_forall₂ each (fun _ _ _ _ => trivial) derives nonempty
  exact ⟨words, spelled, joinedEq⟩

/-- Words that spell a region are two or more. -/
theorem two_le_length {words : List Word} {nodes : List Node} (spelled : Spelled words nodes)
    (hasRegion : nodes.any Node.isRegion = true) : 2 ≤ words.length := by
  have inside : ∀ mark ∈ Brackets.ofKind .square (Word.marks 0 words),
      mark.index < words.length := by
    intro mark membership
    simpa using index_of_mem_ofKind membership
  have squaresSome := spelled.regions hasRegion 0
  have alternates := spelled.squares 0
  generalize Brackets.ofKind .square (Word.marks 0 words) = squares at *
  cases alternates with
  | nil => contradiction
  | opens _ rest =>
      cases rest with
      | @closes _ index kind _ after _ =>
          have bound := inside (.closes kind index) (by simp)
          simp only [Mark.index] at bound
          omega

end Spelled

end Pneumatic
