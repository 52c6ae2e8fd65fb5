import Pneumatic.Proofs.Notation.Completeness

/-!
# What is read is derived

Words are followed mark by mark.  A scan holds the items read so far and what is in the
region and in the group that are open; the frames of the builder, the brackets that are
open, and the text read so far are all determined by it.  As long as the marks ahead
keep the rules, each mark leads to a scan again.
-/

namespace Pneumatic

/-- An open bracket with what it holds so far. -/
structure Pending (Element : Type) where
  opened : Nat
  texts : List (List Char)
  elements : List Element

/-- Put something into an open bracket. -/
def Pending.push {Element : Type} (text : List Char) (element : Element)
    (pending : Pending Element) : Pending Element where
  opened := pending.opened
  texts := pending.texts ++ [text]
  elements := pending.elements ++ [element]

/-- The items read so far, and the region and the group that are open. -/
structure Scan where
  texts : List (List Char)
  nodes : List Node
  region : Option (Pending Step)
  group : Option (Pending Token)

/-- What stands around the items of a scan: the frame that takes them, and the brackets
that opened before them. -/
structure Ground where
  frames : List Node → List Frame
  stack : List (Bracket × Nat)
  addNode : ∀ (nodes : List Node) (node : Node),
    Builder.addNode node (frames nodes) = .ok (frames (nodes ++ [node]))
  noRound : stack.any (·.1 == .round) = false

namespace Ground

/-- Nothing stands around the items. -/
def root : Ground where
  frames nodes := [.root nodes]
  stack := []
  addNode _ _ := rfl
  noRound := rfl

/-- Square brackets stand around the items. -/
def enclosed : Ground where
  frames nodes := [.region 0 nodes, .root []]
  stack := [(.square, 0)]
  addNode _ _ := rfl
  noRound := rfl

end Ground

namespace Scan

/-- Nothing read. -/
def start : Scan := ⟨[], [], none, none⟩

/-- The frames of a builder that has read this much. -/
def frames (ground : Ground) (scan : Scan) : List Frame :=
  (scan.group.toList.map fun group => Frame.group group.opened group.elements) ++
    (scan.region.toList.map fun region =>
      Frame.region region.opened (region.elements.map .step)) ++
    ground.frames scan.nodes

/-- The brackets that are open, innermost first. -/
def stack (ground : Ground) (scan : Scan) : List (Bracket × Nat) :=
  (scan.group.toList.map fun group => (.round, group.opened)) ++
    (scan.region.toList.map fun region => (.square, region.opened)) ++ ground.stack

/-- The text read so far, with a comma behind everything that is read. -/
def read (scan : Scan) : List Char :=
  Grammar.led scan.texts ++
    (scan.region.toList.flatMap fun region => '[' :: Grammar.led region.texts) ++
    (scan.group.toList.flatMap fun group => '(' :: Grammar.led group.texts)

/-- The innermost open bracket holds something. -/
def Held (scan : Scan) : Prop :=
  match scan.group, scan.region with
  | some group, _ => group.texts ≠ []
  | none, some region => region.texts ≠ []
  | none, none => scan.texts ≠ []

/-- Add a unit to the region that is open, or to the items. -/
def addUnit (text : List Char) (step : Step) (scan : Scan) : Scan :=
  match scan.region with
  | some region => { scan with region := some (region.push text step) }
  | none => { scan with texts := scan.texts ++ [text], nodes := scan.nodes ++ [.step step] }

/-- Add a token to the group that is open, or by itself. -/
def addToken (text : List Char) (token : Token) (scan : Scan) : Scan :=
  match scan.group with
  | some group => { scan with group := some (group.push text token) }
  | none => scan.addUnit text (.single token)

/-- What is read is derived by the grammar, given that no region was too short. -/
structure Derived (short : List (Nat × Nat)) (scan : Scan) : Prop where
  items : short = [] → List.Forall₂ Grammar.Item scan.texts scan.nodes
  units : ∀ region ∈ scan.region, List.Forall₂ Grammar.Unit region.texts region.elements
  tokens : ∀ group ∈ scan.group, List.Forall₂ Grammar.Spells group.texts group.elements

/-- The marks ahead close what is open and keep the rules otherwise. -/
structure Expects (fragments : List Fragment) (ground : Ground) (marks : List Mark)
    (scan : Scan) : Prop where
  rounds : Mark.Alternates scan.group.isSome (scan.group.elim 0 (·.opened + 1))
    (Brackets.ofKind .round marks)
  squares : Mark.Alternates scan.region.isSome (scan.region.elim 0 (·.opened + 1))
    (Brackets.ofKind .square marks)
  crossing : Brackets.crossingTexts fragments (scan.stack ground) marks = []

/-- A builder in front of a fragment has read what a scan says, and the marks ahead fit.
A group holds one token of each fragment since it opened. -/
structure Follows (fragments : List Fragment) (ground : Ground) (index : Nat) (marks : List Mark)
    (builder : Builder) (scan : Scan) : Prop where
  frames : builder.frames = scan.frames ground
  derived : scan.Derived builder.short
  expects : scan.Expects fragments ground marks
  length : ∀ group ∈ scan.group, group.opened + group.elements.length = index

variable {fragments : List Fragment} {ground : Ground} {index : Nat} {marks : List Mark}
  {builder : Builder} {scan : Scan}

/-! ## Units -/

theorem read_addUnit (text : List Char) (step : Step) (alone : scan.group = none) :
    (scan.addUnit text step).read = scan.read ++ text ++ [','] := by
  cases inside : scan.region with
  | none => simp [addUnit, read, inside, alone]
  | some region => simp [addUnit, read, Pending.push, inside, alone]

theorem held_addUnit (text : List Char) (step : Step) (alone : scan.group = none) :
    (scan.addUnit text step).Held := by
  cases inside : scan.region with
  | none => simp [addUnit, Held, inside, alone]
  | some region => simp [addUnit, Held, Pending.push, inside, alone]

theorem addNode_frames (ground : Ground) (text : List Char) (step : Step)
    (alone : scan.group = none) :
    Builder.addNode (.step step) (scan.frames ground) =
      .ok ((scan.addUnit text step).frames ground) := by
  cases inside : scan.region with
  | none => simpa [addUnit, frames, inside, alone] using ground.addNode scan.nodes (.step step)
  | some region => simp [addUnit, frames, Pending.push, inside, alone, Builder.addNode]

@[simp] theorem group_addUnit (text : List Char) (step : Step) :
    (scan.addUnit text step).group = scan.group := by
  unfold addUnit
  split <;> rfl

theorem derived_addUnit {short : List (Nat × Nat)} {text : List Char} {step : Step}
    (unit : Grammar.Unit text step) (derived : scan.Derived short) :
    (scan.addUnit text step).Derived short := by
  obtain ⟨items, units, tokens⟩ := derived
  cases inside : scan.region with
  | none =>
      simp only [addUnit, inside]
      refine ⟨?_, by simp, tokens⟩
      intro clean
      exact List.rel_append (items clean) (.cons (.unit unit) .nil)
  | some region =>
      simp only [addUnit, inside]
      refine ⟨items, ?_, tokens⟩
      intro found equal
      obtain rfl := Option.some.inj equal
      exact List.rel_append (units region (by simp [inside])) (.cons unit .nil)

theorem expects_addUnit (text : List Char) (step : Step)
    (expects : scan.Expects fragments ground marks) :
    (scan.addUnit text step).Expects fragments ground marks := by
  obtain ⟨rounds, squares, crossing⟩ := expects
  cases inside : scan.region with
  | none =>
      simp only [addUnit, inside, stack] at *
      exact ⟨rounds, squares, crossing⟩
  | some region =>
      simp only [addUnit, inside, stack] at *
      exact ⟨rounds, squares, crossing⟩

theorem follows_addToken {text : List Char} {token : Token} (spells : Grammar.Spells text token)
    (follows : scan.Follows fragments ground index marks builder) :
    ∃ frames, Builder.addToken token builder.frames = .ok frames ∧
      (scan.addToken text token).Follows fragments ground (index + 1) marks
        ⟨frames, builder.short⟩ ∧
      (scan.addToken text token).Held ∧
      (scan.addToken text token).read = scan.read ++ text ++ [','] := by
  obtain ⟨framesEq, derived, expects, length⟩ := follows
  cases inside : scan.group with
  | none =>
      have added := addNode_frames ground text (.single token) inside
      have addedToken : Builder.addToken token (scan.frames ground) =
          Builder.addNode (.step (.single token)) (scan.frames ground) := by
        unfold Builder.addToken
        split
        · next groupFrame => simp [groupFrame, Builder.addNode] at added
        · rfl
      rw [framesEq, addedToken, added]
      simp only [addToken, inside]
      refine ⟨_, rfl,
        ⟨rfl, derived_addUnit (.token spells) derived, expects_addUnit _ _ expects, ?_⟩,
        held_addUnit _ _ inside, read_addUnit _ _ inside⟩
      simp [inside]
  | some group =>
      simp only [addToken, inside]
      refine ⟨_, by rw [framesEq, frames, inside]; rfl, ⟨?_, ?_, ?_, ?_⟩, ?_, ?_⟩
      · simp [frames, Pending.push]
      · refine ⟨derived.items, derived.units, ?_⟩
        intro found equal
        obtain rfl := Option.some.inj equal
        exact List.rel_append (derived.tokens group (by simp [inside])) (.cons spells .nil)
      · obtain ⟨rounds, squares, crossing⟩ := expects
        simp only [inside, stack] at *
        exact ⟨rounds, squares, crossing⟩
      · intro found equal
        obtain rfl := Option.some.inj equal
        have before := length group (by simp [inside])
        simp [Pending.push, ← before, Nat.add_assoc]
      · simp [Held, Pending.push]
      · simp [read, Pending.push, inside]

/-! ## Opening -/

theorem ofKind_opens_self (kind : Bracket) (index : Nat) (marks : List Mark) :
    Brackets.ofKind kind (.opens kind index :: marks) =
      .opens kind index :: Brackets.ofKind kind marks := by
  simp [Brackets.ofKind]

theorem follows_openBracket {kind : Bracket}
    (follows : scan.Follows fragments ground index (.opens kind index :: marks) builder) :
    ∃ scan' : Scan, scan'.Follows fragments ground index marks
        (Builder.openBracket index builder kind) ∧
      scan'.read = scan.read ++ [kind.openChar] := by
  obtain ⟨framesEq, ⟨items, units, tokens⟩, ⟨rounds, squares, crossing⟩, length⟩ := follows
  cases kind with
  | round =>
      cases inGroup : scan.group with
      | some group =>
          rw [inGroup, ofKind_opens_self] at rounds
          cases rounds
      | none =>
          rw [inGroup, ofKind_opens_self] at rounds
          cases rounds with
          | opens _ rounds =>
              refine ⟨{ scan with group := some ⟨index, [], []⟩ },
                ⟨?_, ⟨items, units, by simp⟩, ⟨rounds, squares, ?_⟩, by simp⟩, ?_⟩
              · simp [Builder.openBracket, framesEq, frames, inGroup]
              · simpa [Brackets.crossingTexts, stack, inGroup] using crossing
              · simp [read, inGroup, Bracket.openChar]
  | square =>
      cases inGroup : scan.group with
      | some group =>
          simp [Brackets.crossingTexts, stack, inGroup, Brackets.violation_ne_nil] at crossing
      | none =>
          cases inRegion : scan.region with
          | some region =>
              rw [inRegion, ofKind_opens_self] at squares
              cases squares
          | none =>
              rw [inRegion, ofKind_opens_self] at squares
              cases squares with
              | opens _ squares =>
                  refine ⟨{ scan with region := some ⟨index, [], []⟩ },
                    ⟨?_, ⟨items, by simp, tokens⟩, ⟨rounds, squares, ?_⟩, length⟩, ?_⟩
                  · simp [Builder.openBracket, framesEq, frames, inGroup, inRegion]
                  · have noRound := ground.noRound
                    simpa [Brackets.crossingTexts, stack, inGroup, inRegion, noRound] using crossing
                  · simp [read, inGroup, inRegion, Bracket.openChar]

theorem follows_openBrackets {opens : List Bracket}
    (follows : scan.Follows fragments ground index (opens.map (.opens · index) ++ marks)
      builder) :
    ∃ scan' : Scan, scan'.Follows fragments ground index marks
        (opens.foldl (Builder.openBracket index) builder) ∧
      scan'.read = scan.read ++ opens.map Bracket.openChar := by
  induction opens generalizing builder scan with
  | nil => exact ⟨scan, follows, by simp⟩
  | cons kind opens ih =>
      obtain ⟨opened, opensFollows, readEq⟩ := follows_openBracket follows
      obtain ⟨scan', follows', readEq'⟩ := ih opensFollows
      refine ⟨scan', follows', ?_⟩
      rw [readEq', readEq]
      simp

/-! ## Closing -/

theorem ofKind_closes_self (kind : Bracket) (index : Nat) (marks : List Mark) :
    Brackets.ofKind kind (.closes kind index :: marks) =
      .closes kind index :: Brackets.ofKind kind marks := by
  simp [Brackets.ofKind]

theorem follows_closeRound (held : scan.Held)
    (follows : scan.Follows fragments ground (index + 1) (.closes .round index :: marks) builder) :
    ∃ (scan' : Scan) (builder' : Builder),
      Builder.closeBracket index builder ⟨.round, none⟩ = .ok builder' ∧
      scan'.Follows fragments ground (index + 1) marks builder' ∧ scan'.Held ∧
      ∀ text, text ++ [','] = scan.read → text ++ [')'] ++ [','] = scan'.read := by
  obtain ⟨framesEq, ⟨items, units, tokens⟩, ⟨rounds, squares, crossing⟩, length⟩ := follows
  cases inGroup : scan.group with
  | none =>
      rw [inGroup, ofKind_closes_self] at rounds
      cases rounds
  | some group =>
      rw [inGroup, ofKind_closes_self] at rounds
      cases rounds with
      | closes before rounds =>
          have lengthEq := length group (by simp [inGroup])
          simp only [Option.elim_some] at before
          have unit : Grammar.Unit ('(' :: Grammar.joined group.texts ++ [')'])
              (.group group.elements) :=
            .group (tokens group (by simp [inGroup])) (by omega)
          let left : Scan := { scan with group := none }
          have alone : left.group = none := rfl
          have leftDerived : left.Derived builder.short := ⟨items, units, by simp [left]⟩
          have leftExpects : left.Expects fragments ground marks := by
            refine ⟨rounds.mono (Nat.zero_le _), squares, ?_⟩
            simpa [Brackets.crossingTexts, stack, inGroup, left] using crossing
          refine ⟨left.addUnit _ (.group group.elements),
            ⟨(left.addUnit _ (.group group.elements)).frames ground, builder.short⟩, ?_,
            ⟨rfl, derived_addUnit unit leftDerived, expects_addUnit _ _ leftExpects,
              by simp [left]⟩,
            held_addUnit _ _ alone, ?_⟩
          · have added := addNode_frames ground ('(' :: Grammar.joined group.texts ++ [')'])
              (.group group.elements) alone
            have framesTop : builder.frames =
                .group group.opened group.elements :: left.frames ground := by
              simp [framesEq, frames, inGroup, left]
            simp only [Builder.closeBracket, framesTop, added]
            rfl
          · intro text textEq
            have nonempty : group.texts ≠ [] := by simpa [Held, inGroup] using held
            have readEq : scan.read = left.read ++ '(' :: Grammar.joined group.texts ++ [','] := by
              simp [read, inGroup, left, Grammar.led_eq_joined nonempty]
            rw [readEq] at textEq
            rw [List.append_cancel_right textEq, read_addUnit _ _ alone]
            simp

theorem exists_spec {spec : Option String} {bound : Bound}
    (reads : Bound.read? spec = some bound) :
    ∃ text, Close.chars ⟨.square, spec⟩ = ']' :: text ∧ Grammar.Spec text bound := by
  cases spec with
  | none =>
      obtain rfl := Option.some.inj reads
      exact ⟨[], rfl, .none⟩
  | some text => exact ⟨'^' :: text.toList, rfl, .caret reads⟩

theorem follows_closeSquare {spec : Option String} {bound : Bound}
    (reads : Bound.read? spec = some bound) (held : scan.Held)
    (follows : scan.Follows fragments ground (index + 1) (.closes .square index :: marks) builder) :
    ∃ (scan' : Scan) (builder' : Builder),
      Builder.closeBracket index builder ⟨.square, spec⟩ = .ok builder' ∧
      scan'.Follows fragments ground (index + 1) marks builder' ∧ scan'.Held ∧
      ∀ text, text ++ [','] = scan.read →
        text ++ Close.chars ⟨.square, spec⟩ ++ [','] = scan'.read := by
  obtain ⟨framesEq, ⟨items, units, tokens⟩, ⟨rounds, squares, crossing⟩, length⟩ := follows
  cases inGroup : scan.group with
  | some group =>
      simp [Brackets.crossingTexts, stack, inGroup, Brackets.violation_ne_nil] at crossing
  | none =>
      cases inRegion : scan.region with
      | none =>
          rw [inRegion, ofKind_closes_self] at squares
          cases squares
      | some region =>
          rw [inRegion, ofKind_closes_self] at squares
          cases squares with
          | closes before squares =>
              obtain ⟨specText, charsEq, isSpec⟩ := exists_spec reads
              let steps := region.elements
              let text := '[' :: Grammar.joined region.texts ++ ']' :: specText
              let node := Node.region bound (steps.map .step)
              let short := if (Node.stepsOf (steps.map .step)).length < 2
                then [(region.opened, index)] else []
              refine ⟨⟨scan.texts ++ [text], scan.nodes ++ [node], none, none⟩,
                ⟨ground.frames (scan.nodes ++ [node]), builder.short ++ short⟩, ?_,
                ⟨rfl, ⟨?_, by simp, by simp⟩, ⟨?_, squares.mono (Nat.zero_le _), ?_⟩, by simp⟩,
                by simp [Held], ?_⟩
              · have framesTop : builder.frames =
                    .region region.opened (steps.map .step) :: ground.frames scan.nodes := by
                  simp [framesEq, frames, inGroup, inRegion, steps]
                simp only [Builder.closeBracket, framesTop, reads, ground.addNode]
                rfl
              · intro clean
                obtain ⟨cleanBefore, long⟩ := List.append_eq_nil_iff.mp clean
                have enough : 2 ≤ steps.length := by
                  by_contra few
                  simp only [short, Grammar.stepsOf_map_step] at long
                  rw [if_pos (Nat.lt_of_not_le few)] at long
                  contradiction
                exact List.rel_append (items cleanBefore)
                  (.cons (.region (units region (by simp [inRegion])) enough isSpec) .nil)
              · simpa [inGroup, Brackets.ofKind] using rounds
              · simpa [Brackets.crossingTexts, stack, inGroup, inRegion] using crossing
              · intro found foundEq
                have nonempty : region.texts ≠ [] := by simpa [Held, inGroup, inRegion] using held
                have readEq : scan.read = Grammar.led scan.texts ++
                    '[' :: Grammar.joined region.texts ++ [','] := by
                  simp [read, inGroup, inRegion, Grammar.led_eq_joined nonempty]
                rw [readEq] at foundEq
                rw [List.append_cancel_right foundEq, charsEq]
                simp [read, text]

theorem follows_closeBrackets {closes : List Close}
    (readable : ∀ close ∈ closes, close.Readable) (held : scan.Held)
    (follows : scan.Follows fragments ground (index + 1)
      (closes.map (.closes ·.kind index) ++ marks) builder) :
    ∃ (scan' : Scan) (builder' : Builder),
      closes.foldlM (Builder.closeBracket index) builder = .ok builder' ∧
      scan'.Follows fragments ground (index + 1) marks builder' ∧ scan'.Held ∧
      ∀ text, text ++ [','] = scan.read →
        text ++ closes.flatMap Close.chars ++ [','] = scan'.read := by
  induction closes generalizing builder scan with
  | nil => exact ⟨scan, builder, rfl, follows, held, by simp⟩
  | cons close closes ih =>
      simp only [List.mem_cons, forall_eq_or_imp] at readable
      have closed : ∃ (scan' : Scan) (builder' : Builder),
          Builder.closeBracket index builder close = .ok builder' ∧
          scan'.Follows fragments ground (index + 1)
            (closes.map (.closes ·.kind index) ++ marks) builder' ∧ scan'.Held ∧
          ∀ text, text ++ [','] = scan.read → text ++ close.chars ++ [','] = scan'.read := by
        rcases close with ⟨_ | _, spec⟩
        · obtain rfl : spec = none := readable.1
          exact follows_closeRound held follows
        · obtain ⟨bound, reads⟩ := Option.isSome_iff_exists.mp readable.1
          exact follows_closeSquare reads held follows
      obtain ⟨between, builder', closeEq, betweenFollows, betweenHeld, readEq⟩ := closed
      obtain ⟨scan', builder'', closesEq, follows', held', readEq'⟩ :=
        ih readable.2 betweenHeld betweenFollows
      refine ⟨scan', builder'', ?_, follows', held', ?_⟩
      · rw [List.foldlM_cons, closeEq]
        exact closesEq
      · intro text textEq
        have now := readEq' (text ++ close.chars) (readEq text textEq)
        simpa using now

/-! ## Words -/

theorem follows_word {word : Word} (readable : word.Readable)
    (follows : scan.Follows fragments ground index
      (word.opens.map (.opens · index) ++ word.closes.map (.closes ·.kind index) ++ marks)
      builder) :
    ∃ (scan' : Scan) (builder' : Builder),
      Builder.add builder (word.fragment index) = .ok builder' ∧
      scan'.Follows fragments ground (index + 1) marks builder' ∧ scan'.Held ∧
      scan.read ++ word.chars ++ [','] = scan'.read := by
  obtain ⟨token, spells⟩ := readable.core
  rw [List.append_assoc] at follows
  obtain ⟨opened, openedFollows, openedRead⟩ := follows_openBrackets follows
  obtain ⟨frames, added, addedFollows, addedHeld, addedRead⟩ :=
    follows_addToken spells openedFollows
  obtain ⟨closed, builder', closedEq, closedFollows, closedHeld, closedRead⟩ :=
    follows_closeBrackets readable.closes addedHeld addedFollows
  refine ⟨closed, builder', ?_, closedFollows, closedHeld, ?_⟩
  · rw [Builder.add_fragment word spells, added]
    rw [Builder.foldl_openBracket_short] at closedEq
    exact closedEq
  · have now := closedRead (opened.read ++ word.core) addedRead.symm
    rw [openedRead] at now
    simpa [Word.chars] using now

theorem follows_words {words : List Word} (readable : ∀ word ∈ words, word.Readable)
    (follows : scan.Follows fragments ground index (Word.marks index words) builder) :
    ∃ (scan' : Scan) (builder' : Builder),
      (Word.fragments index words).foldlM Builder.add builder = .ok builder' ∧
      scan'.Follows fragments ground (index + words.length) [] builder' ∧
      scan.read ++ Grammar.led (words.map Word.chars) = scan'.read := by
  induction words generalizing index scan builder with
  | nil => exact ⟨scan, builder, rfl, follows, by simp⟩
  | cons word rest ih =>
      simp only [List.mem_cons, forall_eq_or_imp] at readable
      obtain ⟨between, builder', addedEq, betweenFollows, -, betweenRead⟩ :=
        follows_word readable.1 follows
      obtain ⟨scan', builder'', restEq, follows', read'⟩ := ih readable.2 betweenFollows
      refine ⟨scan', builder'', ?_, ?_, ?_⟩
      · rw [Word.fragments, List.foldlM_cons, addedEq]
        exact restEq
      · rwa [List.length_cons, Nat.add_comm rest.length, ← Nat.add_assoc]
      · rw [← read', ← betweenRead]
        simp [Grammar.led]

/-- With no marks ahead everything is closed. -/
theorem Follows.closed (follows : scan.Follows fragments ground index [] builder) :
    scan.group = none ∧ scan.region = none := by
  obtain ⟨-, -, ⟨rounds, squares, -⟩, -⟩ := follows
  constructor
  · cases inGroup : scan.group with
    | none => rfl
    | some group =>
        rw [inGroup] at rounds
        cases rounds
  · cases inRegion : scan.region with
    | none => rfl
    | some region =>
        rw [inRegion] at squares
        cases squares

/-- Words whose brackets keep the rules are read to their end, and what was read is
derived unless a region was too short. -/
theorem exists_items {words : List Word} (nonempty : words ≠ [])
    (readable : ∀ word ∈ words, word.Readable) (fragments : List Fragment) (ground : Ground)
    (rounds : Mark.Alternates false 0 (Brackets.ofKind .round (Word.marks 0 words)))
    (squares : Mark.Alternates false 0 (Brackets.ofKind .square (Word.marks 0 words)))
    (crossing : Brackets.crossingTexts fragments ground.stack (Word.marks 0 words) = []) :
    ∃ (texts : List (List Char)) (nodes : List Node) (short : List (Nat × Nat)),
      (Word.fragments 0 words).foldlM Builder.add ⟨ground.frames [], []⟩ =
        .ok ⟨ground.frames nodes, short⟩ ∧
      Grammar.joined texts = Grammar.joined (words.map Word.chars) ∧ texts ≠ [] ∧
      (short = [] → List.Forall₂ Grammar.Item texts nodes) := by
  have begins : start.Follows fragments ground 0 (Word.marks 0 words) ⟨ground.frames [], []⟩ :=
    ⟨rfl, ⟨fun _ => .nil, by simp [start], by simp [start]⟩, ⟨rounds, squares, crossing⟩,
      by simp [start]⟩
  obtain ⟨scan, ⟨frames, short⟩, builtEq, follows, readEq⟩ := follows_words readable begins
  obtain ⟨noGroup, noRegion⟩ := follows.closed
  have framesEq : frames = ground.frames scan.nodes := by
    have framesEq := follows.frames
    simpa [Scan.frames, noGroup, noRegion] using framesEq
  have ledEq : Grammar.led scan.texts = Grammar.led (words.map Word.chars) := by
    simpa [read, start, noGroup, noRegion] using readEq.symm
  have wordsSome : words.map Word.chars ≠ [] := by simpa using nonempty
  have textsSome : scan.texts ≠ [] := by
    intro empty
    rw [empty, Grammar.led_eq_joined wordsSome] at ledEq
    simp at ledEq
  refine ⟨scan.texts, scan.nodes, short, by rw [builtEq, framesEq], ?_, textsSome,
    follows.derived.items⟩
  rw [Grammar.led_eq_joined textsSome, Grammar.led_eq_joined wordsSome] at ledEq
  exact List.append_cancel_right ledEq

end Scan

end Pneumatic
