import Pneumatic.Proofs.Except
import Pneumatic.Proofs.Notation.Reading

/-!
# The builder at work

The builder takes brackets and tokens one after the other, each with the frames that are open
before it.  Fragments that pass all checks never give it something that does not fit these frames,
and what it says to be short are the regions of its tree with fewer than two steps.
-/

namespace Pneumatic

/-! ## Short regions of a tree -/

namespace Node

/-- The tokens of nodes in reading order. -/
def tokensOf (nodes : List Node) : List Token :=
  (stepsOf nodes).flatMap Step.tokens

@[simp] theorem tokensOf_nil : tokensOf [] = [] :=
  rfl

@[simp] theorem tokensOf_append (left right : List Node) :
    tokensOf (left ++ right) = tokensOf left ++ tokensOf right := by
  simp [tokensOf, Spelled.stepsOf_append]

@[simp] theorem tokensOf_step (step : Step) : tokensOf [.step step] = step.tokens := by
  simp [tokensOf, stepsOf, steps]

@[simp] theorem tokensOf_region (bound : Bound) (body : List Node) :
    tokensOf [.region bound body] = tokensOf body := by
  simp [tokensOf, stepsOf, steps]

mutual

/-- The regions of a node with fewer than two steps, inner ones before the one around them.  Each is
given by the places of its first and its last token, where `first` is the place of the first token
of the node. -/
def short (first : Nat) : Node → List (Nat × Nat)
  | .step _ => []
  | .region _ body =>
      shortOf first body ++
        if (stepsOf body).length < 2 then [(first, first + (tokensOf body).length - 1)] else []

/-- The regions of nodes with fewer than two steps. -/
def shortOf (first : Nat) : List Node → List (Nat × Nat)
  | [] => []
  | node :: rest => node.short first ++ shortOf (first + (tokensOf [node]).length) rest

end

theorem shortOf_append (first : Nat) (left right : List Node) :
    shortOf first (left ++ right) =
      shortOf first left ++ shortOf (first + (tokensOf left).length) right := by
  induction left generalizing first with
  | nil => simp [shortOf]
  | cons node rest ih =>
      have tokens : tokensOf (node :: rest) = tokensOf [node] ++ tokensOf rest :=
        tokensOf_append [node] rest
      rw [List.cons_append, shortOf, shortOf, ih, tokens, List.length_append, List.append_assoc,
        Nat.add_assoc]

theorem shortOf_singleton (first : Nat) (node : Node) :
    shortOf first [node] = node.short first := by
  simp [shortOf]

end Node

/-! ## Events -/

/-- What the builder takes at a time: a bracket at a fragment, or the core of one. -/
inductive Event where
  | opens (kind : Bracket) (index : Nat)
  | token (core : String)
  | closes (close : Close) (index : Nat)
  deriving DecidableEq, Repr

/-- The kind of the bracket that opened a frame. -/
def Frame.kind? : Frame → Option Bracket
  | .root _ => none
  | .group _ _ => some .round
  | .region _ _ => some .square

namespace Event

/-- The events of a fragment in reading order. -/
def ofFragment (fragment : Fragment) : List Event :=
  fragment.opens.map (.opens · fragment.index) ++
    .token fragment.core :: fragment.closes.map (.closes · fragment.index)

/-- The builder after an event. -/
def step (builder : Builder) : Event → Except Misfit Builder
  | .opens kind index => .ok (builder.openBracket index kind)
  | .token core => do
      let some found := Token.read? core | throw .badToken
      return { builder with frames := ← Builder.addToken found builder.frames }
  | .closes close index => builder.closeBracket index close

/-- An event fits the open frames, innermost first.  A token can be read and has a frame to go to.
A closing bracket meets a frame that a bracket of its kind opened, inside another one that takes
nodes, and its bound can be read if it closes a region. -/
def Fits (frames : List Frame) : Event → Prop
  | .opens _ _ => True
  | .token core => (Token.read? core).isSome = true ∧ frames ≠ []
  | .closes close _ => ∃ frame around outer, frames = frame :: around :: outer ∧
      frame.kind? = some close.kind ∧ around.kind? ≠ some .round ∧
      (close.kind = .square → (Bound.read? close.spec).isSome = true)

end Event

namespace Builder

variable {builder builder' : Builder} {frames frames' : List Frame}

theorem foldlM_opens (builder : Builder) (index : Nat) (opens : List Bracket) (rest : List Event) :
    (opens.map (Event.opens · index) ++ rest).foldlM Event.step builder =
      rest.foldlM Event.step (opens.foldl (openBracket index) builder) := by
  induction opens generalizing builder with
  | nil => rfl
  | cons kind opens ih => exact ih _

theorem foldlM_closes (builder : Builder) (index : Nat) (closes : List Close) :
    (closes.map (Event.closes · index)).foldlM Event.step builder =
      closes.foldlM (closeBracket index) builder := by
  rw [List.foldlM_map]
  rfl

/-- A fragment is read event by event. -/
theorem add_eq_foldlM (builder : Builder) (fragment : Fragment) :
    builder.add fragment = (Event.ofFragment fragment).foldlM Event.step builder := by
  rw [Event.ofFragment, foldlM_opens, List.foldlM_cons, add]
  simp only [foldlM_closes, Event.step]
  cases Token.read? fragment.core with
  | none => rfl
  | some token =>
      dsimp only
      cases addToken token (fragment.opens.foldl (openBracket fragment.index) builder).frames <;>
        rfl

theorem foldlM_add (builder : Builder) (fragments : List Fragment) :
    fragments.foldlM add builder =
      (fragments.flatMap Event.ofFragment).foldlM Event.step builder := by
  induction fragments generalizing builder with
  | nil => rfl
  | cons fragment rest ih =>
      rw [List.foldlM_cons, List.flatMap_cons, List.foldlM_append, add_eq_foldlM]
      exact congrArg _ (funext ih)

/-- A node goes to the nodes of the innermost frame. -/
theorem addNode_cases {node : Node} (added : addNode node frames = .ok frames') :
    (∃ nodes outer, frames = .root nodes :: outer ∧ frames' = .root (nodes ++ [node]) :: outer) ∨
    ∃ opened nodes outer, frames = .region opened nodes :: outer ∧
      frames' = .region opened (nodes ++ [node]) :: outer := by
  unfold addNode at added
  split at added
  · next nodes outer => exact .inl ⟨nodes, outer, rfl, (Except.ok.inj added).symm⟩
  · next opened nodes outer => exact .inr ⟨opened, nodes, outer, rfl, (Except.ok.inj added).symm⟩
  · contradiction
  · contradiction

/-- A token goes to the tokens of the innermost frame if that is a group, and is a step by itself
otherwise. -/
theorem addToken_cases {token : Token} (added : addToken token frames = .ok frames') :
    (∃ opened tokens outer, frames = .group opened tokens :: outer ∧
      frames' = .group opened (tokens ++ [token]) :: outer) ∨
    addNode (.step (.single token)) frames = .ok frames' := by
  unfold addToken at added
  split at added
  · next opened tokens outer => exact .inl ⟨opened, tokens, outer, rfl, (Except.ok.inj added).symm⟩
  · exact .inr added

/-- A closing bracket ends the innermost frame, which one of its kind opened, and gives what the
frame holds to the next one. -/
theorem closeBracket_cases {index : Nat} {close : Close}
    (closed : closeBracket index builder close = .ok builder') :
    (∃ opened tokens outer, builder.frames = .group opened tokens :: outer ∧ close.kind = .round ∧
      addNode (.step (.group tokens)) outer = .ok builder'.frames ∧
      builder'.short = builder.short) ∨
    ∃ opened nodes outer bound, builder.frames = .region opened nodes :: outer ∧
      close.kind = .square ∧ Bound.read? close.spec = some bound ∧
      addNode (.region bound nodes) outer = .ok builder'.frames ∧
      builder'.short = builder.short ++
        if (Node.stepsOf nodes).length < 2 then [(opened, index)] else [] := by
  unfold closeBracket at closed
  split at closed
  · next opened tokens outer frame kind =>
      obtain ⟨frames, added, result⟩ := exists_of_bind_eq_ok closed
      obtain rfl := Except.ok.inj result
      exact .inl ⟨opened, tokens, outer, frame, kind, added, rfl⟩
  · next opened nodes outer frame kind =>
      cases bound : Bound.read? close.spec with
      | none => simp [bound] at closed
      | some bound' =>
          simp only [bound] at closed
          obtain ⟨frames, added, result⟩ := exists_of_bind_eq_ok closed
          obtain rfl := Except.ok.inj result
          exact .inr ⟨opened, nodes, outer, bound', frame, kind, rfl, added, rfl⟩
  all_goals contradiction

end Builder

/-- What takes a node is no group. -/
theorem Builder.exists_of_addNode {node : Node} {frames frames' : List Frame}
    (added : addNode node frames = .ok frames') :
    ∃ frame outer, frames = frame :: outer ∧ frame.kind? ≠ some .round := by
  rcases addNode_cases added with ⟨nodes, outer, rfl, -⟩ | ⟨opened, nodes, outer, rfl, -⟩
  · exact ⟨_, _, rfl, by simp [Frame.kind?]⟩
  · exact ⟨_, _, rfl, by simp [Frame.kind?]⟩

namespace Event

variable {builder builder' : Builder} {event : Event}

/-- A token that is read is added. -/
theorem exists_of_token {core : String} (stepped : step builder (.token core) = .ok builder') :
    ∃ found, Token.read? core = some found ∧
      Builder.addToken found builder.frames = .ok builder'.frames ∧
      builder'.short = builder.short := by
  rw [step] at stepped
  cases read : Token.read? core with
  | none => simp [read] at stepped
  | some found =>
      simp only [read] at stepped
      obtain ⟨frames, added, result⟩ := exists_of_bind_eq_ok stepped
      obtain rfl := Except.ok.inj result
      exact ⟨found, rfl, added, rfl⟩

/-- What the builder takes fits. -/
theorem fits_of_step (stepped : event.step builder = .ok builder') : event.Fits builder.frames := by
  cases event with
  | opens kind index => trivial
  | token core =>
      obtain ⟨found, read, added, -⟩ := exists_of_token stepped
      refine ⟨by simp [read], ?_⟩
      rcases Builder.addToken_cases added with ⟨opened, tokens, outer, frames, -⟩ | added
      · simp [frames]
      · obtain ⟨frame, outer, frames, -⟩ := Builder.exists_of_addNode added
        simp [frames]
  | closes close index =>
      rcases Builder.closeBracket_cases stepped with
        ⟨opened, tokens, outer, frames, kind, added, -⟩ |
        ⟨opened, nodes, outer, bound, frames, kind, read, added, -⟩
      · obtain ⟨around, outer, rfl, noGroup⟩ := Builder.exists_of_addNode added
        exact ⟨_, around, outer, frames, by rw [kind]; rfl, noGroup, by simp [kind]⟩
      · obtain ⟨around, outer, rfl, noGroup⟩ := Builder.exists_of_addNode added
        exact ⟨_, around, outer, frames, by rw [kind]; rfl, noGroup, by simp [read]⟩

/-- As long as the builder takes everything, each event fits the frames that those before it
left. -/
theorem fits_of_foldlM {before after : List Event} {start : Builder}
    (run : (before ++ event :: after).foldlM step start = .ok builder') :
    ∃ builder, before.foldlM step start = .ok builder ∧ event.Fits builder.frames := by
  rw [List.foldlM_append] at run
  obtain ⟨builder, first, rest⟩ := exists_of_bind_eq_ok run
  rw [List.foldlM_cons] at rest
  obtain ⟨next, stepped, -⟩ := exists_of_bind_eq_ok rest
  exact ⟨builder, first, fits_of_step stepped⟩

end Event

/-! ## Places

Every fragment has one token, so the number of the tokens read tells the fragment.  A bracket is
opened in front of the first token that its frame holds.
-/

namespace Frame

/-- The tokens that a frame holds. -/
def tokens : Frame → List Token
  | .root nodes | .region _ nodes => Node.tokensOf nodes
  | .group _ tokens => tokens

/-- The nodes that a frame holds. -/
def nodes : Frame → List Node
  | .root nodes | .region _ nodes => nodes
  | .group _ _ => []

/-- The fragment that a frame opened in. -/
def opened : Frame → Nat
  | .root _ => 0
  | .group opened _ | .region opened _ => opened

/-- The tokens in frames, the innermost first, in reading order. -/
def tokensIn : List Frame → List Token
  | [] => []
  | frame :: outer => tokensIn outer ++ frame.tokens

/-- The regions in frames that closed with fewer than two steps. -/
def shortIn : List Frame → List (Nat × Nat)
  | [] => []
  | frame :: outer => shortIn outer ++ Node.shortOf (tokensIn outer).length frame.nodes

/-- Every frame opened in front of the first token that it holds. -/
def Placed : List Frame → Prop
  | [] => True
  | frame :: outer => frame.opened = (tokensIn outer).length ∧ Placed outer

end Frame

/-- A builder that has read some tokens. -/
structure Builder.Holds (builder : Builder) (read : List Token) : Prop where
  tokens : Frame.tokensIn builder.frames = read
  placed : Frame.Placed builder.frames
  short : Frame.shortIn builder.frames = builder.short

namespace Builder

variable {builder builder' : Builder} {frames frames' : List Frame} {read : List Token}

/-- A node brings its tokens and its short regions. -/
theorem in_addNode {node : Node} (added : addNode node frames = .ok frames')
    (placed : Frame.Placed frames) :
    Frame.tokensIn frames' = Frame.tokensIn frames ++ Node.tokensOf [node] ∧
      Frame.Placed frames' ∧
      Frame.shortIn frames' =
        Frame.shortIn frames ++ node.short (Frame.tokensIn frames).length := by
  have both (nodes : List Node) (outer : List Frame) :
      Frame.tokensIn outer ++ Node.tokensOf (nodes ++ [node]) =
        Frame.tokensIn outer ++ Node.tokensOf nodes ++ Node.tokensOf [node] ∧
      Frame.shortIn outer ++ Node.shortOf (Frame.tokensIn outer).length (nodes ++ [node]) =
        Frame.shortIn outer ++ Node.shortOf (Frame.tokensIn outer).length nodes ++
          node.short (Frame.tokensIn outer ++ Node.tokensOf nodes).length := by
    simp [Node.shortOf_append, Node.shortOf_singleton]
  rcases addNode_cases added with ⟨nodes, outer, rfl, rfl⟩ | ⟨opened, nodes, outer, rfl, rfl⟩
  · exact ⟨(both nodes outer).1, placed, (both nodes outer).2⟩
  · exact ⟨(both nodes outer).1, placed, (both nodes outer).2⟩

theorem holds_openBracket {index : Nat} (holds : builder.Holds read) (here : index = read.length)
    (kind : Bracket) : (builder.openBracket index kind).Holds read := by
  obtain ⟨tokens, placed, short⟩ := holds
  cases kind with
  | round | square =>
      refine ⟨?_, ⟨?_, placed⟩, ?_⟩
      · simp [openBracket, Frame.tokensIn, Frame.tokens, tokens]
      · simp [Frame.opened, tokens, here]
      · simp [openBracket, Frame.shortIn, Frame.nodes, Node.shortOf, short]

theorem holds_addToken {token : Token} (holds : builder.Holds read)
    (added : addToken token builder.frames = .ok builder'.frames)
    (same : builder'.short = builder.short) : builder'.Holds (read ++ [token]) := by
  obtain ⟨tokens, placed, short⟩ := holds
  rcases addToken_cases added with ⟨opened, inside, outer, before, after⟩ | added
  · rw [before] at tokens placed short
    refine ⟨?_, ?_, ?_⟩
    · rw [after, ← tokens]
      simp [Frame.tokensIn, Frame.tokens]
    · rw [after]
      exact placed
    · rw [after, same, ← short]
      rfl
  · obtain ⟨tokens', placed', short'⟩ := in_addNode added placed
    refine ⟨?_, placed', ?_⟩
    · rw [tokens', tokens]
      simp [Step.tokens]
    · rw [short', short, same]
      simp [Node.short]

theorem holds_closeBracket {index : Nat} {close : Close} (holds : builder.Holds read)
    (here : index + 1 = read.length)
    (closed : closeBracket index builder close = .ok builder') : builder'.Holds read := by
  obtain ⟨tokens, placed, short⟩ := holds
  rcases closeBracket_cases closed with
    ⟨opened, inside, outer, before, -, added, same⟩ |
    ⟨opened, nodes, outer, bound, before, -, -, added, same⟩
  · rw [before] at tokens placed short
    obtain ⟨tokens', placed', short'⟩ := in_addNode added placed.2
    refine ⟨?_, placed', ?_⟩
    · rw [tokens', ← tokens]
      simp [Frame.tokensIn, Frame.tokens, Step.tokens]
    · rw [short', same, ← short]
      simp [Frame.shortIn, Frame.nodes, Node.short, Node.shortOf]
  · rw [before] at tokens placed short
    obtain ⟨tokens', placed', short'⟩ := in_addNode added placed.2
    have starts : opened = (Frame.tokensIn outer).length := placed.1
    have ends : index = opened + (Node.tokensOf nodes).length - 1 := by
      rw [← tokens] at here
      simp only [Frame.tokensIn, Frame.tokens, List.length_append] at here
      omega
    refine ⟨?_, placed', ?_⟩
    · rw [tokens', ← tokens]
      simp [Frame.tokensIn, Frame.tokens]
    · rw [short', same, ← short, ends, starts, Node.short]
      simp [Frame.shortIn, Frame.nodes]

theorem holds_openBrackets {index : Nat} (holds : builder.Holds read) (here : index = read.length)
    (opens : List Bracket) : (opens.foldl (openBracket index) builder).Holds read := by
  induction opens generalizing builder with
  | nil => exact holds
  | cons kind opens ih => exact ih (holds_openBracket holds here kind)

/-- A fragment at its place adds its token. -/
theorem holds_add {fragment : Fragment} (holds : builder.Holds read)
    (here : fragment.index = read.length) (added : builder.add fragment = .ok builder') :
    ∃ token, Token.read? fragment.core = some token ∧ builder'.Holds (read ++ [token]) := by
  rw [add_eq_foldlM, Event.ofFragment, foldlM_opens, List.foldlM_cons] at added
  obtain ⟨middle, stepped, closed⟩ := exists_of_bind_eq_ok added
  rw [foldlM_closes] at closed
  obtain ⟨token, reads, tokenAdded, same⟩ := Event.exists_of_token stepped
  refine ⟨token, reads, foldlM_keeps (fun builder => builder.Holds (read ++ [token])) ?_ closed
    (holds_addToken (holds_openBrackets holds here fragment.opens) tokenAdded same)⟩
  intro builder close _ builder' holds closed
  exact holds_closeBracket holds (by simp [here]) closed

/-- Fragments at their places add their tokens, one each. -/
theorem holds_foldlM_add {fragments : List Fragment} (holds : builder.Holds read)
    (here : ∀ place fragment, fragments[place]? = some fragment →
      fragment.index = read.length + place)
    (added : fragments.foldlM add builder = .ok builder') :
    ∃ tokens, fragments.map (fun fragment => Token.read? fragment.core) = tokens.map some ∧
      builder'.Holds (read ++ tokens) := by
  induction fragments generalizing builder read with
  | nil =>
      obtain rfl := Except.ok.inj added
      exact ⟨[], rfl, by simpa using holds⟩
  | cons fragment rest ih =>
      rw [List.foldlM_cons] at added
      obtain ⟨middle, first, others⟩ := exists_of_bind_eq_ok added
      obtain ⟨token, reads, holds'⟩ := holds_add holds (here 0 fragment rfl) first
      obtain ⟨tokens, readsRest, holds''⟩ := ih holds' (fun place other there => by
        rw [here (place + 1) other there, List.length_append, List.length_singleton]
        omega) others
      refine ⟨token :: tokens, by simp [reads, readsRest], ?_⟩
      rwa [List.append_assoc] at holds''

end Builder

namespace Sequence

variable {text source : String} {nodes : List Node} {short : List (Nat × Nat)}

/-- Fragments without a problem are built into a tree. -/
theorem exists_build (clean : surfaceTexts (Fragment.split text) = []) :
    ∃ (nodes : List Node) (short : List (Nat × Nat)),
      build (Fragment.split text) = .ok (nodes, short) := by
  cases empty : text.isEmpty with
  | true =>
      refine ⟨[], [], ?_⟩
      rw [Fragment.split, empty, if_pos rfl]
      rfl
  | false =>
      rw [surfaceTexts, List.append_eq_nil_iff] at clean
      obtain ⟨words, wordsSome, readable, rfl⟩ := Word.exists_words empty clean.1
      rw [Word.split_joined wordsSome readable] at clean ⊢
      obtain ⟨nodes, short, built, -⟩ := Grammar.Whole.of_words wordsSome readable clean.2
      exact ⟨nodes, short, built⟩

/-- What the builder leaves at its end is the frame of the whole sequence. -/
theorem foldlM_of_build {fragments : List Fragment} (built : build fragments = .ok (nodes, short)) :
    fragments.foldlM Builder.add .start = .ok ⟨[.root nodes], short⟩ := by
  rw [build] at built
  obtain ⟨⟨frames, short'⟩, run, ended⟩ := exists_of_bind_eq_ok built
  obtain ⟨nodes', finished, result⟩ := exists_of_bind_eq_ok ended
  obtain ⟨rfl, rfl⟩ := Prod.mk.inj (Except.ok.inj result)
  unfold Builder.finish at finished
  split at finished
  · next isRoot =>
      obtain rfl := Except.ok.inj finished
      obtain rfl : frames = _ := isRoot
      exact run
  · contradiction

/-- The regions that the builder says to be short are those of its tree, and the tokens of its tree
are those of the fragments. -/
theorem short_of_build (built : build (Fragment.split text) = .ok (nodes, short)) :
    (Fragment.split text).map (fun fragment => Token.read? fragment.core) =
      (Node.tokensOf nodes).map some ∧ short = Node.shortOf 0 nodes := by
  have start : Builder.start.Holds [] := ⟨rfl, ⟨rfl, trivial⟩, rfl⟩
  obtain ⟨tokens, reads, holds⟩ := Builder.holds_foldlM_add start
    (fun place fragment there => by
      rw [Fragment.index_of_getElem?_split there, List.length_nil, Nat.zero_add])
    (foldlM_of_build built)
  have tokensEq : Node.tokensOf nodes = tokens := holds.tokens
  have shortEq : Node.shortOf 0 nodes = short := holds.short
  exact ⟨by rw [tokensEq, reads], shortEq.symm⟩

/-- The texts for regions with fewer than two steps. -/
def shortTexts (fragments : List Fragment) (nodes : List Node) : List String :=
  (Node.shortOf 0 nodes).flatMap fun (opened, closed) =>
    Diagnostics.violation .shortRegion (Brackets.pick fragments [opened, closed])

/-- **The builder never meets what it has no place for** once the checks of tokens and brackets have
found nothing.  Each bracket and each token fits the frames that are open before it, at the end the
frame of the whole sequence is open and no other, and all that is said of the tree are its regions
with fewer than two steps, each of them once. -/
theorem builder_fits
    (clean : surfaceTexts (Fragment.split (Fragment.normalize source)) = []) :
    ∃ nodes : List Node,
      ((Fragment.split (Fragment.normalize source)).flatMap Event.ofFragment).foldlM Event.step
        .start = .ok ⟨[.root nodes], Node.shortOf 0 nodes⟩ ∧
      build (Fragment.split (Fragment.normalize source)) = .ok (nodes, Node.shortOf 0 nodes) ∧
      (∀ before event after,
        (Fragment.split (Fragment.normalize source)).flatMap Event.ofFragment =
          before ++ event :: after →
        ∃ builder, before.foldlM Event.step .start = .ok builder ∧ event.Fits builder.frames) ∧
      (Fragment.split (Fragment.normalize source)).map (fun fragment => Token.read? fragment.core) =
        (Node.tokensOf nodes).map some ∧
      (Fragment.normalize source ≠ "" →
        parse source = if Node.shortOf 0 nodes = [] then
          .ok ⟨Fragment.normalize source, (unwrap nodes).1, (unwrap nodes).2⟩
        else .error (.ofList (shortTexts (Fragment.split (Fragment.normalize source)) nodes))) := by
  obtain ⟨nodes, short, built⟩ := exists_build clean
  obtain ⟨tokens, rfl⟩ := short_of_build built
  have run := foldlM_of_build built
  rw [Builder.foldlM_add] at run
  refine ⟨nodes, run, built, fun before event after split => ?_, tokens, fun something => ?_⟩
  · rw [split] at run
    exact Event.fits_of_foldlM run
  · have nonempty : (Fragment.normalize source).isEmpty = false := by simpa using something
    cases isShort : Node.shortOf 0 nodes with
    | nil => simp [parse, nonempty, clean, built, isShort]
    | cons region rest =>
        have said : shortTexts (Fragment.split (Fragment.normalize source)) nodes ≠ [] :=
          fun silent => by simpa [isShort] using short_of_texts silent
        obtain ⟨text, more, texts⟩ := List.exists_cons_of_ne_nil said
        rw [shortTexts] at texts
        simp only [parse, nonempty, clean, built, shortTexts, texts]
        simp

/-- A region around one group is short, and one of two steps is not. -/
theorem builder_fits_short :
    let fragments := Fragment.split (Fragment.normalize "[(a+,b+)],[a-,b-]^2")
    surfaceTexts fragments = [] ∧
    ∃ nodes : List Node,
      (fragments.flatMap Event.ofFragment).foldlM Event.step .start =
        .ok ⟨[.root nodes], [(0, 1)]⟩ ∧
      parse "[(a+,b+)],[a-,b-]^2" = .error (.ofList (shortTexts fragments nodes)) := by
  intro fragments
  have clean : surfaceTexts fragments = [] := by decide +kernel
  have found : ((build fragments).toOption.any fun (_, short) => short == [(0, 1)]) = true := by
    decide +kernel
  obtain ⟨nodes, run, built, -, -, parsed⟩ := builder_fits clean
  obtain ⟨⟨nodes', short⟩, built', isShort⟩ := any_toOption_iff.mp found
  obtain ⟨rfl, rfl⟩ := Prod.mk.inj (Except.ok.inj (built.symm.trans built'))
  have isShort : Node.shortOf 0 nodes = [(0, 1)] := beq_iff_eq.mp isShort
  rw [isShort] at run parsed
  exact ⟨clean, nodes, run, by simpa using parsed (by decide +kernel)⟩

end Sequence

end Pneumatic
