import Pneumatic.Notation.Diagnostics

/-!
# Bracket structure

The brackets of a sequence, read from left to right, have to balance for each
kind, groups must follow one another without overlap, regions likewise except
that one region may span the whole sequence around the others, and brackets of
different kinds must not cross.
-/

namespace Pneumatic

/-- A bracket at the fragment with an index. -/
inductive Mark where
  | opens (kind : Bracket) (index : Nat)
  | closes (kind : Bracket) (index : Nat)
  deriving DecidableEq, Repr

namespace Mark

/-- The kind of a bracket. -/
def kind : Mark → Bracket
  | .opens kind _ => kind
  | .closes kind _ => kind

/-- The fragment of an opening bracket. -/
def opening? : Mark → Option Nat
  | .opens _ index => some index
  | .closes _ _ => none

/-- The fragment of a closing bracket. -/
def closing? : Mark → Option Nat
  | .opens _ _ => none
  | .closes _ index => some index

end Mark

/-- The rules that the brackets of one kind have to keep. -/
structure Bracket.Rules where
  count : Violation
  order : Violation
  overlap : Violation

/-- The rules for a kind of bracket. -/
def Bracket.rules : Bracket → Bracket.Rules
  | .round => ⟨.roundCount, .roundOrder, .roundOverlap⟩
  | .square => ⟨.squareCount, .squareOrder, .squareOverlap⟩

namespace Brackets

/-- The brackets of fragments in reading order. -/
def marks (fragments : List Fragment) : List Mark :=
  fragments.flatMap fun fragment =>
    fragment.opens.map (.opens · fragment.index) ++
      fragment.closes.map (.closes ·.kind fragment.index)

/-- The fragments with the given indices, in the given order. -/
def pick (fragments : List Fragment) (indices : List Nat) : List Fragment :=
  indices.filterMap fun index => fragments[index]?

/-- The fragments of brackets that have no partner: a closing bracket when nothing
is open, and what is open at the end. -/
def unpaired (stack : List Nat) : List Mark → List Nat
  | [] => stack
  | .opens _ index :: rest => unpaired (index :: stack) rest
  | .closes _ index :: rest =>
      match stack with
      | [] => index :: unpaired [] rest
      | _ :: stack => unpaired stack rest

/-- Whether the first bracket of a list stays open until the last. -/
def outerSpans (depth : Nat) : List Mark → Bool
  | [] => true
  | mark :: rest =>
      let depth := match mark with
        | .opens _ _ => depth + 1
        | .closes _ _ => depth - 1
      if depth = 0 && !rest.isEmpty then false else outerSpans depth rest

/-- Whether square brackets around the whole sequence hold another region: the
first fragment opens one, the last closes it without a bound, the two pair with
each other, and the next square bracket is an opening one. -/
def enclosesRegion (fragments : List Fragment) (squares : List Mark) : Bool :=
  match fragments.head?, fragments.getLast? with
  | some first, some last =>
      4 ≤ squares.length && 2 ≤ fragments.length &&
        first.opens.head? == some .square &&
        last.closes.getLast? == some ⟨.square, none⟩ &&
        squares.head? == some (.opens .square 0) &&
        squares.getLast? == some (.closes .square last.index) &&
        (squares[1]?.bind Mark.opening?).isSome &&
        outerSpans 0 squares
  | _, _ => false

/-- Texts for brackets of one kind, the openings paired with the closings by
position: each pair has to open in an earlier fragment than it closes in, and to
close before the next one opens. -/
def pairTexts (fragments : List Fragment) (rules : Bracket.Rules) :
    List Nat → List Nat → List String
  | opening :: openings, closing :: closings =>
      (if closing ≤ opening then
        Diagnostics.violation rules.order (pick fragments [opening, closing])
      else []) ++
      (match openings.head? with
      | some next =>
          if next ≤ closing then
            Diagnostics.violation rules.overlap (pick fragments [next, closing])
          else []
      | none => []) ++
      pairTexts fragments rules openings closings
  | _, _ => []

/-- Whether as many brackets open as close. -/
def balanced (marks : List Mark) : Bool :=
  (marks.filterMap Mark.opening?).length == (marks.filterMap Mark.closing?).length

/-- The brackets of one kind. -/
def ofKind (kind : Bracket) (marks : List Mark) : List Mark :=
  marks.filter fun mark => mark.kind == kind

/-- The brackets of one kind without a region around all others. -/
def inner (fragments : List Fragment) (kind : Bracket) (marks : List Mark) : List Mark :=
  if kind == .square && enclosesRegion fragments marks then marks.tail.dropLast else marks

/-- Texts for the brackets of one kind. -/
def kindTexts (fragments : List Fragment) (kind : Bracket) (marks : List Mark) : List String :=
  let own := ofKind kind marks
  if balanced own then
    let own := inner fragments kind own
    pairTexts fragments kind.rules (own.filterMap Mark.opening?) (own.filterMap Mark.closing?)
  else
    let lone := unpaired [] own
    Diagnostics.violation kind.rules.count
      (fragments.filter fun fragment => lone.contains fragment.index)

/-- Texts for brackets of both kinds together: a region may not open inside a
group, and a bracket closes the one opened last. -/
def crossingTexts (fragments : List Fragment) (stack : List (Bracket × Nat)) :
    List Mark → List String
  | [] => []
  | .opens kind index :: rest =>
      (if kind == .square && stack.any (·.1 == .round) then
        Diagnostics.violation .regionInGroup (pick fragments [index])
      else []) ++
      crossingTexts fragments ((kind, index) :: stack) rest
  | .closes kind index :: rest =>
      match stack with
      | [] => crossingTexts fragments [] rest
      | (opened, opening) :: stack =>
          (if opened ≠ kind then
            Diagnostics.violation .crossing (pick fragments [opening, index])
          else []) ++
          crossingTexts fragments stack rest

/-- All texts for the brackets of a sequence.  Crossing is looked for only when
both kinds balance. -/
def texts (fragments : List Fragment) : List String :=
  let marks := marks fragments
  kindTexts fragments .round marks ++ kindTexts fragments .square marks ++
    (if balanced (ofKind .round marks) && balanced (ofKind .square marks) then
      crossingTexts fragments [] marks
    else [])

end Brackets

end Pneumatic
