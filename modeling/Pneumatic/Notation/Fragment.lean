import Pneumatic.Text.Blank
import Pneumatic.Text.Pieces
import Pneumatic.Text.UpperCase

/-!
# Fragments

A sequence is written in any case and with any blanks; its normal form is upper
case without blanks.  The commas of the normal form cut it into fragments, and
each fragment splits into the brackets it opens, its core, the brackets it
closes, and what is left over.
-/

namespace Pneumatic

/-- The two kinds of bracket: round ones hold a group, square ones a repeat
region. -/
inductive Bracket where
  | round
  | square
  deriving DecidableEq, Repr

/-- A closing bracket with the text after its caret, if it has one. -/
structure Close where
  kind : Bracket
  spec : Option String
  deriving DecidableEq, Repr

/-- One piece of a sequence between commas. -/
structure Fragment where
  index : Nat
  text : String
  opens : List Bracket
  core : String
  closes : List Close
  /-- What follows the closing brackets and is none itself. -/
  trailing : String
  deriving DecidableEq, Repr

namespace Fragment

/-- The normal form of a sequence: no blanks, and every other character in upper
case. -/
def normalize (source : String) : String :=
  String.ofList ((source.toList.filter fun c => !Text.isBlank c).flatMap Text.upperCase)

/-- The bracket that a character opens. -/
def opening? : Char → Option Bracket
  | '(' => some .round
  | '[' => some .square
  | _ => none

/-- Whether a character closes a bracket. -/
def isClosing (c : Char) : Bool :=
  c == ')' || c == ']'

/-- The opening brackets at the start of a piece, and the rest of it. -/
def readOpens : List Char → List Bracket × List Char
  | [] => ([], [])
  | c :: rest =>
      match opening? c with
      | some kind =>
          let (kinds, rest) := readOpens rest
          (kind :: kinds, rest)
      | none => ([], c :: rest)

/-- The text before the first closing bracket. -/
def beforeClosing (text : List Char) : List Char :=
  text.takeWhile fun c => !isClosing c

/-- The text from the first closing bracket on. -/
def fromClosing (text : List Char) : List Char :=
  text.dropWhile fun c => !isClosing c

theorem length_fromClosing_le (text : List Char) : (fromClosing text).length ≤ text.length := by
  simpa [fromClosing] using (List.dropWhile_sublist _).length_le

/-- The closing brackets at the start of a text, and the rest of it.  A caret after
a square bracket starts its bound, which reaches to the next closing bracket. -/
def readCloses : List Char → List Close × List Char
  | ')' :: rest =>
      let (closes, rest) := readCloses rest
      (⟨.round, none⟩ :: closes, rest)
  | ']' :: '^' :: rest =>
      let (closes, left) := readCloses (fromClosing rest)
      (⟨.square, some (String.ofList (beforeClosing rest))⟩ :: closes, left)
  | ']' :: rest =>
      let (closes, rest) := readCloses rest
      (⟨.square, none⟩ :: closes, rest)
  | text => ([], text)
termination_by text => text.length
decreasing_by
  · simp
  · have := length_fromClosing_le rest
    simp only [List.length_cons]
    omega
  · simp

/-- The parts of one piece. -/
def ofPiece (index : Nat) (piece : List Char) : Fragment :=
  let (opens, rest) := readOpens piece
  let (closes, trailing) := readCloses (fromClosing rest)
  { index
    text := String.ofList piece
    opens
    core := String.ofList (beforeClosing rest)
    closes
    trailing := String.ofList trailing }

/-- The fragments of a text; an empty text has none. -/
def split (text : String) : List Fragment :=
  if text.isEmpty then []
  else (Text.pieces ',' text.toList).mapIdx ofPiece

end Fragment

end Pneumatic
