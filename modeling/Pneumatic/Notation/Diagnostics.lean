import Pneumatic.Notation.Fragment

/-!
# Diagnostics

What is wrong with a sequence: an ordered list of texts, none twice.  A text is the
message of a structural violation or a fragment as the user typed it.
-/

namespace Pneumatic

/-- The structural rules a sequence can break. -/
inductive Violation where
  | emptySequence
  | missingValue
  | roundCount
  | squareCount
  | roundOrder
  | squareOrder
  | roundOverlap
  | squareOverlap
  | crossing
  | regionInGroup
  | shortRegion
  deriving DecidableEq, Repr

/-- The message of a broken rule. -/
def Violation.message : Violation → String
  | .emptySequence => "Sequence is empty"
  | .missingValue => "Missing action, timer or pressure value between commas"
  | .roundCount => "Number of opening and closing round brackets does not match"
  | .squareCount => "Number of opening and closing square brackets does not match"
  | .roundOrder =>
      "Round bracket group must open before it closes and hold at least two elements"
  | .squareOrder => "Repeat region must open before it closes and hold at least two elements"
  | .roundOverlap => "Round bracket groups must not overlap or nest"
  | .squareOverlap => "Repeat regions must not overlap or nest more than one level"
  | .crossing => "Round and square brackets cross each other"
  | .regionInGroup => "Repeat region cannot start inside a round bracket group"
  | .shortRegion => "Repeat region must span at least two steps"

/-- Recorded texts in the order they were first seen. -/
structure Diagnostics where
  messages : List String
  nodup : messages.Nodup
  deriving DecidableEq, Repr

namespace Diagnostics

/-- Nothing recorded. -/
def empty : Diagnostics := ⟨[], .nil⟩

instance : Inhabited Diagnostics := ⟨empty⟩

/-- Record a text unless it was recorded before. -/
def push (diagnostics : Diagnostics) (text : String) : Diagnostics :=
  if known : text ∈ diagnostics.messages then diagnostics
  else
    { messages := diagnostics.messages ++ [text]
      nodup := by
        refine List.nodup_append.2 ⟨diagnostics.nodup, by simp, ?_⟩
        intro left leftMem right rightMem equal
        rw [List.mem_singleton] at rightMem
        exact known (rightMem ▸ equal ▸ leftMem) }

/-- Record texts in order. -/
def pushAll (diagnostics : Diagnostics) (texts : List String) : Diagnostics :=
  texts.foldl push diagnostics

/-- The texts recorded for a message about fragments: the message, then the text of
every fragment that has one. -/
def about (message : String) (fragments : List Fragment) : List String :=
  message :: (fragments.map (·.text)).filter (!·.isEmpty)

/-- The texts recorded for a broken rule. -/
def violation (rule : Violation) (fragments : List Fragment) : List String :=
  about rule.message fragments

/-- Record texts in order, starting from nothing. -/
def ofList (texts : List String) : Diagnostics :=
  empty.pushAll texts

/-- Whether nothing was recorded. -/
def isEmpty (diagnostics : Diagnostics) : Bool :=
  diagnostics.messages.isEmpty

/-- The whole list as one message. -/
def message (diagnostics : Diagnostics) : String :=
  "invalid sequence: " ++ String.intercalate "; " diagnostics.messages

end Diagnostics

end Pneumatic
