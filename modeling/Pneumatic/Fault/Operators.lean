import Pneumatic.Text.Blank
import Pneumatic.Text.Search

/-!
# Damaging a line

Each operator looks at or after a line of a program.  It declines when it finds
nothing to change, and otherwise gives the changed lines and the index of the line
it reports.  It fails when it asks for a line that there is not; it changes no line
but those it has asked for.
-/

namespace Pneumatic.Fault

/-- The kinds of damage. -/
inductive Kind where
  | transpose
  | truncate
  | delete
  | flipBoolean
  | stripCondition
  | swapActuator
  deriving DecidableEq, Repr

/-- All kinds, in the order in which they are drawn. -/
def Kind.all : List Kind :=
  [.transpose, .truncate, .delete, .flipBoolean, .stripCondition, .swapActuator]

/-- The name of a kind of damage. -/
def Kind.name : Kind → String
  | .transpose => "Transpose"
  | .truncate => "Truncate"
  | .delete => "Delete"
  | .flipBoolean => "FlipBoolean"
  | .stripCondition => "StripCondition"
  | .swapActuator => "SwapActuator"

/-- Changed lines and the index of the line that is reported. -/
abbrev Change := List String × Nat

/-- Why damaging a program does not come to an end. -/
inductive Failure where
  /-- A list was asked for a place that it does not have. -/
  | outOfRange (place : Nat)
  /-- The attempts that were allowed did not do. -/
  | outOfFuel
  deriving DecidableEq, Repr

/-- The element at a place that a list has to have. -/
def fetch {α : Type} (list : List α) (place : Nat) : Except Failure α :=
  match list[place]? with
  | some element => .ok element
  | none => .error (.outOfRange place)

/-- The first of the places whose line gives something, with what it gives. -/
def search {α : Type} (look : String → Option α) (lines : List String) :
    List Nat → Except Failure (Option (Nat × α))
  | [] => .ok none
  | place :: rest => do
      let line ← fetch lines place
      match look line with
      | some found => .ok (some (place, found))
      | none => search look lines rest

/-- The line that a line is exchanged with: the one two places on, or two places back
near the end. -/
def partner? (count index : Nat) : Option Nat :=
  if index + 2 < count then some (index + 2)
  else if 2 ≤ index then some (index - 2)
  else none

/-- Exchange a line with its partner unless the two are equal. -/
def transpose (lines : List String) (index : Nat) : Except Failure (Option Change) :=
  match partner? lines.length index with
  | none => .ok none
  | some other => do
      let line ← fetch lines index
      let partner ← fetch lines other
      return if line = partner then none
        else some ((lines.set index partner).set other line, index)

/-- Drop up to `count` characters at the end of a line that is not empty. -/
def truncate (count : Nat) (lines : List String) (index : Nat) :
    Except Failure (Option Change) := do
  let line ← fetch lines index
  let chars := line.toList
  return if chars.isEmpty then none
    else some (lines.set index (String.ofList (chars.take (chars.length - count))), index)

/-- Remove a line. -/
def delete (lines : List String) (index : Nat) : Except Failure (Option Change) := do
  let _ ← fetch lines index
  return some (lines.eraseIdx index, index)

/-- Negate the first truth value in a text. -/
def flipFirst? (text : List Char) : Option (List Char) :=
  match text with
  | [] => none
  | c :: rest =>
      match Text.dropLead? "TRUE".toList text, Text.dropLead? "FALSE".toList text with
      | some after, _ => some ("FALSE".toList ++ after)
      | none, some after => some ("TRUE".toList ++ after)
      | none, none => (flipFirst? rest).map (c :: ·)

/-- Change the first line from `start` on that an edit applies to. -/
def editFrom (edit : String → Option String) (lines : List String) (start : Nat) :
    Except Failure (Option Change) := do
  let found ← search edit lines ((List.range lines.length).drop start)
  return found.map fun (place, line) => (lines.set place line, place)

/-- Negate the first truth value of the next line after this one that has one. -/
def flipBoolean (lines : List String) (index : Nat) : Except Failure (Option Change) :=
  editFrom (fun line => (flipFirst? line.toList).map String.ofList) lines (index + 1)

/-- Drop the last term of the condition in a line that asks for more than one. -/
def stripTerm? (line : String) : Option String := do
  let _ ← Text.dropLead? "IF ".toList (Text.trimStart line.toList)
  let (before, after) ← Text.splitLast? " AND ".toList line.toList
  let tail := match Text.splitFirst? " THEN".toList after with
    | some (_, rest) => " THEN".toList ++ rest
    | none => []
  some (String.ofList (before ++ tail))

/-- Drop a term from the next condition, in this line or after it. -/
def stripCondition (lines : List String) (index : Nat) : Except Failure (Option Change) :=
  editFrom stripTerm? lines index

/-- How an actuator shows in a signal name. -/
def mention (label : Char) : List Char :=
  ['_', label, '_']

/-- The first of the labels that a line mentions. -/
def mentioned? (labels : List Char) (line : String) : Option Char :=
  labels.find? fun label => Text.occursIn (mention label) line.toList

/-- The first line that mentions a label, from `index` on and then from the start,
with that label. -/
def findMention (labels : List Char) (lines : List String) (index : Nat) :
    Except Failure (Option (Nat × Char)) :=
  let places := List.range lines.length
  search (mentioned? labels) lines (places.drop index ++ places.take index)

/-- Point one line from an actuator to another. -/
def redirect (lines : List String) (place : Nat) (label other : Char) :
    Except Failure Change := do
  let line ← fetch lines place
  return (lines.set place
    (String.ofList (Text.replaceAll (mention label) (mention other) line.toList)), place)

end Pneumatic.Fault
