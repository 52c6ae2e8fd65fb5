import Pneumatic.Text.Blank
import Pneumatic.Text.Pieces

/-!
# Tiers of difficulty

How many faults a damaged program gets, and the text that asks for one:
`<0|1>,<none|easy|medium|hard>`, blanks allowed around both parts and letters of
either case.
-/

namespace Pneumatic.Fault

/-- How many lines there are to one fault: five, four or three. -/
inductive Tier where
  | easy
  | medium
  | hard
  deriving DecidableEq, Repr

namespace Tier

/-- The lines to one fault. -/
def linesPerFault : Tier → Nat
  | .easy => 5
  | .medium => 4
  | .hard => 3

/-- The number of faults for a body of so many lines, rounded up. -/
def target (tier : Tier) (lines : Nat) : Nat :=
  (lines + tier.linesPerFault - 1) / tier.linesPerFault

/-- The name of a tier. -/
def name : Tier → String
  | .easy => "easy"
  | .medium => "medium"
  | .hard => "hard"

/-- The lower-case form of an ASCII letter; any other character stays. -/
def lowerCase (text : List Char) : List Char :=
  text.map Char.toLower

/-- The tier with a name, in letters of either case. -/
def ofName? (text : List Char) : Option Tier :=
  [easy, medium, hard].find? (·.name.toList == lowerCase text)

/-- The tier that a request asks for: the outer option is none for a malformed
request, the inner one when no faults are wanted. -/
def ofRequest? (request : String) : Option (Option Tier) := do
  let (switch, rest) := Text.cut ',' (Text.trim request.toList)
  let name := Text.trim (← rest)
  let enabled ← match Text.trim switch with
    | ['0'] => some false
    | ['1'] => some true
    | _ => none
  let tier ← if lowerCase name = "none".toList then some none else (ofName? name).map some
  some (if enabled then tier else none)

/-- The message for a malformed request. -/
def requestError (request : String) : String :=
  "invalid errors spec '" ++ request ++ "', expected '<0|1>,<none|easy|medium|hard>'"

end Tier

end Pneumatic.Fault
