import Pneumatic.Notation.Tree

/-!
# Sequences

A sequence is its tree together with its normal form.  A wrapped sequence starts
over at its end; the brackets of the wrap are no node of the tree.
-/

namespace Pneumatic

/-- A sequence that was read without a problem. -/
structure Sequence where
  source : String
  nodes : List Node
  wrapped : Bool
  deriving Repr

namespace Sequence

/-- The steps in reading order. -/
def steps (sequence : Sequence) : List Step :=
  Node.stepsOf sequence.nodes

/-- The number of steps. -/
def length (sequence : Sequence) : Nat :=
  sequence.steps.length

/-- Whether a region comes no later than another: it starts earlier, or at the same
step and ends no earlier. -/
def regionLe (left right : Region) : Bool :=
  left.first < right.first || (left.first == right.first && right.last ≤ left.last)

/-- The regions by first step, a longer one first. -/
def regions (sequence : Sequence) : List Region :=
  (Node.regionsOf 0 0 sequence.nodes).mergeSort regionLe

/-- Positions in the list of regions of those that start at a step. -/
def regionsStartingAt (regions : List Region) (step : Nat) : List Nat :=
  (List.range regions.length).filter fun index => regions[index]?.any (·.first == step)

/-- Positions in the list of regions of those that end at a step, a later start
first. -/
def regionsEndingAt (regions : List Region) (step : Nat) : List Nat :=
  ((List.range regions.length).filter fun index => regions[index]?.any (·.last == step)).mergeSort
    fun left right => (regions[right]?.map (·.first)).getD 0 ≤ (regions[left]?.map (·.first)).getD 0

/-- All tokens in reading order. -/
def tokens (sequence : Sequence) : List Token :=
  sequence.steps.flatMap Step.tokens

/-- The actuator labels in order of first appearance, none twice. -/
def labels (sequence : Sequence) : List Char :=
  (sequence.steps.flatMap Step.actuations).foldl
    (fun labels actuation =>
      if labels.contains actuation.label then labels else labels ++ [actuation.label]) []

/-- The first step that moves an actuator. -/
def firstActuationStep? (sequence : Sequence) : Option Step :=
  sequence.steps.find? fun step => !step.actuations.isEmpty

/-- The first actuator that the first moving step retracts.  Actuators rest
retracted, so such a sequence cannot start. -/
def openingRetraction? (sequence : Sequence) : Option Char := do
  let step ← sequence.firstActuationStep?
  (step.actuations.find? (·.direction == .retract)).map (·.label)

/-- Whether a timer or a bound depends on a variable of the run. -/
def usesVariables (sequence : Sequence) : Bool :=
  (sequence.tokens.any fun token => token.delay?.any Delay.usesVariable) ||
    sequence.regions.any fun region => region.bound.usesVariable

/-- The first pressure token. -/
def firstPressure? (sequence : Sequence) : Option Token :=
  sequence.tokens.find? Token.isPressure

end Sequence

end Pneumatic
