import Pneumatic.Notation.Fragment
import Pneumatic.Notation.Token

/-!
# The tree of a sequence

A sequence is a list of nodes: steps, and regions that repeat a list of nodes.
`Builder` folds the fragments into nodes with one frame per open bracket; a
fragment that does not fit the open frames is a `Misfit`.
-/

namespace Pneumatic

/-- One position of a sequence: a bare token, or tokens issued together. -/
inductive Step where
  | single (token : Token)
  | group (tokens : List Token)
  deriving DecidableEq, Repr

namespace Step

/-- The tokens of a step. -/
def tokens : Step → List Token
  | .single token => [token]
  | .group tokens => tokens

/-- The actuations of a step. -/
def actuations (step : Step) : List Actuation :=
  step.tokens.filterMap Token.actuation?

/-- The delays of a step. -/
def delays (step : Step) : List Delay :=
  step.tokens.filterMap Token.delay?

end Step

/-- A step, or a region with its bound. -/
inductive Node where
  | step (step : Step)
  | region (bound : Bound) (body : List Node)
  deriving Repr

namespace Node

mutual

/-- The steps of a node in reading order. -/
def steps : Node → List Step
  | .step found => [found]
  | .region _ body => stepsOf body

/-- The steps of nodes in reading order. -/
def stepsOf : List Node → List Step
  | [] => []
  | node :: rest => node.steps ++ stepsOf rest

end

/-- Whether a node is a region. -/
def isRegion : Node → Bool
  | .step _ => false
  | .region _ _ => true

end Node

/-- The range of steps that a region repeats, both ends included. -/
structure Region where
  first : Nat
  last : Nat
  bound : Bound
  /-- The number of regions around it. -/
  depth : Nat
  deriving DecidableEq, Repr

namespace Node

mutual

/-- The regions of a node whose first step has index `first`, inner ones before
the one around them. -/
def regions (depth first : Nat) : Node → List Region
  | .step _ => []
  | .region bound body =>
      let count := (stepsOf body).length
      regionsOf (depth + 1) first body ++
        if 0 < count then [⟨first, first + count - 1, bound, depth⟩] else []

/-- The regions of nodes whose first step has index `first`. -/
def regionsOf (depth first : Nat) : List Node → List Region
  | [] => []
  | node :: rest =>
      node.regions depth first ++ regionsOf depth (first + node.steps.length) rest

end

end Node

/-- An open bracket and what it holds so far. -/
inductive Frame where
  | root (nodes : List Node)
  | group (opened : Nat) (tokens : List Token)
  | region (opened : Nat) (nodes : List Node)
  deriving Repr

/-- Why a fragment does not fit the open frames. -/
inductive Misfit where
  | badToken
  | badBound
  | nodeInGroup
  | strayClose
  | crossedClose
  | unclosed
  deriving DecidableEq, Repr

/-- The open frames, innermost first, and the regions that closed with fewer than
two steps, as the fragments they opened and closed in. -/
structure Builder where
  frames : List Frame
  short : List (Nat × Nat)
  deriving Repr

namespace Builder

/-- Nothing read. -/
def start : Builder := ⟨[.root []], []⟩

/-- Open a bracket at a fragment. -/
def openBracket (index : Nat) (builder : Builder) (kind : Bracket) : Builder :=
  let frame := match kind with
    | .round => Frame.group index []
    | .square => Frame.region index []
  { builder with frames := frame :: builder.frames }

/-- Add a node to the innermost frame. -/
def addNode (node : Node) : List Frame → Except Misfit (List Frame)
  | .root nodes :: outer => .ok (.root (nodes ++ [node]) :: outer)
  | .region opened nodes :: outer => .ok (.region opened (nodes ++ [node]) :: outer)
  | .group _ _ :: _ => .error .nodeInGroup
  | [] => .error .strayClose

/-- Add a token to the innermost frame. -/
def addToken (token : Token) : List Frame → Except Misfit (List Frame)
  | .group opened tokens :: outer => .ok (.group opened (tokens ++ [token]) :: outer)
  | frames => addNode (.step (.single token)) frames

/-- Close a bracket at a fragment. -/
def closeBracket (index : Nat) (builder : Builder) (close : Close) : Except Misfit Builder :=
  match builder.frames, close.kind with
  | .group _ tokens :: outer, .round => do
      return { builder with frames := ← addNode (.step (.group tokens)) outer }
  | .region opened nodes :: outer, .square => do
      let some bound := Bound.read? close.spec | throw .badBound
      let short := if (Node.stepsOf nodes).length < 2 then [(opened, index)] else []
      return ⟨← addNode (.region bound nodes) outer, builder.short ++ short⟩
  | [], _ => .error .strayClose
  | .root _ :: _, _ => .error .strayClose
  | .group _ _ :: _, .square => .error .crossedClose
  | .region _ _ :: _, .round => .error .crossedClose

/-- Read one fragment. -/
def add (builder : Builder) (fragment : Fragment) : Except Misfit Builder := do
  let builder := fragment.opens.foldl (openBracket fragment.index) builder
  let some token := Token.read? fragment.core | throw .badToken
  let builder := { builder with frames := ← addToken token builder.frames }
  fragment.closes.foldlM (closeBracket fragment.index) builder

/-- The nodes read, once every bracket is closed. -/
def finish (builder : Builder) : Except Misfit (List Node) :=
  match builder.frames with
  | [.root nodes] => .ok nodes
  | _ => .error .unclosed

end Builder

end Pneumatic
