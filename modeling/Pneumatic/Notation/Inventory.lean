import Pneumatic.Notation.Sequence

/-!
# Components of a sequence

Every token belongs to a component: an actuation to its actuator, each timer and
each pressure to a component of its own, numbered in reading order.  Every region
with a count has a counter, numbered by the order of regions.  The inventory lists
the components with the step that first needs them.
-/

namespace Pneumatic

/-- A component that a sequence drives or reads. -/
inductive ComponentId where
  | actuator (label : Char)
  | timer (number : Nat)
  | counter (number : Nat)
  | pressure (number : Nat)
  deriving DecidableEq, Repr

/-- The sort of a component. -/
inductive ComponentKind where
  | actuator
  | timer
  | counter
  | pressure
  deriving DecidableEq, Repr

namespace ComponentId

/-- The sort of a component. -/
def kind : ComponentId → ComponentKind
  | .actuator _ => .actuator
  | .timer _ => .timer
  | .counter _ => .counter
  | .pressure _ => .pressure

/-- The label of a component, used in signal names and in project documents. -/
def label : ComponentId → String
  | .actuator label => String.singleton label
  | .timer number => "Timer_" ++ String.ofList (Text.digits number)
  | .counter number => "Counter_" ++ String.ofList (Text.digits number)
  | .pressure number => "Pressure_" ++ String.ofList (Text.digits number)

end ComponentId

/-- A component and the step that first needs it. -/
structure Component where
  id : ComponentId
  firstStep : Nat
  deriving DecidableEq, Repr

/-- A token with the component it belongs to. -/
structure Part where
  token : Token
  component : ComponentId
  deriving DecidableEq, Repr

namespace Part

/-- How many timers and pressures were numbered so far. -/
structure Tally where
  timers : Nat
  pressures : Nat
  deriving DecidableEq, Repr

/-- The component of the next token and the tally after it. -/
def number (tally : Tally) : Token → ComponentId × Tally
  | .actuation actuation => (.actuator actuation.label, tally)
  | .timer _ => (.timer (tally.timers + 1), { tally with timers := tally.timers + 1 })
  | .pressure _ =>
      (.pressure (tally.pressures + 1), { tally with pressures := tally.pressures + 1 })

/-- The parts of tokens in reading order and the tally after them. -/
def ofTokens (tally : Tally) : List Token → List Part × Tally
  | [] => ([], tally)
  | token :: rest =>
      let (component, tally) := number tally token
      let (parts, tally) := ofTokens tally rest
      (⟨token, component⟩ :: parts, tally)

/-- The parts of each step. -/
def ofSteps (tally : Tally) : List Step → List (List Part)
  | [] => []
  | step :: rest =>
      let (parts, tally) := ofTokens tally step.tokens
      parts :: ofSteps tally rest

/-- The counter number of each region; a region without a count has none. -/
def ofRegions (counters : Nat) : List Region → List (Option Nat)
  | [] => []
  | region :: rest =>
      if region.bound.isCounted then some (counters + 1) :: ofRegions (counters + 1) rest
      else none :: ofRegions counters rest

end Part

namespace Sequence

/-- The tokens of each step with their components. -/
def parts (sequence : Sequence) : List (List Part) :=
  Part.ofSteps ⟨0, 0⟩ sequence.steps

/-- The counter number of each region. -/
def counters (sequence : Sequence) : List (Option Nat) :=
  Part.ofRegions 0 sequence.regions

/-- The components a step needs: counters of the regions that start at it, then the
components of its tokens. -/
def needs (regions : List Region) (counters : List (Option Nat)) (index : Nat)
    (parts : List Part) : List ComponentId :=
  ((regionsStartingAt regions index).filterMap fun region =>
      (counters[region]?.join).map ComponentId.counter) ++
    parts.map (·.component)

/-- Add a component unless it is known. -/
def discover (known : List Component) (component : Component) : List Component :=
  if known.any (·.id == component.id) then known else known ++ [component]

/-- The components of a sequence in order of discovery, none twice. -/
def inventory (sequence : Sequence) : List Component :=
  let regions := sequence.regions
  let counters := sequence.counters
  (sequence.parts.mapIdx fun index parts =>
      (needs regions counters index parts).map fun id => Component.mk id index).flatten.foldl
    discover []

end Sequence

end Pneumatic
