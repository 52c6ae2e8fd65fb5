import Pneumatic.Tag.Project
import Pneumatic.Tag.Role

/-!
# Naming signals

Signals take their names from a project, or from the automatic scheme when there
is none.  An empty name in a project counts as none.
-/

namespace Pneumatic.Tag

/-- Where signal names come from. -/
inductive Naming where
  | automatic
  | configured (project : Project)
  deriving Repr

/-- Why a signal has no name. -/
inductive NamingError where
  /-- The project does not name the signal. -/
  | missing (component : ComponentId) (role : Role)
  /-- The component has no signal in the role. -/
  | inapplicable (component : ComponentId) (role : Role)
  deriving DecidableEq, Repr

/-- The message of an error. -/
def NamingError.message : NamingError → String
  | .missing component role =>
      "configuration incomplete: no binding for " ++ role.name ++ " of " ++ component.label
  | .inapplicable component role => role.name ++ " does not apply to " ++ component.label

namespace Naming

/-- Names from a project if there is one. -/
def ofProject? : Option Project → Naming
  | none => .automatic
  | some project => .configured project

/-- Whether names come from a project. -/
def isConfigured : Naming → Bool
  | .automatic => false
  | .configured _ => true

/-- The name that a project gives to the signal of a labelled component, whether or
not it is empty.  The outer option says whether the component has the signal at
all: an actuator on a single tag has no coil for retraction. -/
def given? (project : Project) (label : String) : Role → Option (Option String)
  | .actuatorExtend => some ((project.actuator? label).map (·.extension))
  | .actuatorRetract =>
      match project.actuator? label with
      | none => some none
      | some entry =>
          if entry.wiring = .singleActingSingleTag then none else some entry.retraction
  | .sensorExtended => some ((project.actuator? label).map (·.extended))
  | .sensorRetracted => some ((project.actuator? label).map (·.retracted))
  | .timerPower => some ((project.timer? label).map (·.power))
  | .timerDone => some ((project.timer? label).map (·.completed))
  | .timerElapsed => some ((project.timer? label).map (·.elapsed))
  | .counterValue => some ((project.counter? label).map (·.value))

/-- The name of one signal of one component. -/
def resolve (naming : Naming) (role : Role) (component : ComponentId) :
    Except NamingError String :=
  if !role.appliesTo component then .error (.inapplicable component role)
  else match naming with
  | .automatic => .ok (role.autoName component)
  | .configured project =>
      match given? project component.label role with
      | none => .error (.inapplicable component role)
      | some none => .error (.missing component role)
      | some (some name) => if name.isEmpty then .error (.missing component role) else .ok name

/-- The signals of an actuator.  One without a coil for retraction is no error. -/
def actuator (naming : Naming) (label : Char) : Except NamingError Actuator := do
  let component := ComponentId.actuator label
  let retract ← match naming.resolve .actuatorRetract component with
    | .ok name => .ok (some name)
    | .error (.inapplicable _ _) => .ok none
    | .error error => .error error
  let extend ← naming.resolve .actuatorExtend component
  let extended ← naming.resolve .sensorExtended component
  let retracted ← naming.resolve .sensorRetracted component
  return { extend, retract, extended, retracted }

/-- The signals of a timer. -/
def timer (naming : Naming) (number : Nat) : Except NamingError Timer := do
  let component := ComponentId.timer number
  let power ← naming.resolve .timerPower component
  let done ← naming.resolve .timerDone component
  let elapsed ← naming.resolve .timerElapsed component
  return { label := component.label, power, done, elapsed }

/-- The value signal of a counter. -/
def counter (naming : Naming) (number : Nat) : Except NamingError String :=
  naming.resolve .counterValue (.counter number)

end Naming

end Pneumatic.Tag
