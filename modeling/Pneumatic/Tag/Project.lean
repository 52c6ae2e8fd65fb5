import Pneumatic.Notation.Inventory

/-!
# Projects

A project names the signals of the components it knows.  Of several entries with
one label the first counts.
-/

namespace Pneumatic

namespace Project

/-- How the coils of an actuator are wired. -/
inductive Wiring where
  | doubleActing
  | singleActingDoubleTag
  | singleActingSingleTag
  deriving DecidableEq, Repr

/-- The signals of an actuator.  Every wiring but the one with a single tag needs a
tag for retraction. -/
structure Actuator where
  label : String
  wiring : Wiring
  extension : String
  retraction : Option String
  extended : String
  retracted : String
  deriving DecidableEq, Repr

/-- The signals of a timer. -/
structure Timer where
  label : String
  power : String
  completed : String
  elapsed : String
  deriving DecidableEq, Repr

/-- The signal of a counter. -/
structure Counter where
  label : String
  value : String
  deriving DecidableEq, Repr

/-- A component of a project. -/
inductive Entry where
  | actuator (entry : Actuator)
  | timer (entry : Timer)
  | counter (entry : Counter)
  deriving DecidableEq, Repr

namespace Entry

/-- The label of an entry. -/
def label : Entry → String
  | .actuator entry => entry.label
  | .timer entry => entry.label
  | .counter entry => entry.label

/-- The actuator of an entry with the given label. -/
def actuatorOf? (label : String) : Entry → Option Actuator
  | .actuator entry => if entry.label = label then some entry else none
  | _ => none

/-- The timer of an entry with the given label. -/
def timerOf? (label : String) : Entry → Option Timer
  | .timer entry => if entry.label = label then some entry else none
  | _ => none

/-- The counter of an entry with the given label. -/
def counterOf? (label : String) : Entry → Option Counter
  | .counter entry => if entry.label = label then some entry else none
  | _ => none

end Entry

end Project

/-- A project document. -/
structure Project where
  name : String
  components : List Project.Entry
  deriving DecidableEq, Repr

namespace Project

/-- The actuator with a label. -/
def actuator? (project : Project) (label : String) : Option Actuator :=
  project.components.findSome? (Entry.actuatorOf? label)

/-- The timer with a label. -/
def timer? (project : Project) (label : String) : Option Timer :=
  project.components.findSome? (Entry.timerOf? label)

/-- The counter with a label. -/
def counter? (project : Project) (label : String) : Option Counter :=
  project.components.findSome? (Entry.counterOf? label)

/-- Whether an actuator has the coils that its wiring asks for. -/
def Actuator.isWired (entry : Actuator) : Bool :=
  entry.wiring == .singleActingSingleTag || entry.retraction.isSome

/-- Whether a project configures a component. -/
def binds (project : Project) (component : ComponentId) : Bool :=
  match component with
  | .actuator _ => (project.actuator? component.label).any Actuator.isWired
  | .timer _ => (project.timer? component.label).isSome
  | .counter _ => (project.counter? component.label).isSome
  | .pressure _ => false

/-- The components among those required that a project leaves unconfigured.
Pressures cannot be configured and are never among them. -/
def missing (project : Project) (required : List Component) : List ComponentId :=
  (required.filter fun component =>
    component.id.kind != .pressure && !project.binds component.id).map (·.id)

end Project

end Pneumatic
