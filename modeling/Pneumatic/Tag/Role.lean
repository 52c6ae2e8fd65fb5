import Pneumatic.Notation.Inventory

/-!
# Signals of a component

Every component has signals, each in a role of its own: an actuator its coils and
end sensors, a timer its enable input and its outputs, a counter its value.  A role
fixes the type of a signal and, without a project, its name.
-/

namespace Pneumatic.Tag

/-- The variable that timers may depend on, in seconds. -/
def timerVariable : String := "T_VARIABLE"

/-- The variable that repeat bounds may depend on. -/
def repeatVariable : String := "N_VARIABLE"

/-- The type of a signal: a bit, a signed word of 16 bits, or a time of 32 bits. -/
inductive Kind where
  | bool
  | int
  | time
  deriving DecidableEq, Repr

/-- The name of a type in a tag table. -/
def Kind.name : Kind → String
  | .bool => "Bool"
  | .int => "Int"
  | .time => "Time"

/-- What a signal is for. -/
inductive Role where
  | actuatorExtend
  | actuatorRetract
  | sensorExtended
  | sensorRetracted
  | timerPower
  | timerDone
  | timerElapsed
  | counterValue
  deriving DecidableEq, Repr

namespace Role

/-- All roles. -/
def all : List Role :=
  [.actuatorExtend, .actuatorRetract, .sensorExtended, .sensorRetracted, .timerPower,
    .timerDone, .timerElapsed, .counterValue]

/-- The name of a role. -/
def name : Role → String
  | .actuatorExtend => "ActuatorExtend"
  | .actuatorRetract => "ActuatorRetract"
  | .sensorExtended => "SensorExtended"
  | .sensorRetracted => "SensorRetracted"
  | .timerPower => "TimerPower"
  | .timerDone => "TimerDone"
  | .timerElapsed => "TimerElapsed"
  | .counterValue => "CounterValue"

/-- The type of a signal in a role. -/
def kind : Role → Kind
  | .timerElapsed => .time
  | .counterValue => .int
  | _ => .bool

/-- The sort of component that has a role. -/
def owner : Role → ComponentKind
  | .actuatorExtend | .actuatorRetract | .sensorExtended | .sensorRetracted => .actuator
  | .timerPower | .timerDone | .timerElapsed => .timer
  | .counterValue => .counter

/-- Whether a component has a signal in a role. -/
def appliesTo (role : Role) (component : ComponentId) : Bool :=
  component.kind == role.owner

/-- The name of a signal without a project. -/
def autoName (role : Role) (component : ComponentId) : String :=
  let label := component.label
  match role with
  | .actuatorExtend => "Cylinder_" ++ label ++ "_Extend"
  | .actuatorRetract => "Cylinder_" ++ label ++ "_Retract"
  | .sensorExtended => "Sensor_" ++ label ++ "_Extended"
  | .sensorRetracted => "Sensor_" ++ label ++ "_Retracted"
  | .timerPower => label ++ "_Power"
  | .timerDone => label ++ "_Done"
  | .timerElapsed => label ++ "_Elapsed"
  | .counterValue => label

end Role

/-- A named signal with its role and the label of its owner. -/
structure Binding where
  role : Role
  owner : String
  name : String
  deriving DecidableEq, Repr

/-- The signals of one actuator.  A single-acting cylinder on one coil has no coil
for retraction. -/
structure Actuator where
  extend : String
  retract : Option String
  extended : String
  retracted : String
  deriving DecidableEq, Repr

namespace Actuator

/-- The signals of an actuator without a project. -/
def auto (label : Char) : Actuator :=
  let component := ComponentId.actuator label
  { extend := Role.actuatorExtend.autoName component
    retract := some (Role.actuatorRetract.autoName component)
    extended := Role.sensorExtended.autoName component
    retracted := Role.sensorRetracted.autoName component }

/-- The coil assignments that command a direction.  The opposite coil is released
first; a single coil is set or dropped. -/
def command (tags : Actuator) : Direction → List (String × Bool)
  | .extend => (tags.retract.map (·, false)).toList ++ [(tags.extend, true)]
  | .retract => (tags.extend, false) :: (tags.retract.map (·, true)).toList

/-- The end sensor of a direction. -/
def sensor (tags : Actuator) : Direction → String
  | .extend => tags.extended
  | .retract => tags.retracted

/-- The signals in the order of a tag table. -/
def bindings (tags : Actuator) (label : Char) : List Binding :=
  let owner := String.singleton label
  [⟨.actuatorExtend, owner, tags.extend⟩] ++
    (tags.retract.map fun name => ⟨.actuatorRetract, owner, name⟩).toList ++
    [⟨.sensorExtended, owner, tags.extended⟩, ⟨.sensorRetracted, owner, tags.retracted⟩]

end Actuator

/-- The signals of one timer. -/
structure Timer where
  label : String
  power : String
  done : String
  elapsed : String
  deriving DecidableEq, Repr

/-- The signals in the order of a tag table. -/
def Timer.bindings (tags : Timer) : List Binding :=
  [⟨.timerPower, tags.label, tags.power⟩, ⟨.timerDone, tags.label, tags.done⟩,
    ⟨.timerElapsed, tags.label, tags.elapsed⟩]

end Pneumatic.Tag
