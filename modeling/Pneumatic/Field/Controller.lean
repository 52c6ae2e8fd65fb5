import Pneumatic.Field.Value
import Pneumatic.Tag.Role

/-!
# A simulated controller

Each actuator is a pair of coils that drives a pair of end sensors.  A command to
the other end clears both sensors, and the sensor of the destination comes on once
the travel time has passed.  Times are milliseconds of one clock.
-/

namespace Pneumatic.Field

/-- An actuator of a simulated controller. -/
structure Cylinder where
  tags : Tag.Actuator
  commanded : Direction
  /-- When the actuator reaches the end it was sent to; none at rest. -/
  arrival : Option Nat
  /-- Whether the actuator is stuck and obeys no more commands. -/
  jammed : Bool
  deriving DecidableEq, Repr

/-- A simulated controller. -/
structure Controller where
  tags : List (String × Value)
  cylinders : List Cylinder
  /-- The writes accepted so far. -/
  log : List (List Write)
  /-- The number of writes that are accepted; none for no limit. -/
  writeLimit : Option Nat
  readsFail : Bool
  openSessions : Nat
  /-- The milliseconds an actuator takes from end to end. -/
  travel : Nat
  deriving DecidableEq, Repr

/-- Set a tag, or add it. -/
def setTag (tag : String) (value : Value) : List (String × Value) → List (String × Value)
  | [] => [(tag, value)]
  | (name, old) :: rest =>
      if name = tag then (tag, value) :: rest else (name, old) :: setTag tag value rest

/-- After setting a tag it has the new value, and every other tag its old one. -/
theorem lookup_setTag (tag name : String) (value : Value) (tags : List (String × Value)) :
    (setTag tag value tags).lookup name = if name = tag then some value else tags.lookup name := by
  induction tags with
  | nil => by_cases same : name = tag <;> simp [setTag, List.lookup_cons, same, beq_false_of_ne]
  | cons head rest ih =>
      obtain ⟨other, old⟩ := head
      by_cases here : other = tag
      · subst here
        by_cases same : name = other <;> simp [setTag, List.lookup_cons, same, beq_false_of_ne]
      · by_cases same : name = tag <;> by_cases found : name = other <;>
          simp_all [setTag, List.lookup_cons, beq_false_of_ne]

namespace Cylinder

/-- Whether a coil is energised. -/
def coil (tags : List (String × Value)) (name : String) : Bool :=
  tags.lookup name == some (.bool true)

/-- The direction that the coils command; none when both or neither of two coils
are energised. -/
def commandOf (cylinder : Cylinder) (tags : List (String × Value)) : Option Direction :=
  let extend := coil tags cylinder.tags.extend
  match cylinder.tags.retract.map (coil tags) with
  | some retract =>
      if extend && !retract then some .extend
      else if !extend && retract then some .retract
      else none
  | none => if extend then some .extend else some .retract

/-- Set both end sensors: on at the given end, off elsewhere. -/
def setSensors (cylinder : Cylinder) (position : Option Direction) (tags : List (String × Value)) :
    List (String × Value) :=
  setTag cylinder.tags.retracted (.bool (position == some .retract))
    (setTag cylinder.tags.extended (.bool (position == some .extend)) tags)

/-- Let an actuator arrive if its time has come. -/
def settle (now : Nat) (cylinder : Cylinder) (tags : List (String × Value)) :
    Cylinder × List (String × Value) :=
  if cylinder.arrival.any (· ≤ now) then
    ({ cylinder with arrival := none }, cylinder.setSensors (some cylinder.commanded) tags)
  else (cylinder, tags)

/-- Start an actuator on its way if its coils command the other end. -/
def obey (travel now : Nat) (cylinder : Cylinder) (tags : List (String × Value)) :
    Cylinder × List (String × Value) :=
  match cylinder.commandOf tags with
  | none => (cylinder, tags)
  | some direction =>
      if cylinder.jammed || direction == cylinder.commanded then (cylinder, tags)
      else
        ({ cylinder with commanded := direction, arrival := some (now + travel) },
          cylinder.setSensors none tags)

end Cylinder

namespace Controller

/-- A controller without actuators, its two run variables zero. -/
def start (travel : Nat) : Controller where
  tags := [(Tag.timerVariable, .int 0), (Tag.repeatVariable, .int 0)]
  cylinders := []
  log := []
  writeLimit := none
  readsFail := false
  openSessions := 0
  travel := travel

/-- Add an actuator at rest in the retracted position. -/
def addActuator (controller : Controller) (tags : Tag.Actuator) : Controller :=
  let cylinder : Cylinder := ⟨tags, .retract, none, false⟩
  let coils := (tags.extend, Value.bool false) :: (tags.retract.map (·, Value.bool true)).toList
  let set := coils.foldl (fun set (tag, value) => setTag tag value set) controller.tags
  { controller with
    tags := cylinder.setSensors (some .retract) set
    cylinders := controller.cylinders ++ [cylinder] }

/-- A controller with automatically named actuators. -/
def withActuators (travel : Nat) (labels : List Char) : Controller :=
  labels.foldl (fun controller label => controller.addActuator (.auto label)) (start travel)

/-- Apply a change to every actuator in turn, each seeing the tags left by the one
before. -/
def eachCylinder
    (change : Cylinder → List (String × Value) → Cylinder × List (String × Value)) :
    List Cylinder → List (String × Value) → List Cylinder × List (String × Value)
  | [], tags => ([], tags)
  | cylinder :: rest, tags =>
      let (cylinder, tags) := change cylinder tags
      let (rest, tags) := eachCylinder change rest tags
      (cylinder :: rest, tags)

/-- Let every actuator arrive whose time has come. -/
def settle (now : Nat) (controller : Controller) : Controller :=
  let (cylinders, tags) := eachCylinder (Cylinder.settle now) controller.cylinders controller.tags
  { controller with cylinders, tags }

/-- Start every actuator whose coils command the other end. -/
def obey (now : Nat) (controller : Controller) : Controller :=
  let (cylinders, tags) :=
    eachCylinder (Cylinder.obey controller.travel now) controller.cylinders controller.tags
  { controller with cylinders, tags }

/-- Whether the next write is refused. -/
def refusesWrites (controller : Controller) : Bool :=
  controller.writeLimit.any (· ≤ controller.log.length)

/-- Apply a combined write.  A refused one changes nothing. -/
def write (writes : List Write) (now : Nat) (controller : Controller) :
    Except Error Unit × Controller :=
  if controller.refusesWrites then (.error (.write "simulated write failure"), controller)
  else
    let tags := writes.foldl (fun tags write => setTag write.tag write.value tags) controller.tags
    (.ok (), (({ controller with tags, log := controller.log ++ [writes] }).obey now).settle now)

/-- The value of a tag. -/
def tag (name : String) (now : Nat) (controller : Controller) : Option Value × Controller :=
  let controller := controller.settle now
  (controller.tags.lookup name, controller)

/-- Read a tag. -/
def read (name : String) (now : Nat) (controller : Controller) :
    Except Error Value × Controller :=
  if controller.readsFail then (.error (.read name "simulated read failure"), controller)
  else
    let (value, controller) := controller.tag name now
    (match value with
      | some value => .ok value
      | none => .error (.unknownTag name), controller)

/-- Open a session. -/
def openSession (controller : Controller) : Controller :=
  { controller with openSessions := controller.openSessions + 1 }

/-- Close a session. -/
def closeSession (controller : Controller) : Controller :=
  { controller with openSessions := controller.openSessions - 1 }

/-- Jam every actuator with the given coil for extension. -/
def jam (extend : String) (controller : Controller) : Controller :=
  { controller with
    cylinders := controller.cylinders.map fun cylinder =>
      if cylinder.tags.extend = extend then { cylinder with jammed := true } else cylinder }

/-- Overwrite a tag without moving anything. -/
def poke (tag : String) (value : Value) (controller : Controller) : Controller :=
  { controller with tags := setTag tag value controller.tags }

end Controller

/-- A session that was opened on a controller, and whether it still is. -/
structure Session where
  isOpen : Bool
  deriving DecidableEq, Repr

namespace Session

/-- Use a session; a closed one fails. -/
def use {α : Type} (session : Session)
    (operation : Controller → Except Error α × Controller) (controller : Controller) :
    Except Error α × Controller :=
  if session.isOpen then operation controller
  else (.error (.session "session closed"), controller)

/-- Close a session; closing it again does nothing. -/
def close (session : Session) (controller : Controller) : Session × Controller :=
  if session.isOpen then (⟨false⟩, controller.closeSession) else (session, controller)

end Session

end Pneumatic.Field
