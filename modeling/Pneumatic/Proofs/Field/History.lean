import Pneumatic.Proofs.Field.AtRest

/-!
# Histories of a controller

Whoever holds a session of a controller writes and reads in it; beside the sessions tags are
looked up, actuators jam, and operations are made to fail.  A history is what was done with a
controller, each operation with its time.

As long as all signals have different names and no end sensor is written to, each actuator is by
itself: it reads its own coils and sets its own sensors, and these show where it stands.
-/

namespace Pneumatic

namespace Tag.Actuator

variable {tags : Actuator} {direction : Direction}

/-- The coils of an actuator. -/
def coils (tags : Actuator) : List String :=
  tags.extend :: tags.retract.toList

/-- The end sensors of an actuator. -/
def sensors (tags : Actuator) : List String :=
  [tags.extended, tags.retracted]

/-- All signals of an actuator. -/
def signals (tags : Actuator) : List String :=
  tags.coils ++ tags.sensors

theorem sensor_mem (tags : Actuator) (direction : Direction) :
    tags.sensor direction ∈ tags.sensors := by
  cases direction <;> simp [sensor, sensors]

/-- The signals of different actuators have different names, and so do those of each. -/
def Distinct (actuators : List Actuator) : Prop :=
  (actuators.flatMap signals).Nodup

instance (actuators : List Actuator) : Decidable (Distinct actuators) :=
  inferInstanceAs (Decidable (actuators.flatMap signals).Nodup)

theorem exists_sensor {name : String} (sensor : name ∈ tags.sensors) :
    ∃ direction, name = tags.sensor direction := by
  simp only [sensors, List.mem_cons, List.not_mem_nil, or_false] at sensor
  rcases sensor with rfl | rfl
  · exact ⟨.extend, rfl⟩
  · exact ⟨.retract, rfl⟩

theorem extended_ne_retracted (own : tags.signals.Nodup) : tags.extended ≠ tags.retracted := by
  have apart : tags.sensors.Nodup := (List.nodup_append.mp own).2.1
  simpa [sensors] using apart

theorem Distinct.cons {rest : List Actuator} (distinct : Distinct (tags :: rest)) :
    tags.extended ≠ tags.retracted ∧ Distinct rest ∧
      ∀ other ∈ rest, ∀ name ∈ other.signals, name ∉ tags.signals := by
  rw [Distinct, List.flatMap_cons, List.nodup_append] at distinct
  obtain ⟨own, others, apart⟩ := distinct
  refine ⟨extended_ne_retracted own, others, ?_⟩
  intro other among name inside within
  exact apart name within name (List.mem_flatMap.mpr ⟨other, among, inside⟩) rfl

theorem Distinct.left {first second : List Actuator} (distinct : Distinct (first ++ second)) :
    Distinct first := by
  rw [Distinct, List.flatMap_append, List.nodup_append] at distinct
  exact distinct.1

theorem Distinct.snoc {before : List Actuator} (distinct : Distinct (before ++ [tags])) :
    tags.extended ≠ tags.retracted ∧
      ∀ other ∈ before, ∀ name ∈ other.signals, name ∉ tags.signals := by
  rw [Distinct, List.flatMap_append, List.flatMap_singleton, List.nodup_append] at distinct
  obtain ⟨-, own, apart⟩ := distinct
  refine ⟨extended_ne_retracted own, ?_⟩
  intro other among name inside within
  exact apart name (List.mem_flatMap.mpr ⟨other, among, inside⟩) name within rfl

/-- No coil is an end sensor. -/
theorem Distinct.coil_not_mem {actuators : List Actuator} (distinct : Distinct actuators)
    {owner other : Actuator} (among : owner ∈ actuators) (among' : other ∈ actuators)
    {name : String} (coil : name ∈ owner.coils) : name ∉ other.sensors := by
  induction actuators with
  | nil => contradiction
  | cons tags rest ih =>
      obtain ⟨-, others, apart⟩ := distinct.cons
      intro sensor
      have ofCoil : name ∈ owner.signals := List.mem_append_left _ coil
      have ofSensor : name ∈ other.signals := List.mem_append_right _ sensor
      rcases List.mem_cons.mp among with rfl | inRest
      · rcases List.mem_cons.mp among' with rfl | inRest'
        · rw [Distinct, List.flatMap_cons, List.nodup_append] at distinct
          exact (List.nodup_append.mp distinct.1).2.2 name coil name sensor rfl
        · exact apart other inRest' name ofSensor ofCoil
      · rcases List.mem_cons.mp among' with rfl | inRest'
        · exact apart owner inRest name ofCoil ofSensor
        · exact ih others inRest inRest' sensor

end Tag.Actuator

namespace Field

theorem lookup_assign_congr {tags tags' : List (String × Value)} {name : String}
    (same : tags'.lookup name = tags.lookup name) (writes : List Write) :
    (assign writes tags').lookup name = (assign writes tags).lookup name := by
  induction writes generalizing tags tags' with
  | nil => exact same
  | cons write rest ih =>
      refine ih ?_
      rw [lookup_setTag, lookup_setTag, same]

/-! ## One actuator -/

namespace Cylinder

variable {cylinder cylinder' : Cylinder} {tags tags' : List (String × Value)} {name : String}
  {direction : Direction} {now later : Nat}

/-- Where an actuator stands; nowhere while it is on its way. -/
def position (cylinder : Cylinder) : Option Direction :=
  if cylinder.arrival.isNone then some cylinder.commanded else none

/-- The end sensors show where an actuator stands. -/
def Shown (cylinder : Cylinder) (tags : List (String × Value)) : Prop :=
  ∀ direction, tags.lookup (cylinder.tags.sensor direction) =
    some (.bool (cylinder.position == some direction))

namespace Shown

theorem not_both (shown : cylinder.Shown tags) :
    ¬ (tags.lookup cylinder.tags.extended = some (.bool true) ∧
      tags.lookup cylinder.tags.retracted = some (.bool true)) := by
  rintro ⟨extended, retracted⟩
  have atExtended := (shown .extend).symm.trans extended
  have atRetracted := (shown .retract).symm.trans retracted
  simp only [Option.some.injEq, Value.bool.injEq, beq_iff_eq] at atExtended atRetracted
  simp [atExtended] at atRetracted

/-- At rest the sensor of the destination is on. -/
theorem lookup_of_rest (shown : cylinder.Shown tags) (rests : cylinder.arrival = none)
    (direction : Direction) :
    tags.lookup (cylinder.tags.sensor direction) =
      some (.bool (direction == cylinder.commanded)) := by
  rw [shown direction, position, rests, Option.isNone_none, if_pos rfl]
  cases direction <;> cases cylinder.commanded <;> rfl

/-- On the way both sensors are off. -/
theorem lookup_of_travel {time : Nat} (shown : cylinder.Shown tags)
    (travels : cylinder.arrival = some time) (direction : Direction) :
    tags.lookup (cylinder.tags.sensor direction) = some (.bool false) := by
  rw [shown direction, position, travels]
  rfl

end Shown

/-- An actuator after its time has come. -/
def settled (now : Nat) (cylinder : Cylinder) : Cylinder :=
  { cylinder with arrival := cylinder.arrival.filter (now < ·) }

/-- An actuator after its coils were looked at. -/
def obeyed (travel now : Nat) (tags : List (String × Value)) (cylinder : Cylinder) : Cylinder :=
  (cylinder.obey travel now tags).1

theorem lookup_setSensors_of_not_mem (other : name ∉ cylinder.tags.sensors)
    (position : Option Direction) (tags : List (String × Value)) :
    (cylinder.setSensors position tags).lookup name = tags.lookup name := by
  obtain ⟨extended, retracted⟩ :
      name ≠ cylinder.tags.extended ∧ name ≠ cylinder.tags.retracted := by
    simpa [Tag.Actuator.sensors] using other
  rw [setSensors, lookup_setTag, lookup_setTag, if_neg retracted, if_neg extended]

theorem lookup_setSensors_sensor (apart : cylinder.tags.extended ≠ cylinder.tags.retracted)
    (position : Option Direction) (tags : List (String × Value)) (direction : Direction) :
    (cylinder.setSensors position tags).lookup (cylinder.tags.sensor direction) =
      some (.bool (position == some direction)) := by
  rw [setSensors, lookup_setTag, lookup_setTag]
  cases direction with
  | extend => simp [Tag.Actuator.sensor, apart]
  | retract => simp [Tag.Actuator.sensor]

theorem commandOf_congr
    (same : ∀ coil ∈ cylinder.tags.coils, tags'.lookup coil = tags.lookup coil) :
    cylinder.commandOf tags' = cylinder.commandOf tags := by
  have extend : coil tags' cylinder.tags.extend = coil tags cylinder.tags.extend := by
    rw [coil, coil, same _ List.mem_cons_self]
  have retract :
      cylinder.tags.retract.map (coil tags') = cylinder.tags.retract.map (coil tags) := by
    cases isRetract : cylinder.tags.retract with
    | none => rfl
    | some name =>
        have among : name ∈ cylinder.tags.coils := by simp [Tag.Actuator.coils, isRetract]
        rw [Option.map_some, Option.map_some, coil, coil, same name among]
  rw [commandOf, commandOf, extend, retract]

theorem settle_fst (now : Nat) (cylinder : Cylinder) (tags : List (String × Value)) :
    (cylinder.settle now tags).1 = cylinder.settled now := by
  obtain ⟨signals, commanded, arrival, jammed⟩ := cylinder
  cases arrival with
  | none => rfl
  | some time => by_cases arrives : time ≤ now <;> simp [settle, settled, Option.filter, arrives]

theorem settled_settled (before : now ≤ later) (cylinder : Cylinder) :
    (cylinder.settled now).settled later = cylinder.settled later := by
  have arrives : ∀ time,
      (decide (now < time) && decide (later < time)) = decide (later < time) := by
    intro time
    rw [← Bool.decide_and, decide_eq_decide]
    exact and_iff_right_of_imp (Nat.lt_of_le_of_lt before)
  simp only [settled, Option.filter_filter, arrives]

theorem commandOf_eq_of_tags (same : cylinder'.tags = cylinder.tags)
    (tags : List (String × Value)) : cylinder'.commandOf tags = cylinder.commandOf tags := by
  rw [commandOf, commandOf, same]

theorem obeyed_of_jammed (jammed : cylinder.jammed = true) (travel now : Nat)
    (tags : List (String × Value)) : cylinder.obeyed travel now tags = cylinder := by
  rw [obeyed, obey]
  split
  · rfl
  · rw [jammed, Bool.true_or, if_pos rfl]

/-- An actuator that moves freely goes where its coils point, and is on its way for the travel
time if that is the other end. -/
theorem obeyed_of_free (free : cylinder.jammed = false) (travel now : Nat)
    (tags : List (String × Value)) :
    cylinder.obeyed travel now tags =
      { cylinder with
        commanded := (cylinder.commandOf tags).getD cylinder.commanded
        arrival :=
          if (cylinder.commandOf tags).getD cylinder.commanded = cylinder.commanded then
            cylinder.arrival
          else some (now + travel) } := by
  rw [obeyed, obey]
  cases commands : cylinder.commandOf tags with
  | none => simp
  | some direction =>
      by_cases same : direction = cylinder.commanded
      · subst same
        simp
      · simp [free, same]

/-- Whether an actuator is seen to arrive before it obeys makes no difference afterwards. -/
theorem settled_obeyed_settled (travel now : Nat) (tags : List (String × Value))
    (cylinder : Cylinder) :
    ((cylinder.settled now).obeyed travel now tags).settled now =
      (cylinder.obeyed travel now tags).settled now := by
  have twice := cylinder.settled_settled (Nat.le_refl now)
  cases free : cylinder.jammed with
  | true =>
      have free' : (cylinder.settled now).jammed = true := free
      rw [obeyed_of_jammed free, obeyed_of_jammed free', twice]
  | false =>
      have free' : (cylinder.settled now).jammed = false := free
      have commands : (cylinder.settled now).commandOf tags = cylinder.commandOf tags := rfl
      have commanded : (cylinder.settled now).commanded = cylinder.commanded := rfl
      rw [obeyed_of_free free, obeyed_of_free free', commands, commanded]
      by_cases same : (cylinder.commandOf tags).getD cylinder.commanded = cylinder.commanded
      · rw [if_pos same, if_pos same, same]
        exact twice
      · rw [if_neg same, if_neg same]
        rfl

end Cylinder

/-! ## All actuators in turn -/

/-- A change of an actuator that reads its coils, sets its sensors, and lets them show where it
stands. -/
structure Minds (change : Cylinder → List (String × Value) → Cylinder × List (String × Value)) :
    Prop where
  tags_eq : ∀ cylinder tags, (change cylinder tags).1.tags = cylinder.tags
  congr : ∀ cylinder tags tags',
    (∀ coil ∈ cylinder.tags.coils, tags'.lookup coil = tags.lookup coil) →
      (change cylinder tags').1 = (change cylinder tags).1
  lookup_eq : ∀ cylinder tags name, name ∉ cylinder.tags.sensors →
    (change cylinder tags).2.lookup name = tags.lookup name
  shown : ∀ cylinder tags, cylinder.tags.extended ≠ cylinder.tags.retracted →
    cylinder.Shown tags → (change cylinder tags).1.Shown (change cylinder tags).2

theorem minds_settle (now : Nat) : Minds (Cylinder.settle now) where
  tags_eq cylinder tags := by
    rw [Cylinder.settle_fst]
    rfl
  congr cylinder tags tags' _ := by
    rw [Cylinder.settle_fst, Cylinder.settle_fst]
  lookup_eq cylinder tags name other := by
    rw [Cylinder.settle]
    split
    · exact Cylinder.lookup_setSensors_of_not_mem other _ tags
    · rfl
  shown cylinder tags apart shown := by
    rw [Cylinder.settle]
    split
    · exact Cylinder.lookup_setSensors_sensor apart _ tags
    · exact shown

theorem minds_obey (travel now : Nat) : Minds (Cylinder.obey travel now) where
  tags_eq cylinder tags := by
    rw [Cylinder.obey]
    split
    · rfl
    · split <;> rfl
  congr cylinder tags tags' same := by
    rw [Cylinder.obey, Cylinder.obey, Cylinder.commandOf_congr same]
    split
    · rfl
    · split <;> rfl
  lookup_eq cylinder tags name other := by
    rw [Cylinder.obey]
    split
    · rfl
    · split
      · rfl
      · exact Cylinder.lookup_setSensors_of_not_mem other _ tags
  shown cylinder tags apart shown := by
    rw [Cylinder.obey]
    split
    · exact shown
    · split
      · exact shown
      · exact Cylinder.lookup_setSensors_sensor apart _ tags

/-- Each actuator changes as if it were alone. -/
theorem Minds.eachCylinder
    {change : Cylinder → List (String × Value) → Cylinder × List (String × Value)}
    (minds : Minds change) {cylinders : List Cylinder}
    (distinct : Tag.Actuator.Distinct (cylinders.map (·.tags))) {tags : List (String × Value)}
    (shown : ∀ cylinder ∈ cylinders, cylinder.Shown tags) :
    (Controller.eachCylinder change cylinders tags).1 =
        cylinders.map (fun cylinder => (change cylinder tags).1) ∧
      (∀ cylinder ∈ (Controller.eachCylinder change cylinders tags).1,
        cylinder.Shown (Controller.eachCylinder change cylinders tags).2) ∧
      ∀ name, (∀ cylinder ∈ cylinders, name ∉ cylinder.tags.sensors) →
        (Controller.eachCylinder change cylinders tags).2.lookup name = tags.lookup name := by
  induction cylinders generalizing tags with
  | nil => exact ⟨rfl, by simp [Controller.eachCylinder], fun _ _ => rfl⟩
  | cons cylinder rest ih =>
      obtain ⟨here, behind⟩ := List.forall_mem_cons.mp shown
      obtain ⟨apart, others, foreign⟩ := distinct.cons
      rw [List.forall_mem_map] at foreign
      -- The others do not see what the first one sets.
      have unseen : ∀ other ∈ rest, ∀ name ∈ other.tags.signals,
          (change cylinder tags).2.lookup name = tags.lookup name := by
        intro other among name inside
        apply minds.lookup_eq
        exact fun own => foreign other among name inside (List.mem_append_right _ own)
      have still : ∀ other ∈ rest, other.Shown (change cylinder tags).2 := by
        intro other among direction
        rw [unseen other among _ (List.mem_append_right _ (other.tags.sensor_mem direction))]
        exact behind other among direction
      obtain ⟨cylinders, shownLater, same⟩ := ih others still
      simp only [Controller.eachCylinder, List.map_cons]
      refine ⟨?_, ?_, ?_⟩
      · rw [cylinders, List.cons_inj_right]
        apply List.map_congr_left
        intro other among
        apply minds.congr
        exact fun coil inside => unseen other among coil (List.mem_append_left _ inside)
      · refine List.forall_mem_cons.mpr ⟨fun direction => ?_, shownLater⟩
        rw [same, minds.shown cylinder tags apart here direction]
        intro other among inside
        rw [minds.tags_eq] at inside
        exact foreign other among _ (List.mem_append_right _ inside)
          (List.mem_append_right _ (cylinder.tags.sensor_mem direction))
      · intro name elsewhere
        obtain ⟨outside, elsewhere⟩ := List.forall_mem_cons.mp elsewhere
        rw [same name elsewhere, minds.lookup_eq cylinder tags name outside]

/-! ## Controllers whose sensors show where their actuators stand -/

namespace Controller

variable {actuators : List Tag.Actuator} {controller : Controller} {writes : List Write}

/-- A controller with these actuators, all at rest in the retracted position. -/
def ofActuators (travel : Nat) (actuators : List Tag.Actuator) : Controller :=
  actuators.foldl addActuator (start travel)

/-- A further actuator comes with its own signals only. -/
theorem lookup_addActuator_of_not_mem {tags : Tag.Actuator} {name : String}
    (elsewhere : name ∉ tags.signals) :
    (controller.addActuator tags).tags.lookup name = controller.tags.lookup name := by
  obtain ⟨coils, sensors⟩ : name ∉ tags.coils ∧ name ∉ tags.sensors := by
    rw [← not_or, ← List.mem_append]
    exact elsewhere
  rw [addActuator, Cylinder.lookup_setSensors_of_not_mem sensors]
  cases isRetract : tags.retract with
  | none =>
      have other : name ≠ tags.extend := by simpa [Tag.Actuator.coils, isRetract] using coils
      exact (lookup_setTag _ _ _ _).trans (if_neg other)
  | some retract =>
      obtain ⟨other, other'⟩ : name ≠ tags.extend ∧ name ≠ retract := by
        simpa [Tag.Actuator.coils, isRetract] using coils
      exact ((lookup_setTag _ _ _ _).trans (if_neg other')).trans
        ((lookup_setTag _ _ _ _).trans (if_neg other))

/-- The actuators of a controller are the given ones, and their sensors show where they stand. -/
structure Sound (actuators : List Tag.Actuator) (controller : Controller) : Prop where
  tags_eq : controller.cylinders.map (·.tags) = actuators
  shown : ∀ cylinder ∈ controller.cylinders, cylinder.Shown controller.tags

namespace Sound

theorem mem_actuators (sound : controller.Sound actuators) {cylinder : Cylinder}
    (among : cylinder ∈ controller.cylinders) : cylinder.tags ∈ actuators :=
  sound.tags_eq ▸ List.mem_map_of_mem among

/-- A change that all actuators mind, beginning with tags that differ from those of a controller
in no sensor. -/
theorem eachCylinder {tags : List (String × Value)} (sound : controller.Sound actuators)
    (distinct : Tag.Actuator.Distinct actuators)
    (sensors : ∀ actuator ∈ actuators, ∀ name ∈ actuator.sensors,
      tags.lookup name = controller.tags.lookup name)
    {change : Cylinder → List (String × Value) → Cylinder × List (String × Value)}
    (minds : Minds change) (after : Controller)
    (cylinders : after.cylinders = (Controller.eachCylinder change controller.cylinders tags).1)
    (set : after.tags = (Controller.eachCylinder change controller.cylinders tags).2) :
    after.Sound actuators ∧
      after.cylinders = controller.cylinders.map (fun cylinder => (change cylinder tags).1) ∧
      ∀ name, (∀ actuator ∈ actuators, name ∉ actuator.sensors) →
        after.tags.lookup name = tags.lookup name := by
  have shown : ∀ cylinder ∈ controller.cylinders, cylinder.Shown tags := by
    intro cylinder among direction
    rw [sensors _ (sound.mem_actuators among) _ (cylinder.tags.sensor_mem direction)]
    exact sound.shown cylinder among direction
  obtain ⟨changed, shownLater, same⟩ := minds.eachCylinder (sound.tags_eq ▸ distinct) shown
  rw [← cylinders] at changed shownLater
  rw [← set] at shownLater
  refine ⟨⟨?_, shownLater⟩, changed, ?_⟩
  · rw [changed, List.map_map, ← sound.tags_eq]
    exact List.map_congr_left fun cylinder _ => minds.tags_eq cylinder tags
  · intro name elsewhere
    rw [set, same name fun cylinder among => elsewhere _ (sound.mem_actuators among)]

theorem settle (sound : controller.Sound actuators) (distinct : Tag.Actuator.Distinct actuators)
    (now : Nat) :
    (controller.settle now).Sound actuators ∧
      (controller.settle now).cylinders = controller.cylinders.map (Cylinder.settled now) ∧
      ∀ name, (∀ actuator ∈ actuators, name ∉ actuator.sensors) →
        (controller.settle now).tags.lookup name = controller.tags.lookup name := by
  have settled := sound.eachCylinder distinct (fun _ _ _ _ => rfl) (minds_settle now)
    (controller.settle now) rfl rfl
  simpa only [Cylinder.settle_fst] using settled

/-- A write that spares the sensors moves every actuator by the coils that it leaves. -/
theorem write (sound : controller.Sound actuators) (distinct : Tag.Actuator.Distinct actuators)
    (spares : ∀ write ∈ writes, ∀ actuator ∈ actuators, write.tag ∉ actuator.sensors)
    (accepts : controller.refusesWrites = false) (now : Nat) :
    (controller.write writes now).2.Sound actuators ∧
      (controller.write writes now).2.cylinders = controller.cylinders.map (fun cylinder =>
        (cylinder.obeyed controller.travel now (assign writes controller.tags)).settled now) ∧
      ∀ name, (∀ actuator ∈ actuators, name ∉ actuator.sensors) →
        (controller.write writes now).2.tags.lookup name =
          (assign writes controller.tags).lookup name := by
  have written : (controller.write writes now).2 = (obey now { controller with
      tags := assign writes controller.tags, log := controller.log ++ [writes] }).settle now := by
    rw [Controller.write, accepts]
    rfl
  have sensors : ∀ actuator ∈ actuators, ∀ name ∈ actuator.sensors,
      (assign writes controller.tags).lookup name = controller.tags.lookup name := by
    intro actuator among name inside
    apply lookup_assign_of_ne
    intro write first same
    exact spares write first actuator among (same ▸ inside)
  obtain ⟨obeys, obeyed, kept⟩ := sound.eachCylinder distinct sensors
    (minds_obey controller.travel now) (obey now { controller with
      tags := assign writes controller.tags, log := controller.log ++ [writes] }) rfl rfl
  obtain ⟨settles, settled, keptToo⟩ := obeys.settle distinct now
  rw [written]
  refine ⟨settles, ?_, ?_⟩
  · rw [settled, obeyed, List.map_map]
    rfl
  · intro name elsewhere
    rw [keptToo name elsewhere, kept name elsewhere]

theorem jam (sound : controller.Sound actuators) (extend : String) :
    (controller.jam extend).Sound actuators where
  tags_eq := by
    rw [← sound.tags_eq, Controller.jam, List.map_map]
    refine List.map_congr_left fun cylinder _ => ?_
    simp only [Function.comp_apply]
    split <;> rfl
  shown := by
    simp only [Controller.jam, List.forall_mem_map]
    intro cylinder among
    split
    · exact sound.shown cylinder among
    · exact sound.shown cylinder among

theorem start (travel : Nat) : (start travel).Sound [] where
  tags_eq := rfl
  shown := by simp [Controller.start]

theorem addActuator {tags : Tag.Actuator} (sound : controller.Sound actuators)
    (distinct : Tag.Actuator.Distinct (actuators ++ [tags])) :
    (controller.addActuator tags).Sound (actuators ++ [tags]) where
  tags_eq := by
    rw [Controller.addActuator, List.map_append, sound.tags_eq]
    rfl
  shown := by
    obtain ⟨apart, foreign⟩ := distinct.snoc
    refine List.forall_mem_append.mpr ⟨fun cylinder among direction => ?_,
      List.forall_mem_singleton.mpr (Cylinder.lookup_setSensors_sensor apart _ _)⟩
    have elsewhere : cylinder.tags.sensor direction ∉ tags.signals := foreign _
      (sound.mem_actuators among) _ (List.mem_append_right _ (cylinder.tags.sensor_mem direction))
    rw [lookup_addActuator_of_not_mem elsewhere]
    exact sound.shown cylinder among direction

end Sound

theorem sound_ofActuators (travel : Nat) {actuators : List Tag.Actuator}
    (distinct : Tag.Actuator.Distinct actuators) :
    (ofActuators travel actuators).Sound actuators := by
  have adds : ∀ (rest before : List Tag.Actuator) (controller : Controller),
      controller.Sound before → Tag.Actuator.Distinct (before ++ rest) →
        (rest.foldl addActuator controller).Sound (before ++ rest) := by
    intro rest
    induction rest with
    | nil =>
        intro before controller sound _
        rwa [List.append_nil]
    | cons tags rest ih =>
        intro before controller sound distinct
        rw [List.append_cons] at distinct ⊢
        exact ih _ _ (sound.addActuator distinct.left) distinct
  exact adds actuators [] _ (.start travel) distinct

end Controller

/-! ## Operations -/

/-- What can be done with a controller, in a session or beside it. -/
inductive Operation where
  | write (session : Session) (writes : List Write)
  | read (session : Session) (name : String)
  | look (name : String)
  | jam (extend : String)
  | limitWrites (count : Nat)
  | failReads (fails : Bool)

/-- The result of an operation. -/
inductive Answer where
  | written (reply : Except Error Unit)
  | value (reply : Except Error Value)
  | seen (value : Option Value)
  | done

namespace Operation

/-- Operate on a controller. -/
def perform (now : Nat) (controller : Controller) : Operation → Answer × Controller
  | write session writes =>
      let (reply, controller) := session.use (Controller.write writes now) controller
      (.written reply, controller)
  | read session name =>
      let (reply, controller) := session.use (Controller.read name now) controller
      (.value reply, controller)
  | look name =>
      let (value, controller) := controller.tag name now
      (.seen value, controller)
  | jam extend => (.done, controller.jam extend)
  | limitWrites count => (.done, { controller with writeLimit := some count })
  | failReads fails => (.done, { controller with readsFail := fails })

/-- What an operation writes if it succeeds. -/
def writes : Operation → List Write
  | write _ writes => writes
  | _ => []

/-- An operation that writes to no end sensor. -/
def Spares (actuators : List Tag.Actuator) (operation : Operation) : Prop :=
  ∀ write ∈ operation.writes, ∀ actuator ∈ actuators, write.tag ∉ actuator.sensors

instance (actuators : List Tag.Actuator) : DecidablePred (Spares actuators) :=
  fun operation => inferInstanceAs
    (Decidable (∀ write ∈ operation.writes, ∀ actuator ∈ actuators, write.tag ∉ actuator.sensors))

/-- An operation that only looks at a tag. -/
def observes : Operation → Bool
  | read _ _ | look _ => true
  | _ => false

/-- Whether a controller goes along with an operation. -/
def succeeds (controller : Controller) : Operation → Bool
  | write session _ => session.isOpen && !controller.refusesWrites
  | read session _ => session.isOpen && !controller.readsFail
  | _ => true

/-- What an operation that succeeds does to an actuator. -/
def moves (now : Nat) (controller : Controller) (cylinder : Cylinder) : Operation → Cylinder
  | write _ writes =>
      (cylinder.obeyed controller.travel now (assign writes controller.tags)).settled now
  | read _ _ | look _ => cylinder.settled now
  | jam extend =>
      if cylinder.tags.extend = extend then { cylinder with jammed := true } else cylinder
  | limitWrites _ | failReads _ => cylinder

variable {actuators : List Tag.Actuator} {controller : Controller} {operation : Operation}

/-- An operation that fails changes nothing, and is no accepted write. -/
theorem perform_of_fails (now : Nat) (fails : operation.succeeds controller = false) :
    (operation.perform now controller).2 = controller ∧
      (operation.perform now controller).1 ≠ .written (.ok ()) := by
  cases operation with
  | write session writes =>
      cases isOpen : session.isOpen with
      | false => simp [perform, Session.use, isOpen]
      | true =>
          have refuses : controller.refusesWrites = true := by simpa [succeeds, isOpen] using fails
          simp [perform, Session.use, isOpen, Controller.write, refuses]
  | read session name =>
      cases isOpen : session.isOpen with
      | false => simp [perform, Session.use, isOpen]
      | true =>
          have fail : controller.readsFail = true := by simpa [succeeds, isOpen] using fails
          simp [perform, Session.use, isOpen, Controller.read, fail]
  | look name => contradiction
  | jam extend => contradiction
  | limitWrites count => contradiction
  | failReads fails => contradiction

theorem perform_write_fst (now : Nat) (controller : Controller) (session : Session)
    (writes : List Write) :
    ((write session writes).perform now controller).1 = .written (.ok ()) ↔
      (write session writes).succeeds controller = true := by
  refine ⟨fun accepted => ?_, fun succeeds => ?_⟩
  · cases result : (write session writes).succeeds controller with
    | false => exact absurd accepted (perform_of_fails now result).2
    | true => rfl
  · obtain ⟨isOpen, accepts⟩ : session.isOpen = true ∧ controller.refusesWrites = false := by
      simpa [Operation.succeeds] using succeeds
    simp [perform, Session.use, isOpen, Controller.write, accepts]

theorem perform_travel (now : Nat) (controller : Controller) (operation : Operation) :
    (operation.perform now controller).2.travel = controller.travel := by
  cases operation with
  | write session writes =>
      simp only [perform, Session.use, Controller.write]
      split
      · split <;> rfl
      · rfl
  | read session name =>
      simp only [perform, Session.use, Controller.read]
      split
      · split <;> rfl
      · rfl
  | look name => rfl
  | jam extend => rfl
  | limitWrites count => rfl
  | failReads fails => rfl

/-- An operation that succeeds moves each actuator by itself, and sets no other tag but those
written. -/
theorem perform_of_succeeds (sound : controller.Sound actuators)
    (distinct : Tag.Actuator.Distinct actuators) (spares : operation.Spares actuators) (now : Nat)
    (succeeds : operation.succeeds controller = true) :
    (operation.perform now controller).2.Sound actuators ∧
      (operation.perform now controller).2.cylinders =
        controller.cylinders.map (operation.moves now controller ·) ∧
      ∀ name, (∀ actuator ∈ actuators, name ∉ actuator.sensors) →
        (operation.perform now controller).2.tags.lookup name =
          (assign operation.writes controller.tags).lookup name := by
  cases operation with
  | write session writes =>
      obtain ⟨isOpen, accepts⟩ : session.isOpen = true ∧ controller.refusesWrites = false := by
        simpa [Operation.succeeds] using succeeds
      rw [perform, Session.use, if_pos isOpen]
      exact sound.write distinct spares accepts now
  | read session name =>
      obtain ⟨isOpen, works⟩ : session.isOpen = true ∧ controller.readsFail = false := by
        simpa [Operation.succeeds] using succeeds
      rw [perform, Session.use, if_pos isOpen, Controller.read, if_neg (by rw [works]; decide)]
      exact sound.settle distinct now
  | look name => exact sound.settle distinct now
  | jam extend => exact ⟨sound.jam extend, rfl, fun _ _ => rfl⟩
  | limitWrites count =>
      exact ⟨⟨sound.tags_eq, sound.shown⟩, (List.map_id' _).symm, fun _ _ => rfl⟩
  | failReads fails =>
      exact ⟨⟨sound.tags_eq, sound.shown⟩, (List.map_id' _).symm, fun _ _ => rfl⟩

theorem sound_perform (sound : controller.Sound actuators)
    (distinct : Tag.Actuator.Distinct actuators) (spares : operation.Spares actuators) (now : Nat) :
    (operation.perform now controller).2.Sound actuators := by
  cases succeeds : operation.succeeds controller with
  | false =>
      rw [(perform_of_fails now succeeds).1]
      exact sound
  | true => exact (perform_of_succeeds sound distinct spares now succeeds).1

end Operation

end Field

end Pneumatic
