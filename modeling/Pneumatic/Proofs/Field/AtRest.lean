import Pneumatic.Field.Controller
import Pneumatic.Proofs.Tag.Automatic
import Pneumatic.Run.Machine

/-!
# Actuators at rest

Actuators that take no time to travel are at rest whenever their controller is looked at.
Then the last commands decide where each of them stands, and its sensors show it.
-/

namespace Pneumatic

/-- Where actuations leave an actuator: at the end that it was sent to last. -/
def Actuation.heading (start : Direction) (actuations : List Actuation) (label : Char) :
    Direction :=
  actuations.foldl (fun heading actuation =>
    if actuation.label = label then actuation.direction else heading) start

namespace Actuation

variable {start direction : Direction} {actuations : List Actuation} {label : Char}

theorem heading_cons (start : Direction) (actuation : Actuation) (rest : List Actuation)
    (label : Char) :
    heading start (actuation :: rest) label =
      heading (if actuation.label = label then actuation.direction else start) rest label :=
  rfl

theorem heading_append (start : Direction) (actuations more : List Actuation) (label : Char) :
    heading start (actuations ++ more) label =
      heading (heading start actuations label) more label :=
  List.foldl_append

/-- An actuator that is commanded in one direction only ends up there, unless it is not
commanded at all and was elsewhere. -/
theorem heading_of_forall
    (sends : start = direction ∨ ∃ actuation ∈ actuations, actuation.label = label)
    (all : ∀ actuation ∈ actuations, actuation.label = label → actuation.direction = direction) :
    heading start actuations label = direction := by
  induction actuations generalizing start with
  | nil => simpa [heading] using sends
  | cons actuation rest ih =>
      rw [List.forall_mem_cons] at all
      rw [heading_cons]
      refine ih ?_ all.2
      split
      · next here => exact .inl (all.1 here)
      · next elsewhere => simpa [elsewhere] using sends

end Actuation

namespace Field

/-! ## Tags after writes -/

/-- The tags after writes. -/
def assign (writes : List Write) (tags : List (String × Value)) : List (String × Value) :=
  writes.foldl (fun tags write => setTag write.tag write.value tags) tags

variable {tags tags' : List (String × Value)} {writes : List Write} {name : String} {label : Char}
  {direction : Direction}

theorem assign_append (writes more : List Write) (tags : List (String × Value)) :
    assign (writes ++ more) tags = assign more (assign writes tags) :=
  List.foldl_append

theorem lookup_assign_of_ne (other : ∀ write ∈ writes, name ≠ write.tag) :
    (assign writes tags).lookup name = tags.lookup name := by
  induction writes generalizing tags with
  | nil => rfl
  | cons write rest ih =>
      rw [List.forall_mem_cons] at other
      have first := lookup_setTag write.tag name write.value tags
      rw [if_neg other.1] at first
      exact (ih other.2).trans first

theorem command_eq (actuation : Actuation) :
    Run.command actuation =
      [⟨Tag.coil actuation.label actuation.direction.opposite, .bool false⟩,
        ⟨Tag.coil actuation.label actuation.direction, .bool true⟩] := by
  rcases actuation with ⟨label, _ | _⟩ <;> rfl

/-- Commands set coils only. -/
theorem exists_coil_of_mem_commands {actuations : List Actuation} {write : Write}
    (among : write ∈ actuations.flatMap Run.command) :
    ∃ label direction, write.tag = Tag.coil label direction := by
  obtain ⟨actuation, -, inside⟩ := List.mem_flatMap.mp among
  simp only [command_eq, List.mem_cons, List.not_mem_nil, or_false] at inside
  rcases inside with rfl | rfl <;> exact ⟨_, _, rfl⟩

theorem lookup_assign_commands_of_ne {actuations : List Actuation}
    (other : ∀ label direction, name ≠ Tag.coil label direction) :
    (assign (actuations.flatMap Run.command) tags).lookup name = tags.lookup name := by
  refine lookup_assign_of_ne fun write among => ?_
  obtain ⟨label, direction, coil⟩ := exists_coil_of_mem_commands among
  exact coil ▸ other label direction

/-- A command sets both coils of its actuator and no other tag. -/
theorem lookup_assign_command (actuation : Actuation) (tags : List (String × Value)) (label : Char)
    (direction : Direction) :
    (assign (Run.command actuation) tags).lookup (Tag.coil label direction) =
      if actuation.label = label then some (.bool (actuation.direction == direction))
      else tags.lookup (Tag.coil label direction) := by
  rw [command_eq, assign, List.foldl_cons, List.foldl_cons, List.foldl_nil, lookup_setTag,
    lookup_setTag]
  by_cases here : actuation.label = label
  · subst here
    rw [if_pos rfl]
    cases actuation.direction <;> cases direction <;> simp [Direction.opposite, Tag.coil_eq_iff]
  · simp [Tag.coil_eq_iff, here, Ne.symm here]

/-- The commands of actuations leave on the coil of the last one of each actuator. -/
theorem lookup_assign_commands {start : Direction}
    (before : ∀ direction, tags.lookup (Tag.coil label direction) =
      some (.bool (start == direction))) (actuations : List Actuation) (direction : Direction) :
    (assign (actuations.flatMap Run.command) tags).lookup (Tag.coil label direction) =
      some (.bool (Actuation.heading start actuations label == direction)) := by
  induction actuations generalizing start tags with
  | nil => exact before direction
  | cons actuation rest ih =>
      rw [List.flatMap_cons, assign_append, Actuation.heading_cons]
      refine ih fun direction => ?_
      rw [lookup_assign_command]
      split
      · rfl
      · exact before direction

/-! ## Sensors -/

/-- Tags that differ in end sensors only. -/
def AgreeOffSensors (tags tags' : List (String × Value)) : Prop :=
  ∀ name, (∀ label direction, name ≠ (Tag.Actuator.auto label).sensor direction) →
    tags'.lookup name = tags.lookup name

namespace AgreeOffSensors

theorem refl (tags : List (String × Value)) : AgreeOffSensors tags tags :=
  fun _ _ => rfl

theorem trans {tags'' : List (String × Value)} (first : AgreeOffSensors tags tags')
    (second : AgreeOffSensors tags' tags'') : AgreeOffSensors tags tags'' :=
  fun name other => (second name other).trans (first name other)

theorem coil (agree : AgreeOffSensors tags tags') (label : Char) (direction : Direction) :
    tags'.lookup (Tag.coil label direction) = tags.lookup (Tag.coil label direction) :=
  agree _ fun label' direction' => Tag.coil_ne_sensor label label' direction direction'

end AgreeOffSensors

variable {cylinder : Cylinder} {owner : Char}

theorem lookup_setSensors (isAuto : cylinder.tags = .auto owner) (position : Option Direction)
    (tags : List (String × Value)) (label : Char) (direction : Direction) :
    (cylinder.setSensors position tags).lookup ((Tag.Actuator.auto label).sensor direction) =
      if label = owner then some (.bool (position == some direction))
      else tags.lookup ((Tag.Actuator.auto label).sensor direction) := by
  have retracted : cylinder.tags.retracted = (Tag.Actuator.auto owner).sensor .retract := by
    rw [isAuto]
    rfl
  have extended : cylinder.tags.extended = (Tag.Actuator.auto owner).sensor .extend := by
    rw [isAuto]
    rfl
  rw [Cylinder.setSensors, retracted, extended, lookup_setTag, lookup_setTag]
  by_cases here : label = owner <;> cases direction <;> simp [Tag.sensor_eq_iff, here]

theorem agreeOffSensors_setSensors (isAuto : cylinder.tags = .auto owner)
    (position : Option Direction) (tags : List (String × Value)) :
    AgreeOffSensors tags (cylinder.setSensors position tags) := by
  intro name other
  have retracted : name ≠ cylinder.tags.retracted := isAuto ▸ other owner .retract
  have extended : name ≠ cylinder.tags.extended := isAuto ▸ other owner .extend
  rw [Cylinder.setSensors, lookup_setTag, lookup_setTag, if_neg retracted, if_neg extended]

/-- A change of every actuator that sees no sensors, and sets the sensors of some. -/
theorem eachCylinder_auto
    {change : Cylinder → List (String × Value) → Cylinder × List (String × Value)}
    {before after : Char → Cylinder} {shown : Char → Option (Option Direction)}
    (isAuto : ∀ label, (before label).tags = .auto label) {labels : List Char}
    (changes : ∀ label ∈ labels, ∀ tags', AgreeOffSensors tags tags' →
      change (before label) tags' =
        (after label, (shown label).elim tags' ((before label).setSensors · tags'))) :
    (Controller.eachCylinder change (labels.map before) tags).1 = labels.map after ∧
      AgreeOffSensors tags (Controller.eachCylinder change (labels.map before) tags).2 ∧
      ∀ label direction,
        (Controller.eachCylinder change (labels.map before) tags).2.lookup
            ((Tag.Actuator.auto label).sensor direction) =
          if label ∈ labels then
            (shown label).elim (tags.lookup ((Tag.Actuator.auto label).sensor direction))
              fun position => some (.bool (position == some direction))
          else tags.lookup ((Tag.Actuator.auto label).sensor direction) := by
  induction labels generalizing tags with
  | nil => exact ⟨rfl, .refl tags, fun _ _ => rfl⟩
  | cons owner rest ih =>
      rw [List.forall_mem_cons] at changes
      have first := changes.1 tags (.refl tags)
      have agree : AgreeOffSensors tags
          ((shown owner).elim tags ((before owner).setSensors · tags)) := by
        cases shown owner with
        | none => exact .refl tags
        | some position => exact agreeOffSensors_setSensors (isAuto owner) position tags
      obtain ⟨cylinders, later, sensors⟩ := ih fun label membership tags' agree' =>
        changes.2 label membership tags' (agree.trans agree')
      simp only [List.map_cons, Controller.eachCylinder, first]
      refine ⟨by rw [cylinders], agree.trans later, ?_⟩
      intro label direction
      rw [sensors]
      by_cases here : label = owner
      · subst here
        cases shown label <;> simp [lookup_setSensors (isAuto label)]
      · cases shown owner <;> simp [lookup_setSensors (isAuto owner), here]

/-! ## Actuators on their way -/

namespace Cylinder

/-- An automatically named actuator that stands still. -/
def standing (label : Char) (position : Direction) : Cylinder :=
  ⟨.auto label, position, none, false⟩

/-- The actuator when it was just sent somewhere, to arrive at once. -/
def sent (label : Char) (position heading : Direction) (now : Nat) : Cylinder :=
  ⟨.auto label, heading, if heading = position then none else some now, false⟩

variable {position heading : Direction}

theorem commandOf_auto (isAuto : cylinder.tags = .auto label)
    (coils : ∀ direction, tags.lookup (Tag.coil label direction) =
      some (.bool (heading == direction))) :
    cylinder.commandOf tags = some heading := by
  have extend : coil tags cylinder.tags.extend = (heading == .extend) := by
    rw [isAuto, coil]
    change (tags.lookup (Tag.coil label .extend) == _) = _
    rw [coils]
    cases heading <;> rfl
  have retract : cylinder.tags.retract.map (coil tags) = some (heading == .retract) := by
    rw [isAuto]
    change some (tags.lookup (Tag.coil label .retract) == _) = _
    rw [coils]
    cases heading <;> rfl
  rw [commandOf]
  simp only [extend, retract]
  cases heading <;> rfl

/-- Coils send an actuator to the other end, and its sensors go off. -/
theorem obey_standing (now : Nat)
    (coils : ∀ direction, tags.lookup (Tag.coil label direction) =
      some (.bool (heading == direction))) :
    obey 0 now (standing label position) tags =
      (sent label position heading now,
        (if heading = position then none else some none).elim tags
          ((standing label position).setSensors · tags)) := by
  rw [obey, commandOf_auto rfl coils]
  by_cases same : heading = position <;> simp [standing, sent, same]

/-- An actuator that was sent somewhere is there, and its sensors show it. -/
theorem settle_sent (now : Nat) (tags : List (String × Value)) :
    settle now (sent label position heading now) tags =
      (standing label heading,
        (if heading = position then none else some (some heading)).elim tags
          ((sent label position heading now).setSensors · tags)) := by
  rw [settle]
  by_cases same : heading = position <;> simp [standing, sent, same]

theorem settle_standing (now : Nat) (tags : List (String × Value)) :
    settle now (standing label position) tags = (standing label position, tags) :=
  rfl

end Cylinder

/-! ## Controllers -/

namespace Controller

theorem eachCylinder_of_fixed
    {change : Cylinder → List (String × Value) → Cylinder × List (String × Value)}
    {cylinders : List Cylinder}
    (fixed : ∀ cylinder ∈ cylinders, change cylinder tags = (cylinder, tags)) :
    eachCylinder change cylinders tags = (cylinders, tags) := by
  induction cylinders with
  | nil => rfl
  | cons cylinder rest ih =>
      rw [List.forall_mem_cons] at fixed
      simp only [eachCylinder, fixed.1, ih fixed.2]

/-- A controller of automatically named actuators that take no time to travel, do as they are
told, and stand still.  Their coils and sensors show where. -/
structure AtRest (controller : Controller) (labels : List Char) (position : Char → Direction) :
    Prop where
  travel : controller.travel = 0
  writeLimit : controller.writeLimit = none
  readsFail : controller.readsFail = false
  cylinders : controller.cylinders = labels.map fun label => .standing label (position label)
  coil : ∀ label ∈ labels, ∀ direction,
    controller.tags.lookup (Tag.coil label direction) = some (.bool (position label == direction))
  sensor : ∀ label ∈ labels, ∀ direction,
    controller.tags.lookup ((Tag.Actuator.auto label).sensor direction) =
      some (.bool (position label == direction))

/-- A write that is accepted and leaves the actuators standing where they are sent. -/
structure Accepts (controller : Controller) (labels : List Char) (writes : List Write) (now : Nat)
    (heading : Char → Direction) : Prop where
  reply : (controller.write writes now).1 = .ok ()
  rests : (controller.write writes now).2.AtRest labels heading
  log : (controller.write writes now).2.log = controller.log ++ [writes]
  agree : AgreeOffSensors (assign writes controller.tags) (controller.write writes now).2.tags

variable {controller : Controller} {labels : List Char} {position heading : Char → Direction}

/-- Whatever the coils command is done at once. -/
theorem settle_obey (travel : controller.travel = 0)
    (cylinders : controller.cylinders = labels.map fun label => .standing label (position label))
    (coil : ∀ label ∈ labels, ∀ direction,
      controller.tags.lookup (Tag.coil label direction) = some (.bool (heading label == direction)))
    (sensor : ∀ label ∈ labels, ∀ direction,
      controller.tags.lookup ((Tag.Actuator.auto label).sensor direction) =
        some (.bool (position label == direction))) (now : Nat) :
    ∃ tags, (controller.obey now).settle now =
        { controller with
          cylinders := labels.map fun label => .standing label (heading label), tags } ∧
      AgreeOffSensors controller.tags tags ∧
      ∀ label ∈ labels, ∀ direction,
        tags.lookup ((Tag.Actuator.auto label).sensor direction) =
          some (.bool (heading label == direction)) := by
  have sends := @eachCylinder_auto controller.tags (Cylinder.obey 0 now)
    (fun label => .standing label (position label))
    (fun label => .sent label (position label) (heading label) now)
    (fun label => if heading label = position label then none else some none)
    (fun _ => rfl) labels fun label membership tags' agree =>
      Cylinder.obey_standing now fun direction =>
        (agree.coil label direction).trans (coil label membership direction)
  obtain ⟨sent, agree, off⟩ := sends
  have arrives := @eachCylinder_auto
    (eachCylinder (Cylinder.obey 0 now) controller.cylinders controller.tags).2
    (Cylinder.settle now)
    (fun label => .sent label (position label) (heading label) now)
    (fun label => .standing label (heading label))
    (fun label => if heading label = position label then none else some (some (heading label)))
    (fun _ => rfl) labels fun label _ tags' _ => Cylinder.settle_sent now tags'
  rw [← cylinders] at sent agree off
  rw [← sent] at arrives
  obtain ⟨standing, agree', on⟩ := arrives
  refine ⟨_, ?_, agree.trans agree', ?_⟩
  · rw [← standing, settle, obey, travel]
  · intro label membership direction
    rw [on, if_pos membership, off, if_pos membership, sensor label membership]
    by_cases same : heading label = position label <;> simp [same]

namespace AtRest

/-- A write is accepted, and what its coils command is done at once. -/
theorem accepts (rests : controller.AtRest labels position) {writes : List Write} (now : Nat)
    (coil : ∀ label ∈ labels, ∀ direction,
      (assign writes controller.tags).lookup (Tag.coil label direction) =
        some (.bool (heading label == direction)))
    (sensors : ∀ write ∈ writes, ∀ label direction,
      (Tag.Actuator.auto label).sensor direction ≠ write.tag) :
    controller.Accepts labels writes now heading := by
  let before : Controller :=
    { controller with
      tags := assign writes controller.tags
      log := controller.log ++ [writes] }
  have stays : ∀ label ∈ labels, ∀ direction,
      before.tags.lookup ((Tag.Actuator.auto label).sensor direction) =
        some (.bool (position label == direction)) := by
    intro label membership direction
    rw [← rests.sensor label membership]
    exact lookup_assign_of_ne fun write inside => sensors write inside label direction
  obtain ⟨tags, written, agree, sensor⟩ :=
    @settle_obey before labels position heading rests.travel rests.cylinders coil stays now
  have accepting : controller.refusesWrites = false := by
    rw [refusesWrites, rests.writeLimit]
    rfl
  have accepted : controller.write writes now = (.ok (), (before.obey now).settle now) := by
    rw [Controller.write, accepting]
    rfl
  rw [written] at accepted
  constructor <;> rw [accepted]
  · exact
      { travel := rests.travel
        writeLimit := rests.writeLimit
        readsFail := rests.readsFail
        cylinders := rfl
        coil := fun label membership direction =>
          (agree.coil label direction).trans (coil label membership direction)
        sensor }
  · exact agree

/-- Actuations send their actuators on at once. -/
theorem accepts_commands (rests : controller.AtRest labels position) (actuations : List Actuation)
    (now : Nat) :
    controller.Accepts labels (actuations.flatMap Run.command) now
      fun label => Actuation.heading (position label) actuations label := by
  refine rests.accepts now ?_ ?_
  · intro label membership direction
    exact lookup_assign_commands (rests.coil label membership) actuations direction
  · intro write among label direction
    obtain ⟨owner, other, coil⟩ := exists_coil_of_mem_commands among
    exact coil ▸ (Tag.coil_ne_sensor owner label other direction).symm

/-- Writes to other tags leave the actuators where they are. -/
theorem accepts_others (rests : controller.AtRest labels position) {writes : List Write} (now : Nat)
    (coils : ∀ write ∈ writes, ∀ label direction, Tag.coil label direction ≠ write.tag)
    (sensors : ∀ write ∈ writes, ∀ label direction,
      (Tag.Actuator.auto label).sensor direction ≠ write.tag) :
    controller.Accepts labels writes now position := by
  refine rests.accepts now ?_ sensors
  intro label membership direction
  rw [lookup_assign_of_ne fun write among => coils write among label direction]
  exact rests.coil label membership direction

theorem openSession (rests : controller.AtRest labels position) :
    controller.openSession.AtRest labels position :=
  ⟨rests.travel, rests.writeLimit, rests.readsFail, rests.cylinders, rests.coil, rests.sensor⟩

theorem closeSession (rests : controller.AtRest labels position) :
    controller.closeSession.AtRest labels position :=
  ⟨rests.travel, rests.writeLimit, rests.readsFail, rests.cylinders, rests.coil, rests.sensor⟩

/-- Nothing happens while the actuators stand still. -/
theorem settle (rests : controller.AtRest labels position) (now : Nat) :
    controller.settle now = controller := by
  rw [Controller.settle, eachCylinder_of_fixed]
  rw [rests.cylinders]
  exact List.forall_mem_map.mpr fun label _ => Cylinder.settle_standing now controller.tags

theorem tag (rests : controller.AtRest labels position) (name : String) (now : Nat) :
    controller.tag name now = (controller.tags.lookup name, controller) := by
  rw [Controller.tag, rests.settle now]

/-- Reading a tag that is there changes nothing. -/
theorem read (rests : controller.AtRest labels position) {name : String} {value : Value}
    (found : controller.tags.lookup name = some value) (now : Nat) :
    controller.read name now = (.ok value, controller) := by
  simp [Controller.read, rests.readsFail, rests.tag, found]

end AtRest

/-! ## New controllers -/

theorem AtRest.addActuator (rests : controller.AtRest labels fun _ => .retract) (label : Char) :
    (controller.addActuator (.auto label)).AtRest (labels ++ [label]) fun _ => .retract := by
  have isAuto : (Cylinder.standing label .retract).tags = .auto label := rfl
  -- A new actuator is set as if it had been retracted.
  let tags := assign ([⟨label, .retract⟩].flatMap Run.command) controller.tags
  have known (other : Char) (among : other ∈ labels ++ [label]) :
      other ∈ labels ∨ other = label := by
    simpa using among
  refine ⟨rests.travel, rests.writeLimit, rests.readsFail, ?_, ?_, ?_⟩
  · rw [List.map_append, ← rests.cylinders]
    rfl
  · intro other among direction
    refine (agreeOffSensors_setSensors isAuto (some .retract) tags).coil other direction |>.trans ?_
    simp only [tags, List.flatMap_cons, List.flatMap_nil, List.append_nil, lookup_assign_command]
    split
    · rfl
    · next elsewhere =>
        exact rests.coil other ((known other among).resolve_right (Ne.symm elsewhere)) direction
  · intro other among direction
    refine (lookup_setSensors isAuto (some .retract) tags other direction).trans ?_
    split
    · rfl
    · next elsewhere =>
        rw [lookup_assign_commands_of_ne fun owner other' =>
          (Tag.coil_ne_sensor owner other other' direction).symm]
        exact rests.sensor other ((known other among).resolve_right elsewhere) direction

/-- The actuators of a new controller are retracted. -/
theorem atRest_withActuators (labels : List Char) :
    (withActuators 0 labels).AtRest labels fun _ => .retract := by
  have begin : (start 0).AtRest [] fun _ => .retract := ⟨rfl, rfl, rfl, rfl, by simp, by simp⟩
  have adds (more : List Char) {controller : Controller} {labels : List Char}
      (rests : controller.AtRest labels fun _ => .retract) :
      (more.foldl (fun controller label => controller.addActuator (.auto label)) controller).AtRest
        (labels ++ more) fun _ => .retract := by
    induction more generalizing controller labels with
    | nil => rwa [List.append_nil]
    | cons label rest ih =>
        rw [List.append_cons]
        exact ih (rests.addActuator label)
  exact adds labels begin

/-- Nothing was written to a new controller. -/
theorem log_withActuators (travel : Nat) (labels : List Char) :
    (withActuators travel labels).log = [] := by
  suffices same : ∀ controller : Controller,
      (labels.foldl (fun controller label => controller.addActuator (.auto label)) controller).log =
        controller.log from same (start travel)
  induction labels with
  | nil => exact fun _ => rfl
  | cons label rest ih => exact fun controller => ih (controller.addActuator (.auto label))

end Controller

end Field

end Pneumatic
