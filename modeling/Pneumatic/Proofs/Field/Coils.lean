import Pneumatic.Proofs.Field.AtRest

/-!
# The coils of a controller

The commands of actuations, one after the other and broken off anywhere, never leave both coils
of an actuator on: each releases the opposite coil first.  What a controller does by itself
changes the end sensors of its actuators and no coil.
-/

namespace Pneumatic.Field

/-- No actuator has both its coils on. -/
def Exclusive (tags : List (String × Value)) : Prop :=
  ∀ label, ¬ (tags.lookup (Tag.coil label .extend) = some (.bool true) ∧
    tags.lookup (Tag.coil label .retract) = some (.bool true))

variable {tags tags' : List (String × Value)} {writes part : List Write}

theorem Exclusive.of_coils (exclusive : Exclusive tags)
    (same : ∀ label direction, tags'.lookup (Tag.coil label direction) =
      tags.lookup (Tag.coil label direction)) : Exclusive tags' := by
  intro label
  rw [same, same]
  exact exclusive label

/-- A coil may be switched off. -/
theorem Exclusive.release (exclusive : Exclusive tags) (label : Char) (direction : Direction) :
    Exclusive (setTag (Tag.coil label direction) (.bool false) tags) := by
  intro other ⟨extend, retract⟩
  rw [lookup_setTag] at extend retract
  split at extend
  · contradiction
  · split at retract
    · contradiction
    · exact exclusive other ⟨extend, retract⟩

/-- A command leaves one coil of its actuator on. -/
theorem Exclusive.command (exclusive : Exclusive tags) (actuation : Actuation) :
    Exclusive (assign (Run.command actuation) tags) := by
  intro label
  rw [lookup_assign_command, lookup_assign_command]
  split
  · cases actuation.direction <;> simp
  · exact exclusive label

/-- Commands may be broken off anywhere. -/
theorem Exclusive.commands (exclusive : Exclusive tags) {actuations : List Actuation}
    (isPart : part <+: actuations.flatMap Run.command) : Exclusive (assign part tags) := by
  induction actuations generalizing tags part with
  | nil =>
      obtain rfl := List.prefix_nil.mp isPart
      exact exclusive
  | cons actuation rest ih =>
      have whole := command_eq actuation
      rw [List.flatMap_cons, whole] at isPart
      -- Broken off before, within, or behind the first command.
      match part with
      | [] => exact exclusive
      | [write] =>
          obtain ⟨rfl, -⟩ := List.cons_prefix_cons.mp isPart
          exact exclusive.release _ _
      | write :: write' :: part =>
          obtain ⟨rfl, behind⟩ := List.cons_prefix_cons.mp isPart
          obtain ⟨rfl, remains⟩ := List.cons_prefix_cons.mp behind
          have commanded := exclusive.command actuation
          rw [whole] at commanded
          have broken := ih commanded remains
          exact broken

/-- Writes to other tags may be broken off anywhere. -/
theorem Exclusive.others (exclusive : Exclusive tags) (isPart : part <+: writes)
    (others : ∀ write ∈ writes, ∀ label direction, Tag.coil label direction ≠ write.tag) :
    Exclusive (assign part tags) := by
  apply exclusive.of_coils
  intro label direction
  exact lookup_assign_of_ne fun write among => others write (isPart.subset among) label direction

namespace Controller

variable {controller : Controller}

/-- Whether all actuators of a controller have automatic names. -/
def Automatic (cylinders : List Cylinder) : Prop :=
  ∀ cylinder ∈ cylinders, ∃ label, cylinder.tags = .auto label

/-- What each actuator does to the sensors leaves all else alone. -/
theorem agree_eachCylinder
    {change : Cylinder → List (String × Value) → Cylinder × List (String × Value)}
    (changes : ∀ cylinder tags, (∃ label, cylinder.tags = .auto label) →
      (change cylinder tags).1.tags = cylinder.tags ∧
        AgreeOffSensors tags (change cylinder tags).2)
    {cylinders : List Cylinder} (automatic : Automatic cylinders) (tags : List (String × Value)) :
    Automatic (eachCylinder change cylinders tags).1 ∧
      AgreeOffSensors tags (eachCylinder change cylinders tags).2 := by
  induction cylinders generalizing tags with
  | nil => exact ⟨automatic, .refl tags⟩
  | cons cylinder rest ih =>
      rw [Automatic, List.forall_mem_cons] at automatic
      obtain ⟨kept, agree⟩ := changes cylinder tags automatic.1
      obtain ⟨automatic', agree'⟩ := ih automatic.2 (change cylinder tags).2
      refine ⟨List.forall_mem_cons.mpr ⟨?_, automatic'⟩, agree.trans agree'⟩
      rw [kept]
      exact automatic.1

theorem agree_settle (automatic : Automatic controller.cylinders) (now : Nat) :
    Automatic (controller.settle now).cylinders ∧
      AgreeOffSensors controller.tags (controller.settle now).tags := by
  refine agree_eachCylinder ?_ automatic controller.tags
  intro cylinder tags ⟨label, isAuto⟩
  unfold Cylinder.settle
  split
  · exact ⟨rfl, agreeOffSensors_setSensors isAuto _ tags⟩
  · exact ⟨rfl, .refl tags⟩

theorem agree_obey (automatic : Automatic controller.cylinders) (now : Nat) :
    Automatic (controller.obey now).cylinders ∧
      AgreeOffSensors controller.tags (controller.obey now).tags := by
  refine agree_eachCylinder ?_ automatic controller.tags
  intro cylinder tags ⟨label, isAuto⟩
  unfold Cylinder.obey
  split
  · exact ⟨rfl, .refl tags⟩
  · split
    · exact ⟨rfl, .refl tags⟩
    · exact ⟨rfl, agreeOffSensors_setSensors isAuto _ tags⟩

/-- A write sets what it says, or nothing if it is refused, and then sensors only. -/
theorem agree_write (automatic : Automatic controller.cylinders) (writes : List Write)
    (now : Nat) :
    Automatic (controller.write writes now).2.cylinders ∧
      (AgreeOffSensors (assign writes controller.tags) (controller.write writes now).2.tags ∨
        (controller.write writes now).2.tags = controller.tags) := by
  unfold write
  split
  · exact ⟨automatic, .inr rfl⟩
  · let written : Controller :=
      { controller with
        tags := assign writes controller.tags
        log := controller.log ++ [writes] }
    have automatic : Automatic written.cylinders := automatic
    obtain ⟨obeyed, agree⟩ := agree_obey automatic now
    obtain ⟨settled, agree'⟩ := agree_settle obeyed now
    exact ⟨settled, .inl (agree.trans agree')⟩

/-- A controller of automatically named actuators, none of which has both its coils on. -/
structure Careful (controller : Controller) : Prop where
  automatic : Automatic controller.cylinders
  exclusive : Exclusive controller.tags

namespace Careful

theorem settle (careful : controller.Careful) (now : Nat) : (controller.settle now).Careful := by
  obtain ⟨settled, agree⟩ := agree_settle careful.automatic now
  exact ⟨settled, careful.exclusive.of_coils agree.coil⟩

/-- A write that leaves no two opposite coils on is carried out or refused. -/
theorem write (careful : controller.Careful) (keeps : Exclusive (assign writes controller.tags))
    (now : Nat) : (controller.write writes now).2.Careful := by
  obtain ⟨written, agree | same⟩ := agree_write careful.automatic writes now
  · exact ⟨written, keeps.of_coils agree.coil⟩
  · exact ⟨written, same ▸ careful.exclusive⟩

theorem alter (careful : controller.Careful) {controller' : Controller}
    (tagsEq : controller'.tags = controller.tags)
    (cylinders : controller'.cylinders.map (·.tags) = controller.cylinders.map (·.tags)) :
    controller'.Careful where
  automatic := by
    have names (cylinders : List Cylinder) : Automatic cylinders ↔
        ∀ tags ∈ cylinders.map (·.tags), ∃ label, tags = .auto label := by
      simp [Automatic]
    rw [names, cylinders, ← names]
    exact careful.automatic
  exclusive := tagsEq ▸ careful.exclusive

/-- A new actuator is set as if it had been retracted. -/
theorem addActuator (careful : controller.Careful) (label : Char) :
    (controller.addActuator (.auto label)).Careful where
  automatic :=
    List.forall_mem_append.mpr ⟨careful.automatic, List.forall_mem_singleton.mpr ⟨label, rfl⟩⟩
  exclusive := by
    have isAuto : (Cylinder.standing label .retract).tags = .auto label := rfl
    have agree := agreeOffSensors_setSensors isAuto (some .retract)
      (assign (Run.command ⟨label, .retract⟩) controller.tags)
    exact (careful.exclusive.command _).of_coils agree.coil

end Careful

theorem careful_withActuators (travel : Nat) (labels : List Char) :
    (withActuators travel labels).Careful := by
  refine List.foldlRecOn labels _ (motive := Careful) ?_ ?_
  · refine ⟨by simp [start, Automatic], ?_⟩
    intro label ⟨extend, _⟩
    simp [start, List.lookup_cons, beq_false_of_ne (Tag.coil_ne_timerVariable label .extend),
      beq_false_of_ne (Tag.coil_ne_repeatVariable label .extend)] at extend
  · intro controller careful label _
    exact careful.addActuator label

end Controller

end Pneumatic.Field
