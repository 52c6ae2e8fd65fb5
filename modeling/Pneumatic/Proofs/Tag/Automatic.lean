import Pneumatic.Tag.Naming

/-!
# Automatic names

Without a project every signal has a name, and no two signals have the same one.
-/

namespace Pneumatic.Tag

/-- The signals of a timer without a project. -/
def Timer.auto (number : Nat) : Timer :=
  let component := ComponentId.timer number
  { label := component.label
    power := Role.timerPower.autoName component
    done := Role.timerDone.autoName component
    elapsed := Role.timerElapsed.autoName component }

/-- The value signal of a counter without a project. -/
def counterName (number : Nat) : String :=
  Role.counterValue.autoName (.counter number)

/-! ## No two signals share a name -/

theorem digits_injective {left right : Nat} (equal : Text.digits left = Text.digits right) :
    left = right := by
  rw [← Text.ofDigits_digits left, equal, Text.ofDigits_digits]

namespace Role

/-- What stands in front of the label of the owner in a name. -/
def before : Role → List Char
  | .actuatorExtend | .actuatorRetract => ['C', 'y', 'l', 'i', 'n', 'd', 'e', 'r', '_']
  | .sensorExtended | .sensorRetracted => ['S', 'e', 'n', 's', 'o', 'r', '_']
  | .timerPower | .timerDone | .timerElapsed => ['T', 'i', 'm', 'e', 'r', '_']
  | .counterValue => ['C', 'o', 'u', 'n', 't', 'e', 'r', '_']

/-- What stands behind it. -/
def behind : Role → List Char
  | .actuatorExtend => ['_', 'E', 'x', 't', 'e', 'n', 'd']
  | .actuatorRetract => ['_', 'R', 'e', 't', 'r', 'a', 'c', 't']
  | .sensorExtended => ['_', 'E', 'x', 't', 'e', 'n', 'd', 'e', 'd']
  | .sensorRetracted => ['_', 'R', 'e', 't', 'r', 'a', 'c', 't', 'e', 'd']
  | .timerPower => ['_', 'P', 'o', 'w', 'e', 'r']
  | .timerDone => ['_', 'D', 'o', 'n', 'e']
  | .timerElapsed => ['_', 'E', 'l', 'a', 'p', 's', 'e', 'd']
  | .counterValue => []

/-- The part of the label of a component that tells it from others of its sort. -/
def mark : ComponentId → List Char
  | .actuator label => [label]
  | .timer number | .counter number | .pressure number => Text.digits number

theorem toList_autoName {role : Role} {component : ComponentId}
    (applies : role.appliesTo component = true) :
    (role.autoName component).toList = role.before ++ (mark component ++ role.behind) := by
  cases role <;> cases component <;> first | contradiction | skip
  all_goals
    simp only [autoName, ComponentId.label, before, behind, mark, String.toList_append,
      String.toList_singleton, String.toList_ofList, String.reduceToList,
      List.cons_append, List.nil_append, List.append_nil]

/-- Roles with different endings end in different names. -/
theorem behind_injective {role role' : Role} {left right : List Char}
    (owners : role.owner = role'.owner) (sides : role.before = role'.before)
    (equal : left ++ role.behind = right ++ role'.behind) : role = role' := by
  have reversed := congrArg List.reverse equal
  rw [List.reverse_append, List.reverse_append] at reversed
  cases role <;> cases role' <;>
    first
    | rfl
    | contradiction
    | simp [behind] at reversed

theorem mark_injective {component component' : ComponentId}
    (kinds : component.kind = component'.kind) (equal : mark component = mark component') :
    component = component' := by
  cases component <;> cases component' <;>
    first
    | contradiction
    | simp only [mark, List.cons.injEq, and_true] at equal
      first
      | rw [equal]
      | rw [digits_injective equal]

theorem before_injective {role role' : Role} {left right : List Char}
    (equal : role.before ++ left = role'.before ++ right) :
    role.owner = role'.owner ∧ role.before = role'.before := by
  cases role <;> cases role' <;>
    first
    | exact ⟨rfl, rfl⟩
    | simp [before] at equal

/-- No name belongs to two signals. -/
theorem autoName_injective {role role' : Role} {component component' : ComponentId}
    (applies : role.appliesTo component = true) (applies' : role'.appliesTo component' = true)
    (equal : role.autoName component = role'.autoName component') :
    role = role' ∧ component = component' := by
  have chars := congrArg String.toList equal
  rw [toList_autoName applies, toList_autoName applies'] at chars
  obtain ⟨owners, sides⟩ := before_injective chars
  rw [sides] at chars
  have rest := List.append_cancel_left chars
  obtain rfl := behind_injective owners sides rest
  simp only [appliesTo, beq_iff_eq] at applies applies'
  exact ⟨rfl, mark_injective (applies.trans applies'.symm) (List.append_cancel_right rest)⟩

/-- The timer variable of a run is no signal. -/
theorem autoName_ne_timerVariable {role : Role} {component : ComponentId}
    (applies : role.appliesTo component = true) : role.autoName component ≠ timerVariable := by
  intro equal
  have chars := congrArg String.toList equal
  rw [toList_autoName applies, timerVariable] at chars
  cases role <;> simp [before] at chars

/-- The repeat variable of a run is no signal. -/
theorem autoName_ne_repeatVariable {role : Role} {component : ComponentId}
    (applies : role.appliesTo component = true) : role.autoName component ≠ repeatVariable := by
  intro equal
  have chars := congrArg String.toList equal
  rw [toList_autoName applies, repeatVariable] at chars
  cases role <;> simp [before] at chars

end Role

/-- The role of the coil that moves an actuator in a direction. -/
def Role.coil : Direction → Role
  | .extend => .actuatorExtend
  | .retract => .actuatorRetract

theorem Role.coil_appliesTo (direction : Direction) (label : Char) :
    (Role.coil direction).appliesTo (.actuator label) = true := by
  cases direction <;> rfl

/-- The coil that moves an actuator in a direction. -/
def coil (label : Char) (direction : Direction) : String :=
  (Role.coil direction).autoName (.actuator label)

theorem coil_injective {label label' : Char} {direction direction' : Direction}
    (equal : coil label direction = coil label' direction') :
    label = label' ∧ direction = direction' := by
  obtain ⟨roles, components⟩ := Role.autoName_injective (Role.coil_appliesTo direction label)
    (Role.coil_appliesTo direction' label') equal
  refine ⟨ComponentId.actuator.inj components, ?_⟩
  cases direction <;> cases direction' <;> first | rfl | contradiction

theorem coil_eq_iff {label label' : Char} {direction direction' : Direction} :
    coil label direction = coil label' direction' ↔ label = label' ∧ direction = direction' := by
  refine ⟨coil_injective, ?_⟩
  rintro ⟨rfl, rfl⟩
  rfl

theorem coil_ne_timerVariable (label : Char) (direction : Direction) :
    coil label direction ≠ timerVariable :=
  Role.autoName_ne_timerVariable (Role.coil_appliesTo direction label)

theorem coil_ne_repeatVariable (label : Char) (direction : Direction) :
    coil label direction ≠ repeatVariable :=
  Role.autoName_ne_repeatVariable (Role.coil_appliesTo direction label)

theorem coil_ne_power (label : Char) (direction : Direction) (number : Nat) :
    coil label direction ≠ (Timer.auto number).power := by
  intro equal
  change coil label direction = Role.timerPower.autoName (.timer number) at equal
  have components :=
    (Role.autoName_injective (Role.coil_appliesTo direction label) rfl equal).2
  contradiction

theorem power_injective {left right : Nat}
    (equal : (Timer.auto left).power = (Timer.auto right).power) : left = right := by
  change Role.timerPower.autoName (.timer left) = Role.timerPower.autoName (.timer right) at equal
  exact ComponentId.timer.inj (Role.autoName_injective rfl rfl equal).2

/-- The role of the end sensor of a direction. -/
def Role.sensor : Direction → Role
  | .extend => .sensorExtended
  | .retract => .sensorRetracted

theorem Role.sensor_appliesTo (direction : Direction) (label : Char) :
    (Role.sensor direction).appliesTo (.actuator label) = true := by
  cases direction <;> rfl

theorem sensor_auto (label : Char) (direction : Direction) :
    (Actuator.auto label).sensor direction =
      (Role.sensor direction).autoName (.actuator label) := by
  cases direction <;> rfl

theorem sensor_injective {label label' : Char} {direction direction' : Direction}
    (equal : (Actuator.auto label).sensor direction = (Actuator.auto label').sensor direction') :
    label = label' ∧ direction = direction' := by
  rw [sensor_auto, sensor_auto] at equal
  obtain ⟨roles, components⟩ := Role.autoName_injective (Role.sensor_appliesTo direction label)
    (Role.sensor_appliesTo direction' label') equal
  refine ⟨ComponentId.actuator.inj components, ?_⟩
  cases direction <;> cases direction' <;> first | rfl | contradiction

theorem sensor_eq_iff {label label' : Char} {direction direction' : Direction} :
    (Actuator.auto label).sensor direction = (Actuator.auto label').sensor direction' ↔
      label = label' ∧ direction = direction' := by
  refine ⟨sensor_injective, ?_⟩
  rintro ⟨rfl, rfl⟩
  rfl

theorem coil_ne_sensor (label label' : Char) (direction direction' : Direction) :
    coil label direction ≠ (Actuator.auto label').sensor direction' := by
  intro equal
  rw [sensor_auto] at equal
  have roles := (Role.autoName_injective (Role.coil_appliesTo direction label)
    (Role.sensor_appliesTo direction' label') equal).1
  cases direction <;> cases direction' <;> contradiction

theorem sensor_ne_timerVariable (label : Char) (direction : Direction) :
    (Actuator.auto label).sensor direction ≠ timerVariable :=
  sensor_auto label direction ▸
    Role.autoName_ne_timerVariable (Role.sensor_appliesTo direction label)

theorem sensor_ne_repeatVariable (label : Char) (direction : Direction) :
    (Actuator.auto label).sensor direction ≠ repeatVariable :=
  sensor_auto label direction ▸
    Role.autoName_ne_repeatVariable (Role.sensor_appliesTo direction label)

theorem sensor_ne_done (label : Char) (direction : Direction) (number : Nat) :
    (Actuator.auto label).sensor direction ≠ (Timer.auto number).done := by
  intro equal
  rw [sensor_auto] at equal
  change _ = Role.timerDone.autoName (.timer number) at equal
  have components :=
    (Role.autoName_injective (Role.sensor_appliesTo direction label) rfl equal).2
  contradiction

theorem done_injective {left right : Nat}
    (equal : (Timer.auto left).done = (Timer.auto right).done) : left = right := by
  change Role.timerDone.autoName (.timer left) = Role.timerDone.autoName (.timer right) at equal
  exact ComponentId.timer.inj (Role.autoName_injective rfl rfl equal).2

/-- A command switches on the coil of its direction and no other. -/
theorem coil_mem_command {label label' : Char} {direction direction' : Direction} :
    (coil label direction, true) ∈ (Actuator.auto label').command direction' ↔
      label = label' ∧ direction = direction' := by
  rw [← coil_eq_iff]
  cases direction' <;> simp [Actuator.command, Actuator.auto, coil, Role.coil]

/-- Whether an automatic name is that of a coil of an actuator. -/
def isCoil (name : String) : Bool :=
  Role.actuatorExtend.before.isPrefixOf name.toList

theorem isCoil_autoName {role : Role} {component : ComponentId}
    (applies : role.appliesTo component = true) :
    isCoil (role.autoName component) = (role.before == Role.actuatorExtend.before) := by
  rw [isCoil, Role.toList_autoName applies]
  cases role <;> rfl

theorem isCoil_command (actuation : Actuation) :
    ∀ assignment ∈ (Actuator.auto actuation.label).command actuation.direction,
      isCoil assignment.1 = true := by
  intro assignment membership
  rcases actuation with ⟨label, _ | _⟩
  all_goals
    simp only [Actuator.command, Actuator.auto, Option.map_some, Option.toList_some,
      List.cons_append, List.nil_append, List.mem_cons, List.not_mem_nil, or_false] at membership
    rcases membership with rfl | rfl <;> exact isCoil_autoName rfl

/-- The variables of a run are no counters. -/
theorem counterName_ne_repeatVariable (number : Nat) : counterName number ≠ repeatVariable :=
  Role.autoName_ne_repeatVariable rfl

theorem counterName_injective {left right : Nat} (equal : counterName left = counterName right) :
    left = right :=
  ComponentId.counter.inj (Role.autoName_injective rfl rfl equal).2

end Pneumatic.Tag
