import Pneumatic.Proofs.Except
import Pneumatic.Proofs.Tag.Automatic
import Mathlib.Data.List.Nodup
import Mathlib.Data.List.Pairwise

/-!
# Names that keep signals apart

Automatic names belong to one signal each, and so do the names of a project if they are
pairwise distinct.  Then each coil of an actuator has at most one opposite, and neither is a
signal of anything else.
-/

namespace Pneumatic

/-! ## The names of a project -/

namespace Project

/-- The name that an entry gives to the signal in a role. -/
def Entry.tag? (role : Tag.Role) : Entry → Option String
  | .actuator entry =>
      match role with
      | .actuatorExtend => some entry.extension
      | .actuatorRetract => entry.retraction
      | .sensorExtended => some entry.extended
      | .sensorRetracted => some entry.retracted
      | _ => none
  | .timer entry =>
      match role with
      | .timerPower => some entry.power
      | .timerDone => some entry.completed
      | .timerElapsed => some entry.elapsed
      | _ => none
  | .counter entry =>
      match role with
      | .counterValue => some entry.value
      | _ => none

/-- The names that an entry gives. -/
def Entry.tags (entry : Entry) : List String :=
  Tag.Role.all.filterMap entry.tag?

/-- The names that a project gives. -/
def tags (project : Project) : List String :=
  project.components.flatMap Entry.tags

variable {project : Project} {label : String}

theorem mem_of_actuator? {entry : Actuator} (found : project.actuator? label = some entry) :
    .actuator entry ∈ project.components ∧ entry.label = label := by
  obtain ⟨component, among, isEntry⟩ := List.exists_of_findSome?_eq_some found
  cases component with
  | actuator other =>
      simp only [Entry.actuatorOf?, Option.ite_none_right_eq_some, Option.some.injEq] at isEntry
      obtain ⟨rfl, rfl⟩ := isEntry
      exact ⟨among, rfl⟩
  | timer | counter => contradiction

theorem mem_of_timer? {entry : Timer} (found : project.timer? label = some entry) :
    .timer entry ∈ project.components ∧ entry.label = label := by
  obtain ⟨component, among, isEntry⟩ := List.exists_of_findSome?_eq_some found
  cases component with
  | timer other =>
      simp only [Entry.timerOf?, Option.ite_none_right_eq_some, Option.some.injEq] at isEntry
      obtain ⟨rfl, rfl⟩ := isEntry
      exact ⟨among, rfl⟩
  | actuator | counter => contradiction

theorem mem_of_counter? {entry : Counter} (found : project.counter? label = some entry) :
    .counter entry ∈ project.components ∧ entry.label = label := by
  obtain ⟨component, among, isEntry⟩ := List.exists_of_findSome?_eq_some found
  cases component with
  | counter other =>
      simp only [Entry.counterOf?, Option.ite_none_right_eq_some, Option.some.injEq] at isEntry
      obtain ⟨rfl, rfl⟩ := isEntry
      exact ⟨among, rfl⟩
  | actuator | timer => contradiction

/-- Where the names of a project are pairwise distinct, each belongs to one signal of one
entry. -/
theorem tag?_injective (distinct : project.tags.Nodup) {entry entry' : Entry}
    (among : entry ∈ project.components) (among' : entry' ∈ project.components)
    {role role' : Tag.Role} {name : String} (named : entry.tag? role = some name)
    (named' : entry'.tag? role' = some name) : entry = entry' ∧ role = role' := by
  obtain ⟨each, between⟩ := List.nodup_flatMap.mp distinct
  have listed (role : Tag.Role) : role ∈ Tag.Role.all := by cases role <;> decide
  have inside : name ∈ entry.tags := List.mem_filterMap.mpr ⟨role, listed role, named⟩
  have inside' : name ∈ entry'.tags := List.mem_filterMap.mpr ⟨role', listed role', named'⟩
  have : Std.Symm (Function.onFun List.Disjoint Entry.tags) :=
    ⟨fun _ _ apart _ here there => apart there here⟩
  -- Two entries share no name, and one entry gives each of its names to one role.
  have same : entry = entry' := by
    by_contra ne
    exact between.forall among among' ne inside inside'
  subst same
  refine ⟨rfl, ?_⟩
  have : Std.Symm fun role role' => ∀ name, entry.tag? role = some name →
      ∀ name', entry.tag? role' = some name' → name ≠ name' :=
    ⟨fun _ _ differ _ here _ there => (differ _ there _ here).symm⟩
  by_contra ne
  have apart := List.pairwise_filterMap.mp (each entry among)
  exact apart.forall (listed role) (listed role') ne name named name named' rfl

end Project

namespace Tag

/-- No name belongs to two signals. -/
def Naming.KeepsApart (naming : Naming) : Prop :=
  ∀ role role' component component' name, naming.resolve role component = .ok name →
    naming.resolve role' component' = .ok name → role = role' ∧ component = component'

namespace Naming

variable {naming : Naming} {project : Project} {role role' : Role}
  {component component' : ComponentId} {name : String} {label : Char}

theorem appliesTo_of_resolve (named : naming.resolve role component = .ok name) :
    role.appliesTo component = true := by
  unfold resolve at named
  split at named
  · contradiction
  · next applies => simpa using applies

theorem keepsApart_automatic : Naming.automatic.KeepsApart := by
  intro role role' component component' name named named'
  have applies := appliesTo_of_resolve named
  have applies' := appliesTo_of_resolve named'
  simp only [resolve, applies, applies', Bool.not_true, Bool.false_eq_true, if_false,
    Except.ok.injEq] at named named'
  exact Role.autoName_injective applies applies' (named.trans named'.symm)

/-- A name that a project gives to a signal is that of an entry. -/
theorem exists_entry_of_given? {label : String}
    (given : given? project label role = some (some name)) :
    ∃ entry ∈ project.components, entry.label = label ∧ entry.tag? role = some name := by
  cases role with
  | actuatorExtend | sensorExtended | sensorRetracted =>
      simp only [given?, Option.some.injEq, Option.map_eq_some_iff] at given
      obtain ⟨entry, found, rfl⟩ := given
      obtain ⟨among, labelEq⟩ := Project.mem_of_actuator? found
      exact ⟨_, among, labelEq, rfl⟩
  | actuatorRetract =>
      simp only [given?] at given
      split at given
      · simp at given
      · next entry found =>
          split at given
          · contradiction
          · obtain ⟨among, labelEq⟩ := Project.mem_of_actuator? found
            exact ⟨_, among, labelEq, Option.some.inj given⟩
  | timerPower | timerDone | timerElapsed =>
      simp only [given?, Option.some.injEq, Option.map_eq_some_iff] at given
      obtain ⟨entry, found, rfl⟩ := given
      obtain ⟨among, labelEq⟩ := Project.mem_of_timer? found
      exact ⟨_, among, labelEq, rfl⟩
  | counterValue =>
      simp only [given?, Option.some.injEq, Option.map_eq_some_iff] at given
      obtain ⟨entry, found, rfl⟩ := given
      obtain ⟨among, labelEq⟩ := Project.mem_of_counter? found
      exact ⟨_, among, labelEq, rfl⟩

theorem exists_entry_of_resolve
    (named : (Naming.configured project).resolve role component = .ok name) :
    ∃ entry ∈ project.components, entry.label = component.label ∧ entry.tag? role = some name := by
  unfold resolve at named
  split at named
  · contradiction
  · simp only at named
    split at named
    · contradiction
    · contradiction
    · next found given =>
        split at named
        · contradiction
        · obtain rfl := Except.ok.inj named
          exact exists_entry_of_given? given

/-- Pairwise distinct names of a project keep signals apart. -/
theorem keepsApart_configured (distinct : project.tags.Nodup) :
    (Naming.configured project).KeepsApart := by
  intro role role' component component' name named named'
  have applies := appliesTo_of_resolve named
  have applies' := appliesTo_of_resolve named'
  obtain ⟨entry, among, labelEq, tag⟩ := exists_entry_of_resolve named
  obtain ⟨entry', among', labelEq', tag'⟩ := exists_entry_of_resolve named'
  obtain ⟨rfl, rfl⟩ := Project.tag?_injective distinct among among' tag tag'
  refine ⟨rfl, ?_⟩
  have equal : role.autoName component = role.autoName component' := by
    simp only [Role.autoName, ← labelEq, ← labelEq']
  exact (Role.autoName_injective applies applies' equal).2

/-! ## Opposite coils -/

/-- Two coils that move one actuator in opposite directions. -/
def Opposes (naming : Naming) (coil other : String) : Prop :=
  ∃ label direction, naming.resolve (Role.coil direction) (.actuator label) = .ok coil ∧
    naming.resolve (Role.coil direction.opposite) (.actuator label) = .ok other

variable {coil other other' : String}

theorem Opposes.symm (opposes : naming.Opposes coil other) : naming.Opposes other coil := by
  obtain ⟨label, direction, here, there⟩ := opposes
  refine ⟨label, direction.opposite, there, ?_⟩
  cases direction <;> exact here

theorem Opposes.ne (opposes : naming.Opposes coil other) (apart : naming.KeepsApart) :
    coil ≠ other := by
  obtain ⟨label, direction, here, there⟩ := opposes
  rintro rfl
  have roles := (apart _ _ _ _ _ here there).1
  cases direction <;> contradiction

/-- A coil has one opposite at most. -/
theorem Opposes.unique (opposes : naming.Opposes coil other) (opposes' : naming.Opposes coil other')
    (apart : naming.KeepsApart) : other = other' := by
  obtain ⟨label, direction, here, there⟩ := opposes
  obtain ⟨label', direction', here', there'⟩ := opposes'
  obtain ⟨roles, owners⟩ := apart _ _ _ _ _ here here'
  obtain rfl := ComponentId.actuator.inj owners
  obtain rfl : direction = direction' := by
    cases direction <;> cases direction' <;> first | rfl | contradiction
  exact Except.ok.inj (there.symm.trans there')

/-- The signal of another component is no coil. -/
theorem not_opposes (apart : naming.KeepsApart) (named : naming.resolve role component = .ok name)
    (elsewhere : role.owner ≠ .actuator) : ¬ naming.Opposes name other := by
  intro ⟨label, direction, here, _⟩
  obtain ⟨rfl, -⟩ := apart _ _ _ _ _ named here
  cases direction <;> exact elsewhere rfl

/-- The coils of an actuator are those that are named for it. -/
theorem resolve_of_actuator {tags : Actuator} (named : naming.actuator label = .ok tags) :
    naming.resolve .actuatorExtend (.actuator label) = .ok tags.extend ∧
      ∀ coil, naming.resolve .actuatorRetract (.actuator label) = .ok coil ↔
        tags.retract = some coil := by
  have rest (retract : Option String)
      (retracts : ∀ coil, naming.resolve .actuatorRetract (.actuator label) = .ok coil ↔
        retract = some coil)
      (named : (do
        let extend ← naming.resolve .actuatorExtend (.actuator label)
        let extended ← naming.resolve .sensorExtended (.actuator label)
        let retracted ← naming.resolve .sensorRetracted (.actuator label)
        return { extend, retract, extended, retracted }) = Except.ok tags) :
      naming.resolve .actuatorExtend (.actuator label) = .ok tags.extend ∧
        ∀ coil, naming.resolve .actuatorRetract (.actuator label) = .ok coil ↔
          tags.retract = some coil := by
    obtain ⟨extend, extends', named⟩ := exists_of_bind_eq_ok named
    obtain ⟨extended, -, named⟩ := exists_of_bind_eq_ok named
    obtain ⟨retracted, -, named⟩ := exists_of_bind_eq_ok named
    obtain rfl := Except.ok.inj named
    exact ⟨extends', retracts⟩
  unfold actuator at named
  obtain ⟨result, found⟩ : ∃ result, naming.resolve .actuatorRetract (.actuator label) = result :=
    ⟨_, rfl⟩
  cases result with
  | ok coil =>
      simp only [found] at named
      exact rest (some coil) (by simp [found]) named
  | error error =>
      cases error with
      | inapplicable component role =>
          simp only [found] at named
          exact rest none (by simp [found]) named
      | missing component role =>
          simp only [found] at named
          contradiction

/-- The opposite of the coil for extension is the coil for retraction, if there is one. -/
theorem opposes_extend_iff (apart : naming.KeepsApart) {tags : Actuator}
    (named : naming.actuator label = .ok tags) :
    naming.Opposes tags.extend other ↔ tags.retract = some other := by
  obtain ⟨extends', retracts⟩ := resolve_of_actuator named
  constructor
  · intro ⟨owner, direction, here, there⟩
    obtain ⟨roles, owners⟩ := apart _ _ _ _ _ extends' here
    obtain rfl := ComponentId.actuator.inj owners
    cases direction with
    | extend => exact (retracts other).mp there
    | retract => contradiction
  · intro found
    exact ⟨label, .extend, extends', (retracts other).mpr found⟩

theorem resolve_of_timer {number : Nat} {tags : Timer} (named : naming.timer number = .ok tags) :
    naming.resolve .timerPower (.timer number) = .ok tags.power ∧
      naming.resolve .timerDone (.timer number) = .ok tags.done := by
  obtain ⟨power, powers, named⟩ := exists_of_bind_eq_ok named
  obtain ⟨done, isDone, named⟩ := exists_of_bind_eq_ok named
  obtain ⟨elapsed, -, named⟩ := exists_of_bind_eq_ok named
  obtain rfl := Except.ok.inj named
  exact ⟨powers, isDone⟩

end Naming

end Tag

end Pneumatic
