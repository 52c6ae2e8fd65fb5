import Pneumatic.Proofs.Run.Log
import Pneumatic.Run.Plant

/-!
# What a field leaves alone

The laws of a field that matters of devices and sessions rest on: it does nothing to the
devices but ask one to stop, and it counts the sessions that are open on a controller.
Simulated controllers have both.
-/

namespace Pneumatic

namespace Field.Controller

theorem openSessions_write (writes : List Write) (now : Nat) (controller : Controller) :
    (controller.write writes now).2.openSessions = controller.openSessions := by
  unfold write
  split <;> rfl

theorem openSessions_read (name : String) (now : Nat) (controller : Controller) :
    (controller.read name now).2.openSessions = controller.openSessions := by
  unfold read
  split <;> rfl

end Field.Controller

namespace Run

variable {σ : Type}

/-- A field that does nothing to the devices but ask the one at an address to stop. -/
structure Field.StopsOnly (field : Field σ) (address : String) : Prop where
  registry_setRegistry : ∀ registry world,
    field.registry (field.setRegistry registry world) = registry
  registry_perform : ∀ request lease endpoint now world,
    field.registry (field.perform request lease endpoint now world).2 = field.registry world ∨
      field.registry (field.perform request lease endpoint now world).2 =
        (field.registry world).update address Device.Record.stop

/-- The number of open sessions after an event. -/
def Event.sessions (count : Nat) : Event → Nat
  | .asked .openSession (reply : Except Field.Error Unit) =>
      if reply.isOk then count + 1 else count
  | .asked .closeSession _ => count - 1
  | _ => count

/-- A count of the sessions that are open on the controller at an endpoint, if there is one. -/
structure Field.Counts (field : Field σ) (endpoint : String) (sessions : σ → Option Nat) :
    Prop where
  setRegistry : ∀ registry world, sessions (field.setRegistry registry world) = sessions world
  perform : ∀ request lease now world,
    sessions (field.perform request lease endpoint now world).2 =
      (sessions world).map fun count =>
        Event.sessions count (.asked request (field.perform request lease endpoint now world).1)
  elsewhere : ∀ request lease other now world, other ≠ endpoint →
    sessions (field.perform request lease other now world).2 = sessions world

/-! ## Simulated controllers -/

namespace Plant

/-- A change reaches the controller at its endpoint and no other. -/
theorem controller?_update (plant : Plant) (endpoint other : String)
    (change : Field.Controller → Field.Controller) :
    (plant.update endpoint change).controller? other =
      (plant.controller? other).map fun controller =>
        if other = endpoint then change controller else controller := by
  rw [controller?, controller?, update]
  induction plant.controllers with
  | nil => rfl
  | cons head rest ih =>
      obtain ⟨name, controller⟩ := head
      rw [List.map_cons, List.lookup_cons, List.lookup_cons, ih]
      by_cases here : other = name
      · simp [here]
      · simp [beq_false_of_ne here]

/-- A request changes at most the controller at its endpoint. -/
theorem perform_eq_update (request : Request) (lease : Device.Lease) (endpoint : String)
    (now : Nat) (plant : Plant) :
    (perform request lease endpoint now plant).2 = plant ∨
      ∃ change, (perform request lease endpoint now plant).2 = plant.update endpoint change := by
  have operates {α : Type}
      (operation : Field.Controller → Except Field.Error α × Field.Controller) :
      (plant.operate endpoint operation).2 = plant ∨
        ∃ change, (plant.operate endpoint operation).2 = plant.update endpoint change := by
    unfold operate
    split
    · exact .inl rfl
    · next controller _ => exact .inr ⟨fun _ => (operation controller).2, rfl⟩
  cases request with
  | connect =>
      left
      simp only [perform]
      split <;> rfl
  | openSession => exact .inr ⟨_, rfl⟩
  | write writes => exact operates _
  | read tag => exact operates _
  | checkStop => exact .inl rfl
  | closeSession => exact .inr ⟨_, rfl⟩
  | disconnect => exact .inl rfl

/-- Simulated controllers do nothing to the devices. -/
theorem stopsOnly (address : String) : Plant.field.StopsOnly address where
  registry_setRegistry _ _ := rfl
  registry_perform request lease endpoint now plant := by
    left
    rcases perform_eq_update request lease endpoint now plant with same | ⟨change, updated⟩
    · exact congrArg Plant.registry same
    · exact (congrArg Plant.registry updated).trans rfl

/-- The open sessions of the controller at an endpoint. -/
def sessions (endpoint : String) (plant : Plant) : Option Nat :=
  (plant.controller? endpoint).map (·.openSessions)

theorem sessions_update_self (plant : Plant) (endpoint : String)
    (change : Field.Controller → Field.Controller) :
    sessions endpoint (plant.update endpoint change) =
      (plant.controller? endpoint).map fun controller => (change controller).openSessions := by
  rw [sessions, controller?_update, Option.map_map]
  simp [Function.comp_def]

theorem sessions_update_of_ne (plant : Plant) {endpoint other : String} (ne : endpoint ≠ other)
    (change : Field.Controller → Field.Controller) :
    sessions endpoint (plant.update other change) = sessions endpoint plant := by
  rw [sessions, controller?_update, Option.map_map, sessions]
  simp [Function.comp_def, ne]

/-- An operation that opens and closes nothing keeps the count of sessions. -/
theorem sessions_operate {α : Type} (plant : Plant) (endpoint : String)
    {operation : Field.Controller → Except Field.Error α × Field.Controller}
    (keeps : ∀ controller, (operation controller).2.openSessions = controller.openSessions) :
    sessions endpoint (plant.operate endpoint operation).2 = sessions endpoint plant := by
  unfold operate
  split
  · rfl
  · next controller found =>
      rw [sessions_update_self, sessions, found]
      simp [keeps]

/-- Simulated controllers count their sessions. -/
theorem counts (endpoint : String) : Plant.field.Counts endpoint (sessions endpoint) where
  setRegistry _ _ := rfl
  perform request lease now plant := by
    cases request with
    | connect =>
        have same : (perform .connect lease endpoint now plant).2 = plant := by
          simp only [perform]
          split <;> rfl
        exact (congrArg (sessions endpoint) same).trans Option.map_id'.symm
    | openSession =>
        refine (sessions_update_self plant endpoint _).trans ?_
        rw [sessions, Option.map_map]
        rfl
    | write writes =>
        refine (sessions_operate plant endpoint fun controller => ?_).trans Option.map_id'.symm
        exact Field.Controller.openSessions_write writes now controller
    | read tag =>
        refine (sessions_operate plant endpoint fun controller => ?_).trans Option.map_id'.symm
        exact Field.Controller.openSessions_read tag now controller
    | checkStop => exact Option.map_id'.symm
    | closeSession =>
        refine (sessions_update_self plant endpoint _).trans ?_
        rw [sessions, Option.map_map]
        rfl
    | disconnect => exact Option.map_id'.symm
  elsewhere request lease other now plant ne := by
    rcases perform_eq_update request lease other now plant with same | ⟨change, updated⟩
    · exact congrArg (sessions endpoint) same
    · exact (congrArg (sessions endpoint) updated).trans
        (sessions_update_of_ne plant ne.symm change)

end Plant

end Run

end Pneumatic
