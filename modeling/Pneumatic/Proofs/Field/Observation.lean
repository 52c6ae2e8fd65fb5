import Pneumatic.Proofs.Field.History

/-!
# Looking at a controller

Actuators are seen to arrive only when something is done with their controller, so that a
controller is changed by being looked at.  But whether an arrival was seen sooner or later
makes no difference to anyone: a controller that is looked at and one that is left alone give
the same answers ever after.
-/

namespace Pneumatic.Field

namespace Controller

/-- What of a controller has nothing to do with its tags and actuators. -/
def bare (controller : Controller) : Controller :=
  { controller with tags := [], cylinders := [] }

variable {actuators : List Tag.Actuator} {controller left right : Controller} {now later : Nat}
  {name : String}

/-- Two controllers that no one can tell apart from a time on: the same actuators have arrived
once all are looked at. -/
structure Alike (actuators : List Tag.Actuator) (now : Nat) (left right : Controller) : Prop where
  soundLeft : left.Sound actuators
  soundRight : right.Sound actuators
  bare_eq : left.bare = right.bare
  settled_eq : left.cylinders.map (Cylinder.settled now) =
    right.cylinders.map (Cylinder.settled now)
  lookup_eq : ∀ name, (∀ actuator ∈ actuators, name ∉ actuator.sensors) →
    left.tags.lookup name = right.tags.lookup name

namespace Alike

theorem refl (sound : controller.Sound actuators) (now : Nat) :
    Alike actuators now controller controller :=
  ⟨sound, sound, rfl, rfl, fun _ _ => rfl⟩

theorem refusesWrites_eq (alike : Alike actuators now left right) :
    left.refusesWrites = right.refusesWrites := by
  have same := congrArg refusesWrites alike.bare_eq
  exact same

theorem readsFail_eq (alike : Alike actuators now left right) :
    left.readsFail = right.readsFail := by
  have same := congrArg readsFail alike.bare_eq
  exact same

theorem travel_eq (alike : Alike actuators now left right) : left.travel = right.travel := by
  have same := congrArg travel alike.bare_eq
  exact same

theorem mono (alike : Alike actuators now left right) (before : now ≤ later) :
    Alike actuators later left right where
  soundLeft := alike.soundLeft
  soundRight := alike.soundRight
  bare_eq := alike.bare_eq
  settled_eq := by
    have twice : ∀ cylinders : List Cylinder, cylinders.map (Cylinder.settled later) =
        (cylinders.map (Cylinder.settled now)).map (Cylinder.settled later) := by
      intro cylinders
      rw [List.map_map]
      exact List.map_congr_left fun cylinder _ => (cylinder.settled_settled before).symm
    rw [twice, alike.settled_eq, ← twice]
  lookup_eq := alike.lookup_eq

/-- Two controllers whose actuators all were looked at show the same. -/
theorem lookup_settle (alike : Alike actuators now left right)
    (distinct : Tag.Actuator.Distinct actuators) (name : String) :
    (left.settle now).tags.lookup name = (right.settle now).tags.lookup name := by
  obtain ⟨soundLeft, cylindersLeft, keptLeft⟩ := alike.soundLeft.settle distinct now
  obtain ⟨soundRight, cylindersRight, keptRight⟩ := alike.soundRight.settle distinct now
  have cylinders : (left.settle now).cylinders = (right.settle now).cylinders := by
    rw [cylindersLeft, alike.settled_eq, cylindersRight]
  by_cases sensor : ∃ actuator ∈ actuators, name ∈ actuator.sensors
  · obtain ⟨actuator, among, inside⟩ := sensor
    rw [← soundLeft.tags_eq] at among
    obtain ⟨cylinder, here, rfl⟩ := List.mem_map.mp among
    obtain ⟨direction, rfl⟩ := Tag.Actuator.exists_sensor inside
    rw [soundLeft.shown cylinder here, soundRight.shown cylinder (cylinders ▸ here)]
  · have elsewhere : ∀ actuator ∈ actuators, name ∉ actuator.sensors :=
      fun actuator among inside => sensor ⟨actuator, among, inside⟩
    rw [keptLeft name elsewhere, keptRight name elsewhere, alike.lookup_eq name elsewhere]

/-- Looking at one of them leaves them alike. -/
theorem settle_left (alike : Alike actuators now left right)
    (distinct : Tag.Actuator.Distinct actuators) :
    Alike actuators now (left.settle now) right := by
  obtain ⟨soundLeft, cylindersLeft, keptLeft⟩ := alike.soundLeft.settle distinct now
  refine ⟨soundLeft, alike.soundRight, alike.bare_eq, ?_, fun name elsewhere => ?_⟩
  · rw [cylindersLeft, List.map_map, ← alike.settled_eq]
    exact List.map_congr_left fun cylinder _ => cylinder.settled_settled (Nat.le_refl now)
  · rw [keptLeft name elsewhere, alike.lookup_eq name elsewhere]

end Alike

end Controller

namespace Operation

variable {actuators : List Tag.Actuator} {controller left right : Controller}
  {operation : Operation} {cylinder : Cylinder} {now : Nat}

/-! ## What an operation does to both -/

/-- What has nothing to do with tags and actuators does not depend on them. -/
theorem bare_perform (now : Nat) (controller : Controller) (operation : Operation) :
    (operation.perform now controller).2.bare = (operation.perform now controller.bare).2.bare := by
  have refusesWrites : controller.bare.refusesWrites = controller.refusesWrites := rfl
  have readsFail : controller.bare.readsFail = controller.readsFail := rfl
  cases operation with
  | write session writes =>
      simp only [perform, Session.use, Controller.write, refusesWrites]
      split
      · split <;> rfl
      · rfl
  | read session name =>
      simp only [perform, Session.use, Controller.read, readsFail]
      split
      · split <;> rfl
      · rfl
  | look name => rfl
  | jam extend => rfl
  | limitWrites count => rfl
  | failReads fails => rfl

theorem succeeds_bare (controller : Controller) (operation : Operation) :
    operation.succeeds controller.bare = operation.succeeds controller := by
  cases operation <;> rfl

/-- Whether an actuator is seen to arrive before or after it is moved makes no difference. -/
theorem settled_moves (now : Nat) (controller : Controller) (operation : Operation)
    (cylinder : Cylinder) :
    (operation.moves now controller (cylinder.settled now)).settled now =
      (operation.moves now controller cylinder).settled now := by
  have twice := cylinder.settled_settled (Nat.le_refl now)
  cases operation with
  | write session writes =>
      simp only [moves, Cylinder.settled_settled (Nat.le_refl now)]
      exact Cylinder.settled_obeyed_settled _ _ _ _
  | read session name => exact congrArg (Cylinder.settled now) twice
  | look name => exact congrArg (Cylinder.settled now) twice
  | jam extend =>
      simp only [moves]
      by_cases here : cylinder.tags.extend = extend
      · have arrival := congrArg Cylinder.arrival twice
        rw [if_pos (show (cylinder.settled now).tags.extend = extend from here), if_pos here]
        exact congrArg (fun arrival => { cylinder with arrival, jammed := true }) arrival
      · rw [if_neg (show (cylinder.settled now).tags.extend ≠ extend from here), if_neg here]
        exact twice
  | limitWrites count => exact twice
  | failReads fails => exact twice

/-- Looking at a tag lets actuators arrive. -/
theorem perform_of_observes (now : Nat) (observes : operation.observes = true)
    (succeeds : operation.succeeds controller = true) :
    (operation.perform now controller).2 = controller.settle now := by
  cases operation with
  | read session name =>
      obtain ⟨isOpen, works⟩ : session.isOpen = true ∧ controller.readsFail = false := by
        simpa [Operation.succeeds] using succeeds
      simp [perform, Session.use, isOpen, Controller.read, works, Controller.tag]
  | look name => rfl
  | _ => contradiction

theorem alike_observe (alike : Controller.Alike actuators now left right)
    (distinct : Tag.Actuator.Distinct actuators) (observes : operation.observes = true) :
    Controller.Alike actuators now (operation.perform now left).2 right := by
  cases succeeds : operation.succeeds left with
  | false =>
      rw [(perform_of_fails now succeeds).1]
      exact alike
  | true =>
      rw [perform_of_observes now observes succeeds]
      exact alike.settle_left distinct

/-- An operation has the same answer from both. -/
theorem perform_fst_eq (alike : Controller.Alike actuators now left right)
    (distinct : Tag.Actuator.Distinct actuators) (operation : Operation) :
    (operation.perform now left).1 = (operation.perform now right).1 := by
  have lookup := alike.lookup_settle distinct
  have refusesWrites := alike.refusesWrites_eq
  have readsFail := alike.readsFail_eq
  cases operation with
  | write session writes =>
      simp only [perform, Session.use, Controller.write, refusesWrites]
      split
      · split <;> rfl
      · rfl
  | read session name =>
      simp only [perform, Session.use, Controller.read, Controller.tag, readsFail, lookup]
      split
      · split <;> rfl
      · rfl
  | look name => exact congrArg Answer.seen (lookup name)
  | jam extend => rfl
  | limitWrites count => rfl
  | failReads fails => rfl

/-- An operation moves the actuators of both alike. -/
theorem moves_eq (alike : Controller.Alike actuators now left right)
    (distinct : Tag.Actuator.Distinct actuators) (operation : Operation)
    (among : cylinder.tags ∈ actuators) :
    operation.moves now left cylinder = operation.moves now right cylinder := by
  cases operation with
  | write session writes =>
      have coils : ∀ coil ∈ cylinder.tags.coils,
          (assign writes left.tags).lookup coil = (assign writes right.tags).lookup coil := by
        intro coil inside
        apply lookup_assign_congr
        exact alike.lookup_eq coil fun other among' => distinct.coil_not_mem among among' inside
      simp only [moves, alike.travel_eq]
      exact congrArg (Cylinder.settled now) ((minds_obey right.travel now).congr _ _ _ coils)
  | _ => rfl

theorem alike_perform (alike : Controller.Alike actuators now left right)
    (distinct : Tag.Actuator.Distinct actuators) (spares : operation.Spares actuators) :
    Controller.Alike actuators now (operation.perform now left).2
      (operation.perform now right).2 := by
  have both : operation.succeeds left = operation.succeeds right := by
    rw [← succeeds_bare left, alike.bare_eq, succeeds_bare]
  cases succeeds : operation.succeeds right with
  | false =>
      rw [(perform_of_fails now (both.trans succeeds)).1, (perform_of_fails now succeeds).1]
      exact alike
  | true =>
      obtain ⟨soundLeft, movedLeft, setLeft⟩ :=
        perform_of_succeeds alike.soundLeft distinct spares now (both.trans succeeds)
      obtain ⟨soundRight, movedRight, setRight⟩ :=
        perform_of_succeeds alike.soundRight distinct spares now succeeds
      refine ⟨soundLeft, soundRight, ?_, ?_, fun name elsewhere => ?_⟩
      · rw [bare_perform, alike.bare_eq, ← bare_perform]
      · -- Both are what has arrived of the same settled actuators after the operation.
        have settles : ∀ cylinders : List Cylinder,
            cylinders.map (fun cylinder => (operation.moves now right cylinder).settled now) =
              (cylinders.map (Cylinder.settled now)).map
                fun cylinder => (operation.moves now right cylinder).settled now := by
          intro cylinders
          rw [List.map_map]
          exact List.map_congr_left fun cylinder _ =>
            (settled_moves now right operation cylinder).symm
        have same : left.cylinders.map (operation.moves now left ·) =
            left.cylinders.map (operation.moves now right ·) :=
          List.map_congr_left fun cylinder among =>
            moves_eq alike distinct operation (alike.soundLeft.mem_actuators among)
        rw [movedLeft, movedRight, same, List.map_map, List.map_map]
        exact (settles _).trans ((congrArg _ alike.settled_eq).trans (settles _).symm)
      · rw [setLeft name elsewhere, setRight name elsewhere,
          lookup_assign_congr (alike.lookup_eq name elsewhere)]

end Operation

/-! ## Histories with and without looking -/

namespace Controller

variable {actuators : List Tag.Actuator} {left right : Controller} {now : Nat}

/-- The answers to the operations of a history, each with the mark of its operation. -/
def record (controller : Controller) : List (Bool × Nat × Operation) → List (Bool × Answer)
  | [] => []
  | (added, now, operation) :: rest =>
      let (answer, next) := operation.perform now controller
      (added, answer) :: next.record rest

theorem record_cons (controller : Controller) (added : Bool) (now : Nat) (operation : Operation)
    (rest : List (Bool × Nat × Operation)) :
    controller.record ((added, now, operation) :: rest) =
      (added, (operation.perform now controller).1) ::
        (operation.perform now controller).2.record rest :=
  rfl

theorem Alike.record_eq (alike : Alike actuators now left right)
    (distinct : Tag.Actuator.Distinct actuators) {history : List (Bool × Nat × Operation)}
    (since : ∀ step ∈ history, now ≤ step.2.1)
    (times : history.Pairwise fun earlier later => earlier.2.1 ≤ later.2.1)
    (spares : ∀ step ∈ history, step.2.2.Spares actuators)
    (observes : ∀ step ∈ history, step.1 = true → step.2.2.observes = true) :
    (left.record history).filter (!·.1) = right.record (history.filter (!·.1)) := by
  induction history generalizing left right now with
  | nil => rfl
  | cons step rest ih =>
      obtain ⟨added, time, operation⟩ := step
      obtain ⟨before, -⟩ := List.forall_mem_cons.mp since
      obtain ⟨behind, timesRest⟩ := List.pairwise_cons.mp times
      obtain ⟨spared, sparesRest⟩ := List.forall_mem_cons.mp spares
      obtain ⟨looks, observesRest⟩ := List.forall_mem_cons.mp observes
      have later := alike.mono before
      rw [record_cons]
      cases added with
      | true =>
          have looked := Operation.alike_observe later distinct (looks rfl)
          exact ih looked behind timesRest sparesRest observesRest
      | false =>
          have performed := Operation.alike_perform later distinct spared
          have answer := Operation.perform_fst_eq later distinct operation
          rw [List.filter_cons_of_pos rfl, List.filter_cons_of_pos rfl, record_cons, answer,
            ih performed behind timesRest sparesRest observesRest]

/-- Looking at a controller once more, anywhere in a history, changes no other answer. -/
theorem record_filter (travel : Nat) {actuators : List Tag.Actuator}
    (distinct : Tag.Actuator.Distinct actuators) {history : List (Bool × Nat × Operation)}
    (times : history.Pairwise fun earlier later => earlier.2.1 ≤ later.2.1)
    (spares : ∀ step ∈ history, step.2.2.Spares actuators)
    (observes : ∀ step ∈ history, step.1 = true → step.2.2.observes = true) :
    ((ofActuators travel actuators).record history).filter (!·.1) =
      (ofActuators travel actuators).record (history.filter (!·.1)) := by
  have alike := Alike.refl (sound_ofActuators travel distinct) 0
  exact alike.record_eq distinct (fun _ _ => Nat.zero_le _) times spares observes

theorem record_filter_arrival :
    let actuators := [Tag.Actuator.auto 'A']
    let history : List (Bool × Nat × Operation) :=
      [(false, 0, .write ⟨true⟩ (Run.command ⟨'A', .extend⟩)),
        (true, 9, .look "Sensor_A_Extended"), (true, 10, .read ⟨true⟩ "Cylinder_A_Extend"),
        (false, 11, .jam "Cylinder_A_Extend"),
        (false, 12, .write ⟨true⟩ (Run.command ⟨'A', .retract⟩)),
        (false, 13, .read ⟨true⟩ "Sensor_A_Extended")]
    Tag.Actuator.Distinct actuators ∧
      history.Pairwise (fun earlier later => earlier.2.1 ≤ later.2.1) ∧
      (∀ step ∈ history, step.2.2.Spares actuators) ∧
      (∀ step ∈ history, step.1 = true → step.2.2.observes = true) ∧
      ((ofActuators 10 actuators).record history).filter (!·.1) =
        (ofActuators 10 actuators).record (history.filter (!·.1)) := by
  intro actuators history
  have distinct : Tag.Actuator.Distinct actuators := by decide
  have times : history.Pairwise fun earlier later => earlier.2.1 ≤ later.2.1 := by decide
  have spares : ∀ step ∈ history, step.2.2.Spares actuators := by decide
  have observes : ∀ step ∈ history, step.1 = true → step.2.2.observes = true := by decide
  exact ⟨distinct, times, spares, observes, record_filter 10 distinct times spares observes⟩

end Controller

end Pneumatic.Field
