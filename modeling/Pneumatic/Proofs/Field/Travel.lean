import Pneumatic.Proofs.Field.History

/-!
# Actuators on their way

The accepted writes of a history give orders to the actuators: each leaves coils that point in
one direction, or in none.  An actuator follows its last order, and reaches the end it was sent
to when the travel time after its last turn has passed; until it is seen to have arrived, both
its sensors are off.
-/

namespace Pneumatic.Field

/-! ## Orders and turns -/

/-- What a controller is after a history. -/
def Controller.after (controller : Controller) (history : List (Nat × Operation)) : Controller :=
  history.foldl (fun controller (now, operation) => (operation.perform now controller).2) controller

/-- Where the actuator at an index was sent last. -/
def Controller.heading? (index : Nat) (controller : Controller) : Option Direction :=
  controller.cylinders[index]?.map (·.commanded)

namespace Operation

/-- Whether an operation jams the actuator with the given signals. -/
def jams (tags : Tag.Actuator) : Operation → Bool
  | jam extend => tags.extend == extend
  | _ => false

/-- The direction in which the coils of an actuator point after a write that was accepted. -/
def order? (now : Nat) (controller : Controller) (cylinder : Cylinder) (operation : Operation) :
    Option Direction :=
  match operation.perform now controller with
  | (.written (.ok ()), next) => cylinder.commandOf next.tags
  | _ => none

end Operation

/-- The orders that a history gives an actuator, until it jams. -/
def orders (cylinder : Cylinder) : Controller → List (Nat × Operation) → List Direction
  | _, [] => []
  | controller, (now, operation) :: rest =>
      if operation.jams cylinder.tags then []
      else (operation.order? now controller cylinder).toList ++
        orders cylinder (operation.perform now controller).2 rest

/-- The times at which the actuator at an index is sent to the other end. -/
def turns (index : Nat) : Controller → List (Nat × Operation) → List Nat
  | _, [] => []
  | controller, (now, operation) :: rest =>
      let next := (operation.perform now controller).2
      (if next.heading? index = controller.heading? index then [] else [now]) ++
        turns index next rest

variable {actuators : List Tag.Actuator} {controller : Controller} {operation : Operation}
  {cylinder cylinder' : Cylinder} {tags tags' : List (String × Value)} {now : Nat}

/-! ## What an operation does to an actuator -/

namespace Operation

theorem order?_of_fails (fails : operation.succeeds controller = false) :
    operation.order? now controller cylinder = none := by
  rw [order?]
  split
  · next next accepted =>
      exact ((perform_of_fails now fails).2 (congrArg Prod.fst accepted)).elim
  · rfl

theorem order?_of_jams (now : Nat) (controller : Controller)
    (jams : operation.jams cylinder.tags = true) :
    operation.order? now controller cylinder = none := by
  cases operation with
  | jam extend => rfl
  | _ => contradiction

/-- A write that is accepted leaves the coils as they were written. -/
theorem order?_write (sound : controller.Sound actuators)
    (distinct : Tag.Actuator.Distinct actuators) {session : Session} {writes : List Write}
    (spares : (write session writes).Spares actuators)
    (succeeds : (write session writes).succeeds controller = true)
    (among : cylinder.tags ∈ actuators) :
    (write session writes).order? now controller cylinder =
      cylinder.commandOf (assign writes controller.tags) := by
  obtain ⟨isOpen, accepts⟩ : session.isOpen = true ∧ controller.refusesWrites = false := by
    simpa [Operation.succeeds] using succeeds
  obtain ⟨-, -, kept⟩ := sound.write distinct spares accepts now
  have accepted : (controller.write writes now).1 = .ok () := by
    rw [Controller.write, accepts]
    rfl
  simp only [order?, perform, Session.use, isOpen, if_true, accepted]
  apply Cylinder.commandOf_congr
  exact fun coil inside => kept coil fun other among' => distinct.coil_not_mem among among' inside

/-- What an operation does to an actuator: it follows an order unless it is jammed, and is on its
way for the travel time if it turns. -/
structure Drives (now : Nat) (controller : Controller) (operation : Operation)
    (cylinder cylinder' : Cylinder) : Prop where
  tags_eq : cylinder'.tags = cylinder.tags
  jammed : cylinder'.jammed = (cylinder.jammed || operation.jams cylinder.tags)
  commanded : cylinder'.commanded =
    (if cylinder.jammed then none else operation.order? now controller cylinder).getD
      cylinder.commanded
  arrival : ∀ time, cylinder'.arrival = some time →
    if cylinder'.commanded = cylinder.commanded then cylinder.arrival = some time
    else time = now + controller.travel

/-- An operation that gives no order lets an actuator be. -/
theorem drives_self (gives : operation.order? now controller cylinder = none)
    (leaves : operation.jams cylinder.tags = false) :
    operation.Drives now controller cylinder cylinder where
  tags_eq := rfl
  jammed := by rw [leaves, Bool.or_false]
  commanded := by rw [gives, ite_self, Option.getD_none]
  arrival time onItsWay := by rwa [if_pos rfl]

/-- The actuator may arrive as well. -/
theorem Drives.settled (drives : operation.Drives now controller cylinder cylinder') :
    operation.Drives now controller cylinder (cylinder'.settled now) where
  tags_eq := drives.tags_eq
  jammed := drives.jammed
  commanded := drives.commanded
  arrival time onItsWay := drives.arrival time (Option.filter_eq_some_iff.mp onItsWay).1

theorem drives_of_fails (fails : operation.succeeds controller = false) :
    operation.Drives now controller cylinder cylinder := by
  refine drives_self (order?_of_fails fails) ?_
  cases operation with
  | jam extend => contradiction
  | _ => rfl

/-- What a write orders is what an actuator obeys. -/
theorem drives_obeyed {session : Session} {writes : List Write}
    (order : (write session writes).order? now controller cylinder =
      cylinder.commandOf (assign writes controller.tags)) :
    (write session writes).Drives now controller cylinder
      (cylinder.obeyed controller.travel now (assign writes controller.tags)) := by
  cases free : cylinder.jammed with
  | true =>
      rw [Cylinder.obeyed_of_jammed free]
      refine ⟨rfl, (Bool.or_false _).symm, ?_, fun time onItsWay => ?_⟩
      · rw [free, if_pos rfl, Option.getD_none]
      · rwa [if_pos rfl]
  | false =>
      rw [Cylinder.obeyed_of_free free]
      refine ⟨rfl, (Bool.or_false _).symm, ?_, fun time onItsWay => ?_⟩
      · rw [free, order]
        rfl
      · dsimp only at onItsWay ⊢
        split at onItsWay
        · next same => rwa [if_pos same]
        · next turns =>
            rw [if_neg turns]
            exact (Option.some.inj onItsWay).symm

theorem drives_of_succeeds (sound : controller.Sound actuators)
    (distinct : Tag.Actuator.Distinct actuators) (spares : operation.Spares actuators)
    (succeeds : operation.succeeds controller = true) (among : cylinder.tags ∈ actuators) :
    operation.Drives now controller cylinder (operation.moves now controller cylinder) := by
  cases operation with
  | write session writes =>
      exact (drives_obeyed (order?_write sound distinct spares succeeds among)).settled
  | read session name =>
      have gives : (read session name).order? now controller cylinder = none := rfl
      exact (drives_self gives rfl).settled
  | look name =>
      have gives : (look name).order? now controller cylinder = none := rfl
      exact (drives_self gives rfl).settled
  | jam extend =>
      rw [moves]
      split
      · next here =>
          refine ⟨rfl, ?_, ?_, fun time onItsWay => ?_⟩
          · simp [jams, here]
          · simp [order?, perform]
          · rwa [if_pos rfl]
      · next elsewhere => exact drives_self rfl (by simp [jams, elsewhere])
  | limitWrites count => exact drives_self rfl rfl
  | failReads fails => exact drives_self rfl rfl

/-- Each actuator is driven by itself. -/
theorem exists_drives (now : Nat) (sound : controller.Sound actuators)
    (distinct : Tag.Actuator.Distinct actuators) (spares : operation.Spares actuators) {index : Nat}
    (here : controller.cylinders[index]? = some cylinder) :
    ∃ cylinder', (operation.perform now controller).2.cylinders[index]? = some cylinder' ∧
      operation.Drives now controller cylinder cylinder' := by
  cases succeeds : operation.succeeds controller with
  | false =>
      rw [(perform_of_fails now succeeds).1]
      exact ⟨cylinder, here, drives_of_fails succeeds⟩
  | true =>
      have moved := (perform_of_succeeds sound distinct spares now succeeds).2.1
      refine ⟨operation.moves now controller cylinder, ?_, ?_⟩
      · rw [moved, List.getElem?_map, here]
        rfl
      · have among := sound.mem_actuators (List.mem_of_getElem? here)
        exact drives_of_succeeds sound distinct spares succeeds among

end Operation

/-! ## What a history does to an actuator -/

theorem orders_eq_of_tags {cylinder cylinder' : Cylinder} (same : cylinder'.tags = cylinder.tags)
    (controller : Controller) (history : List (Nat × Operation)) :
    orders cylinder' controller history = orders cylinder controller history := by
  have order : ∀ now controller (operation : Operation),
      operation.order? now controller cylinder' = operation.order? now controller cylinder := by
    intro now controller operation
    simp only [Operation.order?, Cylinder.commandOf_eq_of_tags same]
  induction history generalizing controller with
  | nil => rfl
  | cons step rest ih => rw [orders, orders, same, order, ih]

theorem Controller.exists_getElem?_after (sound : controller.Sound actuators)
    (distinct : Tag.Actuator.Distinct actuators) {history : List (Nat × Operation)}
    (spares : ∀ step ∈ history, step.2.Spares actuators) {index : Nat}
    (here : controller.cylinders[index]? = some cylinder) :
    ∃ cylinder', (controller.after history).cylinders[index]? = some cylinder' ∧
      cylinder'.commanded =
        (if cylinder.jammed then [] else orders cylinder controller history).getLast?.getD
          cylinder.commanded ∧
      ∀ time, cylinder'.arrival = some time →
        ((turns index controller history).getLast?.map (· + controller.travel)).or
          cylinder.arrival = some time := by
  induction history generalizing controller cylinder with
  | nil => exact ⟨cylinder, here, by simp [orders], by simp [turns]⟩
  | cons step rest ih =>
      obtain ⟨now, operation⟩ := step
      obtain ⟨spared, spares⟩ := List.forall_mem_cons.mp spares
      obtain ⟨moved, there, drives⟩ := Operation.exists_drives now sound distinct spared here
      obtain ⟨last, found, commanded, arrival⟩ :=
        ih (Operation.sound_perform sound distinct spared now) spares there
      refine ⟨last, found, ?_, ?_⟩
      · rw [commanded, orders_eq_of_tags drives.tags_eq, drives.jammed, drives.commanded, orders]
        cases cylinder.jammed with
        | true => rfl
        | false =>
            cases jams : operation.jams cylinder.tags with
            | true =>
                have gives := Operation.order?_of_jams now controller jams
                simp [gives]
            | false =>
                have order : ∀ order : Option Direction, order.toList.getLast? = order :=
                  fun order => by cases order <;> rfl
                simp [List.getLast?_append, Option.getD_or, order]
      · intro time onItsWay
        have before := arrival time onItsWay
        rw [Operation.perform_travel] at before
        have turns? : (operation.perform now controller).2.heading? index =
            controller.heading? index ↔ moved.commanded = cylinder.commanded := by
          rw [heading?, heading?, here, there, Option.map_some, Option.map_some, Option.some_inj]
        simp only [turns, List.getLast?_append, turns?]
        cases later : (turns index (operation.perform now controller).2 rest).getLast? with
        | some turned =>
            rw [later] at before
            exact before
        | none =>
            rw [later] at before
            have since := drives.arrival time before
            split
            · next straight =>
                rw [if_pos straight] at since
                simpa using since
            · next turned =>
                rw [if_neg turned] at since
                rw [since]
                rfl

theorem Controller.cylinders_ofActuators (travel : Nat) (actuators : List Tag.Actuator) :
    (ofActuators travel actuators).cylinders = actuators.map (⟨·, .retract, none, false⟩) := by
  have adds : ∀ controller : Controller, (actuators.foldl addActuator controller).cylinders =
      controller.cylinders ++ actuators.map (⟨·, .retract, none, false⟩) := by
    induction actuators with
    | nil => simp
    | cons tags rest ih =>
        intro controller
        rw [List.foldl_cons, ih]
        simp [addActuator]
  exact adds (start travel)

theorem Controller.travel_ofActuators (travel : Nat) (actuators : List Tag.Actuator) :
    (ofActuators travel actuators).travel = travel := by
  have keeps : ∀ controller : Controller,
      (actuators.foldl addActuator controller).travel = controller.travel := by
    induction actuators with
    | nil => exact fun _ => rfl
    | cons tags rest ih => exact fun controller => ih (controller.addActuator tags)
  exact keeps (start travel)

theorem Controller.sound_after (sound : controller.Sound actuators)
    (distinct : Tag.Actuator.Distinct actuators) {history : List (Nat × Operation)}
    (spares : ∀ step ∈ history, step.2.Spares actuators) :
    (controller.after history).Sound actuators := by
  induction history generalizing controller with
  | nil => exact sound
  | cons step rest ih =>
      obtain ⟨spared, spares⟩ := List.forall_mem_cons.mp spares
      exact ih (Operation.sound_perform sound distinct spared step.1) spares

/-- After any history that writes to no end sensor, the sensors of an actuator show where it
stands, which is nowhere for the travel time after its last turn, and it has been sent wherever
its last order was, retracted at first.  A write that fails changes nothing. -/
theorem Controller.sensors_after_history (travel : Nat) {actuators : List Tag.Actuator}
    (distinct : Tag.Actuator.Distinct actuators) {history : List (Nat × Operation)}
    (spares : ∀ step ∈ history, step.2.Spares actuators) :
    let start := ofActuators travel actuators
    let controller := start.after history
    controller.cylinders.map (·.tags) = actuators ∧
      (∀ index cylinder, controller.cylinders[index]? = some cylinder →
        (¬ (controller.tags.lookup cylinder.tags.extended = some (.bool true) ∧
            controller.tags.lookup cylinder.tags.retracted = some (.bool true))) ∧
          (cylinder.arrival = none → ∀ direction,
            controller.tags.lookup (cylinder.tags.sensor direction) =
              some (.bool (direction == cylinder.commanded))) ∧
          (∀ time, cylinder.arrival = some time →
            (∀ direction,
              controller.tags.lookup (cylinder.tags.sensor direction) = some (.bool false)) ∧
              ∃ turned, (turns index start history).getLast? = some turned ∧
                time = turned + travel) ∧
          cylinder.commanded = (orders cylinder start history).getLast?.getD .retract) ∧
      ∀ now session writes error,
        ((Operation.write session writes).perform now controller).1 = .written (.error error) →
          ((Operation.write session writes).perform now controller).2 = controller := by
  intro start controller
  have sound : controller.Sound actuators :=
    sound_after (sound_ofActuators travel distinct) distinct spares
  refine ⟨sound.tags_eq, fun index cylinder here => ?_, fun now session writes error failed => ?_⟩
  · have shown := sound.shown cylinder (List.mem_of_getElem? here)
    have signals : actuators[index]? = some cylinder.tags := by
      rw [← sound.tags_eq, List.getElem?_map, here, Option.map_some]
    have first : start.cylinders[index]? =
        some ⟨cylinder.tags, .retract, none, false⟩ := by
      rw [cylinders_ofActuators, List.getElem?_map, signals, Option.map_some]
    obtain ⟨last, found, commanded, arrival⟩ :=
      exists_getElem?_after (sound_ofActuators travel distinct) distinct spares first
    obtain rfl : cylinder = last := Option.some.inj (here.symm.trans found)
    refine ⟨shown.not_both, shown.lookup_of_rest, fun time travels => ⟨?_, ?_⟩, ?_⟩
    · exact shown.lookup_of_travel travels
    · have turned := arrival time travels
      rw [Option.or_none, Option.map_eq_some_iff] at turned
      obtain ⟨turned, last, rfl⟩ := turned
      exact ⟨turned, last, by rw [travel_ofActuators]⟩
    · have same : orders ⟨cylinder.tags, .retract, none, false⟩ start history =
          orders cylinder start history := by
        apply orders_eq_of_tags
        rfl
      rw [commanded, if_neg Bool.false_ne_true, same]
  · refine (Operation.perform_of_fails now ?_).1
    cases succeeds : (Operation.write session writes).succeeds controller with
    | false => rfl
    | true =>
        have accepted := (Operation.perform_write_fst now controller session writes).mpr succeeds
        rw [failed] at accepted
        exact nomatch accepted

theorem Controller.sensors_after_history_turned :
    let actuators := [Tag.Actuator.auto 'A', ⟨"Valve", none, "Open", "Shut"⟩]
    let history : List (Nat × Operation) := [(0, .write ⟨true⟩ (Run.command ⟨'A', .extend⟩)),
      (4, .read ⟨true⟩ "Sensor_A_Extended"), (6, .write ⟨true⟩ (Run.command ⟨'A', .retract⟩)),
      (8, .jam "Cylinder_A_Extend"), (9, .write ⟨true⟩ [⟨"Valve", .bool true⟩])]
    let controller := (ofActuators 10 actuators).after history
    Tag.Actuator.Distinct actuators ∧ (∀ step ∈ history, step.2.Spares actuators) ∧
      controller.cylinders[0]? = some ⟨.auto 'A', .retract, some 16, true⟩ ∧
      (∀ direction, controller.tags.lookup ((Tag.Actuator.auto 'A').sensor direction) =
        some (.bool false)) := by
  intro actuators history controller
  have distinct : Tag.Actuator.Distinct actuators := by decide
  have spares : ∀ step ∈ history, step.2.Spares actuators := by decide
  have onItsWay : controller.cylinders[0]? = some ⟨.auto 'A', .retract, some 16, true⟩ := by
    decide +kernel
  obtain ⟨-, follows, -⟩ := sensors_after_history 10 distinct spares
  obtain ⟨-, -, travels, -⟩ := follows 0 _ onItsWay
  exact ⟨distinct, spares, onItsWay, (travels 16 rfl).1⟩

end Pneumatic.Field
