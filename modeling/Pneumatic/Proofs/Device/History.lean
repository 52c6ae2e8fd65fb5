import Pneumatic.Proofs.Run.Launch
import Mathlib.Data.List.Dedup

/-!
# Histories of the devices

Devices are registered, acquired, released, asked to stop and given back, in any order and by
anyone.  A desk keeps the devices together with the leases that are out, and a history is what
was done at the desk from the beginning on.

What an operation does is said once, by `Record.under` for the device that it is about and by
`find?_after_of_ne` for all others; everything after that is about whole histories.
-/

namespace Pneumatic.Device

/-- What may be done to the devices. -/
inductive Operation where
  | register (name address : String)
  | tryAcquire (address : String) (now : Nat)
  | acquire (address : String) (now : Nat)
  | release (address : String)
  | requestStop (address : String)
  /-- A lease comes to its end. -/
  | drop (lease : Lease)
  deriving DecidableEq, Repr

/-- The device that an operation is about. -/
@[simp]
def Operation.address : Operation → String
  | .register _ address | .tryAcquire address _ | .acquire address _ | .release address
  | .requestStop address => address
  | .drop lease => lease.address

/-- The address and the name that an operation registers. -/
@[simp]
def Operation.registered? : Operation → Option (String × String)
  | .register name address => some (address, name)
  | _ => none

/-- The devices after an operation.  One that is refused changes nothing. -/
def Registry.after (registry : Registry) : Operation → Registry
  | .register name address => registry.register name address
  | .tryAcquire address now => (registry.tryAcquire address now).2
  | .acquire address now =>
      match registry.acquire address now with
      | .ok (_, held) => held
      | .error _ => registry
  | .release address => (registry.release address).toOption.getD registry
  | .requestStop address => (registry.requestStop address).toOption.getD registry
  | .drop lease => registry.drop lease

/-- The record of the device that an operation is about, with the name of the next run. -/
def Record.under (record : Record) (run : RunId) : Operation → Record
  | .register _ _ => record
  | .tryAcquire _ now | .acquire _ now => if record.available then record.hold run now else record
  | .release _ => record.free
  | .requestStop _ => record.stop
  | .drop lease => if record.currentRun = some lease.run then record.free else record

/-- A record names a run exactly if the device is taken, and a stop only then. -/
def Record.Sound (record : Record) : Prop :=
  (record.available = true ↔ record.currentRun = none) ∧
    (record.stopRequested = true → record.available = false)

theorem Record.Sound.under {record : Record} (sound : record.Sound) (run : RunId)
    (operation : Operation) : (record.under run operation).Sound := by
  cases operation with
  | register name address => exact sound
  | tryAcquire address now | acquire address now =>
      simp only [Record.under]
      split
      · simp [Sound, hold]
      · exact sound
  | release address => simp [Sound, Record.under, free]
  | requestStop address =>
      simp only [Record.under, stop]
      split
      · exact sound
      · next taken => exact ⟨sound.1, fun _ => by simpa using taken⟩
  | drop lease =>
      simp only [Record.under]
      split
      · simp [Sound, free]
      · exact sound

/-! ## One operation -/

namespace Registry

variable {registry : Registry} {address other : String} {record : Record} {operation : Operation}

theorem update_of_none (unknown : registry.find? address = none) (change : Record → Record) :
    registry.update address change = registry := by
  have same : registry.records.map
      (fun record => if record.address = address then change record else record) =
        registry.records := by
    rw [List.map_congr_left, List.map_id']
    intro record among
    have other := List.find?_eq_none.mp unknown record among
    rw [if_neg (by simpa using other)]
  rw [update, same]

theorem after_release (registry : Registry) (address : String) :
    registry.after (.release address) = registry.update address Record.free := by
  rw [after, release]
  split
  · rfl
  · next unknown =>
      rw [Bool.not_eq_true, Option.isSome_eq_false_iff, Option.isNone_iff_eq_none] at unknown
      exact (update_of_none unknown _).symm

theorem after_requestStop (registry : Registry) (address : String) :
    registry.after (.requestStop address) = registry.update address Record.stop := by
  rw [after, requestStop]
  split
  · rfl
  · next unknown =>
      rw [Bool.not_eq_true, Option.isSome_eq_false_iff, Option.isNone_iff_eq_none] at unknown
      exact (update_of_none unknown _).symm

theorem acquire_of_available (found : registry.find? address = some record)
    (available : record.available = true) (now : Nat) :
    registry.acquire address now =
      .ok (⟨address, registry.runs⟩,
        { registry.update address (·.hold registry.runs now) with runs := registry.runs + 1 }) := by
  simp only [acquire, found, available, if_true]

/-- A device is acquired exactly if it is known and available. -/
theorem acquire_iff (registry : Registry) (address : String) (now : Nat) :
    (∃ lease held, registry.acquire address now = .ok (lease, held)) ↔
      ∃ record, registry.find? address = some record ∧ record.available = true := by
  constructor
  · intro ⟨lease, held, acquired⟩
    exact (of_acquire acquired).2.1
  · intro ⟨record, found, available⟩
    exact ⟨_, _, acquire_of_available found available now⟩

theorem tryAcquire_iff (registry : Registry) (address : String) (now : Nat) :
    (registry.tryAcquire address now).1 = true ↔
      ∃ lease held, registry.acquire address now = .ok (lease, held) := by
  rw [tryAcquire]
  cases registry.acquire address now with
  | ok result => simp [Prod.ext_iff]
  | error error => simp

theorem after_tryAcquire (registry : Registry) (address : String) (now : Nat) :
    registry.after (.tryAcquire address now) = registry.after (.acquire address now) := by
  rw [after, after, tryAcquire]
  cases registry.acquire address now <;> rfl

theorem register_of_known (known : (registry.find? address).isSome) (name : String) :
    registry.register name address = registry := by
  rw [register, if_pos known]

theorem find?_register_of_unknown (unknown : registry.find? address = none) (name : String) :
    (registry.register name address).find? other =
      if other = address then some (.new name address) else registry.find? other := by
  rw [register, unknown, if_neg (by simp), find?, find?, List.find?_append,
    List.find?_singleton]
  by_cases here : other = address
  · subst here
    rw [find?] at unknown
    simp [unknown, Record.new]
  · simp [here, Record.new, Ne.symm here]

/-- An operation that registers nothing changes the record of the device that it is about, but
for its address and its name. -/
structure Changes (registry : Registry) (operation : Operation) (change : Record → Record)
    (runs : RunId) : Prop where
  after_eq : registry.after operation = { registry.update operation.address change with runs }
  runs_le : registry.runs ≤ runs
  address_eq : ∀ record, (change record).address = record.address
  name_eq : ∀ record, (change record).name = record.name
  under : ∀ record, registry.find? operation.address = some record →
    change record = record.under registry.runs operation

theorem changes_acquire (registry : Registry) (address : String) (now : Nat) :
    ∃ change runs, Changes registry (.acquire address now) change runs := by
  cases result : registry.acquire address now with
  | ok acquired =>
      obtain ⟨lease, held⟩ := acquired
      obtain ⟨-, ⟨record, found, available⟩, heldEq⟩ := of_acquire result
      refine ⟨(·.hold registry.runs now), _, ?_, Nat.le_succ _, fun _ => rfl, fun _ => rfl, ?_⟩
      · rw [after, result]
        exact heldEq
      · intro same foundSame
        obtain rfl := Option.some.inj (found.symm.trans foundSame)
        exact (if_pos available).symm
  | error error =>
      refine ⟨id, registry.runs, ?_, Nat.le_refl _, fun _ => rfl, fun _ => rfl, ?_⟩
      · simp only [after, result, update, id, ite_self, List.map_id']
      · intro record found
        refine (if_neg ?_).symm
        intro available
        have granted := acquire_of_available found available now
        have refused := result.symm.trans granted
        contradiction

/-- An operation registers a device, or changes the record of one. -/
theorem registers_or_changes (registry : Registry) (operation : Operation) :
    (∃ name address, operation = .register name address) ∨
      operation.registered? = none ∧ ∃ change runs, Changes registry operation change runs := by
  cases operation with
  | register name address => exact .inl ⟨name, address, rfl⟩
  | tryAcquire address now =>
      obtain ⟨change, runs, changes⟩ := changes_acquire registry address now
      refine .inr ⟨rfl, change, runs, ?_, changes.runs_le, changes.address_eq, changes.name_eq,
        changes.under⟩
      rw [after_tryAcquire]
      exact changes.after_eq
  | acquire address now => exact .inr ⟨rfl, changes_acquire registry address now⟩
  | release address =>
      exact .inr ⟨rfl, _, _, after_release registry address, Nat.le_refl _, fun _ => rfl,
        fun _ => rfl, fun _ _ => rfl⟩
  | requestStop address =>
      refine .inr ⟨rfl, _, _, after_requestStop registry address, Nat.le_refl _, address_stop, ?_,
        fun _ _ => rfl⟩
      intro record
      unfold Record.stop
      split <;> rfl
  | drop lease =>
      refine .inr ⟨rfl, _, _, rfl, Nat.le_refl _, address_drop lease.run, ?_, fun _ _ => rfl⟩
      intro record
      split <;> rfl

/-- An operation leaves every other device alone. -/
theorem find?_after_of_ne (ne : other ≠ operation.address) :
    (registry.after operation).find? other = registry.find? other := by
  rcases registers_or_changes registry operation with
    ⟨name, address, rfl⟩ | ⟨-, change, runs, changes⟩
  · rw [after]
    cases found : registry.find? address with
    | none => exact (find?_register_of_unknown found name).trans (if_neg ne)
    | some record => rw [register_of_known (by simp [found])]
  · rw [changes.after_eq]
    exact find?_update_of_ne changes.address_eq ne

/-- What an operation does to the device that it is about, if that is known. -/
theorem find?_after_self (found : registry.find? operation.address = some record) :
    (registry.after operation).find? operation.address =
      some (record.under registry.runs operation) := by
  rcases registers_or_changes registry operation with
    ⟨name, address, rfl⟩ | ⟨-, change, runs, changes⟩
  · rw [after, register_of_known (by simpa [Operation.address] using found ▸ rfl)]
    exact found
  · rw [changes.after_eq, ← changes.under record found]
    exact find?_update_self changes.address_eq found

/-- An unknown device becomes known only by being registered. -/
theorem find?_after_of_unknown (unknown : registry.find? operation.address = none) :
    (registry.after operation).find? operation.address =
      operation.registered?.map fun (address, name) => .new name address := by
  rcases registers_or_changes registry operation with
    ⟨name, address, rfl⟩ | ⟨unregistered, change, runs, changes⟩
  · exact (find?_register_of_unknown unknown name).trans (if_pos rfl)
  · rw [changes.after_eq, update_of_none unknown, unregistered]
    exact unknown

theorem known_after (known : (registry.find? address).isSome) (operation : Operation) :
    ((registry.after operation).find? address).isSome := by
  cases found : registry.find? address with
  | none => simp [found] at known
  | some record =>
      by_cases here : address = operation.address
      · subst here
        rw [find?_after_self found, Option.isSome_some]
      · rw [find?_after_of_ne here, found, Option.isSome_some]

/-- Runs are named in order. -/
theorem runs_le_after (registry : Registry) (operation : Operation) :
    registry.runs ≤ (registry.after operation).runs := by
  rcases registers_or_changes registry operation with
    ⟨name, address, rfl⟩ | ⟨-, change, runs, changes⟩
  · rw [after, register]
    split <;> exact Nat.le_refl _
  · rw [changes.after_eq]
    exact changes.runs_le

/-! ## The list of the devices -/

/-- The addresses and the names of the devices, as they are listed. -/
def entries (registry : Registry) : List (String × String) :=
  registry.records.map fun record => (record.address, record.name)

theorem isSome_find?_iff (registry : Registry) (address : String) :
    (registry.find? address).isSome ↔ address ∈ registry.entries.map Prod.fst := by
  rw [find?, List.find?_isSome, entries, List.map_map]
  simp

theorem entries_register (registry : Registry) (name address : String) :
    (registry.register name address).entries =
      if address ∈ registry.entries.map Prod.fst then registry.entries
      else registry.entries ++ [(address, name)] := by
  rw [register]
  split
  · next known => rw [if_pos ((registry.isSome_find?_iff address).mp known)]
  · next unknown =>
      rw [if_neg (mt (registry.isSome_find?_iff address).mpr unknown), entries, List.map_append]
      rfl

theorem entries_after_of_none (unregistered : operation.registered? = none) :
    (registry.after operation).entries = registry.entries := by
  rcases registers_or_changes registry operation with
    ⟨name, address, rfl⟩ | ⟨-, change, runs, changes⟩
  · contradiction
  · rw [changes.after_eq, entries, update, List.map_map]
    apply List.map_congr_left
    intro record _
    rw [Function.comp_apply]
    split
    · rw [changes.address_eq, changes.name_eq]
    · rfl

end Registry

end Pneumatic.Device
