import Pneumatic.Device.Registry

/-!
# Devices that are held

A device that a run holds stays held whatever stop requests come and whatever other runs give
back, until the lease of the run itself is dropped.  Other devices stay as they are.
-/

namespace Pneumatic

namespace Device.Registry

variable {registry : Registry} {address other : String} {record : Record}

theorem address_of_find? (found : registry.find? address = some record) :
    record.address = address := by
  simpa using List.find?_some found

theorem find?_update_self {change : Record → Record}
    (keeps : ∀ record, (change record).address = record.address)
    (found : registry.find? address = some record) :
    (registry.update address change).find? address = some (change record) := by
  rw [find?_update _ _ _ _ keeps, found, Option.map_some, if_pos (address_of_find? found)]

theorem find?_update_of_ne {change : Record → Record}
    (keeps : ∀ record, (change record).address = record.address) (ne : other ≠ address) :
    (registry.update address change).find? other = registry.find? other := by
  rw [find?_update _ _ _ _ keeps]
  cases found : registry.find? other with
  | none => rfl
  | some record => rw [Option.map_some, if_neg (address_of_find? found ▸ ne)]

theorem address_stop (record : Record) : record.stop.address = record.address := by
  unfold Record.stop
  split <;> rfl

/-- What a lease gives back, if the record is held by its run. -/
theorem address_drop (run : RunId) (record : Record) :
    (if record.currentRun = some run then record.free else record).address = record.address := by
  split <;> rfl

end Device.Registry

/-- A device held by the run with a lease, while other devices are as they were. -/
structure Device.Held (lease : Device.Lease) (away : String → Prop)
    (before registry : Device.Registry) : Prop where
  mine : ∃ record, registry.find? lease.address = some record ∧ record.available = false ∧
    record.currentRun = some lease.run
  others : ∀ address, away address → registry.find? address = before.find? address

namespace Device.Held

variable {lease other : Device.Lease} {away : String → Prop} {before registry : Device.Registry}

theorem stop (held : Held lease away before registry)
    (elsewhere : ∀ address, away address → address ≠ lease.address) :
    Held lease away before (registry.update lease.address Record.stop) := by
  obtain ⟨record, found, busy, current⟩ := held.mine
  refine ⟨⟨_, Registry.find?_update_self Registry.address_stop found, ?_, ?_⟩, ?_⟩
  · simp [Record.stop, busy]
  · simp [Record.stop, busy, current]
  · intro address isAway
    rw [Registry.find?_update_of_ne Registry.address_stop (elsewhere address isAway)]
    exact held.others address isAway

/-- The lease of another run gives nothing of this device back. -/
theorem drop (held : Held lease away before registry) (different : other.run ≠ lease.run)
    (elsewhere : ∀ address, away address → address ≠ other.address) :
    Held lease away before (registry.drop other) := by
  obtain ⟨record, found, busy, current⟩ := held.mine
  refine ⟨⟨record, ?_, busy, current⟩, ?_⟩
  · rw [Registry.drop, Registry.find?_update _ _ _ _ (Registry.address_drop other.run), found,
      Option.map_some]
    split
    · rw [current, if_neg]
      simpa using different.symm
    · rfl
  · intro address isAway
    rw [Registry.drop, Registry.find?_update_of_ne (Registry.address_drop other.run)
      (elsewhere address isAway)]
    exact held.others address isAway

/-- The lease of the run itself frees the device. -/
theorem release (held : Held lease away before registry) :
    ∃ record, (registry.drop lease).find? lease.address = some record ∧ record.available = true ∧
      record.stopRequested = false ∧ record.currentRun = none := by
  obtain ⟨record, found, -, current⟩ := held.mine
  refine ⟨_, Registry.find?_update_self (Registry.address_drop lease.run) found, ?_⟩
  rw [if_pos current]
  exact ⟨rfl, rfl, rfl⟩

end Device.Held

end Pneumatic
