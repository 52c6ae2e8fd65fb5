import Pneumatic.Proofs.Device.History
import Pneumatic.Proofs.Once

/-!
# The desk

A desk keeps the devices together with the leases that are out.  Whatever was done at a desk
from the beginning on, at most one of the leases that are out holds a device, and the end of any
other changes nothing.
-/

namespace Pneumatic.Device

/-- The devices, and the leases that were given out and did not yet come to their end. -/
structure Desk where
  registry : Registry
  leases : List Lease
  deriving DecidableEq, Repr

namespace Desk

/-- A desk where nothing was done. -/
def empty : Desk := ⟨.empty, []⟩

/-- The desk after an operation.  Only a lease that is out comes to its end. -/
def step (desk : Desk) : Operation → Desk
  | .acquire address now =>
      match desk.registry.acquire address now with
      | .ok (lease, held) => ⟨held, lease :: desk.leases⟩
      | .error _ => desk
  | .drop lease =>
      if lease ∈ desk.leases then ⟨desk.registry.drop lease, desk.leases.erase lease⟩ else desk
  | operation => { desk with registry := desk.registry.after operation }

/-- The desk after a history. -/
def after (operations : List Operation) : Desk := operations.foldl step empty

variable {desk : Desk} {registry : Registry} {leases : List Lease} {lease : Lease}

theorem after_append_singleton (past : List Operation) (operation : Operation) :
    after (past ++ [operation]) = (after past).step operation := by
  rw [after, List.foldl_append]
  rfl

/-- An operation does to the devices what it says, unless it ends a lease that is not out. -/
theorem registry_step (desk : Desk) (operation : Operation) :
    (desk.step operation).registry = desk.registry.after operation ∨
      (∃ lease, operation = .drop lease ∧ lease ∉ desk.leases) ∧ desk.step operation = desk := by
  cases operation with
  | acquire address now =>
      left
      rw [step, Registry.after]
      split <;> simp_all
  | drop lease =>
      rw [step]
      split
      · exact .inl rfl
      · next missing => exact .inr ⟨⟨lease, rfl, missing⟩, rfl⟩
  | register | tryAcquire | release | requestStop => exact .inl rfl

/-- An operation leaves the records of other devices alone. -/
theorem find?_step_of_ne {operation : Operation} {address : String}
    (elsewhere : address ≠ operation.address) (desk : Desk) :
    (desk.step operation).registry.find? address = desk.registry.find? address := by
  rcases desk.registry_step operation with stepped | ⟨-, same⟩
  · rw [stepped, Registry.find?_after_of_ne elsewhere]
  · rw [same]

/-! ## What holds of every desk -/

/-- Every record is sound, and the leases that are out are those of different runs that were
begun on devices that are known. -/
structure Sound (desk : Desk) : Prop where
  records : ∀ address record, desk.registry.find? address = some record → record.Sound
  known : ∀ lease ∈ desk.leases, (desk.registry.find? lease.address).isSome
  begun : ∀ lease ∈ desk.leases, lease.run < desk.registry.runs
  distinct : (desk.leases.map (·.run)).Nodup

theorem Sound.records_after (sound : desk.Sound) (operation : Operation) (address : String)
    (record : Record) (found : (desk.registry.after operation).find? address = some record) :
    record.Sound := by
  by_cases here : address = operation.address
  · subst here
    cases before : desk.registry.find? operation.address with
    | none =>
        rw [Registry.find?_after_of_unknown before, Option.map_eq_some_iff] at found
        obtain ⟨registered, -, rfl⟩ := found
        simp [Record.Sound, Record.new]
    | some old =>
        rw [Registry.find?_after_self before] at found
        exact Option.some.inj found ▸ (sound.records _ _ before).under _ _
  · rw [Registry.find?_after_of_ne here] at found
    exact sound.records address record found

/-- What is done to the devices keeps a desk sound while the same leases are out. -/
theorem Sound.after (sound : desk.Sound) (operation : Operation) :
    Sound ⟨desk.registry.after operation, desk.leases⟩ where
  records := sound.records_after operation
  known lease out := Registry.known_after (sound.known lease out) operation
  begun lease out :=
    Nat.lt_of_lt_of_le (sound.begun lease out) (Registry.runs_le_after desk.registry operation)
  distinct := sound.distinct

/-- A lease may come to its end. -/
theorem Sound.erase (sound : desk.Sound) (lease : Lease) :
    Sound ⟨desk.registry, desk.leases.erase lease⟩ where
  records := sound.records
  known other out := sound.known other (List.mem_of_mem_erase out)
  begun other out := sound.begun other (List.mem_of_mem_erase out)
  distinct := sound.distinct.sublist (List.erase_sublist.map _)

/-- The lease of the next run may be given out. -/
theorem Sound.lend (sound : Sound ⟨registry, leases⟩)
    (known : (registry.find? lease.address).isSome) (begun : lease.run < registry.runs)
    (fresh : ∀ other ∈ leases, other.run < lease.run) : Sound ⟨registry, lease :: leases⟩ where
  records := sound.records
  known := List.forall_mem_cons.mpr ⟨known, sound.known⟩
  begun := List.forall_mem_cons.mpr ⟨begun, sound.begun⟩
  distinct := by
    rw [List.map_cons, List.nodup_cons]
    refine ⟨?_, sound.distinct⟩
    intro among
    obtain ⟨other, out, same⟩ := List.mem_map.mp among
    exact Nat.lt_irrefl _ (same ▸ fresh other out)

theorem sound_empty : empty.Sound where
  records _ _ found := nomatch found
  known _ out := nomatch out
  begun _ out := nomatch out
  distinct := .nil

theorem Sound.step (sound : desk.Sound) (operation : Operation) : (desk.step operation).Sound := by
  cases operation with
  | acquire address now =>
      rw [Desk.step]
      split
      · next lease held acquired =>
          -- The devices alone first, with the leases that were out before.
          have kept : Sound ⟨held, desk.leases⟩ := by
            have after := sound.after (.acquire address now)
            rw [Registry.after, acquired] at after
            exact after
          obtain ⟨rfl, ⟨record, found, -⟩, rfl⟩ := Registry.of_acquire acquired
          apply kept.lend
          · exact Option.isSome_of_eq_some (Registry.find?_update_self (fun _ => rfl) found)
          · exact Nat.lt_succ_self _
          · exact sound.begun
      · exact sound
  | drop lease =>
      rw [Desk.step]
      split
      · exact (sound.after (.drop lease)).erase lease
      · exact sound
  | register | tryAcquire | release | requestStop => exact sound.after _

/-- The desk is sound after every history. -/
theorem sound_after (operations : List Operation) : (after operations).Sound := by
  induction operations using List.reverseRecOn with
  | nil => exact sound_empty
  | append_singleton past operation ih =>
      rw [after_append_singleton]
      exact ih.step operation

/-- Of the leases that are out at most one is that of a given run. -/
theorem Sound.countP_le (sound : desk.Sound) (address : String) (run : Option RunId) :
    desk.leases.countP (fun lease => lease.address = address ∧ run = some lease.run) ≤ 1 := by
  cases run with
  | none => simp
  | some run =>
      calc desk.leases.countP (fun lease => lease.address = address ∧ some run = some lease.run)
          ≤ desk.leases.countP ((· == run) ∘ (·.run)) := by
            apply List.countP_mono_left
            intro lease _ both
            simp only [decide_eq_true_eq, Option.some.injEq] at both
            simp [both.2]
        _ = (desk.leases.map (·.run)).count run := List.countP_map.symm
        _ ≤ 1 := List.nodup_iff_count_le_one.mp sound.distinct run

/-- The end of a lease changes the record of its device exactly if its run holds the device. -/
theorem Sound.drop_iff (sound : desk.Sound) (out : lease ∈ desk.leases) :
    ∃ record, desk.registry.find? lease.address = some record ∧
      ((desk.step (.drop lease)).registry.find? lease.address ≠ some record ↔
        record.currentRun = some lease.run) := by
  obtain ⟨record, found⟩ := Option.isSome_iff_exists.mp (sound.known lease out)
  refine ⟨record, found, ?_⟩
  have dropped : (desk.step (.drop lease)).registry.find? lease.address =
      some (record.under desk.registry.runs (.drop lease)) := by
    have self : (desk.registry.after (.drop lease)).find? lease.address = _ :=
      Registry.find?_after_self found
    rw [Desk.step, if_pos out]
    exact self
  rw [dropped, Record.under]
  split
  · next holds =>
      -- A record that names a run is taken, so giving it back changes it.
      have taken : record.available ≠ true := by
        intro available
        have idle := (sound.records _ _ found).1.mp available
        rw [holds] at idle
        contradiction
      simp only [holds, iff_true, ne_eq, Option.some.injEq]
      intro same
      exact taken (congrArg Record.available same).symm
  · next other => simp [other]

/-- A device that is acquired is taken by the run of the lease given out, a run that none of the
leases before is for. -/
theorem Sound.granted (sound : desk.Sound) {address : String} {now : Nat} {held : Registry}
    (acquired : desk.registry.acquire address now = .ok (lease, held)) :
    lease.address = address ∧ (∀ other ∈ desk.leases, other.run < lease.run) ∧
      desk.step (.acquire address now) = ⟨held, lease :: desk.leases⟩ ∧
      desk.registry.tryAcquire address now = (true, held) ∧
      ∃ record, held.find? address = some record ∧ record.available = false ∧
        record.stopRequested = false ∧ record.currentRun = some lease.run := by
  refine ⟨?_, ?_, ?_, ?_, ?_⟩
  · rw [(Registry.of_acquire acquired).1]
  · rw [(Registry.of_acquire acquired).1]
    exact sound.begun
  · simp only [Desk.step, acquired]
  · rw [Registry.tryAcquire, acquired]
  · obtain ⟨rfl, ⟨record, found, -⟩, rfl⟩ := Registry.of_acquire acquired
    exact ⟨_, Registry.find?_update_self (fun _ => rfl) found, rfl, rfl, rfl⟩

/-! ## The list of the devices -/

/-- The devices that a history registers, by address and name. -/
def registrations (operations : List Operation) : List (String × String) :=
  operations.filterMap Operation.registered?

theorem registrations_append_singleton (past : List Operation) (operation : Operation) :
    registrations (past ++ [operation]) = registrations past ++ operation.registered?.toList := by
  rw [registrations, List.filterMap_append, List.filterMap_cons]
  cases operation.registered? <;> rfl

theorem entries_step (desk : Desk) (operation : Operation) :
    (desk.step operation).registry.entries =
      match operation.registered? with
      | none => desk.registry.entries
      | some (address, name) =>
          if address ∈ desk.registry.entries.map Prod.fst then desk.registry.entries
          else desk.registry.entries ++ [(address, name)] := by
  rcases desk.registry_step operation with stepped | ⟨⟨lease, rfl, -⟩, same⟩
  · rw [stepped]
    cases operation with
    | register name address => exact Registry.entries_register _ name address
    | tryAcquire | acquire | release | requestStop | drop =>
        exact Registry.entries_after_of_none rfl
  · rw [same]
    rfl

/-- The devices are listed in the order of their first registration. -/
theorem addresses_after (operations : List Operation) :
    (after operations).registry.entries.map Prod.fst =
      ((registrations operations).map Prod.fst).eraseDups := by
  induction operations using List.reverseRecOn with
  | nil => rfl
  | append_singleton past operation ih =>
      rw [after_append_singleton, entries_step, registrations_append_singleton]
      cases registers : operation.registered? with
      | none =>
          rw [Option.toList_none, List.append_nil]
          exact ih
      | some entry =>
          obtain ⟨address, name⟩ := entry
          have seen : address ∈ (after past).registry.entries.map Prod.fst ↔
              address ∈ (registrations past).map Prod.fst := by
            rw [ih, List.mem_eraseDups]
          simp only [Option.toList_some, List.map_append, List.map_cons, List.map_nil]
          split
          · next known => rw [eraseDups_append_of_mem (seen.mp known), ← ih]
          · next unknown =>
              rw [eraseDups_append_of_not_mem (mt seen.mpr unknown), List.map_append, ih]
              rfl

/-- A device is listed under the name of its first registration. -/
theorem lookup_registrations (operations : List Operation) :
    ∀ entry ∈ (after operations).registry.entries,
      (registrations operations).lookup entry.1 = some entry.2 := by
  induction operations using List.reverseRecOn with
  | nil => exact fun _ among => nomatch among
  | append_singleton past operation ih =>
      rw [after_append_singleton, entries_step, registrations_append_singleton]
      -- What was found before is found first.
      have keeps (entry : String × String) (more : List (String × String))
          (among : entry ∈ (after past).registry.entries) :
          (registrations past ++ more).lookup entry.1 = some entry.2 := by
        rw [List.lookup_append, ih entry among, Option.some_or]
      cases registers : operation.registered? with
      | none => exact fun entry among => keeps entry _ among
      | some registered =>
          obtain ⟨address, name⟩ := registered
          simp only [Option.toList_some]
          split
          · exact fun entry among => keeps entry _ among
          · next unknown =>
              intro entry among
              rcases List.mem_append.mp among with before | last
              · exact keeps entry _ before
              · obtain rfl := List.mem_singleton.mp last
                have new : (registrations past).lookup address = none := by
                  rw [addresses_after, List.mem_eraseDups] at unknown
                  rw [List.lookup_eq_none_iff]
                  intro other among
                  have ne : address ≠ other.1 := by
                    intro same
                    exact unknown (same ▸ List.mem_map_of_mem among)
                  simpa using ne
                rw [List.lookup_append, new, Option.none_or, List.lookup_cons_self]

theorem nodup_addresses (operations : List Operation) :
    ((after operations).registry.records.map (·.address)).Nodup := by
  have entries : ((after operations).registry.entries.map Prod.fst).Nodup := by
    induction operations using List.reverseRecOn with
    | nil => exact .nil
    | append_singleton past operation ih =>
        rw [after_append_singleton, entries_step]
        split
        · exact ih
        · split
          · exact ih
          · next unknown =>
              rw [List.map_append, List.map_singleton]
              refine List.nodup_append.mpr ⟨ih, List.nodup_singleton _, ?_⟩
              intro other among new isNew same
              rw [same, List.mem_singleton.mp isNew] at among
              exact unknown among
  rwa [Registry.entries, List.map_map] at entries

theorem find?_of_mem (operations : List Operation) {record : Record}
    (among : record ∈ (after operations).registry.records) :
    (after operations).registry.find? record.address = some record := by
  cases found : (after operations).registry.find? record.address with
  | none => simpa using List.find?_eq_none.mp found record among
  | some first =>
      have first_mem := List.mem_of_find?_eq_some found
      rw [List.inj_on_of_nodup_map (nodup_addresses operations) first_mem among
        (Registry.address_of_find? found)]

/-- Whatever was done to the devices, in any order: a device is available exactly while no run
holds it, and a device that is available has no stop request; it is acquired exactly if it is
known and available, and from then on it is taken by the run of the lease given out, which no
other lease is for; of its leases that are out at most one holds it, and the end of any other
leaves its record alone, as does everything that is done to other devices; and the devices are
listed once each, in the order of their first registration and under the name that they had
then. -/
theorem exclusive_of_history (operations : List Operation) :
    let desk := after operations
    (∀ record ∈ desk.registry.records,
      (record.available = true ↔ record.currentRun = none) ∧
        (record.stopRequested = true → record.available = false)) ∧
    (∀ address now,
      ((∃ lease held, desk.registry.acquire address now = .ok (lease, held)) ↔
        ∃ record, desk.registry.find? address = some record ∧ record.available = true) ∧
      ((desk.registry.tryAcquire address now).1 = true ↔
        ∃ record, desk.registry.find? address = some record ∧ record.available = true)) ∧
    (∀ address now lease held, desk.registry.acquire address now = .ok (lease, held) →
      lease.address = address ∧ (∀ other ∈ desk.leases, other.run < lease.run) ∧
        desk.step (.acquire address now) = ⟨held, lease :: desk.leases⟩ ∧
        desk.registry.tryAcquire address now = (true, held) ∧
        ∃ record, held.find? address = some record ∧ record.available = false ∧
          record.stopRequested = false ∧ record.currentRun = some lease.run) ∧
    (∀ address record, desk.registry.find? address = some record →
      desk.leases.countP (fun lease =>
        lease.address = address ∧ record.currentRun = some lease.run) ≤ 1) ∧
    (∀ lease ∈ desk.leases, ∃ record, desk.registry.find? lease.address = some record ∧
      ((desk.step (.drop lease)).registry.find? lease.address ≠ some record ↔
        record.currentRun = some lease.run)) ∧
    (∀ operation address, address ≠ operation.address →
      (desk.step operation).registry.find? address = desk.registry.find? address) ∧
    (desk.registry.records.map (·.address)).Nodup ∧
    desk.registry.records.map (·.address) = ((registrations operations).map Prod.fst).eraseDups ∧
    ∀ record ∈ desk.registry.records,
      (registrations operations).lookup record.address = some record.name := by
  intro desk
  have sound := sound_after operations
  refine ⟨?_, ?_, ?_, ?_, ?_, ?_, nodup_addresses operations, ?_, ?_⟩
  · intro record among
    exact sound.records _ _ (find?_of_mem operations among)
  · intro address now
    have granted := desk.registry.acquire_iff address now
    exact ⟨granted, (desk.registry.tryAcquire_iff address now).trans granted⟩
  · intro address now lease held acquired
    exact sound.granted acquired
  · intro address record _
    exact sound.countP_le address record.currentRun
  · intro lease out
    exact sound.drop_iff out
  · intro operation address elsewhere
    exact find?_step_of_ne elsewhere desk
  · have addresses := addresses_after operations
    rwa [Registry.entries, List.map_map] at addresses
  · intro record among
    exact lookup_registrations operations _ (List.mem_map_of_mem among)

/-- A device that was released by force and acquired again: the first of its leases is stale, and
it ends without a trace. -/
theorem exclusive_of_history_stale :
    let desk := after [.register "Press" "plc", .acquire "plc" 1, .release "plc"]
    ∃ lease held record, desk.registry.acquire "plc" 2 = .ok (lease, held) ∧ lease.run = 1 ∧
      desk.step (.acquire "plc" 2) = ⟨held, [lease, ⟨"plc", 0⟩]⟩ ∧
      held.find? "plc" = some record ∧ record.available = false ∧ record.currentRun = some 1 ∧
      (Desk.step ⟨held, [lease, ⟨"plc", 0⟩]⟩ (.drop ⟨"plc", 0⟩)).registry.find? "plc" =
        some record := by
  intro desk
  have leases : desk.leases = [⟨"plc", 0⟩] := by decide +kernel
  have available : ∃ record, desk.registry.find? "plc" = some record ∧ record.available = true :=
    ⟨⟨"Press", "plc", true, false, none, some 1⟩, by decide +kernel, rfl⟩
  obtain ⟨-, acquires, granted, -⟩ :=
    exclusive_of_history [.register "Press" "plc", .acquire "plc" 1, .release "plc"]
  obtain ⟨lease, held, acquired⟩ := (acquires "plc" 2).1.mpr available
  obtain ⟨-, -, stepped, -, record, found, taken, -, current⟩ := granted "plc" 2 lease held acquired
  have run : lease.run = 1 := by
    rw [(Registry.of_acquire acquired).1]
    decide +kernel
  rw [leases] at stepped
  obtain ⟨-, -, -, -, drops, -⟩ := exclusive_of_history
    [.register "Press" "plc", .acquire "plc" 1, .release "plc", .acquire "plc" 2]
  have same : after [.register "Press" "plc", .acquire "plc" 1, .release "plc", .acquire "plc" 2] =
      ⟨held, [lease, ⟨"plc", 0⟩]⟩ := stepped
  obtain ⟨before, foundBefore, changes⟩ := drops ⟨"plc", 0⟩ (by rw [same]; simp)
  rw [same] at foundBefore changes
  obtain rfl := Option.some.inj (found.symm.trans foundBefore)
  refine ⟨lease, held, record, acquired, run, stepped, found, taken, run ▸ current, ?_⟩
  by_contra differs
  have own := changes.mp differs
  rw [current, run] at own
  exact absurd own (by decide)

end Desk

end Pneumatic.Device
