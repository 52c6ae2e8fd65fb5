import Pneumatic.Proofs.Device.Desk

/-!
# Stop requests

A run that holds its device reads a stop request exactly if one was made since the run acquired
the device.  What was asked of an idle device or of an earlier run is never read by a later one,
however the earlier run came to its end.
-/

namespace Pneumatic.Device

/-- An operation by which a run comes to hold a device. -/
def Operation.Acquires (operation : Operation) (registry : Registry) (address : String)
    (run : RunId) : Prop :=
  ∃ now held, (operation = .acquire address now ∨ operation = .tryAcquire address now) ∧
    registry.acquire address now = .ok (⟨address, run⟩, held)

theorem currentRun_stop (record : Record) : record.stop.currentRun = record.currentRun := by
  unfold Record.stop
  split <;> rfl

namespace Registry

variable {registry held : Registry} {address : String} {run : RunId} {record : Record}
  {stopped : Prop} {now : Nat}

/-- A device since a run acquired it: if the run still holds it, the record says whether a stop
was requested since. -/
structure Since (registry : Registry) (address : String) (run : RunId) (stopped : Prop) : Prop where
  begun : run < registry.runs
  known : ∃ record, registry.find? address = some record ∧
    (record.currentRun = some run →
      record.available = false ∧ (record.stopRequested = true ↔ stopped))

theorem since_acquire (acquired : registry.acquire address now = .ok (⟨address, run⟩, held)) :
    held.Since address run False := by
  obtain ⟨leaseEq, ⟨record, found, -⟩, rfl⟩ := of_acquire acquired
  obtain rfl : run = registry.runs := congrArg Lease.run leaseEq
  constructor
  · exact Nat.lt_succ_self _
  · refine ⟨record.hold registry.runs now, find?_update_self (fun _ => rfl) found, ?_⟩
    simp [Record.hold]

/-- Only a stop request at the device itself is added to what was requested before. -/
theorem Since.after (since : registry.Since address run stopped) (operation : Operation) :
    (registry.after operation).Since address run
      (stopped ∨ operation = .requestStop address) := by
  obtain ⟨begun, record, found, holds⟩ := since
  have unasked (other : operation ≠ .requestStop address) :
      record.currentRun = some run → record.available = false ∧
        (record.stopRequested = true ↔ stopped ∨ operation = .requestStop address) := by
    simpa only [other, or_false] using holds
  constructor
  · exact Nat.lt_of_lt_of_le begun (runs_le_after registry operation)
  by_cases here : address = operation.address
  · subst here
    refine ⟨_, find?_after_self found, ?_⟩
    cases operation with
    | register name address => exact unasked (by simp)
    | tryAcquire address now | acquire address now =>
        rw [Record.under]
        split
        -- Whoever acquires the device now is a newer run.
        · intro current
          exact absurd (Option.some.inj current) (Nat.ne_of_gt begun)
        · exact unasked (by simp)
    | release address =>
        intro current
        contradiction
    | requestStop address =>
        rw [Record.under, Record.stop]
        split
        · next available =>
            intro current
            rw [(holds current).1] at available
            contradiction
        · intro current
          exact ⟨(holds current).1, iff_of_true rfl (.inr rfl)⟩
    | drop lease =>
        rw [Record.under]
        split
        · intro current
          contradiction
        · exact unasked (by simp)
  · refine ⟨record, (find?_after_of_ne here).trans found, unasked ?_⟩
    rintro rfl
    exact here rfl

/-! ## A run that keeps its device -/

/-- A run holds its device until that is released or given back. -/
theorem Since.current_after (since : registry.Since address run stopped)
    (found : registry.find? address = some record) (current : record.currentRun = some run)
    {operation : Operation} (kept : operation ≠ .release address)
    (kept' : operation ≠ .drop ⟨address, run⟩) :
    ∃ next, (registry.after operation).find? address = some next ∧ next.currentRun = some run := by
  obtain ⟨-, same, foundSame, holds⟩ := since
  obtain rfl : record = same := Option.some.inj (found.symm.trans foundSame)
  by_cases here : address = operation.address
  · subst here
    refine ⟨_, find?_after_self found, ?_⟩
    cases operation with
    | register name address => exact current
    | tryAcquire address now | acquire address now =>
        rw [Record.under, (holds current).1]
        exact current
    | release address => exact absurd rfl kept
    | requestStop address => exact (currentRun_stop record).trans current
    | drop lease =>
        rw [Record.under, if_neg]
        · exact current
        · intro own
          obtain rfl := Option.some.inj (own.symm.trans current)
          exact kept' rfl
  · exact ⟨record, (find?_after_of_ne here).trans found, current⟩

/-- A run that keeps its device reads a stop request exactly if one was made. -/
theorem stopRequested_foldl_iff
    (acquired : registry.acquire address now = .ok (⟨address, run⟩, held))
    (operations : List Operation)
    (kept : ∀ operation ∈ operations,
      operation ≠ .release address ∧ operation ≠ .drop ⟨address, run⟩) :
    (operations.foldl after held).stopRequested address = true ↔
      .requestStop address ∈ operations := by
  have keeps : (operations.foldl after held).Since address run
      (.requestStop address ∈ operations) ∧
      ∃ record, (operations.foldl after held).find? address = some record ∧
        record.currentRun = some run := by
    induction operations using List.reverseRecOn with
    | nil =>
        refine ⟨by simpa using since_acquire acquired, ?_⟩
        obtain ⟨leaseEq, ⟨record, found, -⟩, rfl⟩ := of_acquire acquired
        obtain rfl : run = registry.runs := congrArg Lease.run leaseEq
        exact ⟨_, find?_update_self (fun _ => rfl) found, rfl⟩
    | append_singleton before operation ih =>
        obtain ⟨since, record, found, current⟩ :=
          ih fun earlier among => kept earlier (List.mem_append_left _ among)
        obtain ⟨unreleased, undropped⟩ := kept operation (by simp)
        rw [List.foldl_append]
        refine ⟨?_, since.current_after found current unreleased undropped⟩
        simpa [eq_comm] using since.after operation
  obtain ⟨⟨-, record, found, holds⟩, same, foundSame, current⟩ := keeps
  obtain rfl : record = same := Option.some.inj (found.symm.trans foundSame)
  rw [stopRequested, found, Option.any_some]
  exact (holds current).2

/-- A stop request is read only if it was made. -/
theorem stopRequested_after {operation : Operation}
    (stops : (registry.after operation).stopRequested address = true) :
    registry.stopRequested address = true ∨ operation = .requestStop address := by
  by_cases here : address = operation.address
  · subst here
    cases found : registry.find? operation.address with
    | none =>
        rw [stopRequested, find?_after_of_unknown found] at stops
        cases registers : operation.registered? with
        | none =>
            rw [registers] at stops
            exact absurd stops Bool.false_ne_true
        | some entry =>
            rw [registers] at stops
            exact absurd stops Bool.false_ne_true
    | some record =>
        rw [stopRequested, find?_after_self found, Option.any_some] at stops
        rw [stopRequested, found, Option.any_some]
        cases operation with
        | register name address => exact .inl stops
        | tryAcquire address now | acquire address now =>
            rw [Record.under] at stops
            split at stops
            · exact absurd stops Bool.false_ne_true
            · exact .inl stops
        | release address => exact absurd stops Bool.false_ne_true
        | requestStop address => exact .inr rfl
        | drop lease =>
            rw [Record.under] at stops
            split at stops
            · exact absurd stops Bool.false_ne_true
            · exact .inl stops
  · rw [stopRequested, find?_after_of_ne here] at stops
    exact .inl stops

theorem mem_of_stopRequested_foldl (quiet : registry.stopRequested address = false)
    {operations : List Operation}
    (stops : (operations.foldl after registry).stopRequested address = true) :
    .requestStop address ∈ operations := by
  induction operations using List.reverseRecOn with
  | nil =>
      rw [List.foldl_nil, quiet] at stops
      contradiction
  | append_singleton before operation ih =>
      rw [List.foldl_append] at stops
      rcases stopRequested_after stops with earlier | rfl
      · exact List.mem_append_left _ (ih earlier)
      · simp

end Registry

namespace Desk

variable {desk : Desk} {address : String} {run : RunId} {record : Record} {operation : Operation}

theorem since_of_acquires {past : List Operation}
    (acquires : operation.Acquires (after past).registry address run) (later : List Operation) :
    (after (past ++ operation :: later)).registry.Since address run
      (.requestStop address ∈ later) := by
  induction later using List.reverseRecOn with
  | nil =>
      obtain ⟨now, held, same, acquired⟩ := acquires
      have stepped : ((after past).step operation).registry = held := by
        rcases same with rfl | rfl
        · simp only [step, acquired]
        · simp only [step, Registry.after, Registry.tryAcquire, acquired]
      rw [after_append_singleton, stepped]
      simpa using Registry.since_acquire acquired
  | append_singleton later next ih =>
      rw [← List.cons_append, ← List.append_assoc, after_append_singleton]
      rcases (after (past ++ operation :: later)).registry_step next with
        stepped | ⟨⟨lease, rfl, -⟩, same⟩
      · rw [stepped]
        simpa [eq_comm] using ih.after next
      · rw [same]
        simpa using ih

/-- A run holds a device after an operation only if it did before, or if that acquires the
device. -/
theorem current_or_acquires (found : (desk.step operation).registry.find? address = some record)
    (current : record.currentRun = some run) :
    (∃ before, desk.registry.find? address = some before ∧ before.currentRun = some run) ∨
      operation.Acquires desk.registry address run := by
  rcases desk.registry_step operation with stepped | ⟨-, same⟩
  · rw [stepped] at found
    by_cases here : address = operation.address
    · subst here
      cases before : desk.registry.find? operation.address with
      | none =>
          rw [Registry.find?_after_of_unknown before, Option.map_eq_some_iff] at found
          obtain ⟨registered, -, rfl⟩ := found
          cases current
      | some old =>
          rw [Registry.find?_after_self before, Option.some.injEq] at found
          subst found
          cases operation with
          | register name address => exact .inl ⟨old, rfl, current⟩
          | tryAcquire address now | acquire address now =>
              rw [Record.under] at current
              split at current
              · next available =>
                  obtain rfl := Option.some.inj current
                  right
                  exact ⟨now, _, by simp, Registry.acquire_of_available before available now⟩
              · exact .inl ⟨old, rfl, current⟩
          | release address => cases current
          | requestStop address =>
              rw [Record.under, currentRun_stop] at current
              exact .inl ⟨old, rfl, current⟩
          | drop lease =>
              rw [Record.under] at current
              split at current
              · cases current
              · exact .inl ⟨old, rfl, current⟩
    · rw [Registry.find?_after_of_ne here] at found
      exact .inl ⟨record, found, current⟩
  · rw [same] at found
    exact .inl ⟨record, found, current⟩

/-- A run that holds a device acquired it. -/
theorem exists_acquires (operations : List Operation)
    (found : (after operations).registry.find? address = some record)
    (current : record.currentRun = some run) :
    ∃ past operation later, operations = past ++ operation :: later ∧
      operation.Acquires (after past).registry address run := by
  -- From the end of the history: the last operation acquired the device, or the run held it before.
  induction operations using List.reverseRecOn generalizing record with
  | nil => exact nomatch found
  | append_singleton before next ih =>
      rw [after_append_singleton] at found
      rcases current_or_acquires found current with ⟨earlier, foundEarlier, held⟩ | acquires
      · obtain ⟨past, operation, later, rfl, acquires⟩ := ih foundEarlier held
        exact ⟨past, operation, later ++ [next], by simp, acquires⟩
      · exact ⟨before, next, [], rfl, acquires⟩

/-- After every history, a device that is idle has no stop request, and a run that holds it
acquired it and reads a stop request exactly if one was made since. -/
theorem stopRequested_iff_of_history (operations : List Operation)
    (found : (after operations).registry.find? address = some record) :
    (record.available = true → record.stopRequested = false) ∧
      ∀ run, record.currentRun = some run →
        (∃ past operation later, operations = past ++ operation :: later ∧
          operation.Acquires (after past).registry address run) ∧
        ∀ past operation later, operations = past ++ operation :: later →
          operation.Acquires (after past).registry address run →
          ((after operations).registry.stopRequested address = true ↔
            .requestStop address ∈ later) := by
  constructor
  · intro available
    have sound := (sound_after operations).records address record found
    rw [Bool.eq_false_iff]
    intro stopped
    rw [sound.2 stopped] at available
    contradiction
  · intro run current
    refine ⟨exists_acquires operations found current, ?_⟩
    intro past operation later split acquires
    have since := since_of_acquires acquires later
    rw [← split] at since
    obtain ⟨same, foundSame, holds⟩ := since.known
    obtain rfl : record = same := Option.some.inj (found.symm.trans foundSame)
    rw [Registry.stopRequested, found, Option.any_some]
    exact (holds current).2

/-- A device that was asked to stop while it was idle and again in the first of two runs, and
that the first run gives back only during the second. -/
theorem stopRequested_iff_of_history_stale :
    let past : List Operation := [.register "Press" "plc", .requestStop "plc", .acquire "plc" 1,
      .requestStop "plc", .release "plc"]
    let desk := after (past ++ .acquire "plc" 2 :: [.drop ⟨"plc", 0⟩])
    desk.registry.find? "plc" = some ⟨"Press", "plc", false, false, some 1, some 2⟩ ∧
      (desk.registry.stopRequested "plc" = true ↔
        .requestStop "plc" ∈ [Operation.drop ⟨"plc", 0⟩]) := by
  intro past desk
  have found :
      desk.registry.find? "plc" = some ⟨"Press", "plc", false, false, some 1, some 2⟩ := by
    decide +kernel
  have acquires : (Operation.acquire "plc" 2).Acquires (after past).registry "plc" 1 :=
    ⟨2, ⟨[⟨"Press", "plc", false, false, some 1, some 2⟩], 2⟩, .inl rfl, by decide +kernel⟩
  refine ⟨found, ?_⟩
  have holds := (stopRequested_iff_of_history _ found).2 1 rfl
  exact holds.2 past (.acquire "plc" 2) [.drop ⟨"plc", 0⟩] rfl acquires

end Desk

end Pneumatic.Device
