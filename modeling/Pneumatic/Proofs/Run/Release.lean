import Pneumatic.Proofs.Except
import Pneumatic.Proofs.Run.Alone
import Pneumatic.Proofs.Run.Launch
import Pneumatic.Proofs.Run.Laws
import Pneumatic.Proofs.Run.Record
import Pneumatic.Proofs.Run.Session

/-!
# What a run gives back

However a run ends, and whatever the field answers on the way, its device is free again, its
session closed and its connection gone.
-/

namespace Pneumatic

namespace Run

variable {σ : Type} {field : Field σ} {company : Company} {origin world : σ} {first run : Run}
  {log : List Event}

/-- As long as a run goes on it holds its device, and the devices that no other run uses stay
as they are. -/
theorem Amid.held {away : String → Prop} {before : Device.Registry}
    (stops : field.StopsOnly first.lease.address)
    (elsewhere : ∀ address, away address → address ≠ first.lease.address ∧
      ∀ lease endpoint, company lease endpoint → address ≠ lease.address)
    (different : ∀ lease endpoint, company lease endpoint → lease.run ≠ first.lease.run)
    (held : Device.Held first.lease away before (field.registry origin))
    (amid : Amid field company origin first log world run) :
    Device.Held first.lease away before (field.registry world) := by
  have performs {request : Request} {lease : Device.Lease} {endpoint : String} {now : Nat}
      {world : σ} (held : Device.Held first.lease away before (field.registry world)) :
      Device.Held first.lease away before
        (field.registry (field.perform request lease endpoint now world).2) := by
    rcases stops.registry_perform request lease endpoint now world with same | stopped
    · rwa [same]
    · rw [stopped]
      exact held.stop fun address isAway => (elsewhere address isAway).1
  induction amid with
  | start => exact held
  | ask now amid asks ih => exact performs ih
  | sleep now stop amid sleeps ih => exact ih
  | yield now amid yields ih => exact ih
  | otherAsks request now amid member ih => exact performs ih
  | otherDrops amid member ih =>
      rw [stops.registry_setRegistry]
      exact ih.drop (different _ _ member) fun address isAway =>
        (elsewhere address isAway).2 _ _ member

/-! ## Sessions -/

theorem Amid.sessions {sessions : σ → Option Nat} (counts : field.Counts first.endpoint sessions)
    (elsewhere : ∀ lease endpoint, company lease endpoint → endpoint ≠ first.endpoint)
    (amid : Amid field company origin first log world run) :
    sessions world = (sessions origin).map fun count => log.foldl Event.sessions count := by
  induction amid with
  | start => simp
  | ask now amid asks ih =>
      rw [amid.logged.kin.endpoint_eq, counts.perform, ih, Option.map_map]
      simp [Function.comp_def]
  | sleep now stop amid sleeps ih => simpa [Event.sessions] using ih
  | yield now amid yields ih => simpa [Event.sessions] using ih
  | otherAsks request now amid member ih =>
      rw [counts.elsewhere _ _ _ _ _ (elsewhere _ _ member), ih]
  | otherDrops amid member ih => rw [counts.setRegistry, ih]

theorem Event.sessions_of_not_isMark {event : Event} (isMark : event.isMark = false)
    (count : Nat) : Event.sessions count event = count := by
  cases event with
  | asked request reply => cases request <;> first | contradiction | rfl
  | slept span stop => rfl
  | yielded => rfl

/-- Only the marks of a log count. -/
theorem foldl_sessions_marks (log : List Event) (count : Nat) :
    log.foldl Event.sessions count = (marks log).foldl Event.sessions count := by
  induction log generalizing count with
  | nil => rfl
  | cons event rest ih =>
      cases isMark : event.isMark with
      | true =>
          rw [marks, List.filter_cons_of_pos isMark, List.foldl_cons, List.foldl_cons, ih, marks]
      | false =>
          rw [marks, List.filter_cons_of_neg (by simp [isMark]), List.foldl_cons,
            Event.sessions_of_not_isMark isMark, ih, marks]

theorem Ended.foldl_sessions {sequence : Sequence} {result : Result}
    (ended : Ended sequence log result) (count : Nat) : log.foldl Event.sessions count = count := by
  rw [foldl_sessions_marks]
  cases ended with
  | refused marksEq => rw [marksEq]; rfl
  | unopened _ marksEq => rw [marksEq]; rfl
  | closed _ _ marksEq => rw [marksEq]; rfl

/-- What the field took part in shows the same end. -/
theorem Ended.asked {sequence : Sequence} {result : Result} (ended : Ended sequence log result) :
    Ended sequence (log.filter Event.isAsked) result := by
  have marksEq : marks (log.filter Event.isAsked) = marks log := by
    rw [marks, List.filter_filter, marks]
    congr 1
    funext event
    cases event with
    | asked request reply => simp [Event.isAsked]
    | slept span stop => rfl
    | yielded => rfl
  have keeps (error : Error) (arises : error.Arises sequence log) :
      error.Arises sequence (log.filter Event.isAsked) := by
    cases error with
    | unsupported what =>
        cases what with
        | longDelay delay seconds =>
            obtain ⟨member, tooLong, value, secondsEq, read⟩ := arises
            exact ⟨member, tooLong, value, secondsEq, List.mem_filter.mpr ⟨read, rfl⟩⟩
        | pressure token => exact arises
        | openingRetraction label => exact arises
    | _ => exact arises
  cases ended with
  | refused marked => exact .refused (marksEq.trans marked)
  | unopened reply marked => exact .unopened reply (marksEq.trans marked)
  | closed reply reply' marked arises =>
      exact .closed reply reply' (marksEq.trans marked)
        fun error failed => keeps error (arises error failed)

/-! ## Runs to the end -/

namespace Schedule

variable {launch : Launch} {schedule held ended : Schedule σ} {sequence : Sequence}
  {result : Result}

/-- The other runs on a schedule. -/
def others (schedule : Schedule σ) : Company := fun lease endpoint =>
  ∃ task ∈ schedule.tasks, task.run.lease = lease ∧ task.run.endpoint = endpoint

theorem members_others (schedule : Schedule σ) : Members schedule.others schedule.tasks :=
  fun task membership => ⟨task, membership, rfl, rfl⟩

/-- A run that held its device and came to a result, with its log. -/
theorem exists_amid_of_run (prepared : prepare field launch schedule = .ok (first, held))
    (ran : Schedule.run field launch schedule = (some result, ended)) :
    ∃ log before run, Amid field held.others held.world first log before run ∧
      run.move = .halt result ∧
      ended.world = field.setRegistry ((field.registry before).drop first.lease) before := by
  rcases cases_of_run ran with ⟨error, refused, -, -⟩ |
    ⟨first', held', task, prepared', ends, resultEq⟩
  · rw [refused] at prepared
    contradiction
  · rw [prepared] at prepared'
    obtain ⟨rfl, rfl⟩ := Prod.mk.inj (Except.ok.inj prepared')
    obtain ⟨log, before, amid, halts, worldEq⟩ :=
      amid_of_runToEnd (members_others held) ends resultEq
    exact ⟨log, before, task.run, amid, halts, worldEq⟩

/-- What a field with a record holds of a run that came to a result. -/
theorem exists_record_of_run
    (named : ∀ task ∈ schedule.tasks, task.run.lease.run < (schedule.registry field).runs)
    (prepared : prepare field launch schedule = .ok (first, held))
    (ran : Schedule.run field launch schedule = (some result, ended)) :
    ∃ record, Schedule.run field.recorded launch (schedule.withRecord []) =
        (some result, ended.withRecord record) ∧
      Ended first.sequence (record.of first.lease) result := by
  obtain ⟨record, ranRecorded⟩ := run_withRecord ran []
  refine ⟨record, ranRecorded, ?_⟩
  have preparedRecorded : prepare field.recorded launch (schedule.withRecord []) =
      .ok (first, held.withRecord []) := by
    rw [prepare_withRecord, prepared]
    rfl
  obtain ⟨sequence, holds⟩ := holds_of_prepare prepared
  obtain ⟨log, ⟨before, record'⟩, run, amid, halts, worldEq⟩ :=
    exists_amid_of_run preparedRecorded ranRecorded
  obtain ⟨-, rfl⟩ := Prod.mk.inj worldEq
  have different (lease : Device.Lease) (endpoint : String)
      (member : (held.withRecord []).others lease endpoint) : lease ≠ first.lease := by
    obtain ⟨task, membership, rfl, -⟩ := member
    rw [holds.heldEq] at membership
    have older := named task membership
    rw [holds.firstEq]
    intro same
    rw [same] at older
    exact Nat.lt_irrefl _ older
  have begins : first.phase = .connecting := by
    rw [holds.firstEq]
    rfl
  rw [amid.of_record different]
  exact (ended_of_logged begins amid.logged halts).asked

/-- The devices that neither a run nor those on a schedule use. -/
def Away (launch : Launch) (schedule : Schedule σ) (address : String) : Prop :=
  address ≠ launch.address ∧ ∀ task ∈ schedule.tasks, task.run.lease.address ≠ address

/-- A run begins with its device held. -/
theorem Holds.device (holds : Holds field launch schedule first held sequence)
    (stops : field.StopsOnly launch.address) :
    Device.Held first.lease (Away launch schedule) (schedule.registry field)
      (field.registry held.world) := by
  obtain ⟨record, found⟩ := holds.find?_self stops.registry_setRegistry
  rw [holds.lease_eq]
  exact ⟨⟨_, found, rfl, rfl⟩, fun address isAway =>
    holds.find?_of_ne stops.registry_setRegistry isAway.1⟩

/-- A run that held its device and came to a result, whatever the field answered and whenever
it was asked to stop, has given everything back: the device is free, other devices that no
run uses are as before, each session it opened is closed once and each connection ended
once, and as many sessions are open on its controller as before. -/
theorem released_of_run (stops : field.StopsOnly launch.address)
    (named : ∀ task ∈ schedule.tasks, task.run.lease.run < (schedule.registry field).runs)
    (prepared : prepare field launch schedule = .ok (first, held))
    (ran : Schedule.run field launch schedule = (some result, ended)) :
    (∃ record, (ended.registry field).find? launch.address = some record ∧
      record.available = true ∧ record.stopRequested = false ∧ record.currentRun = none) ∧
    (∀ address, address ≠ launch.address →
      (∀ task ∈ schedule.tasks, task.run.lease.address ≠ address) →
      (ended.registry field).find? address = (schedule.registry field).find? address) ∧
    (∃ record, Schedule.run field.recorded launch (schedule.withRecord []) =
        (some result, ended.withRecord record) ∧
      ((∃ error, marks (record.of first.lease) = [.asked .connect (.error error)]) ∨
        (∃ error reply, marks (record.of first.lease) =
          [.connected, .asked .openSession (.error error), .asked .disconnect reply]) ∨
        ∃ reply reply', marks (record.of first.lease) =
          [.connected, .opened, .asked .closeSession reply, .asked .disconnect reply'])) ∧
    ∀ sessions, field.Counts first.endpoint sessions →
      (∀ task ∈ schedule.tasks, task.run.endpoint ≠ first.endpoint) →
      sessions ended.world = sessions schedule.world := by
  obtain ⟨sequence, holds⟩ := holds_of_prepare prepared
  obtain ⟨log, before, run, amid, halts, worldEq⟩ := exists_amid_of_run prepared ran
  have device : Device.Held first.lease (Away launch schedule) (schedule.registry field)
      (field.registry before) := by
    apply amid.held
    · rw [holds.lease_eq]
      exact stops
    · rintro address ⟨ne, unused⟩
      rw [holds.lease_eq]
      refine ⟨ne, ?_⟩
      rintro lease endpoint ⟨task, membership, rfl, -⟩
      rw [holds.tasks_eq] at membership
      exact (unused task membership).symm
    · rintro lease endpoint ⟨task, membership, rfl, -⟩
      rw [holds.tasks_eq] at membership
      rw [holds.lease_eq]
      exact Nat.ne_of_lt (named task membership)
    · exact holds.device stops
  have registryEq : ended.registry field = (field.registry before).drop first.lease := by
    rw [registry, worldEq, stops.registry_setRegistry]
  have begins : first.phase = .connecting := by
    rw [holds.firstEq]
    rfl
  refine ⟨?_, ?_, ?_, ?_⟩
  · have free := device.release
    rw [holds.lease_eq] at free registryEq
    rw [registryEq]
    exact free
  · intro address ne unused
    rw [registryEq, Device.Registry.drop,
      Device.Registry.find?_update_of_ne (Device.Registry.address_drop first.lease.run)
        (by rwa [holds.lease_eq])]
    exact device.others address ⟨ne, unused⟩
  · obtain ⟨record, ranRecorded, ended'⟩ := exists_record_of_run named prepared ran
    refine ⟨record, ranRecorded, ?_⟩
    cases ended' with
    | refused marksEq => exact .inl ⟨_, marksEq⟩
    | unopened reply marksEq => exact .inr (.inl ⟨_, reply, marksEq⟩)
    | closed reply reply' marksEq => exact .inr (.inr ⟨reply, reply', marksEq⟩)
  · intro sessions counts elsewhere
    have count := amid.sessions counts (by
      rintro lease endpoint ⟨task, membership, -, rfl⟩
      rw [holds.tasks_eq] at membership
      exact elsewhere task membership)
    have ended' := ended_of_logged begins amid.logged halts
    simp only [ended'.foldl_sessions, Option.map_id_fun', id_eq] at count
    rw [worldEq, counts.setRegistry, count, holds.heldEq]
    exact counts.setRegistry _ _

/-- A run whose first step is refused gives everything back. -/
theorem released_of_run_refused :
    ∃ plant first held ended, prepare Plant.field ⟨"A+", "plc", .default, 1, 1⟩ ⟨plant, 0, []⟩ =
        .ok (first, held) ∧
      Schedule.run Plant.field ⟨"A+", "plc", .default, 1, 1⟩ ⟨plant, 0, []⟩ =
        (some (.error (.field (.write "simulated write failure"))), ended) ∧
      (∃ record, (ended.registry Plant.field).find? "plc" = some record ∧
        record.available = true ∧ record.stopRequested = false ∧ record.currentRun = none) ∧
      Plant.sessions first.endpoint ended.world = Plant.sessions first.endpoint plant := by
  let plant : Plant :=
    .single "plc" 4840 { Field.Controller.withActuators 0 ['A'] with writeLimit := some 2 }
  let launch : Launch := ⟨"A+", "plc", .default, 1, 1⟩
  have ends : ((prepare Plant.field launch ⟨plant, 0, []⟩).toOption.any fun held =>
      ((Solo.step Plant.field)^[20] ⟨held.2.world, held.2.clock, held.1⟩).result? ==
        some (.error (.field (.write "simulated write failure")))) = true := by
    decide +kernel
  obtain ⟨⟨first, held⟩, prepared, ends⟩ := any_toOption_iff.mp ends
  obtain ⟨sequence, holds⟩ := holds_of_prepare prepared
  have ran := run_of_result? holds.tasks_eq prepared (beq_iff_eq.mp ends)
  obtain ⟨free, -, -, sessions⟩ :=
    released_of_run (Plant.stopsOnly "plc") (by simp) prepared ran
  exact ⟨plant, first, held, _, prepared, ran, free,
    sessions _ (Plant.counts first.endpoint) (by simp)⟩

end Schedule

end Run

end Pneumatic
