import Pneumatic.Proofs.Run.Course
import Pneumatic.Proofs.Run.Order

/-!
# Stop requests to a run

A run checks for a stop request before every round of looks and in every pause.  Between two
such checks it issues the write of at most one step; so after a request at most one more is
issued, and the run ends as stopped unless it had made its last check.  A run that ends as
stopped was asked to.
-/

namespace Pneumatic.Run

/-! ## What a log shows of stop requests -/

namespace Event

/-- A check for a stop request: when asked, or asleep. -/
def Checks : Event → Prop
  | .asked .checkStop _ | .slept _ _ => True
  | _ => False

/-- A check that found one. -/
def Stops : Event → Prop
  | .asked .checkStop (reply : Bool) => reply = true
  | .slept _ stop => stop = true
  | _ => False

/-- Whether something is written. -/
def isWrite : Event → Bool
  | .asked (.write _) _ => true
  | _ => false

end Event

/-- The actuation writes that a run issued: those after the opening. -/
def actuations (first : Run) (log : List Event) : List Event :=
  (log.drop (opened first).length).filter Event.isWrite

/-- How many actuation writes may come before the next check for a stop request. -/
def Phase.ahead : Phase → Nat
  | .looking _ _ _ | .timing _ _ | .acting _ => 1
  | _ => 0

/-- The controller is given back because of a stop request. -/
def Phase.Quits : Phase → Prop
  | .closing result | .disconnecting result | .finished result =>
      ∃ report, result = .ok report ∧ report.outcome = .stopped
  | _ => False

/-- Nothing is written before the next check, and no stop request was found. -/
def Phase.Calm (phase : Phase) : Prop :=
  phase.ahead = 0 ∧ ¬ phase.Quits

theorem Phase.ahead_le_one (phase : Phase) : phase.ahead ≤ 1 := by
  cases phase <;> simp [ahead]

variable {first run run' : Run} {log more : List Event} {event : Event} {index now : Nat}

theorem actuations_snoc (first : Run) (log : List Event) (event : Event) :
    actuations first (log ++ [event]) = actuations first log ++
      if event.isWrite ∧ (opened first).length ≤ log.length then [event] else [] := by
  rw [actuations, actuations, List.drop_append, List.filter_append]
  congr 1
  by_cases before : (opened first).length ≤ log.length
  · rw [Nat.sub_eq_zero_of_le before, List.drop_zero]
    cases writes : event.isWrite <;> simp [writes, before]
  · rw [List.drop_eq_nil_of_le (by simp; omega), if_neg fun both => before both.2]
    rfl

theorem actuations_snoc_of_not (first : Run) (log : List Event) (silent : event.isWrite = false) :
    actuations first (log ++ [event]) = actuations first log := by
  rw [actuations_snoc, if_neg (by simp [silent]), List.append_nil]

theorem exists_actuations_snoc (first : Run) (log : List Event) (event : Event) :
    ∃ issued, actuations first (log ++ [event]) = actuations first log ++ issued ∧
      issued.length ≤ 1 := by
  refine ⟨_, actuations_snoc first log event, ?_⟩
  split <;> simp

/-! ## Where a move leads -/

theorem calm_follow (run : Run) (index now : Nat) (leave : Walk.Leave) :
    (run.follow index now leave).phase.Calm := by
  cases leave with
  | ask walk region rest => exact ⟨rfl, id⟩
  | go walk next =>
      cases next with
      | none => exact ⟨rfl, id⟩
      | some next =>
          simp only [follow]
          split <;> exact ⟨rfl, id⟩

theorem calm_beginDelay (run : Run) (index : Nat) (delay : Duration) (now : Nat) :
    (run.beginDelay index delay now).phase.Calm := by
  unfold beginDelay
  split
  · exact calm_follow run index now _
  · exact ⟨rfl, id⟩

theorem calm_fail (run : Run) (error : Error) : (run.fail error).phase.Calm :=
  ⟨rfl, nofun⟩

theorem calm_wait (run : Run) (watch : Watch) (sensor : String) (now : Nat) :
    (run.wait watch sensor now).phase.Calm := by
  simp only [wait]
  split
  · split
    · exact calm_fail run _
    · exact ⟨rfl, id⟩
  · exact ⟨rfl, id⟩

theorem not_quits_carryOut (run : Run) (now index : Nat) (writes : List Field.Write)
    (delay : Duration) (tokens : List Token) :
    ¬ (run.carryOut now index writes delay tokens).phase.Quits := by
  induction tokens generalizing writes delay with
  | nil =>
      unfold carryOut
      split
      · exact (calm_beginDelay run index delay now).2
      · exact id
  | cons token rest ih =>
      cases token with
      | actuation actuation => exact ih _ _
      | timer timing =>
          cases timing with
          | fixed span => exact ih _ _
          | relative offset => exact id
      | pressure pressure => exact (calm_fail run _).2

theorem not_quits_look (run : Run) (watch : Watch) (now : Nat) (sensors : List String) :
    ¬ (run.look watch now sensors).phase.Quits := by
  cases sensors with
  | cons sensor rest => exact id
  | nil =>
      rw [look]
      cases watch.goal with
      | none =>
          rintro ⟨report, reported, stopped⟩
          obtain rfl := Except.ok.inj reported
          contradiction
      | some index => exact not_quits_carryOut run now index _ _ _

theorem not_quits_orFail {α : Type} {result : Except Field.Error α} {go : α → Run}
    (goes : ∀ value, ¬ (go value).phase.Quits) : ¬ (run.orFail result go).phase.Quits := by
  cases result with
  | ok value => exact goes value
  | error error => exact (calm_fail run _).2

/-- A stop request that is found is the only way to end as stopped. -/
theorem Goes.stops (goes : Goes run event run') (quits : run'.phase.Quits) :
    event.Stops ∨ run.phase.Quits := by
  cases phase : run.phase <;> simp only [Goes, Run.move, phase] at goes
  case closing result | disconnecting result =>
    obtain ⟨now, reply, -, rfl⟩ := goes
    exact .inr quits
  case connecting | opening =>
    obtain ⟨now, reply, -, rfl⟩ := goes
    cases reply with
    | ok _ => exact quits.elim
    | error error =>
        obtain ⟨report, reported, -⟩ := quits
        contradiction
  case seeding | resting =>
    obtain ⟨now, reply, -, rfl⟩ := goes
    refine absurd quits (not_quits_orFail fun _ => ?_)
    try split
    all_goals exact id
  case settling | pausing =>
    obtain ⟨now, stop, rfl, rfl⟩ := goes
    cases stop with
    | true => exact .inl rfl
    | false =>
        rw [if_neg Bool.false_ne_true] at quits
        split at quits <;> exact quits.elim
  case settled | paused | delaying =>
    obtain ⟨now, stop, rfl, rfl⟩ := goes
    cases stop with
    | true => exact .inl rfl
    | false => exact quits.elim
  case polling watch =>
    obtain ⟨now, stop, rfl, rfl⟩ := goes
    cases stop with
    | true => exact .inl rfl
    | false => exact absurd quits (not_quits_look run watch now _)
  case delayed index delay =>
    obtain ⟨now, stop, rfl, rfl⟩ := goes
    cases stop with
    | true => exact .inl rfl
    | false => exact absurd quits (calm_follow run index now _).2
  case looking watch sensor rest =>
    obtain ⟨now, reply, -, rfl⟩ := goes
    refine absurd quits (not_quits_orFail fun isOn => ?_)
    split
    · exact not_quits_look run watch now rest
    · exact (calm_wait run watch sensor now).2
  case timing work delay =>
    obtain ⟨now, reply, -, rfl⟩ := goes
    refine absurd quits (not_quits_orFail fun seconds => ?_)
    split
    · exact not_quits_carryOut run now _ _ _ _
    · exact (calm_fail run _).2
  case acting work =>
    obtain ⟨now, reply, -, rfl⟩ := goes
    exact absurd quits (not_quits_orFail fun _ => (calm_beginDelay _ work.index work.delay now).2)
  case asking index region rest =>
    obtain ⟨now, reply, -, rfl⟩ := goes
    exact absurd quits (not_quits_orFail fun _ => (calm_follow run index now _).2)
  case rewinding index next =>
    obtain ⟨now, -, rfl⟩ := goes
    exact quits.elim

/-! ## One move after a stop request -/

theorem length_lt_of_seeding (told : Told first log run) (phase : run.phase = .seeding) :
    log.length < (opened first).length := by
  simp only [Told, phase] at told
  rw [told.1]
  simp [opened, rested, seeded]

theorem length_lt_of_resting (told : Told first log run) (phase : run.phase = .resting) :
    log.length < (opened first).length := by
  simp only [Told, phase] at told
  rw [told.1]
  simp only [opened, rested, List.length_append, List.length_cons]
  omega

theorem ahead_orFail {α : Type} {result : Except Field.Error α} {go : α → Run}
    (goes : ∀ value, (go value).phase.ahead = 0) : (run.orFail result go).phase.ahead = 0 := by
  cases result with
  | ok value => exact goes value
  | error error => rfl

/-- What a move issues that is not told that there is no stop request: a write that was ahead,
and no other. -/
theorem Goes.ahead (told : Told first log run) (goes : Goes run event run')
    (asked : event ≠ .asked .checkStop false) :
    ∃ issued, actuations first (log ++ [event]) = actuations first log ++ issued ∧
      issued.length + run'.phase.ahead ≤ run.phase.ahead := by
  have silent (nothing : actuations first (log ++ [event]) = actuations first log)
      (le : run'.phase.ahead ≤ run.phase.ahead) :
      ∃ issued, actuations first (log ++ [event]) = actuations first log ++ issued ∧
        issued.length + run'.phase.ahead ≤ run.phase.ahead :=
    ⟨[], nothing.trans (List.append_nil _).symm, by simpa using le⟩
  have unread (isWrite : event.isWrite = false) (zero : run'.phase.ahead = 0) :=
    silent (actuations_snoc_of_not first log isWrite) (zero ▸ Nat.zero_le _)
  cases phase : run.phase <;> simp only [Goes, Run.move, phase] at goes
  case connecting | opening =>
    obtain ⟨now, reply, rfl, rfl⟩ := goes
    rw [phase] at unread
    cases reply <;> exact unread rfl rfl
  case seeding =>
    have before := length_lt_of_seeding told phase
    obtain ⟨now, reply, rfl, rfl⟩ := goes
    rw [phase] at silent
    apply silent
    · rw [actuations_snoc, if_neg fun both => Nat.not_le_of_lt before both.2, List.append_nil]
    · apply Nat.le_of_eq
      apply ahead_orFail
      intro _
      split <;> rfl
  case resting =>
    have before := length_lt_of_resting told phase
    obtain ⟨now, reply, rfl, rfl⟩ := goes
    rw [phase] at silent
    apply silent
    · rw [actuations_snoc, if_neg fun both => Nat.not_le_of_lt before both.2, List.append_nil]
    · exact Nat.le_of_eq (ahead_orFail fun _ => rfl)
  case settling | polling | pausing | delaying =>
    obtain ⟨now, stop, rfl, rfl⟩ := goes
    rw [phase] at unread
    cases stop with
    | true => exact unread rfl rfl
    | false => exact absurd rfl asked
  case settled | paused =>
    obtain ⟨now, stop, rfl, rfl⟩ := goes
    rw [phase] at unread
    cases stop <;> exact unread rfl rfl
  case delayed index delay =>
    obtain ⟨now, stop, rfl, rfl⟩ := goes
    rw [phase] at unread
    cases stop with
    | true => exact unread rfl rfl
    | false => exact unread rfl (calm_follow run index now _).1
  case looking | timing =>
    obtain ⟨now, reply, rfl, -⟩ := goes
    rw [phase] at silent
    exact silent (actuations_snoc_of_not first log rfl) (Phase.ahead_le_one _)
  case acting work =>
    obtain ⟨now, reply, rfl, rfl⟩ := goes
    obtain ⟨issued, issuedEq, one⟩ := exists_actuations_snoc first log _
    refine ⟨issued, issuedEq, Nat.add_le_add one (Nat.le_of_eq (ahead_orFail fun _ => ?_))⟩
    exact (calm_beginDelay _ work.index work.delay now).1
  case asking index region rest =>
    obtain ⟨now, reply, rfl, rfl⟩ := goes
    rw [phase] at unread
    exact unread rfl (ahead_orFail fun _ => (calm_follow run index now _).1)
  case rewinding index next =>
    obtain ⟨now, rfl, rfl⟩ := goes
    rw [phase] at unread
    exact unread rfl rfl
  case closing result | disconnecting result =>
    obtain ⟨now, reply, rfl, rfl⟩ := goes
    rw [phase] at unread
    exact unread rfl rfl

/-! ## All moves after a stop request -/

/-- What the run goes on to issue when it is not told any more that there is no stop request. -/
theorem ahead_of_logged (long : 0 < first.sequence.length) {mid : Run} (kin : first.Kin mid)
    (told : Told first log mid) (goesOn : Logged mid more run)
    (asked : .asked .checkStop false ∉ more) :
    ∃ issued, actuations first (log ++ more) = actuations first log ++ issued ∧
      issued.length + run.phase.ahead ≤ mid.phase.ahead := by
  have kept : Told first (log ++ more) run ∧
      ∃ issued, actuations first (log ++ more) = actuations first log ++ issued ∧
        issued.length + run.phase.ahead ≤ mid.phase.ahead := by
    induction goesOn with
    | start => exact ⟨by simpa using told, [], by simp, by simp⟩
    | move logged goes ih =>
        rw [List.mem_append, not_or, List.mem_singleton] at asked
        obtain ⟨toldThen, issued, issuedEq, le⟩ := ih asked.1
        obtain ⟨next, nextEq, le'⟩ := goes.ahead toldThen (Ne.symm asked.2)
        rw [← List.append_assoc]
        refine ⟨toldThen.move (kin.trans logged.kin) long goes, issued ++ next, ?_, ?_⟩
        · rw [nextEq, issuedEq, List.append_assoc]
        · rw [List.length_append]
          omega
  exact kept.2

theorem History.opened_prefix {visited : List (Nat × Step)} {before : List Event}
    {next : Option Nat} {walk : Walk} (history : History first visited before next walk) :
    opened first <+: before := by
  induction history with
  | opening => exact List.prefix_rfl
  | visit _ _ _ _ _ ih =>
      rw [List.append_assoc, List.append_assoc]
      exact ih.trans (List.prefix_append _ _)

/-- No write is ahead during the opening. -/
theorem Told.ahead_eq_zero (told : Told first log run) (opening : ¬ opened first <+: log) :
    run.phase.ahead = 0 := by
  cases phase : run.phase with
  | looking watch sensor rest =>
      simp only [Told, phase] at told
      obtain ⟨begun, seen, left, ⟨visited, before, polls, rfl, history, -⟩, rfl, -⟩ := told
      rw [List.append_assoc] at opening
      exact absurd (history.opened_prefix.trans (List.prefix_append _ _)) opening
  | timing work delay | acting work =>
      simp only [Told, phase] at told
      obtain ⟨visited, step, begun, timings, ⟨-, before, wait, rfl, history, -⟩, rfl, -⟩ := told
      rw [List.append_assoc] at opening
      exact absurd (history.opened_prefix.trans (List.prefix_append _ _)) opening
  | _ => rfl

/-- What is not in the rest of a list is before it, with all that comes earlier. -/
theorem prefix_of_append_eq {α : Type} {front back log more : List α} {found : α}
    (whole : front ++ [found] ++ back = log ++ more) (missing : found ∉ more) :
    front ++ [found] <+: log ∧ more <:+ back := by
  rcases List.append_eq_append_iff.mp whole with ⟨left, rfl, rfl⟩ | ⟨left, frontEq, rfl⟩
  · exact ⟨List.prefix_append _ _, List.suffix_append _ _⟩
  · rcases List.eq_nil_or_concat' left with rfl | ⟨earlier, last, rfl⟩
    · rw [List.append_nil] at frontEq
      exact ⟨frontEq ▸ List.prefix_rfl, List.suffix_rfl⟩
    · rw [← List.append_assoc] at frontEq
      obtain ⟨-, foundEq⟩ := List.append_inj' frontEq rfl
      obtain rfl := List.singleton_inj.mp foundEq
      simp at missing

theorem not_checks_of_closes (closes : event.Closes) : ¬ event.Checks := by
  cases event with
  | asked request reply => cases request <;> first | exact id | exact closes.elim
  | slept span stop => exact closes.elim
  | yielded => exact id

/-- A run that completes although it is not told any more that there is no stop request had made
its last check, at the head of the round that saw the last step at its end. -/
theorem Told.completed (told : Told first (log ++ more) run)
    (asked : .asked .checkStop false ∉ more) {report : Report}
    (halts : run.move = .halt (.ok report)) (completed : report.outcome = .completed) :
    ∃ (visited : List (Nat × Step)) (before polls : List Event) (walk : Walk),
      History first visited before none walk ∧
      (∀ event ∈ polls, event.Polls (awaited visited)) ∧
      before ++ polls ++ [.asked .checkStop false] <+: log ∧ ∀ event ∈ more, ¬ event.Checks := by
  obtain ⟨steps, closing, logEq, -, closes, concludes⟩ := told.concluded
  obtain ⟨visited, before, wait, walk, rfl, history, polls, rfl, polling⟩ :=
    (concludes _ halts).2 report rfl completed
  have whole : before ++ polls ++ [.asked .checkStop false] ++
      ((awaited visited).map (fun actuation =>
        .asked (.read (sensor actuation)) (.ok (.bool true))) ++ closing) = log ++ more := by
    rw [logEq]
    simp [confirmation]
  obtain ⟨before', after⟩ := prefix_of_append_eq whole asked
  refine ⟨visited, before, polls, walk, history, polling, before', ?_⟩
  intro event among
  rcases List.mem_append.mp (after.subset among) with looks | closing
  · obtain ⟨actuation, -, rfl⟩ := List.mem_map.mp looks
    exact id
  · exact not_checks_of_closes (closes event closing)

theorem phase_of_halt {result : Result} (halts : run.move = .halt result) :
    run.phase = .finished result := by
  cases phase : run.phase <;> simp [Run.move, phase] at halts
  exact congrArg Phase.finished halts

/-- A run that ends as stopped found a stop request. -/
theorem Logged.stops (logged : Logged first log run) (begins : first.phase = .connecting)
    (quits : run.phase.Quits) : ∃ event ∈ log, event.Stops := by
  induction logged with
  | start =>
      rw [begins] at quits
      exact quits.elim
  | move logged goes ih =>
      rcases goes.stops quits with stops | quitting
      · exact ⟨_, by simp, stops⟩
      · obtain ⟨event, among, stops⟩ := ih quitting
        exact ⟨event, List.mem_append_left _ among, stops⟩

/-! ## Stop requests on a course -/

section Courses

variable {registry held between : Device.Registry} {source address : String} {now : Nat}
  {sequence : Sequence} {lease : Device.Lease} {course past rest : List Happening}

/-- From a stop request on, a run that keeps its device is not told that there is none. -/
theorem Course.not_mem_moves
    (acquired : registry.acquire first.lease.address now = .ok (first.lease, held))
    (followed : Course first held (past ++ .operated (.requestStop first.lease.address) :: rest)
      between run)
    (kept : .release first.lease.address ∉
      operations (past ++ .operated (.requestStop first.lease.address) :: rest)) :
    .asked .checkStop false ∉ moves rest := by
  intro told
  obtain ⟨earlier, later, rfl⟩ := divide_of_mem_moves told
  rw [← List.cons_append, ← List.append_assoc] at followed kept
  have dropped := followed.not_mem_operations
  rw [operations_append, List.mem_append, not_or] at kept dropped
  have keeps : ∀ operation ∈
      operations (past ++ .operated (.requestStop first.lease.address) :: earlier),
      operation ≠ .release first.lease.address ∧ operation ≠ .drop first.lease :=
    fun operation among =>
      ⟨fun same => kept.1 (same ▸ among), fun same => dropped.1 (same ▸ among)⟩
  have asked := (Device.Registry.stopRequested_foldl_iff acquired _ keeps).mpr (by
    simp [operations])
  exact Bool.false_ne_true (followed.honest.trans asked)

/-- A check that finds a stop request comes after one. -/
theorem Course.exists_requestStop
    (acquired : registry.acquire first.lease.address now = .ok (first.lease, held))
    (followed : Course first held (past ++ .moved event :: rest) between run)
    (stops : event.Stops) : .requestStop first.lease.address ∈ operations past := by
  have quiet : held.stopRequested first.lease.address = false := by
    have unasked := Device.Registry.stopRequested_foldl_iff acquired [] (by simp)
    simpa using unasked
  apply Device.Registry.mem_of_stopRequested_foldl quiet
  have honest := followed.honest
  cases event with
  | asked request reply =>
      cases request with
      | checkStop => exact honest.symm.trans stops
      | _ => exact stops.elim
  | slept span stop => exact honest stops
  | yielded => exact stops.elim

/-- Whatever the field answers to a run of a sequence that was read, and whatever is done to the
devices meanwhile: a run that is asked to stop while it keeps its device issues at most one more
actuation write, and none if it had not got beyond the opening; and if it ends without an error
it ends as stopped, unless it had made its last check, at the head of the round of looks that
saw the last step at its end.  A run that ends as stopped was asked to, after it acquired its
device and before its end. -/
theorem stops_of_course
    (prepared : prepare registry source address now = .ok (sequence, lease, held))
    {settings : Settings} {timerSeed repeatSeed : Int16}
    (followed : Course (start sequence settings lease timerSeed repeatSeed) held course between
      run) :
    let first := start sequence settings lease timerSeed repeatSeed
    (∀ past rest, course = past ++ .operated (.requestStop address) :: rest →
      .release address ∉ operations course →
      (∃ issued, actuations first (moves course) = actuations first (moves past) ++ issued ∧
        issued.length ≤ 1 ∧ (¬ opened first <+: moves past → issued = [])) ∧
      ∀ report, run.move = .halt (.ok report) → report.outcome = .stopped ∨
        ∃ visited before polls walk, History first visited before none walk ∧
          (∀ event ∈ polls, event.Polls (awaited visited)) ∧
          before ++ polls ++ [.asked .checkStop false] <+: moves past ∧
          ∀ event ∈ moves rest, ¬ event.Checks) ∧
    ∀ report, run.move = .halt (.ok report) → report.outcome = .stopped →
      ∃ past rest, course = past ++ .operated (.requestStop address) :: rest ∧
        ∃ event ∈ moves rest, event.Stops := by
  intro first
  obtain ⟨parsed, -, -, acquired⟩ := of_prepare prepared
  obtain ⟨rfl, -, -⟩ := Device.Registry.of_acquire acquired
  have long : 0 < first.sequence.length := Sequence.length_pos_of_parse parsed
  constructor
  · rintro past rest rfl kept
    -- From the request on no check is answered with no: only what was ahead is still issued.
    have asked := followed.not_mem_moves acquired kept
    obtain ⟨between, mid, upTo, goesOn⟩ := followed.divide
    have split : moves (past ++ .operated (.requestStop address) :: rest) =
        moves past ++ moves rest := by
      simp [moves]
    have told := Told.of_logged long upTo.logged ⟨rfl, rfl⟩
    have toldAll := Told.of_logged long followed.logged ⟨rfl, rfl⟩
    rw [split] at toldAll ⊢
    constructor
    · obtain ⟨issued, issuedEq, le⟩ := ahead_of_logged long upTo.logged.kin told goesOn asked
      refine ⟨issued, issuedEq, ?_, ?_⟩
      · have one := mid.phase.ahead_le_one
        omega
      · intro opening
        rw [told.ahead_eq_zero opening] at le
        exact List.eq_nil_of_length_eq_zero (by omega)
    · intro report halts
      cases outcome : report.outcome with
      | stopped => exact .inl rfl
      | completed => exact .inr (toldAll.completed asked halts outcome)
  · intro report halts outcome
    have quits : run.phase.Quits := by
      rw [phase_of_halt halts]
      exact ⟨report, rfl, outcome⟩
    -- The check that stopped the run comes after a request, since the device had none at first.
    obtain ⟨event, among, stops⟩ := followed.logged.stops rfl quits
    obtain ⟨earlier, later, rfl⟩ := divide_of_mem_moves among
    obtain ⟨past, between, rfl⟩ :=
      divide_of_mem_operations (followed.exists_requestStop acquired stops)
    exact ⟨past, between ++ .moved event :: later, List.append_assoc .., event, by simp [moves],
      stops⟩

end Courses

/-! ## A stop request in an endless sequence -/

namespace Plant

/-- Simulated controllers, and how many writes are to come until a device is asked to stop. -/
def watched (address : String) : Field (Plant × Nat) where
  registry world := world.1.registry
  setRegistry registry world := ({ world.1 with registry }, world.2)
  perform request lease endpoint now world :=
    let (reply, plant) := perform request lease endpoint now world.1
    (reply, match request with
      | .write _ =>
          (if world.2 = 1 then
            { plant with registry := plant.registry.update address Device.Record.stop }
          else plant, world.2 - 1)
      | _ => (plant, world.2))

theorem stopsOnly_watched (address : String) : (watched address).StopsOnly address where
  registry_setRegistry _ _ := rfl
  registry_perform request lease endpoint now world := by
    have same : (perform request lease endpoint now world.1).2.registry = world.1.registry := by
      rcases perform_eq_update request lease endpoint now world.1 with same | ⟨change, updated⟩
      · exact congrArg Plant.registry same
      · exact (congrArg Plant.registry updated).trans rfl
    cases request with
    | write writes =>
        by_cases last : world.2 = 1
        · right
          simp only [watched, if_pos last]
          rw [same]
        · left
          simp only [watched, if_neg last]
          exact same
    | _ => exact .inl same

theorem heeds_watched (address : String) : (watched address).Heeds :=
  fun _ _ _ _ => rfl

end Plant

/-- A sequence that would go on for ever, asked to stop with its third actuation. -/
theorem stops_of_course_wrapped :
    ∃ registry sequence lease held course between run past rest issued,
      prepare registry "[A+,A-]" "plc" 0 = .ok (sequence, lease, held) ∧
      Course (start sequence .default lease 1 1) held course between run ∧
      course = past ++ .operated (.requestStop "plc") :: rest ∧
      .release "plc" ∉ operations course ∧
      run.move = .halt (.ok ⟨0, "plc", .stopped, 3, 1, 1, 1⟩) ∧
      (∃ event ∈ moves rest, event.Stops) ∧
      actuations (start sequence .default lease 1 1) (moves course) =
        actuations (start sequence .default lease 1 1) (moves past) ++ issued ∧
      issued.length ≤ 1 := by
  let world : Plant × Nat := (.single "plc" 4840 (.withActuators 0 ['A']), 5)
  let launch : Launch := ⟨"[A+,A-]", "plc", .default, 1, 1⟩
  have stops : ((Schedule.prepare (Plant.watched "plc") launch ⟨world, 0, []⟩).toOption.any
      fun held =>
        ((Solo.step (Plant.watched "plc"))^[50] ⟨held.2.world, held.2.clock, held.1⟩).result? ==
          some (.ok ⟨0, "plc", .stopped, 3, 1, 1, 1⟩)) = true := by
    decide +kernel
  cases prepared : prepare world.1.registry "[A+,A-]" "plc" 0 with
  | error error =>
      have fails : Schedule.prepare (Plant.watched "plc") launch ⟨world, 0, []⟩ = .error error :=
        (Schedule.prepare_eq _ _ _).trans (congrArg (Except.map _) prepared)
      simp [fails, Except.toOption] at stops
  | ok held =>
      obtain ⟨sequence, lease, held⟩ := held
      have begins : Schedule.prepare (Plant.watched "plc") launch ⟨world, 0, []⟩ =
          .ok (start sequence .default lease 1 1,
            ⟨(Plant.watched "plc").setRegistry held world, 0, []⟩) :=
        (Schedule.prepare_eq _ _ _).trans (congrArg (Except.map _) prepared)
      simp only [begins, Except.toOption, Option.any_some, beq_iff_eq] at stops
      have ran := Schedule.run_of_result? rfl begins stops
      obtain ⟨course, between, run, followed, halts, mild⟩ :=
        Schedule.exists_course_of_run (Plant.stopsOnly_watched "plc") (Plant.heeds_watched "plc")
          (by simp) begins ran
      obtain ⟨asked, told⟩ := stops_of_course prepared followed
      obtain ⟨past, rest, split, stopped⟩ := told _ halts rfl
      have kept : .release "plc" ∉ operations course := fun among => by
        rcases mild _ among with same | ⟨lease, same⟩ <;> cases same
      obtain ⟨⟨issued, issuedEq, one, -⟩, -⟩ := asked past rest split kept
      exact ⟨_, sequence, lease, held, course, between, run, past, rest, issued, prepared, followed,
        split, kept, halts, stopped, issuedEq, one⟩

end Pneumatic.Run
