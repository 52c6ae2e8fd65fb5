import Pneumatic.Run.Machine

/-!
# The log of a run

A run leaves a log of what it asked for and what it was answered, of its sleeps, and of
the times it let others go on.  Nothing is assumed of the answers: a log is possible if
some field, at some times, answers in this way.
-/

namespace Pneumatic.Run

/-- What a run did in one move. -/
inductive Event where
  | asked (request : Request) (reply : request.Reply)
  /-- A sleep, and whether a stop request ended it. -/
  | slept (span : Duration) (stop : Bool)
  | yielded

/-- One move of a run, and what it leaves in the log. -/
def Goes (run : Run) (event : Event) (run' : Run) : Prop :=
  match run.move with
  | .ask request resume => ∃ now reply, event = .asked request reply ∧ run' = resume now reply
  | .sleep span resume => ∃ now stop, event = .slept span stop ∧ run' = resume now stop
  | .yield resume => ∃ now, event = .yielded ∧ run' = resume now
  | .halt _ => False

theorem Goes.of_ask {run : Run} {request : Request} {resume : Nat → request.Reply → Run}
    (asks : run.move = .ask request resume) (now : Nat) (reply : request.Reply) :
    Goes run (.asked request reply) (resume now reply) := by
  rw [Goes, asks]
  exact ⟨now, reply, rfl, rfl⟩

theorem Goes.of_sleep {run : Run} {span : Duration} {resume : Nat → Bool → Run}
    (sleeps : run.move = .sleep span resume) (now : Nat) (stop : Bool) :
    Goes run (.slept span stop) (resume now stop) := by
  rw [Goes, sleeps]
  exact ⟨now, stop, rfl, rfl⟩

theorem Goes.of_yield {run : Run} {resume : Nat → Run} (yields : run.move = .yield resume)
    (now : Nat) : Goes run .yielded (resume now) := by
  rw [Goes, yields]
  exact ⟨now, rfl, rfl⟩

/-- The runs that a run may become, with the log on the way. -/
inductive Logged (first : Run) : List Event → Run → Prop where
  | start : Logged first [] first
  | move {log : List Event} {run run' : Run} {event : Event} :
      Logged first log run → Goes run event run' → Logged first (log ++ [event]) run'

/-! ## What stays the same -/

/-- Two runs differ in their walk and their phase only. -/
def Kin (run run' : Run) : Prop :=
  run' = { run with walk := run'.walk, phase := run'.phase }

namespace Kin

variable {run run' run'' : Run}

@[refl] theorem refl (run : Run) : run.Kin run := rfl

theorem trans (kin : run.Kin run') (kin' : run'.Kin run'') : run.Kin run'' := by
  unfold Kin at *
  rw [kin', kin]

theorem sequence_eq (kin : run.Kin run') : run'.sequence = run.sequence := by
  rw [kin]

theorem settings_eq (kin : run.Kin run') : run'.settings = run.settings := by
  rw [kin]

theorem lease_eq (kin : run.Kin run') : run'.lease = run.lease := by
  rw [kin]

theorem endpoint_eq (kin : run.Kin run') : run'.endpoint = run.endpoint := by
  rw [endpoint, endpoint, kin.lease_eq, kin.settings_eq]

theorem seeds_eq (kin : run.Kin run') : run'.seeds = run.seeds := by
  rw [kin, seeds, seeds]

theorem restWrites_eq (kin : run.Kin run') : run'.restWrites = run.restWrites := by
  rw [restWrites, restWrites, kin.sequence_eq]

theorem enter (kin : run.Kin run') (phase : Phase) : run.Kin (run'.enter phase) :=
  kin.trans rfl

end Kin

variable {run run' : Run}

theorem kin_follow (run : Run) (index now : Nat) (leave : Walk.Leave) :
    run.Kin (run.follow index now leave) := by
  cases leave with
  | ask walk region rest => rfl
  | go walk next =>
      cases next with
      | none => rfl
      | some next =>
          simp only [follow]
          split <;> rfl

theorem kin_beginDelay (run : Run) (index : Nat) (delay : Duration) (now : Nat) :
    run.Kin (run.beginDelay index delay now) := by
  unfold beginDelay
  split
  · exact kin_follow run index now _
  · rfl

theorem kin_carryOut (run : Run) (now index : Nat) (writes : List Field.Write) (delay : Duration)
    (tokens : List Token) : run.Kin (run.carryOut now index writes delay tokens) := by
  induction tokens generalizing writes delay with
  | nil =>
      unfold carryOut
      split
      · exact kin_beginDelay run index delay now
      · rfl
  | cons token rest ih =>
      cases token with
      | actuation actuation => exact ih _ _
      | timer timing =>
          cases timing with
          | fixed span => exact ih _ _
          | relative offset => rfl
      | pressure pressure => rfl

theorem kin_look (run : Run) (watch : Watch) (now : Nat) (sensors : List String) :
    run.Kin (run.look watch now sensors) := by
  cases sensors with
  | cons sensor rest => rfl
  | nil =>
      rw [look]
      cases watch.goal with
      | none => rfl
      | some index => exact kin_carryOut run now index _ _ _

theorem kin_wait (run : Run) (watch : Watch) (sensor : String) (now : Nat) :
    run.Kin (run.wait watch sensor now) := by
  simp only [wait]
  split
  · split <;> rfl
  · rfl

theorem kin_orFail {α : Type} (run : Run) (result : Except Field.Error α) {go : α → Run}
    (goes : ∀ value, run.Kin (go value)) : run.Kin (run.orFail result go) := by
  cases result with
  | ok value => exact goes value
  | error error => rfl

/-- A move keeps the sequence, the settings, the device and the values of the variables. -/
theorem Goes.kin {event : Event} (goes : Goes run event run') : run.Kin run' := by
  cases phase : run.phase <;> simp only [Goes, Run.move, phase] at goes
  case connecting | opening =>
    obtain ⟨now, reply, -, rfl⟩ := goes
    cases reply <;> rfl
  case seeding | resting =>
    obtain ⟨now, reply, -, rfl⟩ := goes
    exact kin_orFail run reply fun _ => rfl
  case settling =>
    obtain ⟨now, stop, -, rfl⟩ := goes
    split
    · rfl
    · split <;> rfl
  case settled | paused =>
    obtain ⟨now, stop, -, rfl⟩ := goes
    split <;> rfl
  case polling watch =>
    obtain ⟨now, stop, -, rfl⟩ := goes
    split
    · rfl
    · exact kin_look run watch now _
  case looking watch sensor rest =>
    obtain ⟨now, reply, -, rfl⟩ := goes
    refine kin_orFail run _ fun isOn => ?_
    split
    · exact kin_look run watch now rest
    · exact kin_wait run watch sensor now
  case pausing watch =>
    obtain ⟨now, stop, -, rfl⟩ := goes
    split <;> rfl
  case timing work delay =>
    obtain ⟨now, reply, -, rfl⟩ := goes
    refine kin_orFail run _ fun seconds => ?_
    split
    · exact kin_carryOut run now _ _ _ _
    · rfl
  case acting work =>
    obtain ⟨now, reply, -, rfl⟩ := goes
    have counted : run.Kin { run with
        walk := { run.walk with actuationWrites := run.walk.actuationWrites + 1 } } := rfl
    exact kin_orFail run _ fun _ => counted.trans (kin_beginDelay _ work.index work.delay now)
  case delaying index delay =>
    obtain ⟨now, stop, -, rfl⟩ := goes
    split <;> rfl
  case delayed index delay =>
    obtain ⟨now, stop, -, rfl⟩ := goes
    split
    · rfl
    · exact kin_follow run index now _
  case asking index region rest =>
    obtain ⟨now, reply, -, rfl⟩ := goes
    exact kin_orFail run _ fun value => kin_follow run index now _
  case rewinding index next =>
    obtain ⟨now, -, rfl⟩ := goes
    rfl
  case closing result | disconnecting result =>
    obtain ⟨now, reply, -, rfl⟩ := goes
    rfl

theorem Logged.kin {first : Run} {log : List Event} (logged : Logged first log run) :
    first.Kin run := by
  induction logged with
  | start => rfl
  | move _ goes ih => exact ih.trans goes.kin

/-- A log goes on with the log of what comes after. -/
theorem Logged.append {first : Run} {log more : List Event} (logged : Logged first log run)
    (goesOn : Logged run more run') : Logged first (log ++ more) run' := by
  induction goesOn with
  | start => simpa using logged
  | move _ goes ih =>
      rw [← List.append_assoc]
      exact .move ih goes

theorem Goes.logged {event : Event} (goes : Goes run event run') : Logged run [event] run' :=
  .move .start goes

/-! ## Answers -/

theorem eq_bool_of_asBool {reply : Except Field.Error Field.Value} {tag : String} {seen : Bool}
    (read : reply.bind (·.asBool tag) = .ok seen) : reply = .ok (.bool seen) := by
  cases reply with
  | error error => contradiction
  | ok found =>
      cases found with
      | int _ => contradiction
      | bool found =>
          obtain rfl := Except.ok.inj read
          rfl

theorem eq_int_of_asInt {reply : Except Field.Error Field.Value} {tag : String} {seen : Int16}
    (read : reply.bind (·.asInt tag) = .ok seen) : reply = .ok (.int seen) := by
  cases reply with
  | error error => contradiction
  | ok found =>
      cases found with
      | bool _ => contradiction
      | int found =>
          obtain rfl := Except.ok.inj read
          rfl

end Pneumatic.Run
