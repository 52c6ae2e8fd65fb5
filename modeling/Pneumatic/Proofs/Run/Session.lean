import Pneumatic.Proofs.Run.Log

/-!
# The session of a run

A run connects and opens a session before it does anything else.  However it ends, it then
closes the session and disconnects, and does nothing after that.  What ends a run under way
is an error of the field, a sensor that does not come, or a timer that cannot be resolved.
-/

namespace Pneumatic.Run

/-! ## The marks of a session -/

namespace Event

/-- The run connected. -/
def connected : Event := .asked .connect (.ok ())

/-- The run opened a session. -/
def opened : Event := .asked .openSession (.ok ())

/-- Whether an event begins or ends a connection or a session. -/
def isMark : Event → Bool
  | .asked .connect _ | .asked .openSession _ | .asked .closeSession _
  | .asked .disconnect _ => true
  | _ => false

end Event

/-- The connections and sessions in a log. -/
def marks (log : List Event) : List Event :=
  log.filter Event.isMark

theorem marks_append (log more : List Event) : marks (log ++ more) = marks log ++ marks more :=
  List.filter_append ..

/-! ## Runs under way -/

/-- The errors that may end a run under way with a log. -/
def Error.Arises (sequence : Sequence) (log : List Event) : Error → Prop
  | .field _ | .sensorTimeout _ _ => True
  | .unsupported (.longDelay delay seconds) =>
      .timer delay ∈ sequence.tokens ∧ delay.resolve seconds = none ∧
        ∃ value : Int16, seconds = value.toInt ∧
          .asked (.read Tag.timerVariable) (.ok (.int value)) ∈ log
  | .unsupported (.pressure token) => token ∈ sequence.tokens ∧ token.isPressure = true
  | _ => False

/-- A session is open, and the run was not given up for an error that cannot arise. -/
def UnderWay (log : List Event) (run : Run) : Prop :=
  match run.phase with
  | .connecting | .opening | .disconnecting _ | .finished _ => False
  | .timing work delay =>
      .timer delay ∈ run.sequence.tokens ∧ ∀ token ∈ work.tokens, token ∈ run.sequence.tokens
  | .closing result => ∀ error, result = .error error → error.Arises run.sequence log
  | _ => True

variable {run run' : Run} {log : List Event} {index now : Nat}

theorem underWay_fail {error : Error} (arises : error.Arises run.sequence log) :
    UnderWay log (run.fail error) := by
  intro found failed
  obtain rfl := Except.error.inj failed
  exact arises

theorem underWay_stopped (log : List Event) (run : Run) : UnderWay log run.stopped := by
  intro found failed
  contradiction

theorem underWay_follow (log : List Event) (run : Run) (index now : Nat) (leave : Walk.Leave) :
    UnderWay log (run.follow index now leave) := by
  cases leave with
  | ask walk region rest => trivial
  | go walk next =>
      cases next with
      | none => trivial
      | some next =>
          simp only [follow]
          split <;> trivial

theorem underWay_beginDelay (log : List Event) (run : Run) (index : Nat) (delay : Duration)
    (now : Nat) : UnderWay log (run.beginDelay index delay now) := by
  unfold beginDelay
  split
  · exact underWay_follow log run index now _
  · trivial

theorem underWay_carryOut (log : List Event) (writes : List Field.Write) (delay : Duration)
    {tokens : List Token} (inside : ∀ token ∈ tokens, token ∈ run.sequence.tokens) :
    UnderWay log (run.carryOut now index writes delay tokens) := by
  induction tokens generalizing writes delay with
  | nil =>
      unfold carryOut
      split
      · exact underWay_beginDelay log run index delay now
      · trivial
  | cons token rest ih =>
      rw [List.forall_mem_cons] at inside
      cases token with
      | actuation actuation => exact ih _ _ inside.2
      | timer timing =>
          cases timing with
          | fixed span => exact ih _ _ inside.2
          | relative offset => exact inside
      | pressure pressure => exact underWay_fail ⟨inside.1, rfl⟩

theorem mem_tokens_of_getElem? {sequence : Sequence} {step : Step}
    (here : sequence.steps[index]? = some step) :
    ∀ token ∈ step.tokens, token ∈ sequence.tokens := by
  intro token membership
  exact List.mem_flatMap.mpr ⟨step, List.mem_of_getElem? here, membership⟩

theorem underWay_look (log : List Event) (run : Run) (watch : Watch) (now : Nat)
    (sensors : List String) : UnderWay log (run.look watch now sensors) := by
  cases sensors with
  | cons sensor rest => trivial
  | nil =>
      rw [look]
      cases watch.goal with
      | none =>
          intro error failed
          contradiction
      | some index =>
          apply underWay_carryOut
          cases here : run.sequence.steps[index]? with
          | none => simp
          | some step => exact mem_tokens_of_getElem? here

theorem underWay_wait (log : List Event) (run : Run) (watch : Watch) (sensor : String)
    (now : Nat) : UnderWay log (run.wait watch sensor now) := by
  simp only [wait]
  split
  · split
    · exact underWay_fail trivial
    · trivial
  · trivial

theorem underWay_orFail {α : Type} {result : Except Field.Error α} {go : α → Run}
    (goes : ∀ value, result = .ok value → UnderWay log (go value)) :
    UnderWay log (run.orFail result go) := by
  cases result with
  | ok value => exact goes value rfl
  | error error => exact underWay_fail trivial

theorem Error.Arises.append {sequence : Sequence} {error : Error}
    (arises : error.Arises sequence log) (more : List Event) :
    error.Arises sequence (log ++ more) := by
  cases error with
  | unsupported what =>
      cases what with
      | longDelay delay seconds =>
          obtain ⟨member, tooLong, value, secondsEq, read⟩ := arises
          exact ⟨member, tooLong, value, secondsEq, List.mem_append_left more read⟩
      | pressure token => exact arises
      | openingRetraction label => exact arises
  | _ => exact arises

/-- A move under way, other than closing, leads to a run under way and leaves no mark. -/
theorem UnderWay.move {event : Event} (underWay : UnderWay log run)
    (open_ : ∀ result, run.phase ≠ .closing result) (goes : Goes run event run') :
    UnderWay (log ++ [event]) run' ∧ event.isMark = false := by
  cases phase : run.phase <;>
    simp only [Goes, Run.move, phase] at goes <;> simp only [UnderWay, phase] at underWay
  case seeding =>
    obtain ⟨now, reply, rfl, rfl⟩ := goes
    refine ⟨underWay_orFail fun _ _ => ?_, rfl⟩
    split <;> trivial
  case resting =>
    obtain ⟨now, reply, rfl, rfl⟩ := goes
    exact ⟨underWay_orFail fun _ _ => trivial, rfl⟩
  case settling =>
    obtain ⟨now, stop, rfl, rfl⟩ := goes
    refine ⟨?_, rfl⟩
    split
    · exact underWay_stopped _ run
    · split <;> trivial
  case settled =>
    obtain ⟨now, stop, rfl, rfl⟩ := goes
    refine ⟨?_, rfl⟩
    split
    · exact underWay_stopped _ run
    · trivial
  case polling watch =>
    obtain ⟨now, stop, rfl, rfl⟩ := goes
    refine ⟨?_, rfl⟩
    split
    · exact underWay_stopped _ run
    · exact underWay_look _ run watch now _
  case looking watch sensor rest =>
    obtain ⟨now, reply, rfl, rfl⟩ := goes
    refine ⟨underWay_orFail fun isOn _ => ?_, rfl⟩
    split
    · exact underWay_look _ run watch now rest
    · exact underWay_wait _ run watch sensor now
  case pausing watch =>
    obtain ⟨now, stop, rfl, rfl⟩ := goes
    refine ⟨?_, rfl⟩
    split
    · exact underWay_stopped _ run
    · split <;> trivial
  case paused watch =>
    obtain ⟨now, stop, rfl, rfl⟩ := goes
    refine ⟨?_, rfl⟩
    split
    · exact underWay_stopped _ run
    · trivial
  case timing work delay =>
    obtain ⟨now, reply, rfl, rfl⟩ := goes
    refine ⟨underWay_orFail fun seconds read => ?_, rfl⟩
    obtain rfl := eq_int_of_asInt read
    split
    · exact underWay_carryOut _ _ _ underWay.2
    · next tooLong =>
        exact underWay_fail ⟨underWay.1, tooLong, seconds, rfl, by simp⟩
  case acting work =>
    obtain ⟨now, reply, rfl, rfl⟩ := goes
    exact ⟨underWay_orFail fun _ _ => underWay_beginDelay _ _ work.index work.delay now, rfl⟩
  case delaying index delay =>
    obtain ⟨now, stop, rfl, rfl⟩ := goes
    refine ⟨?_, rfl⟩
    split
    · exact underWay_stopped _ run
    · trivial
  case delayed index delay =>
    obtain ⟨now, stop, rfl, rfl⟩ := goes
    refine ⟨?_, rfl⟩
    split
    · exact underWay_stopped _ run
    · exact underWay_follow _ run index now _
  case asking index region rest =>
    obtain ⟨now, reply, rfl, rfl⟩ := goes
    exact ⟨underWay_orFail fun value _ => underWay_follow _ run index now _, rfl⟩
  case rewinding index next =>
    obtain ⟨now, rfl, rfl⟩ := goes
    exact ⟨trivial, rfl⟩
  case closing result => exact absurd phase (open_ result)

/-! ## The course of a session -/

/-- How a run ends, with the marks of its log. -/
inductive Ended (sequence : Sequence) (log : List Event) : Result → Prop where
  | refused {error : Field.Error} :
      marks log = [.asked .connect (.error error)] → Ended sequence log (.error (.field error))
  | unopened {error : Field.Error} (reply : Except Field.Error Unit) :
      marks log = [.connected, .asked .openSession (.error error), .asked .disconnect reply] →
      Ended sequence log (.error (.field error))
  | closed {result : Result} (reply reply' : Except Field.Error Unit) :
      marks log =
        [.connected, .opened, .asked .closeSession reply, .asked .disconnect reply'] →
      (∀ error, result = .error error → error.Arises sequence log) →
      Ended sequence log result

/-- The marks in the log of a run, by what it is about to do. -/
inductive Bracketed (log : List Event) (run : Run) : Prop where
  | connecting : run.phase = .connecting → marks log = [] → Bracketed log run
  | opening : run.phase = .opening → marks log = [.connected] → Bracketed log run
  | underWay : UnderWay log run → marks log = [.connected, .opened] → Bracketed log run
  | unopened {error : Field.Error} :
      run.phase = .disconnecting (.error (.field error)) →
      marks log = [.connected, .asked .openSession (.error error)] → Bracketed log run
  | closed {result : Result} (reply : Except Field.Error Unit) :
      run.phase = .disconnecting result →
      marks log = [.connected, .opened, .asked .closeSession reply] →
      (∀ error, result = .error error → error.Arises run.sequence log) → Bracketed log run
  | finished {result : Result} :
      run.phase = .finished result → Ended run.sequence log result → Bracketed log run

theorem marks_snoc {event : Event} (isMark : event.isMark = true) :
    marks (log ++ [event]) = marks log ++ [event] := by
  rw [marks_append]
  simp [marks, isMark]

theorem marks_snoc_of_not {event : Event} (isMark : event.isMark = false) :
    marks (log ++ [event]) = marks log := by
  rw [marks_append]
  simp [marks, isMark]

theorem Bracketed.move {event : Event} (bracketed : Bracketed log run)
    (goes : Goes run event run') : Bracketed (log ++ [event]) run' := by
  cases bracketed with
  | connecting phase marksEq =>
      simp only [Goes, Run.move, phase] at goes
      obtain ⟨now, reply, rfl, rfl⟩ := goes
      have marksEq' : marks (log ++ [.asked .connect reply]) = [.asked .connect reply] := by
        rw [marks_snoc rfl, marksEq]
        rfl
      cases reply with
      | ok _ => exact .opening rfl marksEq'
      | error error => exact .finished rfl (.refused marksEq')
  | opening phase marksEq =>
      simp only [Goes, Run.move, phase] at goes
      obtain ⟨now, reply, rfl, rfl⟩ := goes
      have marksEq' : marks (log ++ [.asked .openSession reply]) =
          [.connected, .asked .openSession reply] := by
        rw [marks_snoc rfl, marksEq]
        rfl
      cases reply with
      | ok _ => exact .underWay trivial marksEq'
      | error error => exact .unopened rfl marksEq'
  | underWay underWay marksEq =>
      by_cases closes : ∃ result, run.phase = .closing result
      · obtain ⟨result, phase⟩ := closes
        simp only [UnderWay, phase] at underWay
        simp only [Goes, Run.move, phase] at goes
        obtain ⟨now, reply, rfl, rfl⟩ := goes
        refine .closed reply rfl ?_ fun error failed => (underWay error failed).append _
        rw [marks_snoc rfl, marksEq]
        rfl
      · rw [not_exists] at closes
        obtain ⟨underWay', isMark⟩ := underWay.move closes goes
        exact .underWay underWay' (by rw [marks_snoc_of_not isMark, marksEq])
  | unopened phase marksEq =>
      simp only [Goes, Run.move, phase] at goes
      obtain ⟨now, reply, rfl, rfl⟩ := goes
      refine .finished rfl (.unopened reply ?_)
      rw [marks_snoc rfl, marksEq]
      rfl
  | closed reply phase marksEq arises =>
      simp only [Goes, Run.move, phase] at goes
      obtain ⟨now, reply', rfl, rfl⟩ := goes
      refine .finished rfl (.closed reply reply' ?_
        fun error failed => (arises error failed).append _)
      rw [marks_snoc rfl, marksEq]
      rfl
  | finished phase ended => simp only [Goes, Run.move, phase] at goes

theorem bracketed_of_logged {first : Run} (begins : first.phase = .connecting)
    (logged : Logged first log run) : Bracketed log run := by
  induction logged with
  | start => exact .connecting begins rfl
  | move _ goes ih => exact ih.move goes

/-- Whatever the field answers, a run that is over did not connect, or it disconnected; and
it opened no session, or it closed it before. -/
theorem ended_of_logged {first : Run} {result : Result} (begins : first.phase = .connecting)
    (logged : Logged first log run) (halts : run.move = .halt result) :
    Ended first.sequence log result := by
  have ended (found : Result) (phase : run.phase = .finished found) : found = result := by
    rw [Run.move, phase] at halts
    exact Move.halt.inj halts
  cases bracketed_of_logged begins logged with
  | connecting phase _ => simp [Run.move, phase] at halts
  | opening phase _ => simp [Run.move, phase] at halts
  | underWay underWay _ =>
      cases phase : run.phase <;> simp only [UnderWay, phase] at underWay <;>
        simp [Run.move, phase] at halts
  | unopened phase _ => simp [Run.move, phase] at halts
  | closed _ phase _ _ => simp [Run.move, phase] at halts
  | finished phase ended' =>
      rw [← logged.kin.sequence_eq, ← ended _ phase]
      exact ended'

end Pneumatic.Run
