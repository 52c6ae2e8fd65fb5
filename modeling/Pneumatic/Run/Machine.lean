import Pneumatic.Notation.Parse
import Pneumatic.Run.Report
import Pneumatic.Run.Walk

/-!
# The course of a run

A run is a machine.  `Run.move` says what it does next: ask something of the field
or of its device, sleep, let others run, or halt; and how it goes on with the
answer.  It knows nothing of who answers, so everything it does is determined by
the answers and the times at which they come.

The course is: connect, open a session, seed the variables, retract every actuator
and let it settle; then for each step wait for the sensors of the step before, issue
all its actuations as one write, sleep for its longest timer, and go on; at the end
wait once more, close the session and disconnect.  Sensors are looked at again and
again with a pause in between; before every look and every pause the run checks for
a stop request.
-/

namespace Pneumatic.Run

/-- What a run asks for. -/
inductive Request where
  | connect
  | openSession
  | write (writes : List Field.Write)
  | read (tag : String)
  /-- Whether the run was asked to stop. -/
  | checkStop
  | closeSession
  | disconnect
  deriving DecidableEq, Repr

/-- The answers to a request. -/
def Request.Reply : Request → Type
  | .connect | .openSession | .write _ | .closeSession | .disconnect => Except Field.Error Unit
  | .read _ => Except Field.Error Field.Value
  | .checkStop => Bool

/-- The sensors that a run waits for, since when, and the step to carry out when all
are on; none at the end of the sequence. -/
structure Watch where
  pending : List Actuation
  since : Nat
  goal : Option Nat
  deriving DecidableEq, Repr

/-- The step being carried out: its index, the tokens left, and what the tokens
before ask for. -/
structure Work where
  index : Nat
  tokens : List Token
  writes : List Field.Write
  delay : Duration
  deriving DecidableEq, Repr

/-- The result of a run. -/
abbrev Result := Except Error Report

/-- Where a run is. -/
inductive Phase where
  | connecting
  | opening
  | seeding
  | resting
  /-- About to settle, and settling. -/
  | settling
  | settled
  /-- Waiting for sensors: about to look, looking, about to pause, pausing. -/
  | polling (watch : Watch)
  | looking (watch : Watch) (sensor : String) (rest : List String)
  | pausing (watch : Watch)
  | paused (watch : Watch)
  /-- Carrying out a step: reading the timer variable for a delay, writing, about to
  sleep, sleeping. -/
  | timing (work : Work) (delay : Delay)
  | acting (work : Work)
  | delaying (index : Nat) (delay : Duration)
  | delayed (index : Nat) (delay : Duration)
  /-- Reading the repeat variable to leave a region. -/
  | asking (index region : Nat) (rest : List Nat)
  /-- Letting others run before going back. -/
  | rewinding (index next : Nat)
  | closing (result : Result)
  | disconnecting (result : Result)
  | finished (result : Result)

end Run

/-- A run of a sequence on a device. -/
structure Run where
  sequence : Sequence
  settings : Run.Settings
  lease : Device.Lease
  timerSeed : Int16
  repeatSeed : Int16
  walk : Run.Walk
  phase : Run.Phase

namespace Run

/-- What a run does next, and how it goes on at a time with the answer.  A sleep is
answered by whether a stop request ended it. -/
inductive Move where
  | ask (request : Request) (resume : Nat → request.Reply → Run)
  | sleep (span : Duration) (resume : Nat → Bool → Run)
  | yield (resume : Nat → Run)
  | halt (result : Result)

/-- A run that has not begun. -/
def start (sequence : Sequence) (settings : Settings) (lease : Device.Lease)
    (timerSeed repeatSeed : Int16) : Run :=
  ⟨sequence, settings, lease, timerSeed, repeatSeed, .start sequence, .connecting⟩

/-- The run in another phase. -/
def enter (run : Run) (phase : Phase) : Run :=
  { run with phase }

/-- The endpoint of the controller of a run. -/
def endpoint (run : Run) : String :=
  Field.endpoint run.lease.address run.settings.endpointPort

/-- The report of a run. -/
def report (run : Run) (outcome : Outcome) : Report :=
  { run := run.lease.run
    device := run.lease.address
    outcome
    actuationWrites := run.walk.actuationWrites
    passes := run.walk.passes
    timerSeed := run.timerSeed
    repeatSeed := run.repeatSeed }

/-- End the run with an error. -/
def fail (run : Run) (error : Error) : Run :=
  run.enter (.closing (.error error))

/-- End the run because it was asked to stop. -/
def stopped (run : Run) : Run :=
  run.enter (.closing (.ok (run.report .stopped)))

/-- The run with every step confirmed. -/
def complete (run : Run) : Run :=
  let run := { run with walk := { run.walk with passes := run.walk.passes + 1 } }
  run.enter (.closing (.ok (run.report .completed)))

/-- The coil assignments of an actuation. -/
def command (actuation : Actuation) : List Field.Write :=
  ((Tag.Actuator.auto actuation.label).command actuation.direction).map fun (tag, value) =>
    ⟨tag, .bool value⟩

/-- The end sensor of an actuation. -/
def sensor (actuation : Actuation) : String :=
  (Tag.Actuator.auto actuation.label).sensor actuation.direction

/-- The assignments that give the run variables their values. -/
def seeds (run : Run) : List Field.Write :=
  [⟨Tag.timerVariable, .int run.timerSeed⟩, ⟨Tag.repeatVariable, .int run.repeatSeed⟩]

/-- The assignments that retract every actuator. -/
def restWrites (run : Run) : List Field.Write :=
  run.sequence.labels.flatMap fun label => command ⟨label, .retract⟩

/-- Wait for the sensors of actuations. -/
def await (run : Run) (pending : List Actuation) (goal : Option Nat) (now : Nat) : Run :=
  run.enter (.polling ⟨pending, now, goal⟩)

/-- Go on from a step that was carried out: back to an earlier step, on to a later
one, or to the end. -/
def follow (run : Run) (index now : Nat) : Walk.Leave → Run
  | .ask walk region rest => { run with walk, phase := .asking index region rest }
  | .go walk next =>
      let run := { run with walk }
      let pending := (run.sequence.steps[index]?.map Step.actuations).getD []
      match next with
      | some next => if next ≤ index then run.enter (.rewinding index next)
          else run.await pending (some next) now
      | none => run.await pending none now

/-- Leave a step that was carried out. -/
def leaveStep (run : Run) (index now : Nat) : Run :=
  run.follow index now (run.walk.advance run.sequence index)

/-- Sleep for the timers of a step, or go on at once. -/
def beginDelay (run : Run) (index : Nat) (delay : Duration) (now : Nat) : Run :=
  if delay.isZero then run.leaveStep index now else run.enter (.delaying index delay)

/-- Carry out the tokens of a step up to a timer that needs the timer variable, or
to the end of the step. -/
def carryOut (run : Run) (now index : Nat) (writes : List Field.Write) (delay : Duration) :
    List Token → Run
  | [] =>
      if writes.isEmpty then run.beginDelay index delay now
      else run.enter (.acting ⟨index, [], writes, delay⟩)
  | .actuation actuation :: tokens =>
      run.carryOut now index (writes ++ command actuation) delay tokens
  | .timer (.fixed span) :: tokens => run.carryOut now index writes (max delay span) tokens
  | .timer (.relative offset) :: tokens =>
      run.enter (.timing ⟨index, tokens, writes, delay⟩ (.relative offset))
  | .pressure pressure :: _ => run.fail (.unsupported (.pressure (.pressure pressure)))

/-- Begin a step, or complete the run when there is none. -/
def beginStep (run : Run) (now : Nat) : Option Nat → Run
  | none => run.complete
  | some index =>
      run.carryOut now index [] .zero ((run.sequence.steps[index]?.map Step.tokens).getD [])

/-- Look at sensors one after the other; when all are on, go on. -/
def look (run : Run) (watch : Watch) (now : Nat) : List String → Run
  | [] => run.beginStep now watch.goal
  | sensor :: rest => run.enter (.looking watch sensor rest)

/-- What follows a sensor that is off: a timeout, or a pause before the next look.  The
time waited is reported in a word of 64 bits. -/
def wait (run : Run) (watch : Watch) (sensor : String) (now : Nat) : Run :=
  let waited := now - watch.since
  match run.settings.sensorTimeout with
  | some limit =>
      if limit.toNat ≤ waited then run.fail (.sensorTimeout sensor (waited % UInt64.size))
      else run.enter (.pausing watch)
  | none => run.enter (.pausing watch)

/-- Continue with an operation that succeeded, and end the run otherwise. -/
def orFail {α : Type} (run : Run) (result : Except Field.Error α) (go : α → Run) : Run :=
  match result with
  | .ok value => go value
  | .error error => run.fail (.field error)

/-- What a run does next. -/
def move (run : Run) : Move :=
  match run.phase with
  | .connecting =>
      .ask .connect fun _ (reply : Except Field.Error Unit) =>
        match reply with
        | .ok () => run.enter .opening
        | .error error => run.enter (.finished (.error (.field error)))
  | .opening =>
      .ask .openSession fun _ (reply : Except Field.Error Unit) =>
        match reply with
        | .ok () => run.enter .seeding
        | .error error => run.enter (.disconnecting (.error (.field error)))
  | .seeding =>
      .ask (.write run.seeds) fun _ (reply : Except Field.Error Unit) =>
        run.orFail reply fun _ => run.enter (if run.restWrites.isEmpty then .settling else .resting)
  | .resting =>
      .ask (.write run.restWrites) fun _ (reply : Except Field.Error Unit) =>
        run.orFail reply fun _ => run.enter .settling
  | .settling =>
      .ask .checkStop fun now (stop : Bool) =>
        if stop then run.stopped
        else if run.settings.settle = 0 then run.await [] (some 0) now
        else run.enter .settled
  | .settled =>
      .sleep (.ofMillis run.settings.settle) fun now stop =>
        if stop then run.stopped else run.await [] (some 0) now
  | .polling watch =>
      .ask .checkStop fun now (stop : Bool) =>
        if stop then run.stopped else run.look watch now (watch.pending.map sensor)
  | .looking watch sensor rest =>
      .ask (.read sensor) fun now (reply : Except Field.Error Field.Value) =>
        run.orFail (reply.bind (·.asBool sensor)) fun isOn =>
          if isOn then run.look watch now rest else run.wait watch sensor now
  | .pausing watch =>
      .ask .checkStop fun _ (stop : Bool) =>
        if stop then run.stopped
        else run.enter (if run.settings.pollInterval = 0 then .polling watch else .paused watch)
  | .paused watch =>
      .sleep (.ofMillis run.settings.pollInterval) fun _ stop =>
        if stop then run.stopped else run.enter (.polling watch)
  | .timing work delay =>
      .ask (.read Tag.timerVariable) fun now (reply : Except Field.Error Field.Value) =>
        run.orFail (reply.bind (·.asInt Tag.timerVariable)) fun seconds =>
          match delay.resolve seconds.toInt with
          | some span => run.carryOut now work.index work.writes (max work.delay span) work.tokens
          | none => run.fail (.unsupported (.longDelay delay seconds.toInt))
  | .acting work =>
      .ask (.write work.writes) fun now (reply : Except Field.Error Unit) =>
        run.orFail reply fun _ =>
          { run with walk := { run.walk with actuationWrites := run.walk.actuationWrites + 1 } }
            |>.beginDelay work.index work.delay now
  | .delaying index delay =>
      .ask .checkStop fun _ (stop : Bool) =>
        if stop then run.stopped else run.enter (.delayed index delay)
  | .delayed index delay =>
      .sleep delay fun now stop => if stop then run.stopped else run.leaveStep index now
  | .asking index region rest =>
      .ask (.read Tag.repeatVariable) fun now (reply : Except Field.Error Field.Value) =>
        run.orFail (reply.bind (·.asInt Tag.repeatVariable)) fun value =>
          run.follow index now (run.walk.answer run.sequence index region rest value.toInt)
  | .rewinding index next =>
      .yield fun now =>
        run.await ((run.sequence.steps[index]?.map Step.actuations).getD []) (some next) now
  | .closing result => .ask .closeSession fun _ _ => run.enter (.disconnecting result)
  | .disconnecting result => .ask .disconnect fun _ _ => run.enter (.finished result)
  | .finished result => .halt result

/-- Read a sequence for a run and hold the device.  Nothing changes when this
fails. -/
def prepare (registry : Device.Registry) (source address : String) (now : Nat) :
    Except Error (Sequence × Device.Lease × Device.Registry) := do
  let sequence ← (Sequence.parse source).mapError .sequence
  match sequence.firstPressure?, sequence.openingRetraction? with
  | some token, _ => throw (.unsupported (.pressure token))
  | none, some label => throw (.unsupported (.openingRetraction label))
  | none, none =>
      let (lease, registry) ← (registry.acquire address now).mapError .device
      return (sequence, lease, registry)

end Run

end Pneumatic
