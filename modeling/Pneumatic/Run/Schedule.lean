import Pneumatic.Run.Machine

/-!
# Runs on one clock

Several runs share a field and a clock of milliseconds.  Time stands still while a
run can go on and jumps to the next deadline when all of them sleep.  A sleeping run
goes on when its deadline has come, or when its device asks it to stop.
-/

namespace Pneumatic.Run

/-- What runs act on: a registry of devices, and something that answers requests. -/
structure Field (σ : Type) where
  registry : σ → Device.Registry
  setRegistry : Device.Registry → σ → σ
  /-- Answer a request of the run with a lease on the controller at an endpoint. -/
  perform : (request : Request) → Device.Lease → (endpoint : String) → (now : Nat) → σ →
    request.Reply × σ

/-- What starts a run: a sequence, the address of a device, the settings, and the
values that the run variables start with. -/
structure Launch where
  source : String
  address : String
  settings : Settings
  timerSeed : Int16
  repeatSeed : Int16

/-- What keeps a run from going on. -/
inductive Hold where
  | ready
  | asleep (deadline : Nat)
  | halted (result : Result)

/-- A run among others. -/
structure Task where
  run : Run
  hold : Hold

/-- The longest wait, in milliseconds: thirty years. -/
def longestWait : Nat := 30 * 365 * 24 * 60 * 60 * 1000

/-- The millisecond at which a wait of so many milliseconds ends.  A longer wait than
the longest ends with it. -/
def waitEnd (now millis : Nat) : Nat :=
  now + min millis longestWait

/-- The millisecond at which a sleep ends, rounded up. -/
def deadline (now : Nat) (span : Duration) : Nat :=
  waitEnd now span.millisUp

namespace Task

/-- A task that may go on at once. -/
def ofRun (run : Run) : Task := ⟨run, .ready⟩

/-- The result of a task that halted. -/
def result? (task : Task) : Option Result :=
  match task.hold with
  | .halted result => some result
  | _ => none

/-- When a sleeping task wakes by itself. -/
def deadline? (task : Task) : Option Nat :=
  match task.hold with
  | .asleep deadline => some deadline
  | _ => none

variable {σ : Type}

/-- Whether a task was asked to stop. -/
def stopRequested (field : Field σ) (world : σ) (task : Task) : Bool :=
  (field.registry world).stopRequested task.run.lease.address

/-- Whether a task can go on. -/
def isReady (field : Field σ) (now : Nat) (world : σ) (task : Task) : Bool :=
  match task.hold with
  | .ready => true
  | .asleep deadline => task.stopRequested field world || deadline ≤ now
  | .halted _ => false

/-- Let a run go on until it sleeps, yields or halts, for at most `fuel` moves.  A
run that halts drops its lease. -/
def go (field : Field σ) (now : Nat) : Nat → σ → Run → σ × Task
  | 0, world, run => (world, ⟨run, .ready⟩)
  | fuel + 1, world, run =>
      match run.move with
      | .ask request resume =>
          let (reply, world) := field.perform request run.lease run.endpoint now world
          go field now fuel world (resume now reply)
      | .sleep span _ => (world, ⟨run, .asleep (deadline now span)⟩)
      | .yield resume => (world, ⟨resume now, .ready⟩)
      | .halt result =>
          (field.setRegistry ((field.registry world).drop run.lease) world, ⟨run, .halted result⟩)

/-- The run of a task that wakes. -/
def woken (field : Field σ) (now : Nat) (world : σ) (task : Task) : Run :=
  match task.hold, task.run.move with
  | .asleep _, .sleep _ resume => resume now (task.stopRequested field world)
  | _, _ => task.run

/-- The moves that a task may take in one turn. -/
def turnLimit : Nat := 1000000

/-- Let a task that can go on take its turn. -/
def turn (field : Field σ) (now : Nat) (world : σ) (task : Task) : σ × Task :=
  if task.isReady field now world then
    go field now turnLimit world (task.woken field now world)
  else (world, task)

end Task

/-- Runs on one clock. -/
structure Schedule (σ : Type) where
  world : σ
  clock : Nat
  /-- The runs, the one that has waited longest first. -/
  tasks : List Task

namespace Schedule

variable {σ : Type}

/-- Add a run. -/
def spawn (schedule : Schedule σ) (run : Run) : Schedule σ :=
  { schedule with tasks := schedule.tasks ++ [.ofRun run] }

/-- The task of a run. -/
def find? (schedule : Schedule σ) (run : Device.RunId) : Option Task :=
  schedule.tasks.find? (·.run.lease.run == run)

/-- The result of a run that halted. -/
def result? (schedule : Schedule σ) (run : Device.RunId) : Option Result :=
  (schedule.find? run).bind Task.result?

/-- Whether a task can go on. -/
def anyReady (field : Field σ) (schedule : Schedule σ) : Bool :=
  schedule.tasks.any (·.isReady field schedule.clock schedule.world)

/-- Let every task that can go on take one turn.  Those that did queue up behind the
others. -/
def round (field : Field σ) (schedule : Schedule σ) : Schedule σ :=
  let step (state : σ × List Task × List Task) (task : Task) : σ × List Task × List Task :=
    let (world, waiting, moved) := state
    if task.isReady field schedule.clock world then
      let (world, task) := task.turn field schedule.clock world
      (world, waiting, moved ++ [task])
    else (world, waiting ++ [task], moved)
  let (world, waiting, moved) := schedule.tasks.foldl step (schedule.world, [], [])
  { schedule with world, tasks := waiting ++ moved }

/-- The earliest of some times. -/
def earliest (times : List Nat) : Option Nat :=
  times.min?

/-- When the next sleeping task wakes. -/
def nextDeadline? (schedule : Schedule σ) : Option Nat :=
  earliest (schedule.tasks.filterMap Task.deadline?)

/-- Let time pass until a condition holds or a limit is reached.  Nothing moves when
the condition holds already; when nothing can ever move the schedule is left as it
is. -/
def runUntil (field : Field σ) (done : Schedule σ → Bool) (limit : Option Nat) :
    Nat → Schedule σ → Schedule σ
  | 0, schedule => schedule
  | fuel + 1, schedule =>
      if done schedule || limit.any (· ≤ schedule.clock) then schedule
      else if schedule.anyReady field then runUntil field done limit fuel (schedule.round field)
      else match earliest (schedule.nextDeadline?.toList ++ limit.toList) with
        | none => schedule
        | some time => runUntil field done limit fuel { schedule with clock := time }

/-- Let a task run to its end before anything else is done, while the others go on
beside it.  Nothing comes of a task that goes on for ever. -/
def runToEnd (field : Field σ) (schedule : Schedule σ) (task : Task) :
    Option (Schedule σ × Task) :=
  let (world, task) := task.turn field schedule.clock schedule.world
  let schedule := { schedule with world }
  if task.result?.isSome then some (schedule, task)
  else if schedule.anyReady field then schedule.round field |>.runToEnd field task
  else if task.isReady field schedule.clock schedule.world then schedule |>.runToEnd field task
  else match earliest (schedule.nextDeadline?.toList ++ task.deadline?.toList) with
    | none => some (schedule, task)
    | some time => { schedule with clock := time } |>.runToEnd field task
partial_fixpoint

/-- The rounds that a wait may take. -/
def roundLimit : Nat := 100000000

/-- Let so many milliseconds pass, at most the longest wait. -/
def sleep (field : Field σ) (millis : Nat) (schedule : Schedule σ) : Schedule σ :=
  schedule.runUntil field (fun _ => false) (some (waitEnd schedule.clock millis)) roundLimit

/-- Let time pass until a run halts. -/
def waitFor (field : Field σ) (run : Device.RunId) (schedule : Schedule σ) : Schedule σ :=
  schedule.runUntil field (fun schedule => (schedule.result? run).isSome) none roundLimit

/-- Let time pass until a device is asked to stop, or for so many milliseconds. -/
def waitForStop (field : Field σ) (address : String) (millis : Nat) (schedule : Schedule σ) :
    Schedule σ :=
  schedule.runUntil field (fun schedule => (field.registry schedule.world).stopRequested address)
    (some (waitEnd schedule.clock millis)) roundLimit

/-- The devices. -/
def registry (field : Field σ) (schedule : Schedule σ) : Device.Registry :=
  field.registry schedule.world

/-- Replace the devices. -/
def setRegistry (field : Field σ) (registry : Device.Registry) (schedule : Schedule σ) :
    Schedule σ :=
  { schedule with world := field.setRegistry registry schedule.world }

/-- Hold a device for a run of a sequence that has not begun. -/
def prepare (field : Field σ) (launch : Launch) (schedule : Schedule σ) :
    Except Error (Run × Schedule σ) := do
  let (sequence, lease, registry) ←
    Run.prepare (schedule.registry field) launch.source launch.address schedule.clock
  return (.start sequence launch.settings lease launch.timerSeed launch.repeatSeed,
    schedule.setRegistry field registry)

/-- Start a sequence on a device, to be run while time passes. -/
def start (field : Field σ) (launch : Launch) (schedule : Schedule σ) :
    Except Error (Device.RunId × Schedule σ) := do
  let (run, schedule) ← schedule.prepare field launch
  return (run.lease.run, schedule.spawn run)

/-- Run a sequence on a device to its end.  There is no result when everything waits
for ever. -/
def run (field : Field σ) (launch : Launch) (schedule : Schedule σ) :
    Option Result × Schedule σ :=
  match schedule.prepare field launch with
  | .error error => (some (.error error), schedule)
  | .ok (run, schedule) =>
      match runToEnd field schedule (.ofRun run) with
      | some (schedule, task) => (task.result?, schedule)
      | none => (none, schedule)

end Schedule

end Pneumatic.Run
