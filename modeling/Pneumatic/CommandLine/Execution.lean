import Pneumatic.CommandLine.Usage
import Pneumatic.Run.Plant
import Pneumatic.Service.Connection

/-!
# Carrying out an invocation

What an invocation prints, with what code it ends, and what it leaves among the
files.  A random number decides everything that differs from call to call.
-/

namespace Pneumatic.CommandLine

/-- What came of an invocation. -/
structure Outcome where
  /-- Zero for success, one for a failure, two for a misuse. -/
  code : UInt32
  output : String
  /-- What went wrong. -/
  complaint : String
  files : Store.Tree

namespace Outcome

/-- A success that leaves the files as they are. -/
def success (output : String) (files : Store.Tree) : Outcome :=
  ⟨0, output, "", files⟩

/-- A failure. -/
def failure (complaint : String) (files : Store.Tree) : Outcome :=
  ⟨1, "", complaint, files⟩

/-- A success if there is an output, and a failure otherwise. -/
def ofExcept (files : Store.Tree) : Except String String → Outcome
  | .ok output => success output files
  | .error complaint => failure complaint files

end Outcome

/-- Some lines as text. -/
def textOfLines (lines : List String) : String :=
  String.join (lines.map (· ++ "\n"))

/-- A value from one up to a maximum. -/
def pick (maximum : Int16) (number : UInt64) : Int16 :=
  Int16.ofInt (1 + number.toNat % (max 1 maximum.toInt).toNat)

/-- The value that the timer variable starts with. -/
def timerSeed (settings : Run.Settings) (number : UInt64) : Int16 :=
  pick settings.variableMax number

/-- The value that the repeat variable starts with. -/
def repeatSeed (settings : Run.Settings) (number : UInt64) : Int16 :=
  pick settings.variableMax (number >>> 32)

/-- Write the default settings. -/
def init (root : String) (files : Store.Tree) : Outcome :=
  match Store.initialise (.ofText root) files with
  | (.error error, files) => .failure error.message files
  | (.ok (), files) =>
      match Store.saveSettings { Run.Settings.default with root } files with
      | (.error error, files) => .failure error.message files
      | (.ok (), files) => .success ("Initialized seqctl at " ++ Text.quoted root ++ "\n") files

/-- Say what is wrong with a sequence. -/
def validate (sequence : String) (files : Store.Tree) : Outcome :=
  match Sequence.validate sequence with
  | [] => .success "Sequence is valid\n" files
  | errors =>
      { Outcome.failure (toString errors.length ++ " problem(s) found") files with
        output := textOfLines (errors.map ("  " ++ ·)) }

/-- The project in a file that was named. -/
def project? (path : Option String) (files : Store.Tree) : Except String (Option Project) :=
  match path with
  | none => .ok none
  | some path =>
      ((Store.readProject (.ofText path) files).map some).mapError Store.Error.message

/-- The damaged variant of a program, with a line about it. -/
def damagedText (damaged : Fault.Damaged) (tier : Fault.Tier) : String :=
  "\n// Faulted variant (" ++ tier.name ++ ", " ++ toString damaged.faults.length ++ " faults)\n" ++
    Program.joinLines damaged.lines

/-- Compile a sequence. -/
def compile (sequence errors : String) (project : Option String) (seed : UInt64) (tags : Bool)
    (files : Store.Tree) : Except String String := do
  let some tier := Fault.Tier.ofRequest? errors | throw (Fault.Tier.requestError errors)
  let project ← project? project files
  let sequence ← (Sequence.parse sequence).mapError Diagnostics.message
  let program ← (Program.compile sequence project).mapError CompileError.message
  let damaged ← match tier with
    | none => pure ""
    | some tier =>
        match Fault.injectSeeded seed program.bodyLines tier sequence.labels with
        | some damaged => pure (damagedText damaged tier)
        | none => throw "the program could not be damaged"
  return program.code ++ damaged ++ if tags then "\n" ++ program.tagMarkup else ""

/-- Whether a component is bound by a project, in a word. -/
def binding (project : Option Project) (missing : List ComponentId) (id : ComponentId) : String :=
  if project.isNone then "auto"
  else if missing.contains id then "unassigned"
  else "assigned"

/-- List the components of a sequence. -/
def components (sequence : String) (project : Option String) (files : Store.Tree) :
    Except String String := do
  let project ← project? project files
  let sequence ← (Sequence.parse sequence).mapError Diagnostics.message
  let required := sequence.inventory
  let missing := (project.map (·.missing required)).getD []
  return textOfLines (required.map fun component =>
    "  " ++ component.id.label ++ " " ++ component.id.kind.name ++ " (step " ++
      toString component.firstStep ++ ") " ++ binding project missing component.id)

/-- The settings to run with. -/
def usableSettings (root : String) (files : Store.Tree) : Except String Run.Settings := do
  let settings ← (Store.settingsOrDefault root files).mapError Store.Error.message
  match settings.problem? with
  | some problem => throw (Run.Error.settings problem).message
  | none => return settings

/-- The devices of settings. -/
def registryOf (settings : Run.Settings) : Device.Registry :=
  .ofDevices (settings.devices.map fun device => (device.name, device.address))

/-- A simulated controller for each address. -/
def plantOf (settings : Run.Settings) (addresses : List String) (travel : Nat)
    (labels : List Char) : Run.Plant :=
  ⟨registryOf settings, addresses.map fun address =>
    (Field.endpoint address settings.endpointPort, .withActuators travel labels)⟩

/-- How a run ended, in a word. -/
def outcomeName : Run.Outcome → String
  | .completed => "Completed"
  | .stopped => "Stopped"

/-- The lines about a run. -/
def reportLines (report : Run.Report) (writes : Nat) : List String :=
  ["Run " ++ toString report.run ++ " on " ++ report.device ++ ": " ++ outcomeName report.outcome,
    "  actuation writes: " ++ toString report.actuationWrites,
    "  passes: " ++ toString report.passes,
    "  " ++ Tag.timerVariable ++ "=" ++ toString report.timerSeed.toInt ++ " " ++
      Tag.repeatVariable ++ "=" ++ toString report.repeatSeed.toInt,
    "  total writes seen by controller: " ++ toString writes]

/-- Run a sequence on a simulated controller at the first device. -/
def simulate (root source : String) (travel : Nat) (number : UInt64) (files : Store.Tree) :
    Except String String := do
  let sequence ← (Sequence.parse source).mapError Diagnostics.message
  let settings ← usableSettings root files
  let some device := settings.devices.head? | throw "no devices configured"
  let plant := plantOf settings [device.address] travel sequence.labels
  let launch : Run.Launch := ⟨source, device.address, settings, timerSeed settings number,
    repeatSeed settings number⟩
  let (result, schedule) := Run.Schedule.run Run.Plant.field launch ⟨plant, 0, []⟩
  let some result := result | throw "the run does not end"
  let report ← result.mapError Run.Error.message
  let controller := schedule.world.controller? (Field.endpoint device.address settings.endpointPort)
  return textOfLines (reportLines report ((controller.map (·.log.length)).getD 0))

/-- The letters that name actuators. -/
def allLabels : List Char := "ABCDEFGHIJKLMNOPQRSTUVWXYZ".toList

/-- The milliseconds that the actuators of a service take. -/
def serviceTravel : Nat := 200

/-- A service with the settings in a folder, on simulated controllers. -/
def site (settings : Run.Settings) (number : UInt64) (files : Store.Tree) :
    Service.Site Run.Plant where
  field := Run.Plant.field
  settings := settings
  store := some (.ofText settings.root, files)
  faultSeed := number
  timerSeed := timerSeed settings number
  repeatSeed := repeatSeed settings number

/-- The runs of a service that has just begun. -/
def freshSchedule (settings : Run.Settings) : Run.Schedule Run.Plant :=
  ⟨plantOf settings (settings.devices.map (·.address)) serviceTravel allLabels, 0, []⟩

/-- Answer all lines of an input at once. -/
def serve (root input : String) (number : UInt64) (files : Store.Tree) : Except String String := do
  let settings ← usableSettings root files
  let connection := Service.Connection.new (freshSchedule settings)
  let (replies, _) := connection.answerAll (site settings number files) (Service.linesOf input)
  return textOfLines (replies.map (·.toJson.compact))

/-- Carry out an invocation with an input. -/
def Invocation.execute (invocation : Invocation) (input : String) (number : UInt64)
    (files : Store.Tree) : Outcome :=
  match invocation.task with
  | .init => init invocation.root files
  | .validate sequence => validate sequence files
  | .compile sequence errors project seed tags =>
      .ofExcept files (compile sequence errors project (seed.getD number) tags files)
  | .components sequence project => .ofExcept files (components sequence project files)
  | .simulate sequence travel =>
      .ofExcept files (simulate invocation.root sequence travel number files)
  | .serve => .ofExcept files (serve invocation.root input number files)

/-- Carry out what arguments ask for. -/
def execute (arguments : List String) (input : String) (number : UInt64) (files : Store.Tree) :
    Outcome :=
  match Invocation.read arguments with
  | .ok invocation => invocation.execute input number files
  | .error .misuse => ⟨2, "", programHelp, files⟩
  | .error (.help about) => .success (helpFor about) files

end Pneumatic.CommandLine
