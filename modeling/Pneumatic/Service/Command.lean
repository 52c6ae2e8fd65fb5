import Pneumatic.Fault.Inject
import Pneumatic.Notation.Document
import Pneumatic.Program.Compile
import Pneumatic.Program.Markup
import Pneumatic.Program.Render
import Pneumatic.Run.Schedule
import Pneumatic.Service.Message

/-!
# Commands of the service

What is wrong with a sequence or a device is an answer, with the status `Error`; a
request is refused only when it cannot be understood or the store fails.
-/

namespace Pneumatic.Service

/-- What a service works with. -/
structure Site (σ : Type) where
  field : Run.Field σ
  settings : Run.Settings
  /-- The files, and the folder of the store among them; none for no store. -/
  store : Option (Store.Path × Store.Tree)
  /-- The seed for damaged programs. -/
  faultSeed : UInt64
  timerSeed : Int16
  repeatSeed : Int16

/-- What came of a command. -/
abbrev Answer := Except Refusal Json

namespace Answer

/-- An answer that something is wrong. -/
def problem (message : Json) : Json :=
  .obj [("status", .str "Error"), ("msg", message)]

/-- An answer that a sequence is wrong. -/
def ofDiagnostics (diagnostics : Diagnostics) : Json :=
  problem (.list .str diagnostics.messages)

/-- An answer that something was done. -/
def done (message : Json) (more : List (String × Json)) : Json :=
  .obj ([("status", .str "OK"), ("msg", message)] ++ more)

/-- An answer that a sequence cannot be compiled. -/
def ofCompileError : CompileError → Json
  | .invalid diagnostics => ofDiagnostics diagnostics
  | error => .obj ([("status", .str "Error"), ("msg", .str error.message)] ++
      if error.isRetraction then [("retraction", .bool true)] else [])

/-- An answer that a device cannot be used. -/
def ofDeviceError : Device.Error → Json
  | .busy _ => problem (.str "Chosen PLC is currently busy!")
  | .unknown _ => problem (.str "PLC not found!")

/-- An answer that a run cannot be started. -/
def ofRunError : Run.Error → Json
  | .sequence diagnostics => ofDiagnostics diagnostics
  | .device error => ofDeviceError error
  | error => problem (.str error.message)

end Answer

namespace Request

/-- A parameter that has to be text. -/
def text (request : Request) (name : String) : Except Refusal String :=
  match request.text? name with
  | some text => .ok text
  | none => .error (.parameter name)

/-- The project that a request names.  Without a store there is none. -/
def project {σ : Type} (request : Request) (site : Site σ) : Except Refusal (Option Project) :=
  match request.text? "project_id", site.store with
  | some id, some (root, tree) => (Store.loadProject root id tree).mapError .store
  | _, _ => .ok none

/-- The faults that a request asks for; none when it does not say. -/
def tier (request : Request) : Except Refusal (Option Fault.Tier) :=
  let text := (request.text? "errors_spec").getD "0,none"
  match Fault.Tier.ofRequest? text with
  | some tier => .ok tier
  | none => .error (.faults text)

end Request

/-- The name of a run. -/
def runName (run : Device.RunId) : Json :=
  .str (String.ofList (Text.digits run))

/-- The record of a device as JSON. -/
def recordJson (record : Device.Record) : Json :=
  .obj [("id", .str record.address), ("name", .str record.name), ("address", .str record.address),
    ("available", .bool record.available), ("stop_requested", .bool record.stopRequested),
    ("current_run", Json.ofOption runName record.currentRun),
    ("last_started", Json.ofOption .ofNat record.lastStarted)]

namespace Command

/-- The commands, handshake apart. -/
def names : List String :=
  ["validate", "generate", "components", "run", "stop", "list_devices"]

/-- The version of the program. -/
def programVersion : String := "0.1.0"

/-- Agree on the version of the protocol. -/
def handshake (request : Request) : Answer := do
  let client ← request.text "client"
  let version ← request.text "protocol_version"
  if version = protocolVersion then
    return .obj [("protocol_version", .str protocolVersion),
      ("runtime", .obj [("version", .str programVersion), ("client", .str client),
        ("features", .list .str names)])]
  else throw (.version version)

/-- Say what is wrong with a sequence. -/
def validate (request : Request) : Answer := do
  let errors := Sequence.validate (← request.text "sequence")
  return .obj [("valid", .bool errors.isEmpty), ("errors", .list .str errors)]

variable {σ : Type}

/-- The answer with a compiled sequence: its code, a damaged variant if one is wanted,
and its tags if they were not given by a project. -/
def generated (site : Site σ) (tier : Option Fault.Tier) (sequence : Sequence)
    (program : Program) : Json :=
  let damaged := tier.bind fun tier =>
    Fault.injectSeeded site.faultSeed program.bodyLines tier sequence.labels
  Answer.done (.obj ([("code", .str program.code)] ++
    (damaged.map fun damaged => ("incorrect", Json.str (Program.joinLines damaged.lines))).toList ++
    if program.configured then [] else [("tags", .str program.tagMarkup)])) []

/-- Compile a sequence. -/
def generate (site : Site σ) (request : Request) : Answer := do
  let source ← request.text "sequence"
  let tier ← request.tier
  let project ← request.project site
  match Sequence.parse source with
  | .error diagnostics => return Answer.ofDiagnostics diagnostics
  | .ok sequence =>
      match Program.compile sequence project with
      | .error error => return Answer.ofCompileError error
      | .ok program => return generated site tier sequence program

/-- The components that still need an entry in the project; all of them without a
project. -/
def unassigned (project : Option Project) (required : List Component) : List ComponentId :=
  match project with
  | some project => project.missing required
  | none => required.map (·.id)

/-- List the components of a sequence. -/
def components (site : Site σ) (request : Request) : Answer := do
  let source ← request.text "sequence"
  let project ← request.project site
  match Sequence.parse source with
  | .error diagnostics => return Answer.ofDiagnostics diagnostics
  | .ok sequence =>
      let required := sequence.inventory
      let missing := unassigned project required
      let (lacking, bound) := required.partition fun component => missing.contains component.id
      let labels := Json.list fun component : Component => .str component.id.label
      return .obj [("status", .str "OK"), ("components", .list Component.toJson required),
        ("assigned", labels bound), ("unassigned", labels lacking)]

/-- Start a sequence on a device. -/
def run (site : Site σ) (request : Request) (schedule : Run.Schedule σ) :
    Answer × Run.Schedule σ :=
  match request.text "sequence", request.text "device_address" with
  | .error refusal, _ | .ok _, .error refusal => (.error refusal, schedule)
  | .ok source, .ok address =>
      match schedule.start site.field
        ⟨source, address, site.settings, site.timerSeed, site.repeatSeed⟩ with
      | .error error => (.ok (Answer.ofRunError error), schedule)
      | .ok (run, schedule) =>
          (.ok (Answer.done (.str "PLC execution started!") [("run_id", runName run)]), schedule)

/-- Ask the run on a device to stop. -/
def stop (site : Site σ) (request : Request) (schedule : Run.Schedule σ) :
    Answer × Run.Schedule σ :=
  match request.text "device_address" with
  | .error refusal => (.error refusal, schedule)
  | .ok address =>
      match (schedule.registry site.field).requestStop address with
      | .error error => (.ok (Answer.ofDeviceError error), schedule)
      | .ok registry =>
          (.ok (Answer.done (.str "PLC stop signal sent!") []),
            schedule.setRegistry site.field registry)

/-- List the devices. -/
def listDevices (site : Site σ) (schedule : Run.Schedule σ) : Answer :=
  .ok (.obj [("devices", .list recordJson (schedule.registry site.field).records)])

end Command

end Pneumatic.Service
