import Pneumatic.Duration
import Pneumatic.Json.Reader
import Pneumatic.Json.Record

/-!
# Settings

What a run needs to know beside its sequence, as a record and as JSON.  Fields that
a document leaves out keep their defaults.
-/

namespace Pneumatic.Run

/-- A device known from the start. -/
structure DeviceEntry where
  name : String
  address : String
  deriving DecidableEq, Repr

/-- The settings of the program. -/
structure Settings where
  /-- The directory for everything that is kept. -/
  root : String
  devices : List DeviceEntry
  /-- The port of every controller. -/
  endpointPort : UInt16
  /-- Milliseconds between two looks at a sensor. -/
  pollInterval : UInt64
  /-- Milliseconds to wait after every actuator was sent to rest. -/
  settle : UInt64
  /-- Milliseconds until a sensor that does not come fails the run; none for ever. -/
  sensorTimeout : Option UInt64
  /-- The largest value that the run variables start with. -/
  variableMax : Int16
  deriving DecidableEq, Repr

/-- Why settings cannot be used. -/
inductive SettingsError where
  | variableMax (value : Int16)
  | pollInterval
  deriving DecidableEq, Repr

/-- The message of an error. -/
def SettingsError.message : SettingsError → String
  | .variableMax value => "runtime_var_max must be at least 1, got " ++ toString value.toInt
  | .pollInterval => "poll_interval_ms must be positive"

namespace Settings

/-- The settings of a program without a document. -/
def default : Settings where
  root := ".seqctl"
  devices := [⟨"PLC_5", "192.168.0.42"⟩]
  endpointPort := 4840
  pollInterval := 100
  settle := 1000
  sensorTimeout := none
  variableMax := 3

/-- What is wrong with settings; the bound of the variables is looked at first. -/
def problem? (settings : Settings) : Option SettingsError :=
  if settings.variableMax < 1 then some (.variableMax settings.variableMax)
  else if settings.pollInterval = 0 then some .pollInterval
  else none

/-- Read a word of 64 bits. -/
def word64? (json : Json) : Option UInt64 :=
  (json.natBelow? UInt64.size).map UInt64.ofNat

/-- Read a port. -/
def port? (json : Json) : Option UInt16 :=
  (json.natBelow? UInt16.size).map UInt16.ofNat

/-- Read a signed word of 16 bits. -/
def int16? (json : Json) : Option Int16 :=
  (json.int?.filter fun value => -32_768 ≤ value && value < 32_768).map Int16.ofInt

/-- Read a device. -/
def device? (json : Json) : Option DeviceEntry := do
  let fields ← json.fields? ["name", "address"]
  some ⟨← fields.required "name" Json.text?, ← fields.required "address" Json.text?⟩

/-- Read settings. -/
def ofJson? (json : Json) : Option Settings := do
  let fields ← json.fields? ["root", "devices", "endpoint_port", "poll_interval_ms", "settle_ms",
    "sensor_timeout_ms", "runtime_var_max"]
  some
    { root := ← fields.withDefault "root" default.root Json.text?
      devices := ← fields.withDefault "devices" default.devices (Json.listOf? device?)
      endpointPort := ← fields.withDefault "endpoint_port" default.endpointPort port?
      pollInterval := ← fields.withDefault "poll_interval_ms" default.pollInterval word64?
      settle := ← fields.withDefault "settle_ms" default.settle word64?
      sensorTimeout := ← fields.withDefault "sensor_timeout_ms" default.sensorTimeout
        (Json.optional? word64?)
      variableMax := ← fields.withDefault "runtime_var_max" default.variableMax int16? }

/-- Read settings from the text of a document. -/
def read? (text : String) : Option Settings :=
  (Json.read? text).bind ofJson?

/-- Settings as JSON. -/
def toJson (settings : Settings) : Json :=
  .obj [("root", .str settings.root),
    ("devices", .arr (settings.devices.map fun device =>
      .obj [("name", .str device.name), ("address", .str device.address)])),
    ("endpoint_port", .ofNat settings.endpointPort.toNat),
    ("poll_interval_ms", .ofNat settings.pollInterval.toNat),
    ("settle_ms", .ofNat settings.settle.toNat),
    ("sensor_timeout_ms", Json.ofOption (fun word => .ofNat word.toNat) settings.sensorTimeout),
    ("runtime_var_max", .int settings.variableMax.toInt)]

end Settings

end Pneumatic.Run
