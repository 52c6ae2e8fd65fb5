/-!
# Devices

The registry keeps one record per device address, in order of registration.  A run
acquires a device that is available and holds it until its lease is dropped or the
device is released by force.  A stop request reaches the run that holds the device
and no other.
-/

namespace Pneumatic.Device

/-- What identifies a run. -/
abbrev RunId := Nat

/-- The state of a device. -/
structure Record where
  name : String
  /-- The network address, which also identifies the device. -/
  address : String
  available : Bool
  stopRequested : Bool
  currentRun : Option RunId
  /-- When the most recent run started. -/
  lastStarted : Option Nat
  deriving DecidableEq, Repr

namespace Record

/-- A device that was never used. -/
def new (name address : String) : Record :=
  ⟨name, address, true, false, none, none⟩

/-- The device held by a run. -/
def hold (record : Record) (run : RunId) (now : Nat) : Record :=
  { record with
    available := false, stopRequested := false, currentRun := some run, lastStarted := some now }

/-- The device given back. -/
def free (record : Record) : Record :=
  { record with available := true, stopRequested := false, currentRun := none }

/-- The device with a stop request, which an idle device does not record. -/
def stop (record : Record) : Record :=
  if record.available then record else { record with stopRequested := true }

end Record

/-- Exclusive use of a device by one run. -/
structure Lease where
  address : String
  run : RunId
  deriving DecidableEq, Repr

/-- Why a device cannot be used. -/
inductive Error where
  | unknown (address : String)
  | busy (address : String)
  deriving DecidableEq, Repr

/-- The message of an error. -/
def Error.message : Error → String
  | .unknown address => "device " ++ address ++ " not found"
  | .busy address => "device " ++ address ++ " is busy"

/-- The known devices, and how many runs were named so far. -/
structure Registry where
  records : List Record
  runs : Nat
  deriving DecidableEq, Repr

namespace Registry

/-- A registry without devices. -/
def empty : Registry := ⟨[], 0⟩

/-- The record of a device. -/
def find? (registry : Registry) (address : String) : Option Record :=
  registry.records.find? (·.address == address)

/-- Change the record of a device. -/
def update (registry : Registry) (address : String) (change : Record → Record) : Registry :=
  { registry with
    records := registry.records.map fun record =>
      if record.address = address then change record else record }

/-- A change that keeps the address reaches the record of that address and no other. -/
theorem find?_update (registry : Registry) (address other : String) (change : Record → Record)
    (keeps : ∀ record, (change record).address = record.address) :
    (registry.update address change).find? other =
      (registry.find? other).map fun record =>
        if record.address = address then change record else record := by
  simp only [find?, update, List.find?_map]
  congr 2
  funext record
  simp only [Function.comp]
  split <;> simp [keeps]

/-- Register a device.  A known address keeps its record. -/
def register (registry : Registry) (name address : String) : Registry :=
  if (registry.find? address).isSome then registry
  else { registry with records := registry.records ++ [.new name address] }

/-- A registry of devices given by name and address. -/
def ofDevices (devices : List (String × String)) : Registry :=
  devices.foldl (fun registry (name, address) => registry.register name address) empty

/-- Hold a device for a new run if it is available. -/
def acquire (registry : Registry) (address : String) (now : Nat) :
    Except Error (Lease × Registry) :=
  match registry.find? address with
  | none => .error (.unknown address)
  | some record =>
      if record.available then
        let run := registry.runs
        .ok (⟨address, run⟩,
          { registry.update address (·.hold run now) with runs := run + 1 })
      else .error (.busy address)

/-- Hold a device for a new run if it is available, without a lease, and say whether that
was so. -/
def tryAcquire (registry : Registry) (address : String) (now : Nat) : Bool × Registry :=
  match registry.acquire address now with
  | .ok (_, held) => (true, held)
  | .error _ => (false, registry)

/-- Give a device back, whoever holds it. -/
def release (registry : Registry) (address : String) : Except Error Registry :=
  if (registry.find? address).isSome then .ok (registry.update address Record.free)
  else .error (.unknown address)

/-- Give back what a lease holds.  A lease whose device is held by another run
changes nothing. -/
def drop (registry : Registry) (lease : Lease) : Registry :=
  registry.update lease.address fun record =>
    if record.currentRun = some lease.run then record.free else record

/-- Ask the run that holds a device to stop. -/
def requestStop (registry : Registry) (address : String) : Except Error Registry :=
  if (registry.find? address).isSome then .ok (registry.update address Record.stop)
  else .error (.unknown address)

/-- Whether the run that holds a device was asked to stop. -/
def stopRequested (registry : Registry) (address : String) : Bool :=
  (registry.find? address).any (·.stopRequested)

end Registry

end Pneumatic.Device
