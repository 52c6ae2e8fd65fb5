import Pneumatic.Device.Registry
import Pneumatic.Field.Value
import Pneumatic.Notation.Diagnostics
import Pneumatic.Notation.Token
import Pneumatic.Run.Settings
import Pneumatic.Tag.Role

/-!
# How a run ends

A run ends with a report, or with an error.  Errors about the sequence or the device
reject a run before it touches anything.
-/

namespace Pneumatic.Run

/-- How a run ended that met no error. -/
inductive Outcome where
  /-- Every step was carried out and the last one confirmed. -/
  | completed
  /-- A stop request ended the run early. -/
  | stopped
  deriving DecidableEq, Repr

/-- What a finished run has to say. -/
structure Report where
  run : Device.RunId
  device : String
  outcome : Outcome
  /-- The combined writes of actuations, without the initial ones. -/
  actuationWrites : Nat
  /-- The passes through the whole sequence. -/
  passes : Nat
  /-- The value that the timer variable started with. -/
  timerSeed : Int16
  /-- The value that the repeat variable started with. -/
  repeatSeed : Int16
  deriving DecidableEq, Repr

/-- What a run cannot carry out. -/
inductive Unsupported where
  | pressure (token : Token)
  | openingRetraction (label : Char)
  /-- A timer that is too long with the timer variable it found. -/
  | longDelay (delay : Delay) (seconds : Int)
  deriving DecidableEq, Repr

/-- What cannot be carried out, in words. -/
def Unsupported.message : Unsupported → String
  | .pressure token => "pressure sensors are not supported yet: " ++ token.text
  | .openingRetraction label =>
      "sequence cannot start by retracting actuator " ++ String.singleton label
  | .longDelay delay seconds =>
      "timer " ++ (Token.timer delay).text ++ " with " ++ Tag.timerVariable ++ "=" ++
        toString seconds ++ " exceeds the longest delay"

/-- Why a run failed. -/
inductive Error where
  | sequence (diagnostics : Diagnostics)
  | device (error : Device.Error)
  | field (error : Field.Error)
  | sensorTimeout (tag : String) (waited : Nat)
  | unsupported (what : Unsupported)
  | settings (error : SettingsError)
  deriving DecidableEq, Repr

namespace Error

/-- The message of an error. -/
def message : Error → String
  | .sequence diagnostics => diagnostics.message
  | .device error => error.message
  | .field error => "protocol error: " ++ error.message
  | .sensorTimeout tag waited =>
      "sensor " ++ tag ++ " did not report within " ++ toString waited ++ " ms"
  | .unsupported what => "unsupported: " ++ what.message
  | .settings error => "configuration error: " ++ error.message

/-- Whether the error is of a kind that rejects a run. -/
def isRejection : Error → Bool
  | .sequence _ | .device _ | .unsupported _ => true
  | _ => false

end Error

end Pneumatic.Run
