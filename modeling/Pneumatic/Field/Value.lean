/-!
# The field protocol

A controller holds named tags.  A session reads one tag at a time and writes
several at once.  Everything can fail, and the error says what was tried.
-/

namespace Pneumatic.Field

/-- The types a tag can have. -/
inductive ValueKind where
  | boolean
  | int16
  deriving DecidableEq, Repr

/-- The name of a type in the protocol. -/
def ValueKind.name : ValueKind → String
  | .boolean => "Boolean"
  | .int16 => "Int16"

/-- The value of a tag. -/
inductive Value where
  | bool (value : Bool)
  | int (value : Int16)
  deriving DecidableEq, Repr

namespace Value

/-- The type of a value. -/
def kind : Value → ValueKind
  | .bool _ => .boolean
  | .int _ => .int16

/-- The text of a value. -/
def text : Value → String
  | .bool true => "true"
  | .bool false => "false"
  | .int value => toString value.toInt

end Value

/-- One entry of a combined write. -/
structure Write where
  tag : String
  value : Value
  deriving DecidableEq, Repr

/-- Why an operation failed. -/
inductive Error where
  | connect (endpoint detail : String)
  | session (detail : String)
  | write (detail : String)
  | read (tag detail : String)
  | unknownTag (tag : String)
  | typeMismatch (tag : String) (expected : ValueKind)
  deriving DecidableEq, Repr

/-- The message of an error. -/
def Error.message : Error → String
  | .connect endpoint detail => "failed to connect to " ++ endpoint ++ ": " ++ detail
  | .session detail => "session error: " ++ detail
  | .write detail => "write failed: " ++ detail
  | .read tag detail => "read of " ++ tag ++ " failed: " ++ detail
  | .unknownTag tag => "unknown tag " ++ tag
  | .typeMismatch tag expected => "tag " ++ tag ++ " is not " ++ expected.name

/-- A truth value read from a tag. -/
def Value.asBool (tag : String) : Value → Except Error Bool
  | .bool value => .ok value
  | .int _ => .error (.typeMismatch tag .boolean)

/-- An integer read from a tag. -/
def Value.asInt (tag : String) : Value → Except Error Int16
  | .int value => .ok value
  | .bool _ => .error (.typeMismatch tag .int16)

/-- The endpoint of a controller. -/
def endpoint (address : String) (port : UInt16) : String :=
  "opc.tcp://" ++ address ++ ":" ++ toString port.toNat

end Pneumatic.Field
