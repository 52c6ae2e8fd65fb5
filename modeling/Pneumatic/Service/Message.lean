import Pneumatic.Fault.Tier
import Pneumatic.Json.Printer
import Pneumatic.Store.Basic

/-!
# Messages of the service

Requests and replies are JSON documents of one line.  A request has an identifier,
a command and parameters; its reply has the same identifier and either a result or
an error.
-/

namespace Pneumatic.Service

/-- A request. -/
structure Request where
  /-- Whatever the client wants to see again in the reply. -/
  id : Json
  command : String
  /-- The parameters by name; null when there are none. -/
  params : Json

namespace Request

/-- Read a value that is kept as it is, one level inside a document. -/
def value? (json : Json) : Option Json :=
  if json.readable (Json.nestingLimit - 1) then some json else none

/-- Read a request. -/
def ofJson? (json : Json) : Option Request := do
  let fields ← json.fields? ["id", "command", "params"]
  some
    { id := ← fields.required "id" value?
      command := ← fields.required "command" Json.text?
      params := ← fields.withDefault "params" .null value? }

/-- Read a request from a line. -/
def read? (line : String) : Option Request :=
  (Json.read? line).bind ofJson?

/-- A parameter that is text. -/
def text? (request : Request) (name : String) : Option String :=
  (request.params.get? name).bind Json.text?

end Request

/-- Why a request is refused. -/
inductive Refusal where
  /-- The line is no request. -/
  | malformed
  /-- A parameter is missing or no text. -/
  | parameter (name : String)
  /-- A text that does not say which faults are wanted. -/
  | faults (request : String)
  /-- A command before a handshake. -/
  | noHandshake
  /-- A handshake for another version of the protocol. -/
  | version (requested : String)
  | command (name : String)
  | store (error : Store.Error)
  deriving DecidableEq, Repr

/-- The version of the protocol. -/
def protocolVersion : String := "1.0.0"

namespace Refusal

/-- The sort of a refusal. -/
def code : Refusal → String
  | .malformed => "parse_error"
  | .parameter _ | .faults _ => "invalid_params"
  | .noHandshake | .version _ => "protocol_error"
  | .command _ => "unsupported_command"
  | .store _ => "runtime_error"

/-- The message of a refusal. -/
def message : Refusal → String
  | .malformed => "not a request"
  | .parameter name => "missing or invalid parameter: " ++ name
  | .faults request => Fault.Tier.requestError request
  | .noHandshake => "handshake required before issuing commands"
  | .version requested =>
      "unsupported protocol version: expected " ++ protocolVersion ++ ", got " ++ requested
  | .command name => "Command '" ++ name ++ "' is not supported"
  | .store error => error.message

end Refusal

/-- A reply: the identifier of the request, or null, and what came of it. -/
structure Reply where
  id : Json
  outcome : Except Refusal Json

/-- A reply as JSON. -/
def Reply.toJson (reply : Reply) : Json :=
  .obj [("id", reply.id), match reply.outcome with
    | .ok result => ("result", result)
    | .error refusal =>
        ("error", .obj [("code", .str refusal.code), ("message", .str refusal.message)])]

end Pneumatic.Service
