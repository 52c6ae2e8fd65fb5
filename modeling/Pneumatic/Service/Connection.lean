import Pneumatic.Service.Command
import Pneumatic.Text.Blank

/-!
# Connections

A connection answers each line that is not blank, one after the other.  It carries
out no command before a handshake succeeded; after that it never asks for one again.
-/

namespace Pneumatic.Service

/-- A connection and the runs it has to do with. -/
structure Connection (σ : Type) where
  /-- Whether a handshake succeeded. -/
  greeted : Bool
  schedule : Run.Schedule σ

namespace Connection

variable {σ : Type}

/-- A connection without a handshake. -/
def new (schedule : Run.Schedule σ) : Connection σ := ⟨false, schedule⟩

/-- Carry out a command. -/
def command (site : Site σ) (request : Request) (schedule : Run.Schedule σ) :
    Answer × Run.Schedule σ :=
  match request.command with
  | "validate" => (Command.validate request, schedule)
  | "generate" => (Command.generate site request, schedule)
  | "components" => (Command.components site request, schedule)
  | "run" => Command.run site request schedule
  | "stop" => Command.stop site request schedule
  | "list_devices" => (Command.listDevices site schedule, schedule)
  | name => (.error (.command name), schedule)

/-- Answer a request. -/
def perform (site : Site σ) (request : Request) (connection : Connection σ) :
    Answer × Connection σ :=
  if request.command = "handshake" then
    let answer := Command.handshake request
    (answer, { connection with greeted := connection.greeted || answer.isOk })
  else if connection.greeted then
    let (answer, schedule) := command site request connection.schedule
    (answer, { connection with schedule })
  else (.error .noHandshake, connection)

/-- Answer a line; a blank one gets no reply. -/
def answer (site : Site σ) (line : String) (connection : Connection σ) :
    Option Reply × Connection σ :=
  if (Text.trim line.toList).isEmpty then (none, connection)
  else match Request.read? line with
  | none => (some ⟨.null, .error .malformed⟩, connection)
  | some request =>
      let (outcome, connection) := connection.perform site request
      (some ⟨request.id, outcome⟩, connection)

/-- Answer lines one after the other. -/
def answerAll (site : Site σ) : List String → Connection σ → List Reply × Connection σ
  | [], connection => ([], connection)
  | line :: lines, connection =>
      let (reply, connection) := connection.answer site line
      let (replies, connection) := answerAll site lines connection
      (reply.toList ++ replies, connection)

end Connection

/-- The lines of a text; a line break at the end begins no line. -/
def linesOf (text : String) : List String :=
  let pieces := Text.pieces '\n' text.toList
  let pieces := if pieces.getLast? == some [] then pieces.dropLast else pieces
  pieces.map String.ofList

end Pneumatic.Service
