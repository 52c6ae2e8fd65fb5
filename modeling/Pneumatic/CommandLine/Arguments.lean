import Pneumatic.Text.Pieces

/-!
# Arguments

Arguments are options and operands.  An option is `--name`, or `-n` for short; its
value follows as the next argument, after `=`, or right after a short name.  The
argument `--` ends the options.  An option may stand once.
-/

namespace Pneumatic.CommandLine

/-- An option. -/
structure Choice where
  name : String
  short : Option Char
  /-- The values it may have; none for an option without a value. -/
  values : Option (String → Bool)

/-- What may stand among the arguments of a command. -/
structure Grammar where
  choices : List Choice
  /-- The number of operands. -/
  operands : Nat

/-- What stood among the arguments. -/
structure Found where
  options : List (String × String)
  operands : List String

/-- Why arguments give nothing to do. -/
inductive Refused where
  | misuse
  /-- The user asked for help. -/
  | help
  deriving DecidableEq, Repr

namespace Found

/-- Nothing. -/
def nothing : Found := ⟨[], []⟩

/-- Whether an option was given. -/
def has (found : Found) (name : String) : Bool :=
  (found.options.lookup name).isSome

/-- The value of an option. -/
def value? (found : Found) (name : String) : Option String :=
  found.options.lookup name

/-- Add an option with its value. -/
def addValue (found : Found) (choice : Choice) (value : String) : Except Refused Found :=
  if found.has choice.name || !choice.values.any (· value) then .error .misuse
  else .ok { found with options := found.options ++ [(choice.name, value)] }

/-- Add an option without a value. -/
def addFlag (found : Found) (choice : Choice) : Except Refused Found :=
  if found.has choice.name then .error .misuse
  else .ok { found with options := found.options ++ [(choice.name, "")] }

/-- Add an operand. -/
def addOperand (grammar : Grammar) (found : Found) (operand : String) : Except Refused Found :=
  if found.operands.length < grammar.operands then
    .ok { found with operands := found.operands ++ [operand] }
  else .error .misuse

end Found

/-- Whether an argument can only be an option. -/
def isDashed (argument : String) : Bool :=
  match argument.toList with
  | '-' :: _ :: _ => true
  | _ => false

/-- What an argument before `--` says. -/
inductive Sign where
  | operand
  | help
  | flag (choice : Choice)
  /-- An option with its value, or with the next argument for its value. -/
  | value (choice : Choice) (attached : Option String)
  | unknown

namespace Grammar

/-- What the text after `--` says. -/
def long (grammar : Grammar) (text : List Char) : Sign :=
  let (name, attached) := Text.cut '=' text
  match grammar.choices.find? (·.name.toList == name), attached with
  | none, none => if name = "help".toList then .help else .unknown
  | none, some _ => .unknown
  | some choice, _ =>
      if choice.values.isSome then .value choice (attached.map String.ofList)
      else if attached.isSome then .unknown
      else .flag choice

/-- What the text after `-` says.  Only options with a value have short names. -/
def short (grammar : Grammar) (name : Char) (text : List Char) : Sign :=
  if name = 'h' then .help
  else match grammar.choices.find? (·.short == some name), text with
  | none, _ => .unknown
  | some choice, [] => .value choice none
  | some choice, '=' :: text | some choice, text => .value choice (some (String.ofList text))

/-- What an argument before `--` says. -/
def sign (grammar : Grammar) (argument : String) : Sign :=
  match argument.toList with
  | '-' :: '-' :: text => grammar.long text
  | '-' :: name :: text => grammar.short name text
  | _ => .operand

/-- Read arguments.  Without operands to come, the first operand is left with what
follows it. -/
def read (grammar : Grammar) (found : Found) :
    List String → Except Refused (Found × List String)
  | [] => .ok (found, [])
  | "--" :: operands => do
      return (← operands.foldlM (Found.addOperand grammar) found, [])
  | argument :: rest =>
      match grammar.sign argument with
      | .help => .error .help
      | .unknown => .error .misuse
      | .operand =>
          if grammar.operands = 0 then .ok (found, argument :: rest)
          else (found.addOperand grammar argument).bind fun found => grammar.read found rest
      | .flag choice => (found.addFlag choice).bind fun found => grammar.read found rest
      | .value choice (some value) =>
          (found.addValue choice value).bind fun found => grammar.read found rest
      | .value choice none =>
          match rest with
          | [] => .error .misuse
          | value :: rest =>
              if isDashed value then .error .misuse
              else (found.addValue choice value).bind fun found => grammar.read found rest

end Grammar

end Pneumatic.CommandLine
