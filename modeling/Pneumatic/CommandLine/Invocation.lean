import Pneumatic.CommandLine.Arguments
import Pneumatic.Text.Numeral

/-!
# Invocations

What the arguments of the program ask for: the root folder, then a command with
arguments of its own.
-/

namespace Pneumatic.CommandLine

/-- The name of a command. -/
inductive Verb where
  | init
  | validate
  | compile
  | components
  | simulate
  | serve
  | help
  deriving DecidableEq, Repr

namespace Verb

/-- Every command. -/
def all : List Verb := [init, validate, compile, components, simulate, serve, help]

/-- The name of a command. -/
def name : Verb → String
  | .init => "init"
  | .validate => "validate"
  | .compile => "compile"
  | .components => "components"
  | .simulate => "simulate"
  | .serve => "serve"
  | .help => "help"

/-- The command with a name. -/
def ofName? (name : String) : Option Verb :=
  all.find? (·.name == name)

end Verb

/-- What a command is asked to do. -/
inductive Task where
  | init
  | validate (sequence : String)
  | compile (sequence errors : String) (project : Option String) (seed : Option UInt64)
      (tags : Bool)
  | components (sequence : String) (project : Option String)
  | simulate (sequence : String) (travel : Nat)
  | serve
  deriving DecidableEq, Repr

/-- What the program is asked to do. -/
structure Invocation where
  root : String
  task : Task
  deriving DecidableEq, Repr

/-- Why there is nothing to do. -/
inductive Declined where
  | misuse
  /-- The user asked for help, about a command or about the program. -/
  | help (about : Option Verb)
  deriving DecidableEq, Repr

/-- A word of 64 bits in decimal. -/
def word64? (text : String) : Option UInt64 :=
  (Text.natBelow? UInt64.size text.toList).map UInt64.ofNat

/-- An option with a path for its value. -/
def pathChoice (name : String) (short : Option Char) : Choice :=
  ⟨name, short, some fun text => !text.isEmpty⟩

/-- An option with a number for its value. -/
def numberChoice (name : String) : Choice :=
  ⟨name, none, some fun text => (word64? text).isSome⟩

/-- The options before the command. -/
def rootGrammar : Grammar := ⟨[pathChoice "root" (some 'r')], 0⟩

namespace Verb

/-- The arguments of a command. -/
def grammar : Verb → Grammar
  | .init | .serve | .help => ⟨[], 0⟩
  | .validate => ⟨[], 1⟩
  | .compile => ⟨[⟨"errors", none, some fun _ => true⟩, pathChoice "project" none,
      numberChoice "seed", ⟨"tags", none, none⟩], 1⟩
  | .components => ⟨[pathChoice "project" none], 1⟩
  | .simulate => ⟨[numberChoice "travel-ms"], 1⟩

/-- What a command is asked to do by its arguments. -/
def task? (verb : Verb) (found : Found) : Option Task :=
  match verb, found.operands with
  | .init, [] => some .init
  | .validate, [sequence] => some (.validate sequence)
  | .compile, [sequence] =>
      some (.compile sequence ((found.value? "errors").getD "0,none") (found.value? "project")
        ((found.value? "seed").bind word64?) (found.has "tags"))
  | .components, [sequence] => some (.components sequence (found.value? "project"))
  | .simulate, [sequence] =>
      some (.simulate sequence ((((found.value? "travel-ms").bind word64?).getD 200).toNat))
  | .serve, [] => some .serve
  | _, _ => none

/-- Read the arguments of a command. -/
def read (verb : Verb) (arguments : List String) : Except Declined Task :=
  match verb.grammar.read .nothing arguments with
  | .error .misuse => .error .misuse
  | .error .help => .error (.help (some verb))
  | .ok (found, []) =>
      match verb.task? found with
      | some task => .ok task
      | none => .error .misuse
  | .ok (_, _ :: _) => .error .misuse

/-- What a request for help is about: the program, or the command it names. -/
def readHelp : List String → Declined
  | [] => .help none
  | [name] => match ofName? name with
      | some verb => .help (some verb)
      | none => .misuse
  | _ => .misuse

end Verb

namespace Invocation

/-- Read the arguments of the program. -/
def read (arguments : List String) : Except Declined Invocation :=
  match rootGrammar.read .nothing arguments with
  | .error .misuse | .ok (_, []) => .error .misuse
  | .error .help => .error (.help none)
  | .ok (found, name :: rest) =>
      match Verb.ofName? name with
      | none => .error .misuse
      | some .help => .error (Verb.readHelp rest)
      | some verb => do
          return ⟨(found.value? "root").getD ".seqctl", ← verb.read rest⟩

end Invocation

end Pneumatic.CommandLine
