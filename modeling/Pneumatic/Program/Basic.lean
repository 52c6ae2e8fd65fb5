import Pneumatic.Duration
import Pneumatic.Tag.Table

/-!
# Programs

A program is a state machine of numbered cases.  Each scan runs the body of the
active case; once its guard holds, the exit instructions run and the transition
names the next case.  Timers are called after the cases.
-/

namespace Pneumatic

/-- The preset of a timer: a fixed span, or a variable in seconds plus a span. -/
inductive Preset where
  | fixed (span : Duration)
  | variable (tag : String) (offset : Option Duration)
  deriving DecidableEq, Repr

/-- A statement. -/
inductive Instruction where
  | setBool (tag : String) (value : Bool)
  | setInt (tag : String) (value : Int)
  /-- An on-delay timer with its name, signals and preset. -/
  | callTimer (name power done elapsed : String) (preset : Preset)
  deriving DecidableEq, Repr

/-- How often a counted region runs: a number, or a variable plus a number. -/
inductive Limit where
  | literal (count : UInt32)
  | variable (tag : String) (offset : UInt32)
  deriving DecidableEq, Repr

/-- Where to go from a case. -/
inductive Transition where
  | jump (target : Nat)
  /-- Back to the start of an endless region. -/
  | loop (start : Nat)
  /-- Count one pass; below the limit back to `start`, else reset the counter and
  go on with `otherwise`. -/
  | count (counter : String) (limit : Limit) (start : Nat) (otherwise : Transition)
  deriving DecidableEq, Repr

/-- The cases that a transition may lead to. -/
def Transition.targets : Transition → List Nat
  | .jump target => [target]
  | .loop start => [start]
  | .count _ _ start otherwise => start :: otherwise.targets

/-- Signals that all have to be on. -/
structure Condition where
  terms : List String
  deriving DecidableEq, Repr

namespace Condition

/-- The condition that always holds. -/
def always : Condition := ⟨[]⟩

/-- Ask for one more signal. -/
def and (condition : Condition) (term : String) : Condition :=
  if term ∈ condition.terms then condition else ⟨condition.terms ++ [term]⟩

/-- Ask for more signals. -/
def andAll (condition : Condition) (terms : List String) : Condition :=
  terms.foldl and condition

end Condition

/-- One state of a program. -/
structure Case where
  number : Nat
  /-- What has to hold to leave the case; without a guard it is left at once. -/
  guard : Option Condition
  body : List Instruction
  onExit : List Instruction
  next : Transition
  deriving DecidableEq, Repr

/-- A signal as a program declares it. -/
structure Declaration where
  name : String
  kind : Tag.Kind
  address : String
  deriving DecidableEq, Repr

/-- The signals of a table as declarations. -/
def Tag.Table.declarations (table : Tag.Table) : List Declaration :=
  table.entries.map fun entry => ⟨entry.name, entry.kind, entry.address.text⟩

/-- A compiled sequence. -/
structure Program where
  /-- What drives every component to rest; also the body of case 0. -/
  setup : List Instruction
  cases : List Case
  /-- The timer calls after the cases. -/
  calls : List Instruction
  tags : List Declaration
  /-- Whether signal names came from a project. -/
  configured : Bool
  deriving DecidableEq, Repr

namespace Program

/-- The case with a number. -/
def case? (program : Program) (number : Nat) : Option Case :=
  program.cases.find? (·.number == number)

/-- The declaration of a signal. -/
def tag? (program : Program) (name : String) : Option Declaration :=
  program.tags.find? (·.name == name)

end Program

end Pneumatic
