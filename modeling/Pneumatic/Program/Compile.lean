import Pneumatic.Notation.Parse
import Pneumatic.Program.Basic
import Pneumatic.Tag.Naming

/-!
# Compiling a sequence

Case 0 drives every component to rest, and the step with index `i` becomes case
`10 * (i + 1)`:

* an actuation commands its coils and waits for its end sensor;
* a timer is powered until it is done, and its power is dropped on exit;
* the regions that end at a step nest their transitions, innermost first;
* the last case of a wrapped sequence goes back to case 0, and the first case then
  also waits for what the last one waited for.

The first mention of a component declares its signals and adds to the setup.
-/

namespace Pneumatic

/-- Why a sequence cannot be compiled. -/
inductive CompileError where
  | invalid (diagnostics : Diagnostics)
  /-- The first moving step retracts an actuator. -/
  | unsupportedStart (label : Char)
  /-- The project leaves components unconfigured. -/
  | incomplete (missing : List ComponentId)
  /-- A pressure, which can be read but not run. -/
  | unsupportedToken (token : Token)
  | naming (error : Tag.NamingError)
  deriving DecidableEq, Repr

namespace CompileError

/-- The message of an error. -/
def message : CompileError → String
  | .invalid diagnostics => diagnostics.message
  | .unsupportedStart label =>
      "sequence starts by retracting " ++ String.singleton label ++
        "; actuators must start from the retracted position"
  | .incomplete missing =>
      "configuration incomplete: missing " ++
        String.intercalate ", " (missing.map ComponentId.label)
  | .unsupportedToken token => "pressure sensors are not supported yet: " ++ token.text
  | .naming error => error.message

/-- Whether the error is about the start of the sequence. -/
def isRetraction : CompileError → Bool
  | .unsupportedStart _ => true
  | _ => false

end CompileError

namespace Program

/-- The case of a step. -/
def caseNumber (step : Nat) : Nat :=
  (step + 1) * 10

/-- What was declared and set up so far. -/
structure Builder where
  table : Tag.Table
  setup : List Instruction
  calls : List Instruction
  /-- The actuators mentioned so far with their signals. -/
  actuators : List (Char × Tag.Actuator)
  /-- The counters of the regions entered so far. -/
  counters : List (Nat × String)

namespace Builder

/-- Nothing mentioned yet. -/
def empty : Builder := ⟨.empty, [], [], [], []⟩

/-- Assignments to coils. -/
def assign (command : List (String × Bool)) : List Instruction :=
  command.map fun (tag, value) => .setBool tag value

/-- Give the counter of a region a signal and a start value. -/
def enterRegion (naming : Tag.Naming) (counters : List (Option Nat)) (builder : Builder)
    (region : Nat) : Except Tag.NamingError Builder :=
  match counters[region]?.join with
  | none => .ok builder
  | some number => do
      let tag ← naming.counter number
      return { builder with
        table := builder.table.push tag .int
        setup := builder.setup ++ [.setInt tag 0]
        counters := builder.counters ++ [(region, tag)] }

/-- The signals of an actuator.  Its first mention declares them and retracts it in
the setup. -/
def actuator (naming : Tag.Naming) (builder : Builder) (label : Char) :
    Except Tag.NamingError (Tag.Actuator × Builder) :=
  match builder.actuators.lookup label with
  | some tags => .ok (tags, builder)
  | none => do
      let tags ← naming.actuator label
      return (tags, { builder with
        table := builder.table.extend (tags.bindings label)
        setup := builder.setup ++ assign (tags.command .retract)
        actuators := builder.actuators ++ [(label, tags)] })

/-- The preset of a delay. -/
def preset : Delay → Preset
  | .fixed span => .fixed span
  | .relative offset => .variable Tag.timerVariable offset

/-- The signals of a timer, declared, switched off in the setup, and called. -/
def timer (naming : Tag.Naming) (builder : Builder) (number : Nat) (delay : Delay) :
    Except Tag.NamingError (Tag.Timer × Builder) := do
  let tags ← naming.timer number
  return (tags, { builder with
    table := builder.table.extend tags.bindings
    setup := builder.setup ++ [.setBool tags.power false]
    calls := builder.calls ++
      [.callTimer (tags.label ++ "_Instance") tags.power tags.done tags.elapsed (preset delay)] })

/-- What the tokens of a step add to its case. -/
structure Work where
  body : List Instruction
  onExit : List Instruction
  done : Condition

/-- Add one token to the work of a step. -/
def addPart (naming : Tag.Naming) (state : Builder × Work) (part : Part) :
    Except CompileError (Builder × Work) :=
  let (builder, work) := state
  match part.token, part.component with
  | .actuation actuation, _ => do
      let (tags, builder) ← (builder.actuator naming actuation.label).mapError .naming
      return (builder, { work with
        body := work.body ++ assign (tags.command actuation.direction)
        done := work.done.and (tags.sensor actuation.direction) })
  | .timer delay, .timer number => do
      let (tags, builder) ← (builder.timer naming number delay).mapError .naming
      return (builder,
        { body := work.body ++ [.setBool tags.power true]
          onExit := work.onExit ++ [.setBool tags.power false]
          done := work.done.and tags.done })
  | .timer _, _ => .ok state
  | .pressure pressure, _ => .error (.unsupportedToken (.pressure pressure))

/-- The transition through the regions that end at a step, given innermost first,
with `outer` for what follows them all. -/
def leaveRegions (counters : List (Nat × String)) (regions : List Region) (outer : Transition) :
    List Nat → Transition
  | [] => outer
  | index :: rest =>
      let otherwise := leaveRegions counters regions outer rest
      match regions[index]? with
      | none => otherwise
      | some region =>
          let start := caseNumber region.first
          match region.bound, counters.lookup index with
          | .unbounded, _ => .loop start
          | .fixed count, some counter => .count counter (.literal count) start otherwise
          | .relative offset, some counter =>
              .count counter (.variable Tag.repeatVariable offset) start otherwise
          | _, none => otherwise

/-- The case of one step. -/
def addStep (naming : Tag.Naming) (sequence : Sequence) (state : Builder × List Case)
    (step : List Part × Nat) : Except CompileError (Builder × List Case) := do
  let (builder, cases) := state
  let (parts, index) := step
  let regions := sequence.regions
  let builder ← ((Sequence.regionsStartingAt regions index).foldlM
    (enterRegion naming sequence.counters) builder).mapError .naming
  let (builder, work) ← parts.foldlM (addPart naming) (builder, ⟨[], [], .always⟩)
  let after := if index + 1 = sequence.length && sequence.wrapped then 0 else caseNumber (index + 1)
  let case : Case :=
    { number := caseNumber index
      guard := if work.done.terms.isEmpty then none else some work.done
      body := work.body
      onExit := work.onExit
      next := leaveRegions builder.counters regions (.jump after)
        (Sequence.regionsEndingAt regions index) }
  return (builder, cases ++ [case])

/-- Let the first case also wait for what the last case waits for. -/
def waitForWrap (cases : List Case) : List Case :=
  match cases, cases.getLast?.bind (·.guard) with
  | first :: rest, some last =>
      { first with guard := some ((first.guard.getD .always).andAll last.terms) } :: rest
  | cases, _ => cases

end Builder

/-- Build the program of a sequence, one step after the other. -/
def build (naming : Tag.Naming) (sequence : Sequence) : Except CompileError Program := do
  let (builder, cases) ←
    sequence.parts.zipIdx.foldlM (Builder.addStep naming sequence) (.empty, [])
  let cases := if sequence.wrapped then Builder.waitForWrap cases else cases
  let start : Case := ⟨0, none, builder.setup, [], .jump 10⟩
  let table :=
    if sequence.usesVariables then
      (builder.table.push Tag.timerVariable .int).push Tag.repeatVariable .int
    else builder.table
  return {
    setup := builder.setup
    cases := start :: cases
    calls := builder.calls
    tags := table.declarations
    configured := naming.isConfigured }

/-- Compile a sequence.  Pressures are refused first, then a start by retraction,
then an incomplete project. -/
def compile (sequence : Sequence) (project : Option Project) : Except CompileError Program :=
  match sequence.firstPressure?, sequence.openingRetraction? with
  | some token, _ => .error (.unsupportedToken token)
  | none, some label => .error (.unsupportedStart label)
  | none, none =>
      match (project.map fun project => project.missing sequence.inventory).getD [] with
      | [] => build (.ofProject? project) sequence
      | missing => .error (.incomplete missing)

/-- Read and compile a sequence. -/
def compileSource (source : String) (project : Option Project) : Except CompileError Program :=
  match Sequence.parse source with
  | .error diagnostics => .error (.invalid diagnostics)
  | .ok sequence => compile sequence project

end Program

end Pneumatic
