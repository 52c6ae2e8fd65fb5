import Pneumatic.Json.Record
import Pneumatic.Notation.Document
import Pneumatic.Program.Basic

/-!
# Program documents

Programs read from JSON and written for programs that look into them.  Every field
has to be there, except that a guard or an offset may be missing or null.  A span is
read as seconds and nanoseconds and written as decimal text.
-/

namespace Pneumatic

namespace Duration

/-- Read a span of `secs` and `nanos`; whole seconds among the nanoseconds carry
over.  Other members are refused. -/
def ofJson? (json : Json) : Option Duration := do
  let names := ["secs", "nanos"]
  let fields ← json.fields? names
  match json with
  | .obj members => if members.all fun member => names.contains member.1 then some () else none
  | _ => some ()
  let seconds ← fields.required "secs" (Json.natBelow? UInt64.size)
  let nanos ← fields.required "nanos" (Json.natBelow? UInt32.size)
  ofNanos? (seconds * 1_000_000_000 + nanos)

end Duration

/-- Read a number of 32 bits. -/
def Json.uint32? (json : Json) : Option UInt32 :=
  (json.natBelow? UInt32.size).map UInt32.ofNat

/-- Read a signed number of 64 bits. -/
def Json.int64? (json : Json) : Option Int :=
  json.int?.filter fun value =>
    -9_223_372_036_854_775_808 ≤ value && value < 9_223_372_036_854_775_808

/-- Read a preset. -/
def Preset.ofJson? (json : Json) : Option Preset := do
  match ← json.variant? with
  | ("Fixed", value) => (Duration.ofJson? value).map .fixed
  | ("Runtime", value) =>
      let fields ← value.fields? ["variable", "offset"]
      some (.variable (← fields.required "variable" Json.text?)
        (← fields.optional "offset" Duration.ofJson?))
  | _ => none

/-- Read a statement. -/
def Instruction.ofJson? (json : Json) : Option Instruction := do
  match ← json.variant? with
  | ("SetBool", value) =>
      let fields ← value.fields? ["tag", "value"]
      some (.setBool (← fields.required "tag" Json.text?) (← fields.required "value" Json.bool?))
  | ("SetInt", value) =>
      let fields ← value.fields? ["tag", "value"]
      some (.setInt (← fields.required "tag" Json.text?) (← fields.required "value" Json.int64?))
  | ("Timer", value) =>
      let fields ← value.fields? ["instance", "power", "done", "elapsed", "preset"]
      some (.callTimer (← fields.required "instance" Json.text?)
        (← fields.required "power" Json.text?) (← fields.required "done" Json.text?)
        (← fields.required "elapsed" Json.text?) (← fields.required "preset" Preset.ofJson?))
  | _ => none

/-- Read a limit. -/
def Limit.ofJson? (json : Json) : Option Limit := do
  match ← json.variant? with
  | ("Literal", value) => value.uint32?.map .literal
  | ("Runtime", value) =>
      let fields ← value.fields? ["variable", "offset"]
      some (.variable (← fields.required "variable" Json.text?)
        (← fields.required "offset" Json.uint32?))
  | _ => none

/-- Read the number of a case. -/
def Json.caseNumber? (json : Json) : Option Nat :=
  json.natBelow? UInt32.size

/-- Read a transition that nests fewer than `depth` deep. -/
def Transition.ofJson? : Nat → Json → Option Transition
  | 0, _ => none
  | depth + 1, json => do
      match ← json.variant? with
      | ("Jump", value) => value.caseNumber?.map .jump
      | ("Loop", value) =>
          let fields ← value.fields? ["start"]
          (fields.required "start" Json.caseNumber?).map .loop
      | ("Repeat", value) =>
          let fields ← value.fields? ["counter", "bound", "start", "otherwise"]
          some (.count (← fields.required "counter" Json.text?)
            (← fields.required "bound" Limit.ofJson?)
            (← fields.required "start" Json.caseNumber?)
            (← fields.required "otherwise" (ofJson? depth)))
      | _ => none

/-- Read a condition. -/
def Condition.ofJson? (json : Json) : Option Condition := do
  let fields ← json.fields? ["terms"]
  (fields.required "terms" (Json.listOf? Json.text?)).map Condition.mk

/-- Read a case. -/
def Case.ofJson? (json : Json) : Option Case := do
  let fields ← json.fields? ["number", "guard", "body", "on_exit", "next"]
  some
    { number := ← fields.required "number" Json.caseNumber?
      guard := ← fields.optional "guard" Condition.ofJson?
      body := ← fields.required "body" (Json.listOf? Instruction.ofJson?)
      onExit := ← fields.required "on_exit" (Json.listOf? Instruction.ofJson?)
      next := ← fields.required "next" (Transition.ofJson? Json.nestingLimit) }

/-- Read the type of a signal. -/
def Tag.Kind.ofJson? (json : Json) : Option Tag.Kind := do
  let name ← json.choice?
  [bool, int, time].find? (·.name == name)

/-- Read a declaration. -/
def Declaration.ofJson? (json : Json) : Option Declaration := do
  let fields ← json.fields? ["physical", "kind", "address"]
  some
    { name := ← fields.required "physical" Json.text?
      kind := ← fields.required "kind" Tag.Kind.ofJson?
      address := ← fields.required "address" Json.text? }

/-- Read a program. -/
def Program.ofJson? (json : Json) : Option Program := do
  let fields ← json.fields? ["setup", "cases", "components", "tag_table", "configured"]
  some
    { setup := ← fields.required "setup" (Json.listOf? Instruction.ofJson?)
      cases := ← fields.required "cases" (Json.listOf? Case.ofJson?)
      calls := ← fields.required "components" (Json.listOf? Instruction.ofJson?)
      tags := ← fields.required "tag_table" (Json.listOf? Declaration.ofJson?)
      configured := ← fields.required "configured" Json.bool? }

/-- A preset as JSON. -/
def Preset.toJson : Preset → Json
  | .fixed span => .choice "Fixed" span.toJson
  | .variable tag offset => .choice "Runtime"
      (.obj [("variable", .str tag), ("offset", Json.ofOption Duration.toJson offset)])

/-- A statement as JSON. -/
def Instruction.toJson : Instruction → Json
  | .setBool tag value => .choice "SetBool" (.obj [("tag", .str tag), ("value", .bool value)])
  | .setInt tag value => .choice "SetInt" (.obj [("tag", .str tag), ("value", .int value)])
  | .callTimer name power done elapsed preset => .choice "Timer"
      (.obj [("instance", .str name), ("power", .str power), ("done", .str done),
        ("elapsed", .str elapsed), ("preset", preset.toJson)])

/-- A limit as JSON. -/
def Limit.toJson : Limit → Json
  | .literal count => .choice "Literal" (.ofNat count.toNat)
  | .variable tag offset =>
      .choice "Runtime" (.obj [("variable", .str tag), ("offset", .ofNat offset.toNat)])

/-- A transition as JSON. -/
def Transition.toJson : Transition → Json
  | .jump target => .choice "Jump" (.ofNat target)
  | .loop start => .choice "Loop" (.obj [("start", .ofNat start)])
  | .count counter limit start otherwise => .choice "Repeat"
      (.obj [("counter", .str counter), ("bound", limit.toJson), ("start", .ofNat start),
        ("otherwise", otherwise.toJson)])

/-- A case as JSON. -/
def Case.toJson (value : Case) : Json :=
  .obj [("number", .ofNat value.number),
    ("guard", Json.ofOption (fun guard => .obj [("terms", .list .str guard.terms)]) value.guard),
    ("body", .list Instruction.toJson value.body),
    ("on_exit", .list Instruction.toJson value.onExit), ("next", value.next.toJson)]

/-- A declaration as JSON. -/
def Declaration.toJson (declaration : Declaration) : Json :=
  .obj [("physical", .str declaration.name), ("kind", .str declaration.kind.name),
    ("address", .str declaration.address)]

/-- A program as JSON. -/
def Program.toJson (program : Program) : Json :=
  .obj [("setup", .list Instruction.toJson program.setup),
    ("cases", .list Case.toJson program.cases),
    ("components", .list Instruction.toJson program.calls),
    ("tag_table", .list Declaration.toJson program.tags), ("configured", .bool program.configured)]

end Pneumatic
