import Pneumatic.Json.Reader
import Pneumatic.Json.Record
import Pneumatic.Tag.Project

/-!
# Project documents

A project as JSON.  A component says by its `type` what it is; the retraction tag
of an actuator may be missing or null, and is left out when there is none.
-/

namespace Pneumatic.Project

namespace Wiring

/-- The name of a wiring in a document. -/
def name : Wiring → String
  | .doubleActing => "doubleActing"
  | .singleActingDoubleTag => "singleActingDoubleTag"
  | .singleActingSingleTag => "singleActingSingleTag"

/-- The wiring with a name. -/
def ofName? (name : String) : Option Wiring :=
  [doubleActing, singleActingDoubleTag, singleActingSingleTag].find? (·.name == name)

/-- The wiring that a document names: by a string, or by an object with that one
member and an empty value. -/
def ofJson? : Json → Option Wiring
  | .str name => ofName? name
  | .obj [(name, .null)] | .obj [(name, .obj [])] => ofName? name
  | _ => none

end Wiring

namespace Actuator

/-- Read an actuator. -/
def ofJson? (json : Json) : Option Actuator := do
  let fields ← json.fields? ["label", "kind", "extension_tag", "retraction_tag",
    "extended_sensor_tag", "retracted_sensor_tag"]
  some
    { label := ← fields.required "label" Json.text?
      wiring := ← fields.required "kind" Wiring.ofJson?
      extension := ← fields.required "extension_tag" Json.text?
      retraction := ← fields.withDefault "retraction_tag" none (Json.optional? Json.text?)
      extended := ← fields.required "extended_sensor_tag" Json.text?
      retracted := ← fields.required "retracted_sensor_tag" Json.text? }

/-- The fields of an actuator. -/
def fields (entry : Actuator) : List (String × Json) :=
  [("label", .str entry.label), ("kind", .str entry.wiring.name),
    ("extension_tag", .str entry.extension)] ++
    (entry.retraction.map fun tag => ("retraction_tag", Json.str tag)).toList ++
    [("extended_sensor_tag", .str entry.extended), ("retracted_sensor_tag", .str entry.retracted)]

end Actuator

namespace Timer

/-- Read a timer. -/
def ofJson? (json : Json) : Option Timer := do
  let fields ← json.fields? ["label", "power_tag", "completed_tag", "elapsed_time_tag"]
  some
    { label := ← fields.required "label" Json.text?
      power := ← fields.required "power_tag" Json.text?
      completed := ← fields.required "completed_tag" Json.text?
      elapsed := ← fields.required "elapsed_time_tag" Json.text? }

/-- The fields of a timer. -/
def fields (entry : Timer) : List (String × Json) :=
  [("label", .str entry.label), ("power_tag", .str entry.power),
    ("completed_tag", .str entry.completed), ("elapsed_time_tag", .str entry.elapsed)]

end Timer

namespace Counter

/-- Read a counter. -/
def ofJson? (json : Json) : Option Counter := do
  let fields ← json.fields? ["label", "counter_var"]
  some
    { label := ← fields.required "label" Json.text?
      value := ← fields.required "counter_var" Json.text? }

/-- The fields of a counter. -/
def fields (entry : Counter) : List (String × Json) :=
  [("label", .str entry.label), ("counter_var", .str entry.value)]

end Counter

namespace Entry

/-- The nesting left to a component inside the list of a document. -/
def nestingLimit : Nat := Json.nestingLimit - 2

/-- Read a component. -/
def ofJson? (json : Json) : Option Entry := do
  let (kind, json) ← json.tagged? "type" nestingLimit
  match kind with
  | "actuator" => (Actuator.ofJson? json).map .actuator
  | "timer" => (Timer.ofJson? json).map .timer
  | "counter" => (Counter.ofJson? json).map .counter
  | _ => none

/-- A component as JSON. -/
def toJson : Entry → Json
  | .actuator entry => .obj (("type", .str "actuator") :: entry.fields)
  | .timer entry => .obj (("type", .str "timer") :: entry.fields)
  | .counter entry => .obj (("type", .str "counter") :: entry.fields)

end Entry

/-- Read a project.  A missing name is empty and missing components are none. -/
def ofJson? (json : Json) : Option Project := do
  let fields ← json.fields? ["name", "components"]
  some
    { name := ← fields.withDefault "name" "" Json.text?
      components := ← fields.withDefault "components" [] (Json.listOf? Entry.ofJson?) }

/-- Read a project from the text of a document. -/
def read? (text : String) : Option Project :=
  (Json.read? text).bind ofJson?

/-- A project as JSON. -/
def toJson (project : Project) : Json :=
  .obj [("name", .str project.name), ("components", .arr (project.components.map Entry.toJson))]

end Pneumatic.Project
