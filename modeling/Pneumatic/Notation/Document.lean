import Pneumatic.Json.Basic
import Pneumatic.Notation.Inventory

/-!
# Parts of a sequence as JSON

For programs that look into a sequence.  A sum is an object with its `type` and its
`value`, or with the name of the choice as its only member; spans and pressures are
written as decimal text.
-/

namespace Pneumatic

/-- A span as JSON: seconds with nine places. -/
def Duration.toJson (span : Duration) : Json :=
  .str (String.ofList span.exactText)

/-- A direction as JSON. -/
def Direction.toJson : Direction → Json
  | .extend => .str "Extend"
  | .retract => .str "Retract"

/-- An actuation as JSON. -/
def Actuation.toJson (actuation : Actuation) : Json :=
  .obj [("label", .str (String.singleton actuation.label)),
    ("direction", actuation.direction.toJson)]

/-- A delay as JSON. -/
def Delay.toJson : Delay → Json
  | .fixed span => .choice "Fixed" span.toJson
  | .relative offset =>
      .choice "RuntimeRelative" (.obj [("offset", Json.ofOption Duration.toJson offset)])

/-- A token as JSON. -/
def Token.toJson : Token → Json
  | .actuation motion => .typed "Actuation" motion.toJson
  | .timer delay => .typed "Timer" delay.toJson
  | .pressure level => .typed "Pressure" (.obj [("bars", .str (String.ofList level.bars.text))])

/-- A step as JSON. -/
def Step.toJson : Step → Json
  | .single token => .typed "Single" token.toJson
  | .group tokens => .typed "Group" (.list Token.toJson tokens)

/-- A bound as JSON. -/
def Bound.toJson : Bound → Json
  | .fixed count => .choice "Fixed" (.ofNat count.toNat)
  | .relative offset => .choice "RelativeToRuntimeVar" (.ofNat offset.toNat)
  | .unbounded => .str "Unbounded"

mutual

/-- A node as JSON. -/
def Node.toJson : Node → Json
  | .step content => .typed "Step" content.toJson
  | .region bound body =>
      .typed "Repeat" (.obj [("bound", bound.toJson), ("body", .arr (Node.listToJson body))])

/-- Nodes as JSON. -/
def Node.listToJson : List Node → List Json
  | [] => []
  | node :: rest => node.toJson :: Node.listToJson rest

end

/-- A region as JSON. -/
def Region.toJson (region : Region) : Json :=
  .obj [("start", .ofNat region.first), ("end", .ofNat region.last),
    ("bound", region.bound.toJson), ("depth", .ofNat region.depth)]

/-- A sort of brackets as JSON. -/
def Bracket.toJson : Bracket → Json
  | .round => .str "Paren"
  | .square => .str "Square"

/-- A fragment as JSON. -/
def Fragment.toJson (fragment : Fragment) : Json :=
  .obj [("index", .ofNat fragment.index), ("text", .str fragment.text),
    ("opens", .list Bracket.toJson fragment.opens), ("core", .str fragment.core),
    ("closes", .list (fun close => .obj [("kind", close.kind.toJson),
      ("spec", Json.ofOption .str close.spec)]) fragment.closes),
    ("trailing", .str fragment.trailing)]

/-- The name of a sort of component. -/
def ComponentKind.name : ComponentKind → String
  | .actuator => "Actuator"
  | .timer => "Timer"
  | .counter => "Counter"
  | .pressure => "Pressure"

/-- A sort of component as JSON. -/
def ComponentKind.toJson : ComponentKind → Json
  | .actuator => .str "actuator"
  | .timer => .str "timer"
  | .counter => .str "counter"
  | .pressure => .str "pressure"

namespace ComponentId

/-- A component as JSON. -/
def toJson (id : ComponentId) : Json :=
  .obj [("type", .str id.kind.name), ("id", match id with
    | .actuator label => .str (String.singleton label)
    | .timer number | .counter number | .pressure number => .ofNat number)]

/-- Read a component. -/
def ofJson? (json : Json) : Option ComponentId := do
  let id ← json.get? "id"
  match ← (json.get? "type").bind Json.text? with
  | "Actuator" => (id.text?.bind fun label => label.toList.head?).map .actuator
  | "Timer" => id.nat?.map .timer
  | "Counter" => id.nat?.map .counter
  | "Pressure" => id.nat?.map .pressure
  | _ => none

end ComponentId

/-- A component of an inventory as JSON. -/
def Component.toJson (component : Component) : Json :=
  .obj [("id", component.id.toJson), ("kind", component.id.kind.toJson),
    ("first_step", .ofNat component.firstStep)]

end Pneumatic
