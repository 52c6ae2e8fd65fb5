import Pneumatic.Notation.Document
import Pneumatic.Tag.Role

/-!
# Signals as JSON

For programs that look into the signals of a component.
-/

namespace Pneumatic.Tag

/-- A binding as JSON. -/
def Binding.toJson (binding : Binding) : Json :=
  .obj [("role", .str binding.role.name), ("owner", .str binding.owner),
    ("physical", .str binding.name)]

namespace Actuator

/-- The signals of an actuator as JSON. -/
def toJson (tags : Actuator) : Json :=
  .obj [("extend", .str tags.extend), ("retract", Json.ofOption .str tags.retract),
    ("extended", .str tags.extended), ("retracted", .str tags.retracted)]

/-- Read the signals of an actuator. -/
def ofJson? (json : Json) : Option Actuator := do
  let text? := fun name => (json.get? name).bind Json.text?
  some ⟨← text? "extend", text? "retract", ← text? "extended", ← text? "retracted"⟩

/-- The coil assignments for a direction as JSON. -/
def commandJson (tags : Actuator) (direction : Direction) : Json :=
  .list (fun (tag, value) => .arr [.str tag, .bool value]) (tags.command direction)

end Actuator

/-- The signals of a timer as JSON. -/
def Timer.toJson (tags : Timer) : Json :=
  .obj [("label", .str tags.label), ("power", .str tags.power), ("done", .str tags.done),
    ("elapsed", .str tags.elapsed)]

end Pneumatic.Tag
