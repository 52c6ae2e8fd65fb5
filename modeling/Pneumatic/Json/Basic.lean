import Pneumatic.Decimal.Binary64

/-!
# JSON values

The value of a JSON document: members keep their order and their repetitions, and
a whole number is told apart from one with a fraction or an exponent.  Rules about
repeated or unknown members belong to the reader of a record, not to the value.
-/

namespace Pneumatic

/-- A JSON value. -/
inductive Json where
  | null
  | bool (value : Bool)
  /-- A whole number between `-2^63` and `2^64 - 1`. -/
  | int (value : Int)
  /-- Any other number, by its sign and its magnitude in double precision. -/
  | real (negative : Bool) (magnitude : Binary64)
  | str (text : String)
  | arr (items : List Json)
  | obj (members : List (String × Json))
  /-- Well-formed text that names no value: a string with half of a surrogate
  pair, or a number beyond the range of a double. -/
  | unreadable
  deriving Inhabited, Repr, BEq

namespace Json

/-- The largest number of arrays and objects that may enclose one another in a
value that is read as a whole. -/
def nestingLimit : Nat := 127

mutual

/-- Whether a value nests at most `limit` deep and every part of it is readable. -/
def readable (limit : Nat) : Json → Bool
  | .unreadable => false
  | .arr items => match limit with
      | 0 => false
      | limit + 1 => readableItems limit items
  | .obj members => match limit with
      | 0 => false
      | limit + 1 => readableMembers limit members
  | _ => true

/-- Whether every item of an array is readable. -/
def readableItems (limit : Nat) : List Json → Bool
  | [] => true
  | item :: rest => item.readable limit && readableItems limit rest

/-- Whether every member of an object is readable. -/
def readableMembers (limit : Nat) : List (String × Json) → Bool
  | [] => true
  | (_, item) :: rest => item.readable limit && readableMembers limit rest

end

/-- The value of a member; of repeated members the last counts. -/
def get? (json : Json) (name : String) : Option Json :=
  match json with
  | .obj members => (members.reverse.find? (·.1 == name)).map (·.2)
  | _ => none

/-- The text of a string. -/
def text? : Json → Option String
  | .str text => some text
  | _ => none

/-- The value of a truth value. -/
def bool? : Json → Option Bool
  | .bool value => some value
  | _ => none

/-- The value of a whole number. -/
def int? : Json → Option Int
  | .int value => some value
  | _ => none

/-- The value of a whole number that is not negative. -/
def nat? : Json → Option Nat
  | .int (.ofNat value) => some value
  | _ => none

/-- A whole number below `bound`. -/
def natBelow? (bound : Nat) (json : Json) : Option Nat :=
  json.nat?.filter (· < bound)

/-- The items of an array. -/
def items? : Json → Option (List Json)
  | .arr items => some items
  | _ => none

/-- Read every item of an array. -/
def listOf? {α : Type} (item : Json → Option α) (json : Json) : Option (List α) :=
  json.items?.bind fun items => items.mapM item

/-- Read a value that may be null. -/
def optional? {α : Type} (item : Json → Option α) : Json → Option (Option α)
  | .null => some none
  | json => (item json).map some

/-- A whole number as a value. -/
def ofNat (value : Nat) : Json :=
  .int (Int.ofNat value)

/-- A value, or null for none. -/
def ofOption {α : Type} (item : α → Json) : Option α → Json
  | none => .null
  | some value => item value

/-- A list as JSON. -/
def list {α : Type} (item : α → Json) (items : List α) : Json :=
  .arr (items.map item)

/-- A choice with a value, under its name. -/
def choice (name : String) (value : Json) : Json :=
  .obj [(name, value)]

/-- A choice with a value, by type and value. -/
def typed (name : String) (value : Json) : Json :=
  .obj [("type", .str name), ("value", value)]

end Json

end Pneumatic
