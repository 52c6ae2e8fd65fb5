import Pneumatic.Json.Basic

/-!
# Reading records

A record is written as an object, or as an array of its fields in order.  Members
that the record does not know are skipped, a member that it knows may stand only
once, and an array holds no more items than the record has fields.  Whether a
missing field is an error is for each field to say.
-/

namespace Pneumatic.Json

/-- The fields of a record that a document gives, by name, and whether it gives them
as an array. -/
structure Fields where
  given : List (String × Json)
  listed : Bool

/-- The fields named `names` of a record. -/
def fields? (names : List String) : Json → Option Fields
  | .obj members =>
      let known := members.filter fun member => names.contains member.1
      if (known.map (·.1)).Nodup then some ⟨known, false⟩ else none
  | .arr items => if items.length ≤ names.length then some ⟨names.zip items, true⟩ else none
  | _ => none

namespace Fields

/-- A field that has to be there. -/
def required {α : Type} (fields : Fields) (name : String) (read : Json → Option α) :
    Option α :=
  (fields.given.lookup name).bind read

/-- A field with a default, which stands for a missing field only. -/
def withDefault {α : Type} (fields : Fields) (name : String) (default : α)
    (read : Json → Option α) : Option α :=
  match fields.given.lookup name with
  | none => some default
  | some value => read value

/-- A field that may be null, or missing from an object. -/
def optional {α : Type} (fields : Fields) (name : String) (read : Json → Option α) :
    Option (Option α) :=
  match fields.given.lookup name with
  | none => if fields.listed then none else some none
  | some value => value.optional? read

end Fields

/-- The tag of a record that says by its member `tag`, or by its first item, what
it is, and the record without the tag.  Such a record is read as a whole before
the tag is known, so `limit` bounds its nesting and all of it has to be
readable. -/
def tagged? (tag : String) (limit : Nat) (json : Json) : Option (String × Json) :=
  if !json.readable limit then none
  else match json with
  | .obj members =>
      match members.partition fun member => member.1 == tag with
      | ([(_, .str name)], rest) => some (name, .obj rest)
      | _ => none
  | .arr (.str name :: rest) => some (name, .arr rest)
  | _ => none

/-- The name of a plain choice: a string, or an object whose only member has that
name and null for its value. -/
def choice? : Json → Option String
  | .str name => some name
  | .obj [(name, .null)] => some name
  | _ => none

/-- A choice with a value: an object whose only member has the name of the choice. -/
def variant? : Json → Option (String × Json)
  | .obj [member] => some member
  | _ => none

end Pneumatic.Json
