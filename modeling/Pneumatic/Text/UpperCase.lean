import Pneumatic.Text.UpperCaseTable

/-!
# Upper case

The full, locale-free upper-case mapping of Unicode: a character becomes one or
more characters (`ß` becomes `SS`), and a character without a mapping stays.
-/

namespace Pneumatic.Text

namespace UpperCase

/-- Whether a code point belongs to a run. -/
def Run.covers (run : Run) (code : Nat) : Bool :=
  run.first ≤ code && code ≤ run.last && (code - run.first) % run.stride == 0

/-- The image of a code point that a run covers. -/
def Run.imageOf (run : Run) (code : Nat) : Nat :=
  run.image + (code - run.first)

end UpperCase

open UpperCase in
/-- The upper-case form of a character. -/
def upperCase (c : Char) : List Char :=
  match expansions.lookup c.toNat with
  | some codes => codes.map Char.ofNat
  | none =>
      match runs.find? (·.covers c.toNat) with
      | some run => [Char.ofNat (run.imageOf c.toNat)]
      | none => [c]

end Pneumatic.Text
