import Pneumatic.Text.Pieces

/-!
# Searching text

Finding a pattern from the left or from the right, and replacing it.  Occurrences
are taken from the left and do not overlap.
-/

namespace Pneumatic.Text

/-- The text before and after the first occurrence of a pattern. -/
def splitFirst? (pattern : List Char) : List Char → Option (List Char × List Char)
  | [] => (dropLead? pattern []).map ([], ·)
  | c :: rest =>
      match dropLead? pattern (c :: rest) with
      | some after => some ([], after)
      | none => (splitFirst? pattern rest).map fun (before, after) => (c :: before, after)

/-- The text before and after the last occurrence of a pattern. -/
def splitLast? (pattern text : List Char) : Option (List Char × List Char) :=
  (splitFirst? pattern.reverse text.reverse).map fun (after, before) =>
    (before.reverse, after.reverse)

/-- Whether a pattern occurs in a text. -/
def occursIn (pattern text : List Char) : Bool :=
  (splitFirst? pattern text).isSome

/-- Replace every occurrence of a pattern, skipping `skip` characters first. -/
def replaceFrom (pattern replacement : List Char) (skip : Nat) : List Char → List Char
  | [] => []
  | c :: rest =>
      match skip with
      | skip + 1 => replaceFrom pattern replacement skip rest
      | 0 =>
          match dropLead? pattern (c :: rest) with
          | some _ => replacement ++ replaceFrom pattern replacement (pattern.length - 1) rest
          | none => c :: replaceFrom pattern replacement 0 rest

/-- Replace every occurrence of a pattern that is not empty. -/
def replaceAll (pattern replacement text : List Char) : List Char :=
  replaceFrom pattern replacement 0 text

end Pneumatic.Text
