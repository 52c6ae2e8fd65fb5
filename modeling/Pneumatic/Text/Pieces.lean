/-!
# Cutting text

Cutting at the first separator, cutting at every separator, and taking a fixed
beginning or ending off.  No cut loses a character: the pieces and the
separators between them give the text back.
-/

namespace Pneumatic.Text

/-- The text before the first `separator` and, if there is one, the text after it. -/
def cut (separator : Char) : List Char → List Char × Option (List Char)
  | [] => ([], none)
  | c :: rest =>
      if c == separator then ([], some rest)
      else
        let (before, after) := cut separator rest
        (c :: before, after)

/-- Cutting keeps the text: before the separator, the separator, and after it. -/
theorem cut_eq (separator : Char) (text : List Char) :
    text = (cut separator text).1 ++ ((cut separator text).2.map (separator :: ·)).getD [] := by
  induction text with
  | nil => rfl
  | cons c rest ih =>
      by_cases same : c = separator
      · simp [cut, same]
      · simp [cut, same, ← ih]

/-- The pieces of a text between its separators; an empty text is one empty piece. -/
def pieces (separator : Char) : List Char → List (List Char)
  | [] => [[]]
  | c :: rest =>
      match pieces separator rest with
      | [] => [[c]]
      | piece :: more => if c == separator then [] :: piece :: more else (c :: piece) :: more

/-- There is always a piece. -/
theorem pieces_ne_nil (separator : Char) (text : List Char) : pieces separator text ≠ [] := by
  cases text with
  | nil => simp [pieces]
  | cons c rest =>
      simp only [pieces]
      split
      · simp
      · split <;> simp

/-- The pieces with the separators between them give the text back. -/
theorem intercalate_pieces (separator : Char) (text : List Char) :
    [separator].intercalate (pieces separator text) = text := by
  induction text with
  | nil => rfl
  | cons c rest ih =>
      simp only [pieces]
      split
      · next empty => exact absurd empty (pieces_ne_nil separator rest)
      · next piece more eq =>
          rw [eq] at ih
          by_cases same : c = separator
          · subst same
            simp [List.intercalate, ← ih]
          · simp only [beq_false_of_ne same, Bool.false_eq_true, ↓reduceIte]
            cases more <;> simp_all [List.intercalate]

/-- Take a beginning off a text. -/
def dropLead? : List Char → List Char → Option (List Char)
  | [], text => some text
  | _ :: _, [] => none
  | c :: lead, d :: text => if c == d then dropLead? lead text else none

/-- What is left of a text has the beginning in front of it in the text. -/
theorem dropLead?_eq_some_iff {lead text rest : List Char} :
    dropLead? lead text = some rest ↔ text = lead ++ rest := by
  induction lead generalizing text with
  | nil => simp [dropLead?, eq_comm]
  | cons c lead ih =>
      cases text with
      | nil => simp [dropLead?]
      | cons d text =>
          by_cases same : c = d
          · simp [dropLead?, same, ih]
          · simp [dropLead?, same, Ne.symm same]

/-- Take an ending off a text. -/
def dropTail? (tail text : List Char) : Option (List Char) :=
  (dropLead? tail.reverse text.reverse).map List.reverse

end Pneumatic.Text
