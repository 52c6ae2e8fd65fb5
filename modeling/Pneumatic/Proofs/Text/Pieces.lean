import Pneumatic.Text.Pieces

/-!
# Pieces of a text

Where a text is cut at every separator.  A text without one is a single piece, and a
separator behind such a text begins the next piece.  An ending is taken off exactly the
texts that have it.
-/

namespace Pneumatic.Text

variable {separator : Char} {text : List Char}

/-- A text without a separator lengthens the first piece of what follows it. -/
theorem pieces_append (absent : separator ∉ text) (rest : List Char) :
    pieces separator (text ++ rest) =
      (text ++ (pieces separator rest).head (pieces_ne_nil separator rest)) ::
        (pieces separator rest).tail := by
  induction text with
  | nil => simp
  | cons c text ih =>
      rw [List.mem_cons, not_or] at absent
      rw [List.cons_append, pieces, ih absent.2]
      simp [beq_false_of_ne (Ne.symm absent.1)]

theorem pieces_of_not_mem (absent : separator ∉ text) : pieces separator text = [text] := by
  have behind := pieces_append absent []
  simpa [pieces] using behind

theorem pieces_append_cons (absent : separator ∉ text) (rest : List Char) :
    pieces separator (text ++ separator :: rest) = text :: pieces separator rest := by
  obtain ⟨piece, more, piecesEq⟩ := List.exists_cons_of_ne_nil (pieces_ne_nil separator rest)
  have behind := pieces_append absent (separator :: rest)
  simpa [pieces, piecesEq] using behind

/-- What is left of a text has the ending behind it in the text. -/
theorem dropTail?_eq_some_iff {tail text rest : List Char} :
    dropTail? tail text = some rest ↔ text = rest ++ tail := by
  simp only [dropTail?, Option.map_eq_some_iff, dropLead?_eq_some_iff]
  constructor
  · rintro ⟨reversed, textEq, rfl⟩
    rw [← List.reverse_reverse text, textEq, List.reverse_append, List.reverse_reverse]
  · rintro rfl
    exact ⟨rest.reverse, by simp, by simp⟩

end Pneumatic.Text
