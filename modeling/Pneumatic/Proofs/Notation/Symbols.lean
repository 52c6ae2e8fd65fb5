import Pneumatic.Notation.Token
import Pneumatic.Proofs.Text.Pieces

/-!
# The characters of tokens and bounds

Tokens and bounds are written with capital letters, digits, signs and points only.
Commas, brackets and carets are none of these, so they always separate.
-/

namespace Pneumatic

namespace Token

/-- A character that tokens and bounds are written with. -/
def isSymbol (c : Char) : Bool :=
  ('A' ≤ c && c ≤ 'Z') || c.isDigit || c == '+' || c == '-' || c == '.'

theorem isSymbol_of_isDigit {c : Char} (digit : c.isDigit = true) : isSymbol c = true := by
  simp [isSymbol, digit]

theorem isSymbol_of_isNumeral {text : List Char} (numeral : Text.isNumeral text = true) :
    ∀ c ∈ text, isSymbol c = true := by
  intro c membership
  simp only [Text.isNumeral, Bool.and_eq_true, List.all_eq_true] at numeral
  exact isSymbol_of_isDigit (numeral.2 c membership)

theorem isSymbol_of_isCount {text : List Char} (count : isCount text = true) :
    ∀ c ∈ text, isSymbol c = true := by
  cases text with
  | nil => simp [isCount] at count
  | cons first rest =>
      simp only [isCount, Bool.and_eq_true, List.all_eq_true] at count
      intro c membership
      rcases List.mem_cons.mp membership with rfl | later
      · exact isSymbol_of_isDigit count.1.1
      · exact isSymbol_of_isDigit (count.2 c later)

theorem isSymbol_of_isNumber {text : List Char} (number : isNumber text = true) :
    ∀ c ∈ text, isSymbol c = true := by
  intro c membership
  rw [Text.cut_eq '.' text] at membership
  unfold isNumber at number
  split at number
  · next whole cutEq =>
      rw [cutEq] at membership
      simp only [Option.map_none, Option.getD_none, List.append_nil] at membership
      exact isSymbol_of_isCount number c membership
  · next whole places cutEq =>
      rw [cutEq] at membership
      simp only [Option.map_some, Option.getD_some, List.mem_append, List.mem_cons] at membership
      simp only [Bool.and_eq_true, Bool.or_eq_true] at number
      rcases membership with inWhole | rfl | inPlaces
      · rcases number.1 with count | digit
        · exact isSymbol_of_isCount count c inWhole
        · exact isSymbol_of_isNumeral digit.2 c inWhole
      · rfl
      · exact isSymbol_of_isNumeral number.2 c inPlaces

theorem isSymbol_of_readActuation? {text : List Char} {found : Actuation}
    (reads : readActuation? text = some found) : ∀ c ∈ text, isSymbol c = true := by
  unfold readActuation? at reads
  split at reads
  · next label sign =>
      split at reads
      · next capital =>
          have labelSymbol : isSymbol label = true := by simp [isSymbol, capital]
          have signSymbol : isSymbol sign = true := by
            split at reads
            · next plus => subst plus; rfl
            · split at reads
              · next minus => subst minus; rfl
              · contradiction
          simp [labelSymbol, signSymbol]
      · contradiction
  · contradiction

theorem isSymbol_of_timerForm? {text : List Char} {form : TimerForm}
    (reads : timerForm? text = some form) : ∀ c ∈ text, isSymbol c = true := by
  simp only [timerForm?, Option.bind_eq_bind, Option.bind_eq_some_iff] at reads
  obtain ⟨body, tailEq, reads⟩ := reads
  rw [Text.dropTail?_eq_some_iff] at tailEq
  subst tailEq
  refine List.forall_mem_append.mpr ⟨?_, by simp [isSymbol]⟩
  split at reads
  · next bare => simp [bare, isSymbol]
  · split at reads
    · next number leadEq =>
        rw [Text.dropLead?_eq_some_iff] at leadEq
        subst leadEq
        split at reads
        · next isNumber =>
            exact List.forall_mem_append.mpr
              ⟨by simp [isSymbol], isSymbol_of_isNumber isNumber⟩
        · contradiction
    · split at reads
      · next isNumber => exact isSymbol_of_isNumber isNumber
      · contradiction

theorem isSymbol_of_readPressure? {text : List Char} {pressure : Pressure}
    (reads : readPressure? text = some pressure) : ∀ c ∈ text, isSymbol c = true := by
  simp only [readPressure?, Option.bind_eq_bind, Option.bind_eq_some_iff] at reads
  obtain ⟨number, tailEq, reads⟩ := reads
  rw [Text.dropTail?_eq_some_iff] at tailEq
  subst tailEq
  split at reads
  · next isNumber =>
      exact List.forall_mem_append.mpr
        ⟨isSymbol_of_isNumber isNumber, by simp [isSymbol]⟩
  · contradiction

/-- A token is written with symbols only. -/
theorem isSymbol_of_ofChars? {text : List Char} {token : Token}
    (reads : ofChars? text = some token) : ∀ c ∈ text, isSymbol c = true := by
  unfold ofChars? at reads
  split at reads
  · next actuation => exact isSymbol_of_readActuation? actuation
  · split at reads
    · next timer => exact isSymbol_of_timerForm? timer
    · obtain ⟨pressure, reads, -⟩ := Option.map_eq_some_iff.mp reads
      exact isSymbol_of_readPressure? reads

/-- No token has an empty text. -/
theorem ne_nil_of_ofChars? {text : List Char} {token : Token}
    (reads : ofChars? text = some token) : text ≠ [] := by
  rintro rfl
  simp [ofChars?, readActuation?, timerForm?, readPressure?, Text.dropTail?, Text.dropLead?]
    at reads

end Token

namespace Bound

theorem isSymbol_of_readCount? {text : List Char} {count : UInt32}
    (reads : readCount? text = some count) : ∀ c ∈ text, Token.isSymbol c = true := by
  unfold readCount? at reads
  split at reads
  · next bounded =>
      simp only [Bool.and_eq_true] at bounded
      exact Token.isSymbol_of_isCount bounded.1
  · contradiction

/-- A bound is written with symbols only. -/
theorem isSymbol_of_ofChars? {text : List Char} {bound : Bound}
    (reads : ofChars? text = some bound) : ∀ c ∈ text, Token.isSymbol c = true := by
  unfold ofChars? at reads
  split at reads
  · simp [Token.isSymbol]
  · next text _ =>
      obtain ⟨count, reads, -⟩ := Option.map_eq_some_iff.mp reads
      have symbols := isSymbol_of_readCount? reads
      simp only [List.mem_cons, forall_eq_or_imp]
      exact ⟨rfl, rfl, symbols⟩
  · obtain ⟨count, reads, -⟩ := Option.map_eq_some_iff.mp reads
    exact isSymbol_of_readCount? reads

/-- A bound that is written down has an end. -/
theorem ne_unbounded_of_ofChars? {text : List Char} {bound : Bound}
    (reads : ofChars? text = some bound) : bound ≠ .unbounded := by
  unfold ofChars? at reads
  split at reads
  · simp only [Option.some.injEq] at reads
    simp [← reads]
  all_goals
    obtain ⟨count, -, rfl⟩ := Option.map_eq_some_iff.mp reads
    simp

end Bound

end Pneumatic
