import Pneumatic.Proofs.Notation.Numbers
import Pneumatic.Proofs.Notation.Symbols

/-!
# The texts of tokens and bounds

A token is read exactly from its own texts: a capital letter and a sign, `TS`, a number and `S`
with or without `T+` in front, or a number and `BAR`.  A bound is a count, `N`, or `N+` and a
count.  An actuation or a timer has one text that is canonical, and it reads back unless the
timer's number is worth no nanoseconds.
-/

namespace Pneumatic

open Text (digit spell numeral)

/-- The texts of a token. -/
inductive Token.Written : Token → List Char → Prop where
  | actuation {label : Char} (capital : 'A' ≤ label ∧ label ≤ 'Z') (direction : Direction) :
      Written (.actuation ⟨label, direction⟩) [label, direction.symbol]
  | variable : Written (.timer (.relative none)) ['T', 'S']
  | literal (number : Number) (short : number.value < 2 ^ 64) :
      Written (.timer (.fixed (number.span short))) (number.chars ++ ['S'])
  | offset (number : Number) (short : number.value < 2 ^ 64) :
      Written (.timer (.relative (some (number.span short)))) (['T', '+'] ++ number.chars ++ ['S'])
  | pressure (number : Number) :
      Written
        (.pressure ⟨.ofDecimal (numeral (number.whole ++ number.places)) number.places.length⟩)
        (number.chars ++ ['B', 'A', 'R'])

/-- The texts of a bound behind a caret. -/
inductive Bound.Written : Bound → List Char → Prop where
  | count (first : Fin 10) (more : List (Fin 10)) (leading : first ≠ 0)
      (small : numeral (first :: more) < 2 ^ 32) :
      Written (.fixed (.ofNatLT (numeral (first :: more)) small)) (spell (first :: more))
  | variable : Written (.relative 0) ['N']
  | offset (first : Fin 10) (more : List (Fin 10)) (leading : first ≠ 0)
      (small : numeral (first :: more) < 2 ^ 32) :
      Written (.relative (.ofNatLT (numeral (first :: more)) small))
        (['N', '+'] ++ spell (first :: more))

namespace Token

/-! ## Reading tokens -/

theorem readActuation?_eq_some_iff {text : List Char} {found : Actuation} :
    readActuation? text = some found ↔
      ('A' ≤ found.label ∧ found.label ≤ 'Z') ∧ text = [found.label, found.direction.symbol] := by
  constructor
  · intro reads
    unfold readActuation? at reads
    split at reads
    · next label sign =>
        split at reads
        · next capital =>
            split at reads
            · next plus =>
                cases reads
                exact ⟨capital, by rw [plus]; rfl⟩
            · split at reads
              · next minus =>
                  cases reads
                  exact ⟨capital, by rw [minus]; rfl⟩
              · contradiction
        · contradiction
    · contradiction
  · rintro ⟨capital, rfl⟩
    obtain ⟨label, direction⟩ := found
    cases direction <;> simp [readActuation?, capital, Direction.symbol]

/-- The characters of a timer before its unit. -/
def TimerForm.chars : TimerForm → List Char
  | .variable => ['T']
  | .offset number => ['T', '+'] ++ number
  | .literal number => number

/-- What stands for a number in a form is one. -/
def TimerForm.Numbered : TimerForm → Prop
  | .variable => True
  | .offset number | .literal number => isNumber number = true

theorem timerForm?_eq_some_iff {text : List Char} {form : TimerForm} :
    timerForm? text = some form ↔ form.Numbered ∧ text = form.chars ++ ['S'] := by
  simp only [timerForm?, Option.bind_eq_bind, Option.bind_eq_some_iff, Text.dropTail?_eq_some_iff]
  constructor
  · rintro ⟨body, rfl, reads⟩
    split at reads
    · next bare =>
        cases reads
        exact ⟨trivial, by rw [bare]; rfl⟩
    · split at reads
      · next number leads =>
          rw [Text.dropLead?_eq_some_iff] at leads
          split at reads
          · next isNumber =>
              cases reads
              exact ⟨isNumber, by rw [leads]; rfl⟩
          · contradiction
      · split at reads
        · next isNumber =>
            cases reads
            exact ⟨isNumber, rfl⟩
        · contradiction
  · rintro ⟨numbered, rfl⟩
    refine ⟨form.chars, rfl, ?_⟩
    cases form with
    | «variable» => rfl
    | offset number =>
        have leads : Text.dropLead? ['T', '+'] (['T', '+'] ++ number) = some number :=
          Text.dropLead?_eq_some_iff.mpr rfl
        have isNumber : isNumber number = true := numbered
        simp [TimerForm.chars, Text.dropLead?, isNumber]
    | literal number =>
        have isNumber : isNumber number = true := numbered
        obtain ⟨value, rfl⟩ := Number.isNumber_iff.mp isNumber
        obtain ⟨first, rest, charsEq⟩ := value.exists_chars_eq_cons
        have notVariable : digit first ≠ 'T' := by
          rw [digit]
          exact Nat.digitChar_ne 'T' (by decide)
        simp only [TimerForm.chars]
        rw [charsEq] at isNumber ⊢
        simp [Text.dropLead?, Ne.symm notVariable, notVariable, isNumber]

theorem readPressure?_eq_some_iff {text : List Char} {found : Pressure} :
    readPressure? text = some found ↔ Written (.pressure found) text := by
  simp only [readPressure?, Option.bind_eq_bind, Option.bind_eq_some_iff,
    Text.dropTail?_eq_some_iff]
  have digits (number : Number) : Text.ofDigits (spell number.whole ++ spell number.places) =
      numeral (number.whole ++ number.places) := by
    rw [spell, spell, ← List.map_append, ← spell, Text.ofDigits_spell]
  constructor
  · rintro ⟨body, rfl, reads⟩
    split at reads
    · next isNumber =>
        obtain ⟨number, rfl⟩ := Number.isNumber_iff.mp isNumber
        simp only [Number.fst_cut_chars, Number.getD_cut_chars, digits, Text.length_spell,
          Option.some.injEq] at reads
        rw [← reads]
        exact .pressure number
    · contradiction
  · intro written
    cases written with
    | pressure number =>
        have isNumber := Number.isNumber_iff.mpr ⟨number, rfl⟩
        refine ⟨number.chars, rfl, ?_⟩
        simp only [isNumber, ↓reduceIte, Number.fst_cut_chars, Number.getD_cut_chars, digits,
          Text.length_spell]

/-- The last character tells an actuation from a timer and a pressure. -/
theorem readActuation?_append_eq_none {body : List Char} {last : Char} (other : last ≠ '+')
    (other' : last ≠ '-') : readActuation? (body ++ [last]) = none := by
  rw [Option.eq_none_iff_forall_ne_some]
  intro found reads
  obtain ⟨-, textEq⟩ := readActuation?_eq_some_iff.mp reads
  have same : last = found.direction.symbol := by
    simpa using congrArg List.getLast? textEq
  cases direction : found.direction <;> simp_all [Direction.symbol]

/-- The last character tells a pressure from a timer. -/
theorem timerForm?_append_eq_none {body : List Char} {last : Char} (other : last ≠ 'S') :
    timerForm? (body ++ [last]) = none := by
  rw [Option.eq_none_iff_forall_ne_some]
  intro form reads
  obtain ⟨-, textEq⟩ := timerForm?_eq_some_iff.mp reads
  have same : last = 'S' := by simpa using congrArg List.getLast? textEq
  exact other same

/-- A timer is read as the delay of its form, whatever else it could have been. -/
theorem ofChars?_timer (form : TimerForm) (numbered : form.Numbered) :
    ofChars? (form.chars ++ ['S']) = form.delay?.map .timer := by
  have noActuation : readActuation? (form.chars ++ ['S']) = none :=
    readActuation?_append_eq_none (by decide) (by decide)
  rw [ofChars?, noActuation, timerForm?_eq_some_iff.mpr ⟨numbered, rfl⟩]

theorem ofChars?_eq_some_iff {text : List Char} {token : Token} :
    ofChars? text = some token ↔ Written token text := by
  constructor
  · intro reads
    unfold ofChars? at reads
    split at reads
    · next found actuation =>
        cases reads
        obtain ⟨capital, rfl⟩ := readActuation?_eq_some_iff.mp actuation
        exact .actuation capital found.direction
    · split at reads
      · next form timer =>
          obtain ⟨numbered, rfl⟩ := timerForm?_eq_some_iff.mp timer
          obtain ⟨delay, delays, rfl⟩ := Option.map_eq_some_iff.mp reads
          cases form with
          | «variable» =>
              cases delays
              exact .variable
          | offset text =>
              obtain ⟨number, rfl⟩ := Number.isNumber_iff.mp numbered
              simp only [TimerForm.delay?, Number.read?_chars, Option.map_eq_some_iff,
                Option.dite_none_right_eq_some] at delays
              obtain ⟨-, ⟨short, ⟨⟩⟩, rfl⟩ := delays
              exact .offset number short
          | literal text =>
              obtain ⟨number, rfl⟩ := Number.isNumber_iff.mp numbered
              simp only [TimerForm.delay?, Number.read?_chars, Option.map_eq_some_iff,
                Option.dite_none_right_eq_some] at delays
              obtain ⟨-, ⟨short, ⟨⟩⟩, rfl⟩ := delays
              exact .literal number short
      · obtain ⟨pressure, pressureReads, rfl⟩ := Option.map_eq_some_iff.mp reads
        exact readPressure?_eq_some_iff.mp pressureReads
  · intro written
    have isNumber (number : Number) : isNumber number.chars = true :=
      Number.isNumber_iff.mpr ⟨number, rfl⟩
    cases written with
    | @actuation label capital direction =>
        have reads : readActuation? [label, direction.symbol] = some ⟨label, direction⟩ :=
          readActuation?_eq_some_iff.mpr ⟨capital, rfl⟩
        rw [ofChars?, reads]
    | «variable» => exact ofChars?_timer .variable trivial
    | literal number short =>
        have reads := ofChars?_timer (.literal number.chars) (isNumber number)
        rwa [TimerForm.delay?, Number.read?_chars, dif_pos short] at reads
    | offset number short =>
        have reads := ofChars?_timer (.offset number.chars) (isNumber number)
        rwa [TimerForm.delay?, Number.read?_chars, dif_pos short] at reads
    | pressure number =>
        have reads := readPressure?_eq_some_iff.mpr (.pressure number)
        have lastEq : number.chars ++ ['B', 'A', 'R'] = (number.chars ++ ['B', 'A']) ++ ['R'] := by
          simp
        rw [lastEq] at reads ⊢
        rw [ofChars?, readActuation?_append_eq_none (by decide) (by decide),
          timerForm?_append_eq_none (by decide), reads]
        rfl

end Token

namespace Bound

theorem readCount?_eq_some_iff {text : List Char} {count : UInt32} :
    readCount? text = some count ↔ ∃ first more, first ≠ 0 ∧ spell (first :: more) = text ∧
      ∃ small : numeral (first :: more) < 2 ^ 32, .ofNatLT _ small = count := by
  constructor
  · intro reads
    unfold readCount? at reads
    split at reads
    · next holds =>
        simp only [Bool.and_eq_true, decide_eq_true_eq] at holds
        obtain ⟨first, more, leading, rfl⟩ := Number.isCount_iff.mp holds.1
        rw [Text.ofDigits_spell] at holds reads
        refine ⟨first, more, leading, rfl, holds.2, ?_⟩
        rw [UInt32.ofNatLT_eq_ofNat]
        exact Option.some.inj reads
    · contradiction
  · rintro ⟨first, more, leading, rfl, small, rfl⟩
    have isCount := Number.isCount_iff.mpr ⟨first, more, leading, rfl⟩
    have below : numeral (first :: more) < UInt32.size := small
    rw [readCount?, Text.ofDigits_spell, isCount, Bool.true_and, if_pos (decide_eq_true below),
      UInt32.ofNatLT_eq_ofNat]

theorem ofChars?_eq_some_iff {text : List Char} {bound : Bound} :
    ofChars? text = some bound ↔ Written bound text := by
  constructor
  · intro reads
    unfold ofChars? at reads
    split at reads
    · cases reads
      exact .variable
    · obtain ⟨count, counts, rfl⟩ := Option.map_eq_some_iff.mp reads
      obtain ⟨first, more, leading, rfl, small, rfl⟩ := readCount?_eq_some_iff.mp counts
      exact .offset first more leading small
    · obtain ⟨count, counts, rfl⟩ := Option.map_eq_some_iff.mp reads
      obtain ⟨first, more, leading, rfl, small, rfl⟩ := readCount?_eq_some_iff.mp counts
      exact .count first more leading small
  · intro written
    cases written with
    | count first more leading small =>
        have reads := readCount?_eq_some_iff.mpr ⟨first, more, leading, rfl, small, rfl⟩
        have noSymbol : digit first ≠ 'N' := Nat.digitChar_ne 'N' (by decide)
        unfold ofChars?
        split
        · next same => exact absurd (List.cons.inj same).1 noSymbol
        · next same => exact absurd (List.cons.inj same).1 noSymbol
        · rw [reads]
          rfl
    | «variable» => rfl
    | offset first more leading small =>
        have reads := readCount?_eq_some_iff.mpr ⟨first, more, leading, rfl, small, rfl⟩
        exact congrArg (Option.map Bound.relative) reads

end Bound

/-- A text is read as a token or as a bound exactly if it is one of its texts. -/
theorem read_iff_written (text : String) :
    (∀ token, Token.read? text = some token ↔ token.Written text.toList) ∧
      ∀ bound, Bound.read? (some text) = some bound ↔ bound.Written text.toList :=
  ⟨fun _ => Token.ofChars?_eq_some_iff, fun _ => Bound.ofChars?_eq_some_iff⟩

/-! ## Canonical texts -/

namespace Token

/-- The span that a timer's number is worth. -/
def literal? : Token → Option Duration
  | .timer (.fixed span) => some span
  | .timer (.relative offset) => offset
  | _ => none

/-- The form of the canonical text of a delay. -/
def TimerForm.ofDelay : Delay → TimerForm
  | .fixed span => .literal span.text
  | .relative none => .variable
  | .relative (some span) => .offset span.text

theorem chars_timer (delay : Delay) :
    chars (.timer delay) = (TimerForm.ofDelay delay).chars ++ ['S'] := by
  cases delay with
  | fixed span => rfl
  | relative offset => cases offset <;> rfl

theorem delay?_ofDelay (delay : Delay) : (TimerForm.ofDelay delay).delay? = some delay := by
  cases delay with
  | fixed span => simp [TimerForm.ofDelay, TimerForm.delay?, Duration.read?_text_self]
  | relative offset =>
      cases offset <;> simp [TimerForm.ofDelay, TimerForm.delay?, Duration.read?_text_self]

/-- A span without nanoseconds is written `0`, which is no number. -/
theorem numbered_ofDelay_iff (delay : Delay) :
    (TimerForm.ofDelay delay).Numbered ↔ literal? (.timer delay) ≠ some .zero := by
  cases delay with
  | fixed span =>
      simpa [TimerForm.Numbered, TimerForm.ofDelay, literal?] using span.isNumber_text_iff
  | relative offset =>
      cases offset with
      | none => simp [TimerForm.Numbered, TimerForm.ofDelay, literal?]
      | some span =>
          simpa [TimerForm.Numbered, TimerForm.ofDelay, literal?] using span.isNumber_text_iff

theorem ofChars?_chars_timer (delay : Delay) : ofChars? (chars (.timer delay)) =
    if literal? (.timer delay) = some .zero then none else some (.timer delay) := by
  split
  · next empty =>
      cases delay with
      | fixed span =>
          obtain rfl : span = .zero := by simpa [literal?] using empty
          decide
      | relative offset =>
          obtain rfl : offset = some .zero := empty
          decide
  · next visible =>
      rw [chars_timer, ofChars?_timer _ ((numbered_ofDelay_iff delay).mpr visible), delay?_ofDelay]
      rfl

theorem read?_text {text : String} {token : Token} (reads : read? text = some token)
    (dry : token.isPressure = false) :
    read? token.text = if token.literal? = some .zero then none else some token := by
  have written := ofChars?_eq_some_iff.mp reads
  rw [read?, Token.text, String.toList_ofList]
  cases token with
  | actuation actuation =>
      generalize text.toList = chars at written
      cases written with
      | actuation capital direction =>
          exact ofChars?_eq_some_iff.mpr (.actuation capital direction)
  | timer delay => exact ofChars?_chars_timer delay
  | pressure pressure => contradiction

end Token

/-- The canonical text of an actuation or of a timer reads back exactly if the timer has no
number worth nothing, and it is refused otherwise.  As seconds the canonical text of a span
always reads back. -/
theorem canonical_reads_back :
    (∀ text token, Token.read? text = some token → token.isPressure = false →
      Token.read? token.text = if token.literal? = some .zero then none else some token) ∧
    ∀ span : Duration, Duration.read? span.text = some span :=
  ⟨fun _ _ reads dry => Token.read?_text reads dry, Duration.read?_text_self⟩

/-- `T+01.50S` is no token; `T+1.50S` is one and reads back from `T+1.5S`; `0.0000000001S` is
one and does not read back from `0S`. -/
theorem canonical_reads_back_places :
    Token.read? "T+01.50S" = none ∧
    Token.read? "T+1.5S" = Token.read? "T+1.50S" ∧
    (∃ token, Token.read? "0.0000000001S" = some token ∧ token.text = "0S") ∧
    Token.read? "0S" = none := by
  have half : Token.read? "T+1.50S" =
      some (.timer (.relative (some ⟨1_500_000_000, by decide⟩))) := by decide
  have nothing : Token.read? "0.0000000001S" = some (.timer (.fixed .zero)) := by decide
  refine ⟨by decide, ?_, ⟨_, nothing, by decide⟩, ?_⟩
  · exact (canonical_reads_back.1 _ _ half rfl).trans half.symm
  · exact canonical_reads_back.1 _ _ nothing rfl

end Pneumatic
