import Pneumatic.Program.Render
import Pneumatic.Proofs.Program.Needs
import Pneumatic.Proofs.Text.Digits
import Pneumatic.Proofs.Text.Pieces

/-!
# What a preset denotes

The text of a preset is a time: a literal counts milliseconds, and a conversion takes the value
of a sum of products for milliseconds.  What it denotes while the timer variable has a value is
what the delay resolves to for this value, in whole milliseconds.
-/

namespace Pneumatic

/-! ## Reading times -/

namespace Expression

/-- The value of a number or of a variable. -/
def factor (words : String → Int) (text : List Char) : Int :=
  match Text.number? text with
  | some number => number
  | none => words (String.ofList text)

/-- The value of factors with `*` between them. -/
def product (words : String → Int) (text : List Char) : Int :=
  ((Text.pieces '*' text).map (factor words)).prod

/-- The value of products with `+` between them; blanks do not count. -/
def value (words : String → Int) (text : List Char) : Int :=
  ((Text.pieces '+' (text.filter (· != ' '))).map (product words)).sum

/-- The milliseconds of a time: of a literal, or of a number that is converted. -/
def millis? (words : String → Int) (text : String) : Option Int :=
  match Text.dropLead? ['T', '#'] text.toList with
  | some literal => do
      let number ← Text.dropTail? ['M', 'S'] literal
      (Text.number? number).map Int.ofNat
  | none => do
      let converted ← Text.dropLead? "DINT_TO_TIME(".toList text.toList
      (Text.dropTail? [')'] converted).map (value words)

variable {words : String → Int}

@[simp] theorem factor_digits (words : String → Int) (number : Nat) :
    factor words (Text.digits number) = number := by
  rw [factor, Text.number?_digits]

@[simp] theorem product_digits (words : String → Int) (number : Nat) :
    product words (Text.digits number) = number := by
  rw [product, Text.pieces_of_not_mem (Text.not_mem_digits rfl number)]
  simp

/-- The timer variable as a number of seconds. -/
theorem product_timerVariable (words : String → Int) :
    product words "T_VARIABLE*1000".toList = words Tag.timerVariable * 1000 := by
  have factors : Text.pieces '*' "T_VARIABLE*1000".toList =
      ["T_VARIABLE".toList, "1000".toList] := by
    decide +kernel
  have variable' : factor words "T_VARIABLE".toList = words Tag.timerVariable := by
    rw [factor, show Text.number? "T_VARIABLE".toList = none by decide +kernel]
    rfl
  have scale : factor words "1000".toList = 1000 := by
    rw [factor, show Text.number? "1000".toList = some 1000 by decide +kernel]
    rfl
  rw [product, factors, List.map_cons, List.map_singleton, List.prod_cons, List.prod_singleton,
    variable', scale]

theorem value_timerVariable (words : String → Int) :
    value words "T_VARIABLE * 1000".toList = words Tag.timerVariable * 1000 := by
  have terms : Text.pieces '+' ("T_VARIABLE * 1000".toList.filter (· != ' ')) =
      ["T_VARIABLE*1000".toList] := by
    decide +kernel
  rw [value, terms, List.map_singleton, List.sum_singleton, product_timerVariable]

theorem value_timerVariable_add (words : String → Int) (number : Nat) :
    value words ("T_VARIABLE * 1000 + ".toList ++ Text.digits number) =
      words Tag.timerVariable * 1000 + number := by
  have front : "T_VARIABLE * 1000 + ".toList.filter (· != ' ') =
      "T_VARIABLE*1000".toList ++ ['+'] := by
    decide +kernel
  have noBlank : (Text.digits number).filter (· != ' ') = Text.digits number := by
    refine List.filter_eq_self.mpr fun c among => bne_iff_ne.mpr ?_
    rintro rfl
    exact Text.not_mem_digits rfl number among
  have noPlus : '+' ∉ "T_VARIABLE*1000".toList := by decide +kernel
  rw [value, List.filter_append, front, noBlank, List.append_assoc, List.singleton_append,
    Text.pieces_append_cons noPlus, Text.pieces_of_not_mem (Text.not_mem_digits rfl number),
    List.map_cons, List.map_singleton, List.sum_cons, List.sum_singleton, product_timerVariable,
    product_digits]

theorem millis?_fixed (words : String → Int) (span : Duration) :
    millis? words (Preset.fixed span).render = some span.millis := by
  have written : (Preset.fixed span).render.toList =
      ['T', '#'] ++ (Text.digits span.millis ++ ['M', 'S']) := by
    simp [Preset.render, decimal]
  rw [millis?, written, Text.dropLead?_eq_some_iff.mpr rfl]
  simp [Text.dropTail?_eq_some_iff.mpr rfl]

theorem millis?_converted (words : String → Int) {text : String} (inner : List Char)
    (written : text.toList = "DINT_TO_TIME(".toList ++ (inner ++ [')'])) :
    millis? words text = some (value words inner) := by
  have noLiteral : Text.dropLead? ['T', '#'] text.toList = none := by
    rw [written]
    rfl
  simp only [millis?, noLiteral]
  rw [Text.dropLead?_eq_some_iff.mpr written]
  simp [Text.dropTail?_eq_some_iff.mpr rfl]

theorem millis?_variable (words : String → Int) (offset : Option Duration) :
    millis? words (Preset.variable Tag.timerVariable offset).render =
      some (words Tag.timerVariable * 1000 + (offset.map Duration.millis).getD 0) := by
  simp only [Preset.render]
  generalize (offset.map Duration.millis).getD 0 = rest
  split
  · next noOffset =>
      rw [millis?_converted words "T_VARIABLE * 1000".toList (by decide +kernel),
        value_timerVariable, noOffset]
      simp
  · rw [millis?_converted words ("T_VARIABLE * 1000 + ".toList ++ Text.digits rest),
      value_timerVariable_add]
    simp [decimal, Tag.timerVariable]

end Expression

/-! ## Presets of delays -/

theorem Duration.nanos_of_ofNanos? {nanos : Nat} {span : Duration}
    (found : ofNanos? nanos = some span) : span.nanos = nanos := by
  unfold ofNanos? at found
  split at found
  · rw [← Option.some.inj found]
  · contradiction

/-- The milliseconds of an offset that may be left out. -/
theorem Duration.map_millis_getD (offset : Option Duration) :
    (offset.map millis).getD 0 = (offset.getD .zero).millis := by
  cases offset <;> rfl

/-- What a relative delay resolves to. -/
theorem Delay.nanos_of_resolve {offset : Option Duration} {seconds : Int} {span : Duration}
    (resolved : (Delay.relative offset).resolve seconds = some span) :
    span.nanos = seconds.toNat * 1_000_000_000 + (offset.getD .zero).nanos := by
  simp only [resolve, Option.bind_eq_bind] at resolved
  obtain ⟨whole, wholeEq, sum⟩ := Option.bind_eq_some_iff.mp resolved
  rw [Duration.nanos_of_ofNanos? sum, Duration.nanos_of_ofNanos? wholeEq]

/-- The preset of a delay denotes what the delay resolves to, in whole milliseconds. -/
theorem Delay.millis?_preset {delay : Delay} {words : String → Int} {span : Duration}
    (positive : 0 ≤ words Tag.timerVariable)
    (resolved : delay.resolve (words Tag.timerVariable) = some span) :
    Expression.millis? words (Program.Builder.preset delay).render = some span.millis := by
  cases delay with
  | fixed fixed =>
      obtain rfl := Option.some.inj resolved
      exact Expression.millis?_fixed words fixed
  | relative offset =>
      have nanos := nanos_of_resolve resolved
      rw [Program.Builder.preset, Expression.millis?_variable, Duration.map_millis_getD,
        Duration.millis, Duration.millis, nanos]
      congr 1
      omega

/-- A call whose preset denotes what a delay resolves to, for every value of the timer variable
that it resolves with. -/
def Delay.Called (delay : Delay) (call : Instruction) : Prop :=
  ∃ name power done elapsed preset, call = .callTimer name power done elapsed preset ∧
    ∀ (words : String → Int) (seconds : Int16) (span : Duration),
      words Tag.timerVariable = seconds.toInt → 0 ≤ seconds.toInt →
      delay.resolve seconds.toInt = some span →
      Expression.millis? words preset.render = some span.millis

theorem Delay.called_of_call? {naming : Tag.Naming} {number : Nat} {delay : Delay}
    {call : Instruction} (called : naming.call? number delay = some call) : delay.Called call := by
  obtain ⟨tags, -, rfl⟩ := Option.map_eq_some_iff.mp called
  refine ⟨_, _, _, _, _, rfl, fun words seconds span value positive resolved => ?_⟩
  rw [← value] at positive resolved
  exact millis?_preset positive resolved

/-- A program has one call for each timer of its sequence, in reading order. -/
theorem Program.forall₂_called {sequence : Sequence} {project : Option Project}
    {program : Program} (compiled : compile sequence project = .ok program) :
    List.Forall₂ Delay.Called sequence.delays program.calls := by
  obtain ⟨-, calls, -⟩ := exists_components_of_compile compiled
  have numbered := (forall₂_of_mapM calls).imp fun _ _ called => Delay.called_of_call? called
  have delays := List.forall₂_map_left_iff.mpr numbered
  rwa [List.zipIdx_map_fst] at delays

end Pneumatic
