import Pneumatic.Fault.Operators
import Pneumatic.Proofs.Text.Search

/-!
# The weight of a text

The characters of a text weigh one each, and a `TRUE` weighs one more.  So a truth value weighs the
same whichever it is, and negating it keeps the weight but makes the text a character longer or
shorter.  Pointing an actuator's signals to another keeps the weight as well, and every text that
is cut or put together of parts weighs no less than its parts.
-/

namespace Pneumatic

namespace Fault

/-! ## Weight -/

/-- A character for each, and one more for each `TRUE`. -/
def weigh : List Char → Nat
  | [] => 0
  | c :: rest => (if c = 'T' ∧ ['R', 'U', 'E'] <+: rest then 2 else 1) + weigh rest

theorem length_le_weigh (text : List Char) : text.length ≤ weigh text := by
  induction text with
  | nil => exact Nat.zero_le _
  | cons c rest ih =>
      rw [weigh, List.length_cons]
      split <;> omega

/-- The weight of a text depends on whether a `TRUE` begins with its first character. -/
theorem weigh_cons_congr {c : Char} {rest rest' : List Char}
    (alike : ['R', 'U', 'E'] <+: rest ↔ ['R', 'U', 'E'] <+: rest')
    (same : weigh rest = weigh rest') : weigh (c :: rest) = weigh (c :: rest') := by
  rw [weigh, weigh, same]
  simp only [alike]

theorem weigh_true (after : List Char) :
    weigh ('T' :: 'R' :: 'U' :: 'E' :: after) = 5 + weigh after := by
  simp [weigh]
  omega

theorem weigh_false (after : List Char) :
    weigh ('F' :: 'A' :: 'L' :: 'S' :: 'E' :: after) = 5 + weigh after := by
  simp [weigh]
  omega

/-- A text weighs no less than its parts. -/
theorem weigh_add_le (front back : List Char) :
    weigh front + weigh back ≤ weigh (front ++ back) := by
  induction front with
  | nil => simp [weigh]
  | cons c rest ih =>
      have grows : ['R', 'U', 'E'] <+: rest → ['R', 'U', 'E'] <+: rest ++ back :=
        fun leads => leads.trans (List.prefix_append rest back)
      rw [List.cons_append, weigh, weigh]
      split
      · next here =>
          rw [if_pos ⟨here.1, grows here.2⟩]
          omega
      · split <;> omega

/-- A word without a blank does not reach into a text behind that begins with one. -/
theorem prefix_append_blank_iff {word front back : List Char} (dense : ' ' ∉ word) :
    word <+: front ++ ' ' :: back ↔ word <+: front := by
  induction word generalizing front with
  | nil => simp
  | cons w word ih =>
      rw [List.mem_cons, not_or] at dense
      cases front with
      | nil => simp [List.cons_prefix_cons, Ne.symm dense.1]
      | cons c front => simp only [List.cons_append, List.cons_prefix_cons, ih dense.2]

/-- A text weighs what its parts do if the second begins with a blank. -/
theorem weigh_append_blank (front back : List Char) :
    weigh (front ++ ' ' :: back) = weigh front + weigh (' ' :: back) := by
  induction front with
  | nil => simp [weigh]
  | cons c rest ih =>
      have dense : ' ' ∉ ['R', 'U', 'E'] := by decide
      rw [List.cons_append, weigh, weigh, ih, Nat.add_assoc]
      simp only [prefix_append_blank_iff dense]

/-! ## Negating a truth value -/

/-- Two texts that differ in the first truth value only. -/
inductive Flips : List Char → List Char → Prop where
  | true (after : List Char) :
      Flips ('T' :: 'R' :: 'U' :: 'E' :: after) ('F' :: 'A' :: 'L' :: 'S' :: 'E' :: after)
  | false (after : List Char) :
      Flips ('F' :: 'A' :: 'L' :: 'S' :: 'E' :: after) ('T' :: 'R' :: 'U' :: 'E' :: after)
  | later {c : Char} {rest rest' : List Char} :
      ¬ ['T', 'R', 'U', 'E'] <+: c :: rest → ¬ ['F', 'A', 'L', 'S', 'E'] <+: c :: rest →
      Flips rest rest' → Flips (c :: rest) (c :: rest')

namespace Flips

variable {text text' : List Char}

/-- Only the letters that a truth value begins with show which one it is. -/
theorem prefix_iff (flips : Flips text text') : ∀ {word : List Char}, 'T' ∉ word → 'F' ∉ word →
    (word <+: text ↔ word <+: text') := by
  induction flips with
  | true after | false after =>
      intro word noTrue noFalse
      cases word with
      | nil => simp
      | cons w word =>
          rw [List.mem_cons, not_or] at noTrue noFalse
          simp [List.cons_prefix_cons, Ne.symm noTrue.1, Ne.symm noFalse.1]
  | later _ _ _ ih =>
      intro word noTrue noFalse
      cases word with
      | nil => simp
      | cons w word =>
          rw [List.mem_cons, not_or] at noTrue noFalse
          rw [List.cons_prefix_cons, List.cons_prefix_cons, ih noTrue.2 noFalse.2]

theorem symm (flips : Flips text text') : Flips text' text := by
  induction flips with
  | true after => exact .false after
  | false after => exact .true after
  | later noTrue noFalse flips ih =>
      refine .later (fun leads => noTrue ?_) (fun leads => noFalse ?_) ih
      · rw [List.cons_prefix_cons] at leads ⊢
        exact ⟨leads.1, (flips.prefix_iff (by decide) (by decide)).mpr leads.2⟩
      · rw [List.cons_prefix_cons] at leads ⊢
        exact ⟨leads.1, (flips.prefix_iff (by decide) (by decide)).mpr leads.2⟩

theorem weigh_eq (flips : Flips text text') : weigh text' = weigh text := by
  induction flips with
  | true after => rw [weigh_true, weigh_false]
  | false after => rw [weigh_true, weigh_false]
  | later _ _ flips ih =>
      exact (weigh_cons_congr (flips.prefix_iff (by decide) (by decide)) ih.symm).symm

/-- The length changes by one. -/
theorem length_mod_two (flips : Flips text text') : text'.length % 2 = (text.length + 1) % 2 := by
  induction flips with
  | true after => rfl
  | false after =>
      simp only [List.length_cons]
      omega
  | later _ _ _ ih =>
      rw [List.length_cons, List.length_cons]
      omega

end Flips

theorem flipFirst?_eq_some_iff {text text' : List Char} :
    flipFirst? text = some text' ↔ Flips text text' := by
  constructor
  · intro found
    induction text generalizing text' with
    | nil => contradiction
    | cons c rest ih =>
        rw [flipFirst?] at found
        split at found
        · next dropped =>
            obtain rfl := Option.some.inj found
            rw [Text.dropLead?_eq_some_iff.mp dropped]
            exact .true _
        · next dropped =>
            obtain rfl := Option.some.inj found
            rw [Text.dropLead?_eq_some_iff.mp dropped]
            exact .false _
        · next noTrue noFalse =>
            obtain ⟨rest', later, rfl⟩ := Option.map_eq_some_iff.mp found
            exact .later (Text.dropLead?_eq_none_iff.mp noTrue)
              (Text.dropLead?_eq_none_iff.mp noFalse) (ih later)
  · intro flips
    induction flips with
    | true after => rfl
    | false after => rfl
    | @later c rest rest' noTrue noFalse _ ih =>
        have leadTrue : Text.dropLead? "TRUE".toList (c :: rest) = none :=
          Text.dropLead?_eq_none_iff.mpr noTrue
        have leadFalse : Text.dropLead? "FALSE".toList (c :: rest) = none :=
          Text.dropLead?_eq_none_iff.mpr noFalse
        rw [flipFirst?, leadTrue, leadFalse, ih]
        rfl

/-! ## Pointing signals to another actuator -/

/-- Two texts that differ in characters between underscores only. -/
inductive Redirects : List Char → List Char → Prop where
  | nil : Redirects [] []
  | keep (c : Char) {rest rest' : List Char} : Redirects rest rest' →
      Redirects (c :: rest) (c :: rest')
  | move (label other : Char) {rest rest' : List Char} : Redirects rest rest' →
      Redirects (mention label ++ rest) (mention other ++ rest')

namespace Redirects

variable {text text' : List Char}

theorem prefix_iff (redirects : Redirects text text') : ∀ {word : List Char}, '_' ∉ word →
    (word <+: text ↔ word <+: text') := by
  induction redirects with
  | nil => exact fun _ => .rfl
  | keep c _ ih =>
      intro word joined
      cases word with
      | nil => simp
      | cons w word =>
          rw [List.mem_cons, not_or] at joined
          rw [List.cons_prefix_cons, List.cons_prefix_cons, ih joined.2]
  | move label other _ _ =>
      intro word joined
      cases word with
      | nil => simp
      | cons w word =>
          rw [List.mem_cons, not_or] at joined
          constructor <;> intro leads <;>
            exact absurd (List.cons_prefix_cons.mp leads).1 (Ne.symm joined.1)

theorem length_eq (redirects : Redirects text text') : text'.length = text.length := by
  induction redirects with
  | nil => rfl
  | keep c _ ih => rw [List.length_cons, List.length_cons, ih]
  | move label other _ ih => simp [mention, ih]

theorem weigh_mention (label : Char) (rest : List Char) :
    weigh (mention label ++ rest) = 3 + weigh rest := by
  change weigh ('_' :: label :: '_' :: rest) = _
  simp [weigh, List.cons_prefix_cons]
  omega

theorem weigh_eq (redirects : Redirects text text') : weigh text' = weigh text := by
  induction redirects with
  | nil => rfl
  | keep c redirects ih =>
      exact (weigh_cons_congr (redirects.prefix_iff (by decide)) ih.symm).symm
  | move label other _ ih => rw [weigh_mention, weigh_mention, ih]

end Redirects

section

variable (label other : Char)

/-- Replacing every mention of an actuator changes characters between underscores only. -/
theorem redirects_replaceFrom (text : List Char) : ∀ skip, Redirects (text.drop skip)
    (Text.replaceFrom (mention label) (mention other) skip text) := by
  induction text with
  | nil =>
      intro skip
      rw [List.drop_nil]
      exact .nil
  | cons c rest ih =>
      intro skip
      cases skip with
      | succ skip => exact ih skip
      | zero =>
          rw [Text.replaceFrom]
          split
          · next dropped =>
              obtain ⟨rfl, rfl⟩ := List.cons.inj (Text.dropLead?_eq_some_iff.mp dropped)
              exact .move label other (ih 2)
          · exact .keep c (ih 0)

/-- Replacing an actuator that is mentioned by another one changes the text. -/
theorem replaceAll_ne {text : List Char} (differ : label ≠ other)
    (occurs : Text.occursIn (mention label) text = true) :
    Text.replaceAll (mention label) (mention other) text ≠ text := by
  unfold Text.replaceAll
  induction text with
  | nil => exact absurd occurs (by simp [Text.occursIn, Text.splitFirst?, Text.dropLead?, mention])
  | cons c rest ih =>
      rw [Text.replaceFrom]
      split
      · next after dropped =>
          have textEq := Text.dropLead?_eq_some_iff.mp dropped
          rw [textEq]
          intro same
          have second := (List.cons.inj (List.cons.inj same).2).1
          exact differ second.symm
      · next other =>
          rw [Text.occursIn_cons, other] at occurs
          intro same
          exact ih occurs (List.cons.inj same).2

end

/-! ## Dropping a term -/

/-- A condition without its last term weighs less. -/
theorem weigh_of_stripTerm? {line line' : String} (stripped : stripTerm? line = some line') :
    weigh line'.toList < weigh line.toList := by
  obtain ⟨-, -, stripped⟩ := Option.bind_eq_some_iff.mp stripped
  obtain ⟨⟨before, after⟩, split, stripped⟩ := Option.bind_eq_some_iff.mp stripped
  obtain rfl := Option.some.inj stripped
  rw [String.toList_ofList, Text.eq_of_splitLast? split]
  have parts := weigh_add_le before (" AND ".toList ++ after)
  have between := weigh_add_le " AND ".toList after
  have word : 0 < weigh " AND ".toList := by decide
  cases found : Text.splitFirst? " THEN".toList after with
  | none =>
      simp only [List.append_nil]
      omega
  | some ends =>
      obtain ⟨dropped, rest⟩ := ends
      rw [Text.eq_of_splitFirst? found] at parts between ⊢
      have behind := weigh_add_le dropped (" THEN".toList ++ rest)
      have joined : weigh (before ++ (" THEN".toList ++ rest)) =
          weigh before + weigh (" THEN".toList ++ rest) :=
        weigh_append_blank before ("THEN".toList ++ rest)
      simp only
      omega

/-! ## Whole programs -/

/-- A measure of texts, summed over lines. -/
def total (measure : List Char → Nat) : List String → Nat
  | [] => 0
  | line :: rest => measure line.toList + total measure rest

section

variable (measure : List Char → Nat) {lines : List String} {place : Nat} {line : String}

theorem total_set (here : lines[place]? = some line) (line' : String) :
    total measure (lines.set place line') + measure line.toList =
      total measure lines + measure line'.toList := by
  induction lines generalizing place with
  | nil => contradiction
  | cons first rest ih =>
      cases place with
      | zero =>
          obtain rfl := Option.some.inj here
          rw [List.set_cons_zero, total, total]
          omega
      | succ place =>
          have behind := ih here
          rw [List.set_cons_succ, total, total]
          omega

theorem total_eraseIdx (here : lines[place]? = some line) :
    total measure (lines.eraseIdx place) + measure line.toList = total measure lines := by
  induction lines generalizing place with
  | nil => contradiction
  | cons first rest ih =>
      cases place with
      | zero =>
          obtain rfl := Option.some.inj here
          rw [List.eraseIdx_cons_zero, total]
          omega
      | succ place =>
          have behind := ih here
          rw [List.eraseIdx_cons_succ, total, total]
          omega

/-- Exchanging two lines changes no sum over the lines. -/
theorem total_exchange {other : Nat} {line' : String} (apart : place ≠ other)
    (here : lines[place]? = some line) (there : lines[other]? = some line') :
    total measure ((lines.set place line').set other line) = total measure lines := by
  have first := total_set measure here line'
  have thereStill : (lines.set place line')[other]? = some line' := by
    rw [List.getElem?_set_ne apart, there]
  have second := total_set measure thereStill line
  omega

end

end Fault

end Pneumatic
