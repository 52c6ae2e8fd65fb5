import Pneumatic.Json.Printer
import Pneumatic.Json.Reader
import Pneumatic.Proofs.Except
import Mathlib.Data.List.DropRight
import Mathlib.Tactic.SplitIfs

/-!
# Indented text

What is written with indentation is read back, as long as it has no numbers: a string with any
characters, a truth value or null, and arrays and objects of these, one in another however deep.
-/

namespace Pneumatic.Json

mutual

/-- Whether a value has no numbers, and names something in all its parts. -/
def isPlain : Json → Bool
  | .null | .bool _ | .str _ => true
  | .arr items => arePlain items
  | .obj members => arePlainMembers members
  | .int _ | .real _ _ | .unreadable => false

/-- Whether all items are plain. -/
def arePlain : List Json → Bool
  | [] => true
  | item :: rest => item.isPlain && arePlain rest

/-- Whether all members are plain. -/
def arePlainMembers : List (String × Json) → Bool
  | [] => true
  | (_, value) :: rest => value.isPlain && arePlainMembers rest

end

theorem arePlain_iff {items : List Json} :
    arePlain items = true ↔ ∀ item ∈ items, item.isPlain = true := by
  induction items with
  | nil => simp [arePlain]
  | cons item rest ih => simp [arePlain, ih]

/-! ## Strings -/

theorem hexDigit?_hexDigit {value : Nat} (small : value < 16) :
    hexDigit? (hexDigit value) = some value := by
  have each : ∀ digit < 16, hexDigit? (hexDigit digit) = some digit := by decide
  exact each value small

/-- The code unit of an escaped character is its code point. -/
theorem readUnits_escapeChar (c : Char) (text : List Char) :
    readUnits (escapeChar c ++ text) =
      (readUnits text).bind fun (units, rest) => some (c.toNat :: units, rest) := by
  unfold escapeChar
  split_ifs with quoted slash backspace feed line back tab control
  · rw [beq_iff_eq.mp quoted]; rfl
  · rw [beq_iff_eq.mp slash]; rfl
  · rw [beq_iff_eq.mp backspace]; rfl
  · rw [beq_iff_eq.mp feed]; rfl
  · rw [beq_iff_eq.mp line]; rfl
  · rw [beq_iff_eq.mp back]; rfl
  · rw [beq_iff_eq.mp tab]; rfl
  · have high : hexDigit? (hexDigit (c.toNat / 16)) = some (c.toNat / 16) :=
      hexDigit?_hexDigit (by omega)
    have low : hexDigit? (hexDigit c.toNat) = some (c.toNat % 16) := by
      rw [← hexDigit?_hexDigit (Nat.mod_lt c.toNat (by decide)), hexDigit, hexDigit, Nat.mod_mod]
    have zero : hexDigit? '0' = some 0 := rfl
    have unit : 0 * 4096 + 0 * 256 + c.toNat / 16 * 16 + c.toNat % 16 = c.toNat := by omega
    simp only [List.cons_append, List.nil_append, readUnits, high, low, zero, unit,
      Option.bind_eq_bind, Option.bind_some]
  · simp only [beq_iff_eq] at quoted slash
    rw [List.singleton_append, readUnits]
    · rw [if_neg control]
      rfl
    · exact quoted
    · exact fun _ _ _ _ _ isSlash => absurd isSlash slash
    · exact fun _ _ isSlash => absurd isSlash slash

theorem readUnits_escaped (chars rest : List Char) :
    readUnits (chars.flatMap escapeChar ++ '"' :: rest) = some (chars.map Char.toNat, rest) := by
  induction chars with
  | nil => rfl
  | cons c chars ih =>
      rw [List.flatMap_cons, List.append_assoc, readUnits_escapeChar, ih]
      rfl

/-- A character is no half of a surrogate pair. -/
theorem not_isSurrogate (c : Char) :
    isHighSurrogate c.toNat = false ∧ isLowSurrogate c.toNat = false := by
  have valid := c.valid
  have bounds : c.toNat < 0xD800 ∨ 0xDFFF < c.toNat := by
    rcases valid with low | ⟨high, -⟩
    · exact .inl low
    · exact .inr high
  simp only [isHighSurrogate, isLowSurrogate, Bool.and_eq_false_iff, decide_eq_false_iff_not]
  omega

theorem joinSurrogates_map_toNat (chars : List Char) :
    joinSurrogates (chars.map Char.toNat) = some chars := by
  induction chars with
  | nil => rfl
  | cons c rest ih =>
      obtain ⟨notHigh, notLow⟩ := not_isSurrogate c
      cases rest with
      | nil => simp [joinSurrogates, notHigh, notLow]
      | cons next more =>
          rw [List.map_cons] at ih
          simp only [List.map_cons, joinSurrogates, notHigh, notLow, Bool.false_eq_true,
            ↓reduceIte, ih]
          simp

/-- A string reads back, whatever its characters. -/
theorem readString_quote (text : String) (rest : List Char) :
    readString (text.toList.flatMap escapeChar ++ '"' :: rest) = some (some text, rest) := by
  rw [readString, readUnits_escaped]
  simp [joinSurrogates_map_toNat]

/-! ## Space -/

@[simp] theorem skipSpace_newLine (depth : Nat) (text : List Char) :
    skipSpace (newLine depth ++ text) = skipSpace text := by
  have blanks (count : Nat) : skipSpace (List.replicate count ' ' ++ text) = skipSpace text := by
    induction count with
    | zero => rfl
    | succ count ih => exact ih
  exact blanks (2 * depth)

theorem skipSpace_cons {c : Char} (dark : isSpace c = false) (text : List Char) :
    skipSpace (c :: text) = c :: text := by
  rw [skipSpace, List.dropWhile_cons_of_neg (by simp [dark])]

@[simp] theorem skipSpace_skipSpace (text : List Char) :
    skipSpace (skipSpace text) = skipSpace text :=
  List.dropWhile_idempotent _ _

theorem readValue_skipSpace (fuel : Nat) (text : List Char) :
    readValue fuel (skipSpace text) = readValue fuel text := by
  cases fuel with
  | zero => rfl
  | succ fuel => rw [readValue, readValue, skipSpace_skipSpace]

theorem readValue_space (fuel : Nat) (text : List Char) :
    readValue fuel (' ' :: text) = readValue fuel text := by
  rw [← readValue_skipSpace fuel (' ' :: text), ← readValue_skipSpace fuel text]
  rfl

theorem readValue_newLine (fuel depth : Nat) (text : List Char) :
    readValue fuel (newLine depth ++ text) = readValue fuel text := by
  rw [← readValue_skipSpace, skipSpace_newLine, readValue_skipSpace]

theorem readItems_skipSpace (fuel : Nat) (text : List Char) :
    readItems fuel (skipSpace text) = readItems fuel text := by
  cases fuel with
  | zero => rfl
  | succ fuel => rw [readItems, readItems, readValue_skipSpace]

theorem readMembers_skipSpace (fuel : Nat) (text : List Char) :
    readMembers fuel (skipSpace text) = readMembers fuel text := by
  cases fuel with
  | zero => rfl
  | succ fuel => rw [readMembers, readMembers, skipSpace_skipSpace]

/-! ## Values -/

/-- A plain value begins with a character that is no space and closes nothing. -/
theorem exists_head {json : Json} (plain : json.isPlain = true) (depth : Nat) :
    ∃ c rest, json.printIndented depth = c :: rest ∧ isSpace c = false ∧ c ≠ ']' := by
  cases json with
  | null => exact ⟨_, _, rfl, rfl, by decide⟩
  | bool value => cases value <;> exact ⟨_, _, rfl, rfl, by decide⟩
  | str text => exact ⟨_, _, rfl, rfl, by decide⟩
  | arr items => cases items <;> exact ⟨_, _, rfl, rfl, by decide⟩
  | obj members => cases members <;> exact ⟨_, _, rfl, rfl, by decide⟩
  | int _ | real _ _ | unreadable => contradiction

theorem exists_head_printLines {item : Json} {items : List Json}
    (plain : arePlain (item :: items) = true) (depth : Nat) (rest : List Char) :
    ∃ c more, skipSpace (printLines depth (item :: items) ++ rest) = c :: more ∧
      isSpace c = false ∧ c ≠ ']' := by
  rw [arePlain, Bool.and_eq_true] at plain
  obtain ⟨c, written, begins, dark, noEnd⟩ := exists_head plain.1 (depth + 1)
  cases items with
  | nil | cons next items =>
      simp only [printLines, begins, List.append_assoc, List.cons_append, skipSpace_newLine,
        skipSpace_cons dark]
      exact ⟨c, _, rfl, dark, noEnd⟩

theorem exists_head_printMemberLines (member : String × Json) (members : List (String × Json))
    (depth : Nat) (rest : List Char) :
    ∃ more, skipSpace (printMemberLines depth (member :: members) ++ rest) = '"' :: more := by
  obtain ⟨name, value⟩ := member
  cases members with
  | nil | cons next members =>
      simp only [printMemberLines, quote, List.append_assoc, List.cons_append, skipSpace_newLine]
      exact ⟨_, skipSpace_cons rfl _⟩

theorem ofMembers_map (members : List (String × Json)) :
    ofMembers (members.map fun member => (some member.1, member.2)) = .obj members := by
  have named : members.mapM some = some members := mapM_eq_some_iff.mpr rfl
  rw [ofMembers, List.mapM_map]
  simp [Function.comp_def, named]

mutual

/-- A plain value reads back, whatever follows it. -/
theorem readValue_printIndented : (json : Json) → json.isPlain = true → (depth fuel : Nat) →
    (rest : List Char) → (json.printIndented depth).length ≤ fuel →
    readValue fuel (json.printIndented depth ++ rest) = some (json, rest)
  | .null, _, depth, fuel + 1, rest, _ => rfl
  | .bool true, _, depth, fuel + 1, rest, _ => rfl
  | .bool false, _, depth, fuel + 1, rest, _ => rfl
  | .str text, _, depth, fuel + 1, rest, _ => by
      have strung := readString_quote text rest
      simp only [printIndented, quote, List.cons_append, List.append_assoc, List.nil_append]
      rw [readValue, skipSpace_cons rfl]
      simp only [strung, Option.bind_eq_bind, Option.bind_some, Option.map_some, Option.getD_some]
  | .arr [], _, depth, fuel + 1, rest, _ => rfl
  | .arr (item :: items), plain, depth, fuel + 1, rest, enough => by
      rw [isPlain] at plain
      simp only [printIndented, List.length_cons, Nat.add_le_add_iff_right] at enough
      have listed := readItems_printLines item items plain depth fuel rest enough
      obtain ⟨c, more, begins, dark, noEnd⟩ := exists_head_printLines plain depth rest
      simp only [printIndented, List.cons_append]
      rw [readValue, skipSpace_cons rfl]
      rw [← readItems_skipSpace, begins] at listed
      simp only [begins]
      split
      · next atOnce => exact absurd (List.cons.inj atOnce).1 noEnd
      · simp only [listed, Option.bind_eq_bind, Option.bind_some]
  | .obj [], _, depth, fuel + 1, rest, _ => rfl
  | .obj (member :: members), plain, depth, fuel + 1, rest, enough => by
      rw [isPlain] at plain
      simp only [printIndented, List.length_cons, Nat.add_le_add_iff_right] at enough
      have listed := readMembers_printMemberLines member members plain depth fuel rest enough
      obtain ⟨more, begins⟩ := exists_head_printMemberLines member members depth rest
      simp only [printIndented, List.cons_append]
      rw [readValue, skipSpace_cons rfl]
      rw [← readMembers_skipSpace, begins] at listed
      simp only [begins]
      split
      · next atOnce => exact absurd (List.cons.inj atOnce).1 (by decide)
      · simp only [listed, Option.bind_eq_bind, Option.bind_some, ofMembers_map]

/-- The items of an array read back. -/
theorem readItems_printLines : (item : Json) → (items : List Json) →
    arePlain (item :: items) = true → (depth fuel : Nat) → (rest : List Char) →
    (printLines depth (item :: items)).length ≤ fuel →
    readItems fuel (printLines depth (item :: items) ++ rest) = some (item :: items, rest)
  | item, [], plain, depth, fuel + 1, rest, enough => by
      rw [arePlain, Bool.and_eq_true] at plain
      simp only [printLines, newLine, List.length_append, List.length_cons] at enough
      have read := readValue_printIndented item plain.1 (depth + 1) fuel
        (newLine depth ++ ']' :: rest) (by omega)
      simp only [printLines, List.append_assoc, List.cons_append, List.nil_append]
      rw [readItems, readValue_newLine, read]
      simp only [Option.bind_eq_bind, Option.bind_some, skipSpace_newLine]
      rfl
  | item, next :: items, plain, depth, fuel + 1, rest, enough => by
      rw [arePlain, Bool.and_eq_true] at plain
      simp only [printLines, newLine, List.length_append, List.length_cons] at enough
      have read := readValue_printIndented item plain.1 (depth + 1) fuel
        (',' :: (printLines depth (next :: items) ++ rest)) (by omega)
      have listed := readItems_printLines next items plain.2 depth fuel rest (by omega)
      simp only [printLines, List.append_assoc, List.cons_append]
      rw [readItems, readValue_newLine, read]
      simp only [Option.bind_eq_bind, Option.bind_some]
      rw [skipSpace_cons rfl]
      simp only [listed, Option.bind_some]

/-- The members of an object read back. -/
theorem readMembers_printMemberLines : (member : String × Json) →
    (members : List (String × Json)) → arePlainMembers (member :: members) = true →
    (depth fuel : Nat) → (rest : List Char) →
    (printMemberLines depth (member :: members)).length ≤ fuel →
    readMembers fuel (printMemberLines depth (member :: members) ++ rest) =
      some ((member :: members).map fun member => (some member.1, member.2), rest)
  | (name, value), [], plain, depth, fuel + 1, rest, enough => by
      rw [arePlainMembers, Bool.and_eq_true] at plain
      simp only [printMemberLines, newLine, List.length_append, List.length_cons] at enough
      have read := readValue_printIndented value plain.1 (depth + 1) fuel
        (newLine depth ++ '}' :: rest) (by omega)
      have named := readString_quote name
        (':' :: ' ' :: (value.printIndented (depth + 1) ++ (newLine depth ++ '}' :: rest)))
      simp only [printMemberLines, quote, List.append_assoc, List.cons_append, List.nil_append]
      rw [readMembers, skipSpace_newLine, skipSpace_cons rfl]
      simp only [named, Option.bind_eq_bind, Option.bind_some]
      rw [skipSpace_cons rfl]
      simp only [readValue_space, read, Option.bind_some, skipSpace_newLine]
      rfl
  | (name, value), next :: members, plain, depth, fuel + 1, rest, enough => by
      rw [arePlainMembers, Bool.and_eq_true] at plain
      simp only [printMemberLines, newLine, List.length_append, List.length_cons] at enough
      have read := readValue_printIndented value plain.1 (depth + 1) fuel
        (',' :: (printMemberLines depth (next :: members) ++ rest)) (by omega)
      have listed := readMembers_printMemberLines next members plain.2 depth fuel rest (by omega)
      have named := readString_quote name (':' :: ' ' :: (value.printIndented (depth + 1) ++
        ',' :: (printMemberLines depth (next :: members) ++ rest)))
      simp only [printMemberLines, quote, List.append_assoc, List.cons_append, List.nil_append]
      rw [readMembers, skipSpace_newLine, skipSpace_cons rfl]
      simp only [named, Option.bind_eq_bind, Option.bind_some]
      rw [skipSpace_cons rfl]
      simp only [readValue_space, read, Option.bind_some]
      rw [skipSpace_cons rfl]
      simp only [listed, Option.bind_some]
      rfl

end

/-- **A plain document is read back as it was written.** -/
theorem read?_indented {json : Json} (plain : json.isPlain = true) :
    read? json.indented = some json := by
  have read := readValue_printIndented json plain 0 (2 * (json.printIndented 0).length + 2) []
    (by omega)
  rw [List.append_nil] at read
  rw [read?, indented, String.length_ofList, String.toList_ofList, read]
  rfl

end Pneumatic.Json
