import Mathlib.Data.List.Basic

/-!
# The bytes of a text

Texts are kept in UTF-8, where a character of ASCII is one byte, and no byte of another character
looks like one.  Texts of ASCII characters are in the order of their bytes.
-/

namespace Pneumatic.Text

/-- The bytes of a text in UTF-8. -/
def bytes (text : List Char) : List UInt8 :=
  text.flatMap String.utf8EncodeChar

@[simp] theorem bytes_nil : bytes [] = [] := rfl

@[simp] theorem bytes_append (left right : List Char) :
    bytes (left ++ right) = bytes left ++ bytes right :=
  List.flatMap_append

theorem toNat_toUInt8 {c : Char} (ascii : c.toNat < 128) : c.toUInt8.toNat = c.toNat := by
  rw [← Char.toUInt8_val, UInt32.toNat_toUInt8]
  exact Nat.mod_eq_of_lt (Nat.lt_trans ascii (by decide))

theorem utf8EncodeChar_ascii {c : Char} (ascii : c.toNat < 128) :
    String.utf8EncodeChar c = [c.toUInt8] := by
  have short : c.val.toNat ≤ 127 := Nat.le_of_lt_succ ascii
  simp only [String.utf8EncodeChar, if_pos short, List.cons.injEq, and_true]
  rfl

theorem bytes_cons_ascii {c : Char} (ascii : c.toNat < 128) (rest : List Char) :
    bytes (c :: rest) = c.toUInt8 :: bytes rest := by
  rw [bytes, List.flatMap_cons, utf8EncodeChar_ascii ascii]
  rfl

/-- The bytes of a character that is not ASCII are none of ASCII. -/
theorem le_toNat_of_mem_utf8EncodeChar {c : Char} (long : 128 ≤ c.toNat) {byte : UInt8}
    (among : byte ∈ String.utf8EncodeChar c) : 128 ≤ byte.toNat := by
  have notShort : ¬ c.val.toNat ≤ 127 := Nat.not_le_of_lt long
  simp only [String.utf8EncodeChar, if_neg notShort] at among
  split at among
  · simp only [List.mem_cons, List.not_mem_nil, or_false] at among
    rcases among with rfl | rfl <;> rw [UInt8.toNat_ofNat'] <;> omega
  · split at among
    · simp only [List.mem_cons, List.not_mem_nil, or_false] at among
      rcases among with rfl | rfl | rfl <;> rw [UInt8.toNat_ofNat'] <;> omega
    · simp only [List.mem_cons, List.not_mem_nil, or_false] at among
      rcases among with rfl | rfl | rfl | rfl <;> rw [UInt8.toNat_ofNat'] <;> omega

/-- A byte of ASCII stands for its character only. -/
theorem eq_of_mem_utf8EncodeChar {c d : Char} (ascii : d.toNat < 128)
    (among : d.toUInt8 ∈ String.utf8EncodeChar c) : c = d := by
  by_cases short : c.toNat < 128
  · rw [utf8EncodeChar_ascii short, List.mem_singleton] at among
    have same := congrArg UInt8.toNat among
    rw [toNat_toUInt8 ascii, toNat_toUInt8 short] at same
    exact (Char.toNat_inj.mp same).symm
  · have large := le_toNat_of_mem_utf8EncodeChar (Nat.le_of_not_lt short) among
    rw [toNat_toUInt8 ascii] at large
    omega

theorem mem_of_toUInt8_mem_bytes {d : Char} (ascii : d.toNat < 128) {text : List Char}
    (among : d.toUInt8 ∈ bytes text) : d ∈ text := by
  obtain ⟨c, inText, inChar⟩ := List.mem_flatMap.mp among
  rwa [← eq_of_mem_utf8EncodeChar ascii inChar]

theorem head?_of_head?_bytes {d : Char} (ascii : d.toNat < 128) {text : List Char}
    (first : (bytes text).head? = some d.toUInt8) : text.head? = some d := by
  cases text with
  | nil => contradiction
  | cons c rest =>
      have among : d.toUInt8 ∈ String.utf8EncodeChar c := by
        obtain ⟨byte, more, bytesEq⟩ :=
          List.exists_cons_of_ne_nil (String.utf8EncodeChar_ne_nil (c := c))
        rw [bytes, List.flatMap_cons, bytesEq] at first
        obtain rfl := Option.some.inj first
        simp [bytesEq]
      rw [eq_of_mem_utf8EncodeChar ascii among]
      rfl

/-- Texts of ASCII characters are in the order of their bytes. -/
theorem bytes_lt {left right : List Char} (before : left < right)
    (asciiLeft : ∀ c ∈ left, c.toNat < 128) (asciiRight : ∀ c ∈ right, c.toNat < 128) :
    bytes left < bytes right := by
  induction before with
  | @nil c rest =>
      rw [bytes_cons_ascii (asciiRight c List.mem_cons_self)]
      exact List.nil_lt_cons _ _
  | @rel c rest d rest' below =>
      have smallLeft := asciiLeft c List.mem_cons_self
      have smallRight := asciiRight d List.mem_cons_self
      rw [bytes_cons_ascii smallLeft, bytes_cons_ascii smallRight]
      refine List.Lex.rel ?_
      rw [UInt8.lt_iff_toNat_lt, toNat_toUInt8 smallLeft, toNat_toUInt8 smallRight]
      exact below
  | @cons c rest rest' below ih =>
      have small := asciiLeft c List.mem_cons_self
      rw [bytes_cons_ascii small, bytes_cons_ascii small]
      exact List.Lex.cons (ih (fun d inside => asciiLeft d (List.mem_cons_of_mem _ inside))
        fun d inside => asciiRight d (List.mem_cons_of_mem _ inside))

end Pneumatic.Text
