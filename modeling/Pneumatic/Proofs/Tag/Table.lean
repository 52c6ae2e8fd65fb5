import Pneumatic.Proofs.Once
import Pneumatic.Tag.Table

/-!
# What a tag table lists

A table is the outcome of declaring signals one after the other.  It lists every name
once, where it came first and with the type it came with first.  The bits are numbered in
the order they are listed, and so are the words, a stride apart.
-/

namespace Pneumatic

namespace Tag

/-- A name with its type. -/
structure Signal where
  name : String
  kind : Kind
  deriving DecidableEq, Repr

/-- The name and type of a binding. -/
def Binding.signal (binding : Binding) : Signal :=
  ⟨binding.name, binding.role.kind⟩

namespace Entry

/-- The name and type of an entry. -/
def signal (entry : Entry) : Signal :=
  ⟨entry.name, entry.kind⟩

/-- Whether an entry is a single bit. -/
def isBit (entry : Entry) : Bool :=
  entry.kind == .bool

end Entry

namespace Table

/-- Add signals in order. -/
def declare (table : Table) (signals : List Signal) : Table :=
  signals.foldl (fun table signal => table.push signal.name signal.kind) table

theorem extend_eq_declare (table : Table) (bindings : List Binding) :
    table.extend bindings = table.declare (bindings.map Binding.signal) := by
  rw [extend, declare, List.foldl_map]
  rfl

theorem declare_append (table : Table) (left right : List Signal) :
    table.declare (left ++ right) = (table.declare left).declare right := by
  rw [declare, declare, declare, List.foldl_append]

theorem push_eq_declare (table : Table) (name : String) (kind : Kind) :
    table.push name kind = table.declare [⟨name, kind⟩] := rfl

/-! ## Names and types -/

theorem isSome_find?_iff (table : Table) (name : String) :
    (table.find? name).isSome = true ↔ name ∈ table.entries.map (·.name) := by
  rw [find?, List.isSome_find?, List.any_eq_true, List.mem_map]
  simp only [beq_iff_eq]

theorem push_of_mem {table : Table} {name : String}
    (known : name ∈ table.entries.map (·.name)) (kind : Kind) : table.push name kind = table :=
  if_pos ((table.isSome_find?_iff name).mpr known)

theorem push_of_not_mem {table : Table} {name : String}
    (unknown : name ∉ table.entries.map (·.name)) (kind : Kind) :
    table.push name kind = table.append name kind :=
  if_neg fun known => unknown ((table.isSome_find?_iff name).mp known)

/-- A table lists every name once, where it came first. -/
theorem names_declare (signals : List Signal) :
    (empty.declare signals).entries.map (·.name) = (signals.map (·.name)).eraseDups := by
  induction signals using List.reverseRecOn with
  | nil => rfl
  | append_singleton before signal ih =>
      rw [declare_append, ← push_eq_declare, List.map_append, List.map_cons, List.map_nil]
      by_cases known : signal.name ∈ before.map (·.name)
      · rw [push_of_mem (by rwa [ih, List.mem_eraseDups]), eraseDups_append_of_mem known, ih]
      · rw [push_of_not_mem (by rwa [ih, List.mem_eraseDups]), eraseDups_append_of_not_mem known,
          ← ih]
        simp [append]

/-- What comes of one more signal, by whether its name came before. -/
theorem declare_append_singleton (before : List Signal) (signal : Signal) :
    signal.name ∈ before.map (·.name) ∧
        empty.declare (before ++ [signal]) = empty.declare before ∨
      signal.name ∉ before.map (·.name) ∧
        empty.declare (before ++ [signal]) =
          (empty.declare before).append signal.name signal.kind := by
  rw [declare_append, ← push_eq_declare]
  by_cases known : signal.name ∈ before.map (·.name)
  · exact .inl ⟨known, push_of_mem (by rwa [names_declare, List.mem_eraseDups]) signal.kind⟩
  · exact .inr ⟨known, push_of_not_mem (by rwa [names_declare, List.mem_eraseDups]) signal.kind⟩

/-- A table lists every name with the type it came with first. -/
theorem find?_of_mem_declare {signals : List Signal} {entry : Entry}
    (listed : entry ∈ (empty.declare signals).entries) :
    signals.find? (·.name == entry.name) = some entry.signal := by
  induction signals using List.reverseRecOn with
  | nil => contradiction
  | append_singleton before signal ih =>
      rw [List.find?_append]
      rcases declare_append_singleton before signal with ⟨-, same⟩ | ⟨unknown, grown⟩
      · rw [same] at listed
        rw [ih listed]
        rfl
      · rw [grown] at listed
        rcases List.mem_append.mp listed with earlier | now
        · rw [ih earlier]
          rfl
        · obtain rfl := List.mem_singleton.mp now
          have absent : before.find? (·.name == signal.name) = none := by
            rw [List.find?_eq_none]
            intro other among same
            exact unknown (List.mem_map.mpr ⟨other, among, beq_iff_eq.mp same⟩)
          simp [absent, Entry.signal]

/-- Signals with different names are listed as they are. -/
theorem signals_declare {signals : List Signal} (distinct : (signals.map (·.name)).Nodup) :
    (empty.declare signals).entries.map Entry.signal = signals := by
  induction signals using List.reverseRecOn with
  | nil => rfl
  | append_singleton before signal ih =>
      rw [List.map_append, List.nodup_append] at distinct
      rcases declare_append_singleton before signal with ⟨known, -⟩ | ⟨-, grown⟩
      · exact absurd rfl (distinct.2.2 _ known _ (by simp))
      · rw [grown]
        simp [append, ih distinct.1, Entry.signal]

/-! ## Addresses -/

/-- The addresses of a table are handed out in order: its bits are numbered as they are
listed, and its words lie a stride apart as they are listed. -/
structure Packed (table : Table) : Prop where
  bits : table.bits = table.entries.countP Entry.isBit
  words : table.words = table.entries.countP fun entry => !entry.isBit
  bit : ∀ (index : Nat) (entry : Entry),
    (table.entries.filter Entry.isBit)[index]? = some entry → entry.address = .bit index
  word : ∀ (index : Nat) (entry : Entry),
    (table.entries.filter fun entry => !entry.isBit)[index]? = some entry →
      entry.address =
        if entry.kind = .int then .word ((index + 1) * stride) else .double ((index + 1) * stride)

theorem packed_empty : empty.Packed :=
  ⟨rfl, rfl, by simp [empty], by simp [empty]⟩

/-- The last place of a list, or an earlier one. -/
theorem getElem?_append_singleton {entries : List Entry} {last entry : Entry} {index : Nat}
    (found : (entries ++ [last])[index]? = some entry) :
    entries[index]? = some entry ∨ index = entries.length ∧ entry = last := by
  rw [List.getElem?_append] at found
  split at found
  · exact .inl found
  · obtain ⟨inside, rfl⟩ := List.getElem?_eq_some_iff.mp found
    rw [List.length_singleton] at inside
    exact .inr ⟨by omega, by simp⟩

theorem Packed.append {table : Table} (packed : table.Packed) (name : String) (kind : Kind) :
    (table.append name kind).Packed := by
  obtain ⟨bits, words, bit, word⟩ := packed
  have bitsLength := List.countP_eq_length_filter ▸ bits
  have wordsLength := List.countP_eq_length_filter ▸ words
  have isBit : Entry.isBit ⟨name, kind, table.next kind⟩ = (kind == .bool) := rfl
  by_cases sort : kind = .bool
  · subst sort
    refine ⟨?_, ?_, ?_, ?_⟩ <;>
      simp only [Table.append, List.countP_append, List.countP_singleton, List.filter_append,
        List.filter_singleton, isBit, if_true, beq_self_eq_true, Bool.not_true,
        Bool.false_eq_true, if_false, cond_false, cond_true, List.append_nil]
    · rw [bits]
    · exact words
    · intro index entry found
      rcases getElem?_append_singleton found with earlier | ⟨rfl, rfl⟩
      · exact bit index entry earlier
      · rw [← bitsLength, next]
    · exact word
  · have isWord : (kind == .bool) = false := beq_false_of_ne sort
    refine ⟨?_, ?_, ?_, ?_⟩ <;>
      simp only [Table.append, List.countP_append, List.countP_singleton, List.filter_append,
        List.filter_singleton, isBit, isWord, if_neg sort, Bool.not_false, if_true,
        Bool.false_eq_true, if_false, cond_false, cond_true, List.append_nil]
    · exact bits
    · rw [words]
    · exact bit
    · intro index entry found
      rcases getElem?_append_singleton found with earlier | ⟨rfl, rfl⟩
      · exact word index entry earlier
      · rw [← wordsLength]
        cases kind with
        | bool => contradiction
        | int => rfl
        | time => rfl

theorem packed_declare (signals : List Signal) : (empty.declare signals).Packed := by
  induction signals using List.reverseRecOn with
  | nil => exact packed_empty
  | append_singleton before signal ih =>
      rcases declare_append_singleton before signal with ⟨-, same⟩ | ⟨-, grown⟩
      · rwa [same]
      · rw [grown]
        exact ih.append signal.name signal.kind

end Table

end Tag

end Pneumatic
