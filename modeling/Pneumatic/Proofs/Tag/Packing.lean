import Pneumatic.Program.Render
import Pneumatic.Proofs.Tag.Memory

/-!
# Packed addresses

A table is filled by calls that add one signal or the bindings of a component.  Whatever the
calls, every name has one address for good: the bits fill one byte after the other, words and
times lie a stride apart in one count, and no two names have the same written address.
-/

namespace Pneumatic

namespace Tag

/-- A call on a table: to add one signal, or the bindings of a component. -/
inductive Call where
  | push (name : String) (kind : Kind)
  | extend (bindings : List Binding)
  deriving Repr

/-- The signals that a call asks for, in order. -/
def Call.signals : Call → List Signal
  | .push name kind => [⟨name, kind⟩]
  | .extend bindings => bindings.map Binding.signal

/-! ## Written addresses -/

namespace Address

theorem text_injective : Function.Injective text := by
  intro left right same
  have reads := congrArg read? same
  rwa [read?_text, read?_text, Option.some.injEq] at reads

theorem text_bit (number : Nat) :
    (bit number).text = "%M" ++ decimal (number / 8) ++ "." ++ decimal (number % 8) := by
  rw [← String.toList_inj]
  simp [text, decimal]

theorem text_word (byte : Nat) : (word byte).text = "%MW" ++ decimal byte := by
  rw [← String.toList_inj]
  simp [text, decimal]

theorem text_double (byte : Nat) : (double byte).text = "%MD" ++ decimal byte := by
  rw [← String.toList_inj]
  simp [text, decimal]

end Address

namespace Table

/-- What a call makes of a table. -/
def call (table : Table) : Call → Table
  | .push name kind => table.push name kind
  | .extend bindings => table.extend bindings

/-- The table that calls fill, one after the other. -/
def after (calls : List Call) : Table :=
  calls.foldl call empty

theorem call_eq_declare (table : Table) (call : Call) :
    table.call call = table.declare call.signals := by
  cases call with
  | push name kind => exact table.push_eq_declare name kind
  | extend bindings => exact table.extend_eq_declare bindings

/-- Only the signals that calls ask for matter. -/
theorem after_eq_declare (calls : List Call) :
    after calls = empty.declare (calls.flatMap Call.signals) := by
  induction calls using List.reverseRecOn with
  | nil => rfl
  | append_singleton before call ih =>
      rw [after, List.foldl_append, List.foldl_cons, List.foldl_nil, ← after, ih, call_eq_declare,
        ← declare_append, List.flatMap_append, List.flatMap_singleton]

/-! ## One address for each name -/

variable {table : Table} {name : String} {kind : Kind}

/-- More signals leave the entries that there are. -/
theorem prefix_declare (table : Table) (signals : List Signal) :
    table.entries <+: (table.declare signals).entries := by
  induction signals using List.reverseRecOn with
  | nil => exact List.prefix_refl _
  | append_singleton before signal ih =>
      rw [declare_append, ← push_eq_declare]
      by_cases known : signal.name ∈ (table.declare before).entries.map (·.name)
      · rwa [push_of_mem known]
      · rw [push_of_not_mem known]
        exact ih.trans (List.prefix_append _ _)

/-- A signal that is added gets the address that is reported. -/
theorem exists_mem_push (table : Table) (name : String) (kind : Kind) :
    ∃ entry ∈ (table.push name kind).entries, entry.name = name ∧
      entry.address = table.addressOf name kind := by
  cases found : table.find? name with
  | some entry =>
      have isKnown : (table.find? name).isSome = true := by rw [found]; rfl
      refine ⟨entry, ?_, by simpa using List.find?_some found, by rw [addressOf, found]⟩
      rw [push, if_pos isKnown]
      exact List.mem_of_find?_eq_some found
  | none =>
      have isNew : ¬ (table.find? name).isSome = true := by rw [found]; exact Bool.false_ne_true
      refine ⟨⟨name, kind, table.next kind⟩, ?_, rfl, by rw [addressOf, found]⟩
      rw [push, if_neg isNew]
      exact List.mem_append_right _ (List.mem_singleton_self _)

namespace Packed

/-- Bits have different numbers, words different bytes, and no bit is a word. -/
theorem pairwise_ne (packed : table.Packed) :
    table.entries.Pairwise fun left right => left.address ≠ right.address := by
  rw [pairwise_iff_of_test (fun _ _ => Ne.symm) Entry.isBit]
  refine ⟨?_, ?_, ?_⟩
  · rw [List.pairwise_iff_getElem]
    intro left right leftInside rightInside before
    rw [packed.bit left _ (List.getElem?_eq_getElem leftInside),
      packed.bit right _ (List.getElem?_eq_getElem rightInside)]
    intro same
    exact Nat.ne_of_lt before (Address.bit.inj same)
  · rw [List.pairwise_iff_getElem]
    intro left right leftInside rightInside before
    rw [packed.word left _ (List.getElem?_eq_getElem leftInside),
      packed.word right _ (List.getElem?_eq_getElem rightInside), stride]
    split <;> split <;> simp <;> omega
  · intro left leftAmong right rightAmong
    obtain ⟨index, leftHere⟩ := List.mem_iff_getElem?.mp leftAmong
    obtain ⟨place, rightHere⟩ := List.mem_iff_getElem?.mp rightAmong
    rw [packed.bit index left leftHere, packed.word place right rightHere]
    split <;> simp

theorem nodup_addresses (packed : table.Packed) :
    (table.declarations.map (·.address)).Nodup := by
  rw [declarations, List.map_map, List.Nodup, List.pairwise_map]
  refine packed.pairwise_ne.imp ?_
  intro left right differ same
  exact differ (Address.text_injective same)

end Packed

theorem filter_declarations (test : Kind → Bool) (table : Table) :
    table.declarations.filter (fun declaration => test declaration.kind) =
      (table.entries.filter fun entry => test entry.kind).map
        fun entry => ⟨entry.name, entry.kind, entry.address.text⟩ := by
  rw [declarations, List.filter_map]
  rfl

/-- The bit at a place among the bits, by its written address. -/
theorem Packed.address_of_bit (packed : table.Packed) {place : Nat} {declaration : Declaration}
    (here : (table.declarations.filter fun declaration => declaration.kind == .bool)[place]? =
      some declaration) :
    declaration.address = "%M" ++ decimal (place / 8) ++ "." ++ decimal (place % 8) := by
  rw [filter_declarations (· == .bool), List.getElem?_map, Option.map_eq_some_iff] at here
  obtain ⟨entry, found, rfl⟩ := here
  rw [packed.bit place entry found, Address.text_bit]

/-- The word at a place among the words, by its written address. -/
theorem Packed.address_of_word (packed : table.Packed) {place : Nat} {declaration : Declaration}
    (here : (table.declarations.filter fun declaration => !declaration.kind == .bool)[place]? =
      some declaration) :
    declaration.address = (if declaration.kind = .int then "%MW" else "%MD") ++
      decimal (100 * (place + 1)) := by
  rw [filter_declarations (fun kind => !kind == .bool), List.getElem?_map,
    Option.map_eq_some_iff] at here
  obtain ⟨entry, found, rfl⟩ := here
  rw [packed.word place entry found, Nat.mul_comm 100, stride]
  split
  · exact Address.text_word _
  · exact Address.text_double _

/-- A call that adds a signal reports the address that the table has for its name in the end. -/
theorem exists_declaration_of_push (before behind : List Call) (name : String) (kind : Kind) :
    ∃ declaration ∈ (after (before ++ .push name kind :: behind)).declarations,
      declaration.name = name ∧
        declaration.address = ((after before).addressOf name kind).text := by
  obtain ⟨entry, pushed, named, address⟩ := exists_mem_push (after before) name kind
  have kept : (after (before ++ .push name kind :: behind)).entries =
      (((after before).push name kind).declare (behind.flatMap Call.signals)).entries := by
    rw [after_eq_declare, after_eq_declare before, push_eq_declare, ← declare_append,
      ← declare_append, List.flatMap_append, List.flatMap_cons]
    rfl
  refine ⟨⟨entry.name, entry.kind, entry.address.text⟩, ?_, named, by rw [address]⟩
  rw [declarations, kept]
  exact List.mem_map_of_mem ((prefix_declare _ _).subset pushed)

/-- A call that adds a known name changes nothing. -/
theorem after_push_of_mem {before : List Call}
    (known : name ∈ (before.flatMap Call.signals).map (·.name)) (kind : Kind) :
    after (before ++ [.push name kind]) = after before := by
  have listed : name ∈ (after before).entries.map (·.name) := by
    rwa [after_eq_declare, names_declare, List.mem_eraseDups]
  rw [after, List.foldl_append, ← after]
  exact push_of_mem listed kind

/-- No more bits and words are in use than signals were asked for. -/
theorem length_declare_le (signals : List Signal) :
    (empty.declare signals).bits + (empty.declare signals).words ≤ signals.length := by
  induction signals using List.reverseRecOn with
  | nil => exact Nat.le_refl _
  | append_singleton before signal ih =>
      rw [List.length_append, List.length_singleton]
      rcases declare_append_singleton before signal with ⟨-, same⟩ | ⟨-, grown⟩
      · rw [same]
        omega
      · rw [grown]
        simp only [append]
        split <;> omega

/-- The addresses of a table after any calls.  It lists every name once, where it was asked for
first and with the kind it was asked for first.  Bits are packed eight to a byte, and words and
times are counted together, a hundred bytes apart.  Every call that adds a signal reports the
address that the table has for its name, and changes nothing if the name is known.  No address is
given twice.  The counters of a table fit a word of 32 bits if so many signals do. -/
theorem addresses_of_calls (calls : List Call) :
    (after calls).declarations.map (·.name) =
      ((calls.flatMap Call.signals).map (·.name)).eraseDups ∧
    (∀ declaration ∈ (after calls).declarations,
      (calls.flatMap Call.signals).find? (·.name == declaration.name) =
        some ⟨declaration.name, declaration.kind⟩) ∧
    (∀ place declaration,
      ((after calls).declarations.filter fun declaration => declaration.kind == .bool)[place]? =
        some declaration →
      declaration.address = "%M" ++ decimal (place / 8) ++ "." ++ decimal (place % 8)) ∧
    (∀ place declaration,
      ((after calls).declarations.filter fun declaration => !declaration.kind == .bool)[place]? =
        some declaration →
      declaration.address = (if declaration.kind = .int then "%MW" else "%MD") ++
        decimal (100 * (place + 1))) ∧
    (∀ before name kind behind, calls = before ++ .push name kind :: behind →
      (∃ declaration ∈ (after calls).declarations, declaration.name = name ∧
        declaration.address = ((after before).addressOf name kind).text) ∧
      (name ∈ (before.flatMap Call.signals).map (·.name) →
        after (before ++ [.push name kind]) = after before)) ∧
    ((after calls).declarations.map (·.address)).Nodup ∧
    (100 * (calls.flatMap Call.signals).length < 2 ^ 32 →
      (after calls).bits < 2 ^ 32 ∧ (after calls).words * stride < 2 ^ 32) := by
  have packed : (after calls).Packed := by
    rw [after_eq_declare]
    exact packed_declare _
  refine ⟨?_, ?_, fun place declaration => packed.address_of_bit,
    fun place declaration => packed.address_of_word, ?_, packed.nodup_addresses, ?_⟩
  · rw [declarations, List.map_map, after_eq_declare]
    exact names_declare _
  · intro declaration among
    obtain ⟨entry, listed, rfl⟩ := List.mem_map.mp among
    rw [after_eq_declare] at listed
    exact find?_of_mem_declare listed
  · rintro before name kind behind rfl
    exact ⟨exists_declaration_of_push before behind name kind,
      fun known => after_push_of_mem known kind⟩
  · intro few
    have used := length_declare_le (calls.flatMap Call.signals)
    rw [← after_eq_declare] at used
    rw [stride]
    omega

/-- A name that comes again keeps its address, whatever the type it comes with. -/
example :
    (after [.push "elapsed" .time, .push "count" .int, .push "flag" .bool,
      .push "count" .bool]).declarations.map (·.address) = ["%MD100", "%MW200", "%M0.0"] := by
  decide +kernel

end Table

end Tag

end Pneumatic
