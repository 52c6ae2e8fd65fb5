import Pneumatic.Proofs.Notation.Normal
import Pneumatic.Proofs.Program.Uses
import Pneumatic.Proofs.Tag.Memory

/-!
# The memory of a program

The signals of a program lie in one memory.  They are apart as long as the bits of the program
end before its first word begins, and only then.  Every actuator takes four bits and every timer
two, so a sequence of enough timers has signals that share memory.
-/

namespace Pneumatic

open Tag (Naming Signal Table Address Entry)

/-- The bits of memory that a signal occupies, by its written address. -/
def Declaration.bits (declaration : Declaration) : List Nat :=
  ((Address.read? declaration.address).map Address.bits).getD []

/-- An address is that of a cell of the size that a type needs. -/
def Tag.Address.Fits : Address → Tag.Kind → Prop
  | .bit _, .bool => True
  | .word _, .int => True
  | .double _, .time => True
  | _, _ => False

/-- The name and type of a declaration. -/
def Declaration.signal (declaration : Declaration) : Signal :=
  ⟨declaration.name, declaration.kind⟩

/-! ## Counting the bits -/

namespace Sequence

variable {sequence : Sequence}

/-- Different components have different automatic names for their signals. -/
theorem nodup_names_flatMap_roles {ids : List ComponentId} (distinct : ids.Nodup) :
    ((ids.flatMap fun id => id.roles.map (Tag.Role.signal id)).map (·.name)).Nodup := by
  rw [List.map_flatMap, List.nodup_flatMap]
  constructor
  · intro id among
    rw [List.map_map]
    refine List.Nodup.map_on ?_ (List.Nodup.filter _ (by decide))
    intro role applies role' applies' same
    exact (Tag.Role.autoName_injective (ComponentId.appliesTo_of_mem_roles applies)
      (ComponentId.appliesTo_of_mem_roles applies') same).1
  · refine distinct.imp ?_
    intro id id' apart name here there
    simp only [List.map_map, List.mem_map, Function.comp_apply] at here there
    obtain ⟨role, applies, rfl⟩ := here
    obtain ⟨role', applies', same⟩ := there
    exact apart (Tag.Role.autoName_injective (ComponentId.appliesTo_of_mem_roles applies)
      (ComponentId.appliesTo_of_mem_roles applies') same.symm).2

/-- No two signals of a sequence have one automatic name. -/
theorem nodup_names {ids : List ComponentId} (distinct : ids.Nodup) :
    (((ids.flatMap fun id => id.roles.map (Tag.Role.signal id)) ++
      sequence.runVariables).map (·.name)).Nodup := by
  rw [List.map_append, List.nodup_append]
  refine ⟨nodup_names_flatMap_roles distinct, ?_, ?_⟩
  · rw [runVariables]
    split <;> simp [Tag.timerVariable, Tag.repeatVariable]
  · intro name here other there same
    simp only [List.mem_map, List.mem_flatMap] at here there
    obtain ⟨-, ⟨id, -, role, applies, rfl⟩, rfl⟩ := here
    obtain ⟨signal, ofRun, rfl⟩ := there
    exact name_ne_of_runVariables (ComponentId.appliesTo_of_mem_roles applies) ofRun same

end Sequence

/-- An actuator has four signals that are bits, a timer has two, and a counter has none. -/
theorem ComponentId.countP_roles (id : ComponentId) :
    (id.roles.map (Tag.Role.signal id)).countP (·.kind == .bool) =
      4 * (if id.kind == .actuator then 1 else 0) + 2 * (if id.timer?.isSome then 1 else 0) := by
  cases id <;> rfl

theorem Sequence.countP_runVariables (sequence : Sequence) :
    sequence.runVariables.countP (·.kind == .bool) = 0 := by
  rw [runVariables]
  split <;> rfl

theorem countP_flatMap_roles (ids : List ComponentId) :
    (ids.flatMap fun id => id.roles.map (Tag.Role.signal id)).countP (·.kind == .bool) =
      4 * ids.countP (·.kind == .actuator) + 2 * ids.countP (·.timer?.isSome) := by
  induction ids with
  | nil => rfl
  | cons id rest ih =>
      rw [List.flatMap_cons, List.countP_append, ih, ComponentId.countP_roles, List.countP_cons,
        List.countP_cons]
      omega

namespace Program

variable {sequence : Sequence} {project : Option Project} {program : Program}

/-- With automatic names, a program declares every signal of every component, and the variables of
the run. -/
theorem signals_of_compile (compiled : compile sequence none = .ok program) :
    program.tags.map Declaration.signal =
      ((sequence.inventory.map (·.id)).flatMap fun id => id.roles.map (Tag.Role.signal id)) ++
        sequence.runVariables := by
  obtain ⟨⟨components, named, -, tags⟩, -⟩ := exists_components_of_compile compiled
  have distinct : (sequence.inventory.map (·.id)).Nodup := by
    rw [Sequence.map_id_inventory]
    exact nodup_eraseDups _
  rw [← Sequence.map_id_inventory] at named
  have signals := flatMap_of_mapM named fun _ _ => Naming.signals_of_component?
  rw [tags, signals, Table.declarations, List.map_map]
  exact Table.signals_declare (Sequence.nodup_names distinct)

/-- With automatic names, there are four bits for each actuator and two for each timer. -/
theorem countP_bool_of_compile (compiled : compile sequence none = .ok program) :
    program.tags.countP (·.kind == .bool) =
      4 * sequence.inventory.countP (·.id.kind == .actuator) + 2 * sequence.delays.length := by
  have timers : (sequence.inventory.map (·.id)).countP (·.timer?.isSome) =
      sequence.delays.length := by
    have length := congrArg List.length sequence.timers_inventory
    rw [List.length_range', List.length_filterMap_eq_countP] at length
    rw [List.countP_map]
    exact length
  calc program.tags.countP (·.kind == .bool)
    _ = (program.tags.map Declaration.signal).countP (·.kind == .bool) := by
        rw [List.countP_map]
        rfl
    _ = 4 * (sequence.inventory.map (·.id)).countP (·.kind == .actuator) +
          2 * (sequence.inventory.map (·.id)).countP (·.timer?.isSome) := by
        rw [signals_of_compile compiled, List.countP_append, countP_flatMap_roles,
          Sequence.countP_runVariables, Nat.add_zero]
    _ = _ := by
        rw [timers, List.countP_map]
        rfl

/-! ## Apart or not -/

/-- An address fits the type of its signal. -/
theorem fits_of_packed {table : Table} (packed : table.Packed) {entry : Entry}
    (among : entry ∈ table.entries) : entry.address.Fits entry.kind := by
  cases kind : entry.kind with
  | bool =>
      have inBits : entry ∈ table.entries.filter Entry.isBit :=
        List.mem_filter.mpr ⟨among, by rw [Entry.isBit, kind]; rfl⟩
      obtain ⟨index, here⟩ := List.mem_iff_getElem?.mp inBits
      rw [packed.bit index entry here]
      trivial
  | int | time =>
      have inWords : entry ∈ table.entries.filter fun entry => !entry.isBit :=
        List.mem_filter.mpr ⟨among, by rw [Entry.isBit, kind]; rfl⟩
      obtain ⟨index, here⟩ := List.mem_iff_getElem?.mp inWords
      rw [packed.word index entry here, kind]
      trivial

/-- The declarations of a table share no memory as long as its bits end before its first word
begins. -/
theorem pairwise_declarations_iff {table : Table} (packed : table.Packed) :
    (table.declarations.Pairwise fun left right => left.bits.Disjoint right.bits) ↔
      (∀ declaration ∈ table.declarations, declaration.kind = .bool) ∨
        table.declarations.countP (·.kind == .bool) ≤ 800 := by
  have bits (entry : Entry) :
      (Declaration.mk entry.name entry.kind entry.address.text).bits = entry.address.bits := by
    rw [Declaration.bits, Address.read?_text]
    rfl
  have count : table.declarations.countP (·.kind == .bool) = table.bits := by
    rw [packed.bits, Table.declarations, List.countP_map]
    rfl
  have noWord : (∀ declaration ∈ table.declarations, declaration.kind = .bool) ↔
      table.words = 0 := by
    rw [packed.words, List.countP_eq_zero, Table.declarations, List.forall_mem_map]
    simp [Entry.isBit]
  rw [count, noWord, Table.declarations, List.pairwise_map]
  simp only [bits]
  exact packed.apart_iff

theorem exists_table_of_compile (compiled : compile sequence project = .ok program) :
    ∃ table : Table, table.Packed ∧ program.tags = table.declarations := by
  obtain ⟨⟨components, -, -, tags⟩, -⟩ := exists_components_of_compile compiled
  exact ⟨_, Table.packed_declare _, tags⟩

/-- Every signal has the address of a cell of its size.  No two signals have a bit of memory in
common exactly if the program declares bits only, or at most 800 of them; with automatic names it
declares four for every actuator and two for every timer. -/
theorem apart_iff_bits_fit (compiled : compile sequence project = .ok program) :
    (∀ declaration ∈ program.tags, ∃ address,
      Address.read? declaration.address = some address ∧ address.Fits declaration.kind) ∧
    ((program.tags.Pairwise fun left right => left.bits.Disjoint right.bits) ↔
      (∀ declaration ∈ program.tags, declaration.kind = .bool) ∨
        program.tags.countP (·.kind == .bool) ≤ 800) ∧
    (project = none → program.tags.countP (·.kind == .bool) =
      4 * sequence.inventory.countP (·.id.kind == .actuator) + 2 * sequence.delays.length) := by
  obtain ⟨table, packed, tags⟩ := exists_table_of_compile compiled
  refine ⟨?_, ?_, ?_⟩
  · rw [tags]
    intro declaration among
    obtain ⟨entry, listed, rfl⟩ := List.mem_map.mp among
    exact ⟨entry.address, Address.read?_text _, fits_of_packed packed listed⟩
  · rw [tags]
    exact pairwise_declarations_iff packed
  · rintro rfl
    exact countP_bool_of_compile compiled

/-- One actuator, a timer and a counter. -/
theorem apart_iff_bits_fit_small :
    ∃ sequence program, Sequence.parse "A+,[(A-,TS),A+]^N" = .ok sequence ∧
      compile sequence none = .ok program ∧ program.tags.countP (·.kind == .bool) = 6 ∧
      program.tags.Pairwise fun left right => left.bits.Disjoint right.bits := by
  have accepted : ((Sequence.parse "A+,[(A-,TS),A+]^N").toOption.any fun sequence =>
      sequence.firstPressure?.isNone && sequence.openingRetraction?.isNone &&
        sequence.inventory.countP (·.id.kind == .actuator) == 1 &&
        sequence.delays.length == 1) = true := by decide +kernel
  obtain ⟨sequence, parsed, accepted⟩ := any_toOption_iff.mp accepted
  simp only [Bool.and_eq_true, Option.isNone_iff_eq_none, beq_iff_eq] at accepted
  obtain ⟨⟨⟨noPressure, noRetraction⟩, actuators⟩, timers⟩ := accepted
  obtain ⟨program, compiled⟩ := exists_compile noPressure noRetraction
  obtain ⟨-, apart, count⟩ := apart_iff_bits_fit compiled
  have six := count rfl
  rw [actuators, timers] at six
  exact ⟨sequence, program, parsed, compiled, six, apart.mpr (.inr (by omega))⟩

end Program

/-! ### Signals that share memory -/

theorem Grammar.mem_of_mem_joined {texts : List (List Char)} {c : Char}
    (among : c ∈ joined texts) : c = ',' ∨ ∃ text ∈ texts, c ∈ text := by
  induction texts with
  | nil => contradiction
  | cons text rest ih =>
      cases rest with
      | nil =>
          rw [joined_singleton] at among
          exact .inr ⟨text, List.mem_singleton_self text, among⟩
      | cons next more =>
          rw [joined_cons (List.cons_ne_nil next more), List.mem_append, List.mem_cons] at among
          rcases among with here | rfl | later
          · exact .inr ⟨text, List.mem_cons_self, here⟩
          · exact .inl rfl
          · rcases ih later with isComma | ⟨found, inRest, here⟩
            · exact .inl isComma
            · exact .inr ⟨found, List.mem_cons_of_mem _ inRest, here⟩

namespace Sequence

/-- The delay of a timer of one second. -/
def second : Delay := .fixed ⟨1_000_000_000, by decide⟩

/-- A sequence of timers of one second each. -/
def seconds (count : Nat) : Sequence where
  source := String.ofList (Grammar.joined (List.replicate count ['1', 'S']))
  nodes := (List.replicate count (.single (.timer second))).map Node.step
  wrapped := false

theorem parse_seconds (count : Nat) :
    parse (seconds (count + 1)).source = .ok (seconds (count + 1)) := by
  have plain : ∀ c ∈ Grammar.joined (List.replicate (count + 1) ['1', 'S']),
      Text.isBlank c = false ∧ Text.upperCase c = [c] := by
    intro c among
    have cases : c = ',' ∨ c ∈ ['1', 'S'] := by
      refine (Grammar.mem_of_mem_joined among).imp_right ?_
      rintro ⟨text, isText, inside⟩
      rwa [List.eq_of_mem_replicate isText] at inside
    simp only [List.mem_cons, List.not_mem_nil, or_false] at cases
    rcases cases with rfl | rfl | rfl <;> decide +kernel
  have normal := Fragment.normalize_of_settled plain
  have spells : Grammar.Spells ['1', 'S'] (.timer second) := by
    unfold Grammar.Spells
    decide +kernel
  have items (count : Nat) : List.Forall₂ Grammar.Item (List.replicate count ['1', 'S'])
      ((List.replicate count (.single (.timer second))).map Node.step) := by
    induction count with
    | zero => exact .nil
    | succ count ih => exact .cons (.unit (.token spells)) ih
  rw [parse_eq_ok_iff_whole]
  refine ⟨normal.symm, (seconds (count + 1)).nodes, ?_, .plain ?_⟩
  · simp only [seconds, normal, String.toList_ofList]
    exact .items (items (count + 1)) (by simp)
  · intro steps equal
    simp [seconds, List.replicate_succ] at equal

theorem steps_seconds (count : Nat) :
    (seconds count).steps = List.replicate count (.single (.timer second)) := by
  rw [steps, seconds, Grammar.stepsOf_map_step]

theorem tokens_seconds (count : Nat) :
    (seconds count).tokens = List.replicate count (.timer second) := by
  rw [tokens, steps_seconds, List.flatMap_replicate]
  exact List.flatten_replicate_singleton

theorem delays_seconds (count : Nat) : (seconds count).delays.length = count := by
  have timed : Token.delay? (.timer second) = some second := rfl
  rw [delays, tokens_seconds, List.filterMap_replicate_of_some timed, List.length_replicate]

end Sequence

namespace Program

variable {sequence : Sequence} {program : Program}

/-- Too many timers share memory, whatever else a sequence does. -/
theorem not_apart_of_timers (compiled : compile sequence none = .ok program)
    (many : 400 < sequence.delays.length) :
    ¬ program.tags.Pairwise fun left right => left.bits.Disjoint right.bits := by
  obtain ⟨table, packed, tags⟩ := exists_table_of_compile compiled
  have count := countP_bool_of_compile compiled
  have signals := signals_of_compile compiled
  rw [tags] at count signals ⊢
  rw [pairwise_declarations_iff packed]
  rintro (bitsOnly | few)
  · have first : .timer 1 ∈ sequence.inventory.map (·.id) := by
      have numbered : 1 ∈ List.range' 1 sequence.delays.length := by
        rw [List.mem_range'_1]
        omega
      rw [← sequence.timers_inventory, List.mem_filterMap] at numbered
      obtain ⟨component, among, isTimer⟩ := numbered
      rw [← ComponentId.timer?_eq_some_iff.mp isTimer]
      exact List.mem_map_of_mem among
    have elapsed : Tag.Role.timerElapsed.signal (.timer 1) ∈
        table.declarations.map Declaration.signal := by
      rw [signals, List.mem_append, List.mem_flatMap]
      exact .inl ⟨_, first, List.mem_map_of_mem (by decide)⟩
    obtain ⟨declaration, among, signalEq⟩ := List.mem_map.mp elapsed
    have kind : declaration.kind = .time := congrArg Signal.kind signalEq
    rw [bitsOnly declaration among] at kind
    contradiction
  · omega

/-- Four hundred and one timers of a second share memory. -/
theorem not_apart_of_seconds :
    ∃ sequence program,
      Sequence.parse (String.ofList (Grammar.joined (List.replicate 401 ['1', 'S']))) =
        .ok sequence ∧
      compile sequence none = .ok program ∧
      ¬ program.tags.Pairwise fun left right => left.bits.Disjoint right.bits := by
  have noPressure : (Sequence.seconds 401).firstPressure? = none := by
    rw [Sequence.firstPressure?, Sequence.tokens_seconds, List.find?_eq_none]
    intro token among
    rw [List.eq_of_mem_replicate among]
    exact Bool.false_ne_true
  have noActuation : (Sequence.seconds 401).firstActuationStep? = none := by
    rw [Sequence.firstActuationStep?, Sequence.steps_seconds, List.find?_eq_none]
    intro step among
    rw [List.eq_of_mem_replicate among]
    exact Bool.false_ne_true
  have noRetraction : (Sequence.seconds 401).openingRetraction? = none := by
    rw [Sequence.openingRetraction?, noActuation]
    rfl
  obtain ⟨program, compiled⟩ := exists_compile noPressure noRetraction
  refine ⟨Sequence.seconds 401, program, Sequence.parse_seconds 400, compiled, ?_⟩
  refine not_apart_of_timers compiled ?_
  rw [Sequence.delays_seconds]
  decide

end Program

end Pneumatic
