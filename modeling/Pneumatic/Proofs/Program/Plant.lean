import Pneumatic.Proofs.Program.Build

/-!
# Programs in a plant

A program runs scan by scan: the body of the active case runs, and the case is left once its
guard is met.  The signals of the guard come from the plant.  In an ideal plant every
actuator is at the end it was last commanded to, and every timer with power is done.
-/

namespace Pneumatic

/-- The direction in which a coil assignment moves an actuator. -/
def Memory.moves (label : Char) (assignment : String × Bool) : Option Direction :=
  if assignment = (Tag.coil label .extend, true) then some .extend
  else if assignment = (Tag.coil label .retract, true) then some .retract
  else none

/-- The direction in which an actuator was last commanded. -/
def Memory.commanded (memory : Memory) (label : Char) : Option Direction :=
  memory.bits.findSome? (moves label)

/-- A plant without delays: each end sensor shows the last command, and each timer is done
exactly if it has power. -/
structure Plant.Ideal (plant : Memory → String → Bool) : Prop where
  sensor : ∀ memory label direction,
    plant memory ((Tag.Actuator.auto label).sensor direction) = true ↔
      memory.commanded label = some direction
  done : ∀ memory number,
    plant memory (Tag.Timer.auto number).done = memory.bit (Tag.Timer.auto number).power

/-- There is an ideal plant, since no signal has two names. -/
theorem Plant.exists_ideal : ∃ plant, Ideal plant := by
  classical
  refine ⟨fun memory signal => decide
    ((∃ label direction, signal = (Tag.Actuator.auto label).sensor direction ∧
        memory.commanded label = some direction) ∨
      ∃ number, signal = (Tag.Timer.auto number).done ∧
        memory.bit (Tag.Timer.auto number).power = true), ?_, ?_⟩
  · intro memory label direction
    rw [decide_eq_true_iff]
    constructor
    · rintro (⟨other, direction', same, commanded⟩ | ⟨number, same, -⟩)
      · obtain ⟨rfl, rfl⟩ := Tag.sensor_injective same
        exact commanded
      · exact absurd same (Tag.sensor_ne_done label direction number)
    · intro commanded
      exact .inl ⟨label, direction, rfl, commanded⟩
  · intro memory number
    rw [Bool.eq_iff_iff, decide_eq_true_iff]
    constructor
    · rintro (⟨label, direction, same, -⟩ | ⟨other, same, powered⟩)
      · exact absurd same.symm (Tag.sensor_ne_done label direction number)
      · rw [Tag.done_injective same]
        exact powered
    · intro powered
      exact .inr ⟨number, rfl, powered⟩

/-- Whether the guard of a case is met. -/
def Case.isMet (plant : Memory → String → Bool) (case : Case) (memory : Memory) : Bool :=
  case.waits.all (plant memory)

/-- One scan: run the body of the active case, and leave the case if its guard is met. -/
def Program.scan (program : Program) (plant : Memory → String → Bool) :
    Nat × Memory → Nat × Memory
  | (active, memory) =>
      match program.case? active with
      | none => (active, memory)
      | some case =>
          let after := Instruction.runAll case.body memory
          if case.isMet plant after then case.next.take (Instruction.runAll case.onExit after)
          else (active, after)

namespace Instruction

/-- The bits that instructions assign are those of their assignments. -/
theorem mem_bits {instructions : List Instruction} {tag : String} {value : Bool} :
    (tag, value) ∈ bits instructions ↔ .setBool tag value ∈ instructions := by
  induction instructions with
  | nil => simp [bits]
  | cons instruction rest ih =>
      rw [bits] at ih ⊢
      cases instruction <;> simp [ih]

end Instruction

/-- Where every hit is the same, the first one is. -/
theorem findSome?_eq_some_of_forall {α β : Type} {list : List α} {hit : α → Option β} {value : β}
    (isHit : ∃ element ∈ list, hit element = some value)
    (same : ∀ element ∈ list, ∀ found, hit element = some found → found = value) :
    list.findSome? hit = some value := by
  cases found : list.findSome? hit with
  | none =>
      obtain ⟨element, membership, hits⟩ := isHit
      have misses := List.findSome?_eq_none_iff.mp found element membership
      rw [misses] at hits
      contradiction
  | some other =>
      obtain ⟨element, membership, hits⟩ := List.exists_of_findSome?_eq_some found
      rw [same element membership other hits]

namespace Memory

variable {memory : Memory} {instructions : List Instruction} {label : Char}
  {direction : Direction} {tag : String} {value : Bool}

theorem commanded_runAll (instructions : List Instruction) (memory : Memory) (label : Char) :
    (Instruction.runAll instructions memory).commanded label =
      ((Instruction.bits instructions).reverse.findSome? (moves label)).or
        (memory.commanded label) := by
  rw [commanded, Instruction.bits_runAll, List.findSome?_append]
  rfl

/-- Instructions that move an actuator in one direction leave it commanded so. -/
theorem commanded_of_moves
    (moved : ∃ assignment ∈ Instruction.bits instructions,
      moves label assignment = some direction)
    (same : ∀ assignment ∈ Instruction.bits instructions, ∀ found,
      moves label assignment = some found → found = direction) :
    (Instruction.runAll instructions memory).commanded label = some direction := by
  have first : (Instruction.bits instructions).reverse.findSome? (moves label) = some direction :=
    findSome?_eq_some_of_forall (by simpa using moved) (by simpa using same)
  rw [commanded_runAll, first, Option.some_or]

/-- Instructions that do not move an actuator leave it as it was commanded. -/
theorem commanded_of_still
    (still : ∀ assignment ∈ Instruction.bits instructions, moves label assignment = none) :
    (Instruction.runAll instructions memory).commanded label = memory.commanded label := by
  have absent : (Instruction.bits instructions).reverse.findSome? (moves label) = none := by
    simpa [List.findSome?_eq_none_iff] using still
  rw [commanded_runAll, absent, Option.none_or]

theorem bit_runAll (instructions : List Instruction) (memory : Memory) (tag : String) :
    (Instruction.runAll instructions memory).bit tag =
      (((Instruction.bits instructions).reverse.lookup tag).or (memory.bits.lookup tag)).getD
        false := by
  rw [bit, Instruction.bits_runAll, List.lookup_append]

/-- Instructions that only ever assign one value to a bit leave it with this value. -/
theorem bit_of_assigned
    (assigned : Instruction.setBool tag value ∈ instructions)
    (same : ∀ found, Instruction.setBool tag found ∈ instructions → found = value) :
    (Instruction.runAll instructions memory).bit tag = value := by
  have first : (Instruction.bits instructions).reverse.lookup tag = some value := by
    rw [List.lookup_eq_findSome?]
    apply findSome?_eq_some_of_forall
    · exact ⟨(tag, value), by simpa using Instruction.mem_bits.mpr assigned, by simp⟩
    · rintro ⟨name, other⟩ membership found hits
      have inside : Instruction.setBool name other ∈ instructions := by
        simpa [Instruction.mem_bits] using membership
      simp only at hits
      split at hits
      · next equal =>
          obtain rfl := beq_iff_eq.mp equal
          obtain rfl := Option.some.inj hits
          exact same other inside
      · contradiction
  rw [bit_runAll, first]
  rfl

/-- Instructions that do not assign to a bit leave it as it was. -/
theorem bit_of_unassigned
    (unassigned : ∀ found, Instruction.setBool tag found ∉ instructions) :
    (Instruction.runAll instructions memory).bit tag = memory.bit tag := by
  have absent : (Instruction.bits instructions).reverse.lookup tag = none := by
    rw [List.lookup_eq_none_iff]
    rintro ⟨name, value⟩ membership
    have inside : Instruction.setBool name value ∈ instructions := by
      simpa [Instruction.mem_bits] using membership
    simp only [bne_iff_ne, ne_eq]
    rintro rfl
    exact unassigned value inside
  rw [bit_runAll, absent, Option.none_or, bit]

end Memory

/-! ## What a case commands -/

namespace Memory

theorem moves_eq_some {label : Char} {assignment : String × Bool} {direction : Direction} :
    moves label assignment = some direction ↔ assignment = (Tag.coil label direction, true) := by
  unfold moves
  split
  · next extending =>
      subst extending
      simp only [Option.some.injEq, Prod.mk.injEq, and_true]
      exact ⟨fun equal => by rw [equal], fun equal => (Tag.coil_injective equal).2⟩
  · next other =>
      cases direction with
      | extend => simp [other]
      | retract => simp

end Memory

namespace Part

variable {parts : List Part} {memory : Memory} {label : Char} {direction : Direction}
  {number : Nat}

/-- The assignments of the parts of a step that switch on a coil or the power of a timer. -/
theorem setBool_mem_body {part : Part} (runs : part.Runs) {tag : String} {value : Bool} :
    .setBool tag value ∈ part.body ↔
      (∃ actuation, part.token = .actuation actuation ∧
        (tag, value) ∈ (Tag.Actuator.auto actuation.label).command actuation.direction) ∨
      ∃ number, part.component = .timer number ∧ tag = (Tag.Timer.auto number).power ∧
        value = true := by
  cases runs with
  | actuation actuation => simp [body, Program.Builder.assign]
  | timer delay number => simp [body]

/-- What the parts of a step assign to bits. -/
theorem setBool_mem_flatMap_body (runs : ∀ part ∈ parts, part.Runs) {tag : String} {value : Bool} :
    .setBool tag value ∈ parts.flatMap body ↔
      (∃ actuation ∈ (parts.map (·.token)).filterMap Token.actuation?,
        (tag, value) ∈ (Tag.Actuator.auto actuation.label).command actuation.direction) ∨
      ∃ number, .timer number ∈ parts.map (·.component) ∧ tag = (Tag.Timer.auto number).power ∧
        value = true := by
  induction parts with
  | nil => simp
  | cons part rest ih =>
      rw [List.forall_mem_cons] at runs
      rw [List.flatMap_cons, List.mem_append, ih runs.2, setBool_mem_body runs.1]
      cases runs.1 with
      | actuation actuation => simp [Token.actuation?, or_assoc]
      | timer delay number =>
          have silent : Token.actuation? (.timer delay) = none := rfl
          rw [List.map_cons, List.filterMap_cons_none silent]
          simp [or_left_comm]

/-- The parts of a step switch on the coils of its actuations. -/
theorem coil_mem_flatMap_body (runs : ∀ part ∈ parts, part.Runs) :
    .setBool (Tag.coil label direction) true ∈ parts.flatMap body ↔
      ∃ actuation ∈ (parts.map (·.token)).filterMap Token.actuation?,
        actuation.label = label ∧ actuation.direction = direction := by
  rw [setBool_mem_flatMap_body runs]
  simp only [Tag.coil_mem_command, Tag.coil_ne_power, false_and, and_false, exists_false, or_false]
  simp only [eq_comm]

/-- The parts of a step give power to its timers. -/
theorem power_mem_flatMap_body (runs : ∀ part ∈ parts, part.Runs) {value : Bool} :
    .setBool (Tag.Timer.auto number).power value ∈ parts.flatMap body ↔
      .timer number ∈ parts.map (·.component) ∧ value = true := by
  rw [setBool_mem_flatMap_body runs]
  constructor
  · rintro (⟨actuation, -, ofCommand⟩ | ⟨other, among, same, isTrue⟩)
    · have isCoil := Tag.isCoil_command actuation _ ofCommand
      rw [show Tag.isCoil (Tag.Timer.auto number).power = false from Tag.isCoil_autoName rfl]
        at isCoil
      contradiction
    · rw [Tag.power_injective same]
      exact ⟨among, isTrue⟩
  · rintro ⟨among, isTrue⟩
    exact .inr ⟨number, among, rfl, isTrue⟩

/-- After the body of a step that moves an actuator one way, it is commanded so. -/
theorem commanded_of_mem (runs : ∀ part ∈ parts, part.Runs) {actuation : Actuation}
    (among : actuation ∈ (parts.map (·.token)).filterMap Token.actuation?)
    (oneWay : ∀ other ∈ (parts.map (·.token)).filterMap Token.actuation?,
      other.label = actuation.label → other.direction = actuation.direction) :
    (Instruction.runAll (parts.flatMap body) memory).commanded actuation.label =
      some actuation.direction := by
  apply Memory.commanded_of_moves
  · refine ⟨(Tag.coil actuation.label actuation.direction, true), ?_, Memory.moves_eq_some.mpr rfl⟩
    exact Instruction.mem_bits.mpr ((coil_mem_flatMap_body runs).mpr ⟨actuation, among, rfl, rfl⟩)
  · intro assignment membership found moved
    obtain rfl := Memory.moves_eq_some.mp moved
    obtain ⟨other, otherAmong, labels, rfl⟩ :=
      (coil_mem_flatMap_body runs).mp (Instruction.mem_bits.mp membership)
    exact oneWay other otherAmong labels

/-- The body of a step leaves the actuators of other steps as they were commanded. -/
theorem commanded_of_not_mem (runs : ∀ part ∈ parts, part.Runs)
    (absent : ∀ actuation ∈ (parts.map (·.token)).filterMap Token.actuation?,
      actuation.label ≠ label) :
    (Instruction.runAll (parts.flatMap body) memory).commanded label =
      memory.commanded label := by
  apply Memory.commanded_of_still
  intro assignment membership
  cases moved : Memory.moves label assignment with
  | none => rfl
  | some direction =>
      obtain rfl := Memory.moves_eq_some.mp moved
      obtain ⟨actuation, among, labels, -⟩ :=
        (coil_mem_flatMap_body runs).mp (Instruction.mem_bits.mp membership)
      exact absurd labels (absent actuation among)

theorem power_of_mem (runs : ∀ part ∈ parts, part.Runs)
    (among : .timer number ∈ parts.map (·.component)) :
    (Instruction.runAll (parts.flatMap body) memory).bit (Tag.Timer.auto number).power = true :=
  Memory.bit_of_assigned ((power_mem_flatMap_body runs).mpr ⟨among, rfl⟩)
    fun _ assigned => ((power_mem_flatMap_body runs).mp assigned).2

theorem power_of_not_mem (runs : ∀ part ∈ parts, part.Runs)
    (absent : .timer number ∉ parts.map (·.component)) :
    (Instruction.runAll (parts.flatMap body) memory).bit (Tag.Timer.auto number).power =
      memory.bit (Tag.Timer.auto number).power :=
  Memory.bit_of_unassigned fun _ assigned =>
    absent ((power_mem_flatMap_body runs).mp assigned).1

end Part

namespace Program.Builder.Prepared

variable {sequence : Sequence} {builder : Builder} {memory : Memory}

/-- The setup retracts every actuator that is known. -/
theorem commanded_setup (prepared : builder.Prepared sequence) {label : Char}
    (known : (builder.actuators.lookup label).isSome = true) :
    (Instruction.runAll builder.setup memory).commanded label = some .retract := by
  obtain ⟨tags, found⟩ := Option.isSome_iff_exists.mp known
  have retracts := (prepared.actuators label tags found).2
  apply Memory.commanded_of_moves
  · refine ⟨(Tag.coil label .retract, true), ?_, Memory.moves_eq_some.mpr rfl⟩
    apply Instruction.mem_bits.mpr
    apply retracts
    exact List.mem_map.mpr ⟨_, Tag.coil_mem_command.mpr ⟨rfl, rfl⟩, rfl⟩
  · intro assignment membership direction moved
    obtain rfl := Memory.moves_eq_some.mp moved
    obtain ⟨other, same⟩ := (prepared.setup _ (Instruction.mem_bits.mp membership)).eq_coil
    exact (Tag.coil_injective same).2

/-- The setup gives power to no timer. -/
theorem power_setup (prepared : builder.Prepared sequence) {number : Nat}
    (off : memory.bit (Tag.Timer.auto number).power = false) :
    (Instruction.runAll builder.setup memory).bit (Tag.Timer.auto number).power = false := by
  have unpowered : .setBool (Tag.Timer.auto number).power true ∉ builder.setup := by
    intro assigned
    obtain ⟨label, same⟩ := (prepared.setup _ assigned).eq_coil
    exact Tag.coil_ne_power label .retract number same.symm
  by_cases assigned : .setBool (Tag.Timer.auto number).power false ∈ builder.setup
  · apply Memory.bit_of_assigned assigned
    rintro (_ | _) found
    · rfl
    · exact absurd found unpowered
  · rw [Memory.bit_of_unassigned, off]
    rintro (_ | _) found
    · exact assigned found
    · exact unpowered found

end Program.Builder.Prepared

end Pneumatic
