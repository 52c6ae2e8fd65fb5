import Pneumatic.Program.Compile
import Pneumatic.Proofs.Program.Plant
import Pneumatic.Proofs.Tag.Apart

/-!
# The coils of a running program

A program is followed statement by statement, along every path from case to case that its
transitions allow, whatever its guards and counters are.  Every statement that switches a coil on
comes right after the one that releases the opposite coil; so no statement leaves both coils of
an actuator on.
-/

namespace Pneumatic

open Tag (Naming)

/-! ## Paths through a program -/

theorem Memory.bit_setBit (memory : Memory) (tag other : String) (value : Bool) :
    (memory.setBit tag value).bit other = if other = tag then value else memory.bit other := by
  rw [bit, setBit, List.lookup_cons]
  by_cases here : other = tag
  · simp [here]
  · rw [beq_false_of_ne here, if_neg here]
    rfl

/-- No actuator has both its coils on. -/
def Memory.Exclusive (naming : Naming) (memory : Memory) : Prop :=
  ∀ label extend retract, naming.resolve .actuatorExtend (.actuator label) = .ok extend →
    naming.resolve .actuatorRetract (.actuator label) = .ok retract →
    ¬ (memory.bit extend = true ∧ memory.bit retract = true)

/-- What a statement may do to the memory.  The call of a timer gives any value to its outputs. -/
inductive Instruction.Does : Instruction → Memory → Memory → Prop where
  | setBool (tag : String) (value : Bool) (memory : Memory) :
      Does (.setBool tag value) memory (memory.setBit tag value)
  | setInt (tag : String) (value : Int) (memory : Memory) :
      Does (.setInt tag value) memory (memory.setWord tag value)
  | callTimer {name power done elapsed : String} {preset : Preset} {memory memory' : Memory} :
      (∀ tag, tag ≠ done → memory'.bit tag = memory.bit tag) →
      Does (.callTimer name power done elapsed preset) memory memory'

/-- A program within a scan: the case that is active, the statements that are left of the scan,
and the memory. -/
structure Program.Scan where
  active : Nat
  left : List Instruction
  memory : Memory

/-- The paths that a program may take.  A scan runs the active case, which may be left or not,
and then calls the timers; words change at any time. -/
inductive Program.Path (program : Program) (first : Program.Scan) : Program.Scan → Prop where
  | start : Path program first first
  | stay {active : Nat} {memory : Memory} {case : Case} :
      Path program first ⟨active, [], memory⟩ → program.case? active = some case →
      Path program first ⟨active, case.body ++ program.calls, memory⟩
  | leave {active target : Nat} {memory : Memory} {case : Case} :
      Path program first ⟨active, [], memory⟩ → program.case? active = some case →
      target ∈ case.next.targets →
      Path program first ⟨target, case.body ++ case.onExit ++ program.calls, memory⟩
  | step {active : Nat} {instruction : Instruction} {left : List Instruction}
      {memory memory' : Memory} :
      Path program first ⟨active, instruction :: left, memory⟩ → instruction.Does memory memory' →
      Path program first ⟨active, left, memory'⟩
  | count {active : Nat} {left : List Instruction} {memory : Memory} (words : String → Int) :
      Path program first ⟨active, left, memory⟩ →
      Path program first ⟨active, left, { memory with words }⟩

/-! ## Releasing first -/

/-- A statement that may come right after another: it switches on no coil but one whose opposite
the other released, and a timer that it calls has no coil as its output. -/
def Instruction.Follows (naming : Naming) (previous : Option Instruction) : Instruction → Prop
  | .setBool coil true =>
      ∀ other, naming.Opposes coil other → previous = some (.setBool other false)
  | .callTimer _ _ done _ _ => ∀ other, ¬ naming.Opposes done other
  | _ => True

/-- Every coil that is switched on has its opposite released by the statement right before. -/
def ReleasesFirst (naming : Naming) : Option Instruction → List Instruction → Prop
  | _, [] => True
  | previous, instruction :: rest =>
      instruction.Follows naming previous ∧ ReleasesFirst naming (some instruction) rest

variable {naming : Naming}

namespace ReleasesFirst

variable {instructions more : List Instruction} {label : Char}

theorem append {previous : Option Instruction}
    (releases : ReleasesFirst naming previous instructions)
    (releases' : ∀ previous, ReleasesFirst naming previous more) :
    ReleasesFirst naming previous (instructions ++ more) := by
  induction instructions generalizing previous with
  | nil => exact releases' previous
  | cons instruction rest ih => exact ⟨releases.1, ih releases.2⟩

/-- The command of an actuator releases the opposite coil first. -/
theorem command (apart : naming.KeepsApart) {tags : Tag.Actuator}
    (named : naming.actuator label = .ok tags) (direction : Direction)
    (previous : Option Instruction) :
    ReleasesFirst naming previous (Program.Builder.assign (tags.command direction)) := by
  have opposite (other : String) : naming.Opposes tags.extend other ↔ tags.retract = some other :=
    Naming.opposes_extend_iff apart named
  cases retract : tags.retract with
  | none =>
      cases direction with
      | extend =>
          simp only [Tag.Actuator.command, retract]
          refine ⟨?_, trivial⟩
          intro other opposes
          rw [opposite, retract] at opposes
          contradiction
      | retract =>
          simp only [Tag.Actuator.command, retract]
          exact ⟨trivial, trivial⟩
  | some coil =>
      cases direction with
      | extend =>
          simp only [Tag.Actuator.command, retract]
          refine ⟨trivial, ?_, trivial⟩
          intro other opposes
          rw [opposite, retract] at opposes
          rw [Option.some.inj opposes]
      | retract =>
          simp only [Tag.Actuator.command, retract]
          refine ⟨trivial, ?_, trivial⟩
          intro other opposes
          rw [((opposite coil).mpr retract).symm.unique opposes apart]

end ReleasesFirst

/-! ## One statement -/

theorem Memory.exclusive_iff {memory : Memory} :
    memory.Exclusive naming ↔ ∀ coil other, naming.Opposes coil other →
      ¬ (memory.bit coil = true ∧ memory.bit other = true) := by
  constructor
  · intro exclusive coil other ⟨label, direction, here, there⟩
    cases direction with
    | extend => exact exclusive label coil other here there
    | retract =>
        rw [And.comm]
        exact exclusive label other coil there here
  · intro exclusive label extend retract extends' retracts
    exact exclusive extend retract ⟨label, .extend, extends', retracts⟩

/-- An assignment keeps opposite coils from being on together if it switches none on, or one
whose opposite is off. -/
theorem Memory.Exclusive.setBit (apart : naming.KeepsApart) {memory : Memory}
    (exclusive : memory.Exclusive naming) (tag : String) (value : Bool)
    (released : value = true → ∀ other, naming.Opposes tag other → memory.bit other = false) :
    (memory.setBit tag value).Exclusive naming := by
  rw [Memory.exclusive_iff] at exclusive ⊢
  intro coil other opposes ⟨on, on'⟩
  rw [Memory.bit_setBit] at on on'
  by_cases here : coil = tag
  · subst here
    rw [if_pos rfl] at on
    rw [if_neg (opposes.ne apart).symm, released on other opposes] at on'
    contradiction
  · rw [if_neg here] at on
    by_cases there : other = tag
    · subst there
      rw [if_pos rfl] at on'
      rw [released on' coil opposes.symm] at on
      contradiction
    · rw [if_neg there] at on'
      exact exclusive coil other opposes ⟨on, on'⟩

/-- A scan on which no two opposite coils are on, nor will be: what comes before the statements
that are left is in effect. -/
structure Program.Scan.Careful (naming : Naming) (scan : Program.Scan) : Prop where
  exclusive : scan.memory.Exclusive naming
  ahead : ∃ previous, (∀ coil, previous = some (.setBool coil false) →
    scan.memory.bit coil = false) ∧ ReleasesFirst naming previous scan.left

/-- A program all of whose parts release first, and whose timers set no coil. -/
structure Program.Releases (naming : Naming) (program : Program) : Prop where
  body : ∀ case ∈ program.cases, ∀ previous, ReleasesFirst naming previous case.body
  exit : ∀ case ∈ program.cases, ∀ previous, ReleasesFirst naming previous case.onExit
  calls : ∀ previous, ReleasesFirst naming previous program.calls

/-- A statement that may come next keeps a scan careful. -/
theorem Program.Scan.Careful.step (apart : naming.KeepsApart) {active : Nat}
    {instruction : Instruction} {left : List Instruction} {memory memory' : Memory}
    (careful : Careful naming ⟨active, instruction :: left, memory⟩)
    (does : instruction.Does memory memory') : Careful naming ⟨active, left, memory'⟩ := by
  obtain ⟨exclusive, previous, released, follows, releases⟩ := careful
  cases does with
  | setBool tag value =>
      constructor
      · apply exclusive.setBit apart
        rintro rfl other opposes
        exact released other (follows other opposes)
      · refine ⟨_, ?_, releases⟩
        intro coil same
        obtain ⟨rfl, rfl⟩ := Instruction.setBool.inj (Option.some.inj same)
        rw [Memory.bit_setBit, if_pos rfl]
  | setInt tag value => exact ⟨exclusive, _, by simp, releases⟩
  | callTimer keeps =>
      refine ⟨?_, _, by simp, releases⟩
      rw [Memory.exclusive_iff] at exclusive ⊢
      intro coil other opposes both
      rw [keeps coil, keeps other] at both
      · exact exclusive coil other opposes both
      · rintro rfl
        exact follows coil opposes.symm
      · rintro rfl
        exact follows other opposes

/-- No path through a program that releases first leads to two opposite coils that are on. -/
theorem Program.Path.careful {program : Program} {first scan : Program.Scan}
    (path : program.Path first scan) (apart : naming.KeepsApart)
    (releases : program.Releases naming) (careful : first.Careful naming) :
    scan.Careful naming := by
  -- Between two scans nothing is left to do, so the next one may begin with anything.
  have idle {active target : Nat} {memory : Memory} {left : List Instruction}
      (careful : Program.Scan.Careful naming ⟨active, [], memory⟩)
      (releases : ∀ previous, ReleasesFirst naming previous left) :
      Program.Scan.Careful naming ⟨target, left, memory⟩ := by
    obtain ⟨exclusive, previous, released, -⟩ := careful
    exact ⟨exclusive, previous, released, releases previous⟩
  induction path with
  | start => exact careful
  | stay _ here ih =>
      have among := List.mem_of_find?_eq_some here
      apply idle ih
      intro previous
      exact (releases.body _ among previous).append releases.calls
  | leave _ here _ ih =>
      have among := List.mem_of_find?_eq_some here
      apply idle ih
      intro previous
      exact ((releases.body _ among previous).append (releases.exit _ among)).append releases.calls
  | step _ does ih => exact ih.step apart does
  | count words _ ih => exact ⟨ih.exclusive, ih.ahead⟩

/-! ## Compiled programs -/

/-- What is found behind one more entry was there before, or is that entry. -/
theorem of_lookup_append_singleton {Key Value : Type} [BEq Key] [LawfulBEq Key]
    {entries : List (Key × Value)} {key other : Key} {value found : Value}
    (known : (entries ++ [(key, value)]).lookup other = some found) :
    entries.lookup other = some found ∨ other = key ∧ value = found := by
  rw [List.lookup_append, Option.or_eq_some_iff] at known
  rcases known with before | ⟨-, now⟩
  · exact .inl before
  · simp only [List.lookup_cons, List.lookup_nil] at now
    split at now
    · next same => exact .inr ⟨beq_iff_eq.mp same, Option.some.inj now⟩
    · contradiction

namespace Program.Builder

variable {builder builder' : Builder} {work work' : Work}

/-! ### What each function of the builder does when it succeeds -/

theorem enterRegion_eq_ok {counters : List (Option Nat)} {region : Nat}
    (entered : enterRegion naming counters builder region = .ok builder') :
    counters[region]?.join = none ∧ builder' = builder ∨
      ∃ number tag, counters[region]?.join = some number ∧ naming.counter number = .ok tag ∧
        builder' = { builder with
          table := builder.table.push tag .int
          setup := builder.setup ++ [.setInt tag 0]
          counters := builder.counters ++ [(region, tag)] } := by
  unfold enterRegion at entered
  split at entered
  · next uncounted =>
      obtain rfl := Except.ok.inj entered
      exact .inl ⟨uncounted, rfl⟩
  · next number counter =>
      obtain ⟨tag, named, entered⟩ := exists_of_bind_eq_ok entered
      obtain rfl := Except.ok.inj entered
      exact .inr ⟨number, tag, counter, named, rfl⟩

theorem actuator_eq_ok {label : Char} {tags : Tag.Actuator}
    (mentioned : builder.actuator naming label = .ok (tags, builder')) :
    builder.actuators.lookup label = some tags ∧ builder' = builder ∨
      builder.actuators.lookup label = none ∧ naming.actuator label = .ok tags ∧
        builder' = { builder with
          table := builder.table.extend (tags.bindings label)
          setup := builder.setup ++ assign (tags.command .retract)
          actuators := builder.actuators ++ [(label, tags)] } := by
  unfold Builder.actuator at mentioned
  split at mentioned
  · next known =>
      obtain ⟨rfl, rfl⟩ := Prod.mk.inj (Except.ok.inj mentioned)
      exact .inl ⟨known, rfl⟩
  · next unknown =>
      obtain ⟨found, named, mentioned⟩ := exists_of_bind_eq_ok mentioned
      obtain ⟨rfl, rfl⟩ := Prod.mk.inj (Except.ok.inj mentioned)
      exact .inr ⟨unknown, named, rfl⟩

theorem timer_eq_ok {number : Nat} {delay : Delay} {tags : Tag.Timer}
    (mentioned : builder.timer naming number delay = .ok (tags, builder')) :
    naming.timer number = .ok tags ∧
      builder' = { builder with
        table := builder.table.extend tags.bindings
        setup := builder.setup ++ [.setBool tags.power false]
        calls := builder.calls ++ [.callTimer (tags.label ++ "_Instance") tags.power tags.done
          tags.elapsed (preset delay)] } := by
  obtain ⟨found, named, mentioned⟩ := exists_of_bind_eq_ok mentioned
  obtain ⟨rfl, rfl⟩ := Prod.mk.inj (Except.ok.inj mentioned)
  exact ⟨named, rfl⟩

theorem addPart_eq_ok {part : Part}
    (added : addPart naming (builder, work) part = .ok (builder', work')) :
    (∃ actuation tags, part.token = .actuation actuation ∧
      builder.actuator naming actuation.label = .ok (tags, builder') ∧
      work' = { work with
        body := work.body ++ assign (tags.command actuation.direction)
        done := work.done.and (tags.sensor actuation.direction) }) ∨
    (∃ delay number tags, part.token = .timer delay ∧ part.component = .timer number ∧
      builder.timer naming number delay = .ok (tags, builder') ∧
      work' = ⟨work.body ++ [.setBool tags.power true],
        work.onExit ++ [.setBool tags.power false], work.done.and tags.done⟩) ∨
    ¬ part.Runs ∧ builder' = builder ∧ work' = work := by
  unfold addPart at added
  simp only at added
  split at added
  · next component actuation token =>
      obtain ⟨⟨tags, middle⟩, mentioned, added⟩ := exists_of_bind_eq_ok added
      obtain ⟨rfl, rfl⟩ := Prod.mk.inj (Except.ok.inj added)
      exact .inl ⟨actuation, tags, token, of_mapError_eq_ok mentioned, rfl⟩
  · next delay number token component =>
      obtain ⟨⟨tags, middle⟩, mentioned, added⟩ := exists_of_bind_eq_ok added
      obtain ⟨rfl, rfl⟩ := Prod.mk.inj (Except.ok.inj added)
      exact .inr (.inl ⟨delay, number, tags, token, component, of_mapError_eq_ok mentioned, rfl⟩)
  · next delay token other =>
      obtain ⟨rfl, rfl⟩ := Prod.mk.inj (Except.ok.inj added)
      refine .inr (.inr ⟨?_, rfl, rfl⟩)
      intro runs
      cases runs with
      | actuation actuation => contradiction
      | timer delay number => exact other number rfl
  · contradiction

theorem addStep_eq_ok {sequence : Sequence} {cases cases' : List Case} {parts : List Part}
    {index : Nat}
    (added : addStep naming sequence (builder, cases) (parts, index) = .ok (builder', cases')) :
    ∃ entered work, (Sequence.regionsStartingAt sequence.regions index).foldlM
        (enterRegion naming sequence.counters) builder = .ok entered ∧
      parts.foldlM (addPart naming) (entered, ⟨[], [], .always⟩) = .ok (builder', work) ∧
      cases' = cases ++ [
        { number := caseNumber index
          guard := if work.done.terms.isEmpty then none else some work.done
          body := work.body
          onExit := work.onExit
          next := leaveRegions builder'.counters sequence.regions (.jump (sequence.after index))
            (Sequence.regionsEndingAt sequence.regions index) }] := by
  unfold addStep at added
  obtain ⟨entered, enters, added⟩ := exists_of_bind_eq_ok added
  obtain ⟨⟨worked, work⟩, works, added⟩ := exists_of_bind_eq_ok added
  obtain ⟨rfl, rfl⟩ := Prod.mk.inj (Except.ok.inj added)
  exact ⟨entered, work, of_mapError_eq_ok enters, works, rfl⟩

/-! ### Statements that release first -/

/-- A builder whose statements release first and that knows actuators by their names. -/
structure Neat (naming : Naming) (builder : Builder) : Prop where
  actuators : ∀ label tags, builder.actuators.lookup label = some tags →
    naming.actuator label = .ok tags
  setup : ∀ previous, ReleasesFirst naming previous builder.setup
  calls : ∀ previous, ReleasesFirst naming previous builder.calls

/-- The work of a step whose statements release first. -/
structure Work.Neat (naming : Naming) (work : Work) : Prop where
  body : ∀ previous, ReleasesFirst naming previous work.body
  exit : ∀ previous, ReleasesFirst naming previous work.onExit

/-- A case whose statements release first. -/
def NeatCase (naming : Naming) (case : Case) : Prop :=
  (∀ previous, ReleasesFirst naming previous case.body) ∧
    ∀ previous, ReleasesFirst naming previous case.onExit

theorem neat_empty (naming : Naming) : Neat naming empty :=
  ⟨nofun, fun _ => trivial, fun _ => trivial⟩

/-- The power of a timer is no coil. -/
theorem releases_power (apart : naming.KeepsApart) {number : Nat} {tags : Tag.Timer}
    (named : naming.timer number = .ok tags) (value : Bool) (previous : Option Instruction) :
    ReleasesFirst naming previous [.setBool tags.power value] := by
  refine ⟨?_, trivial⟩
  cases value with
  | false => trivial
  | true =>
      intro other opposes
      exact absurd opposes (Naming.not_opposes apart (Naming.resolve_of_timer named).1 nofun)

theorem Neat.enterRegion (neat : Neat naming builder) {counters : List (Option Nat)}
    {region : Nat} (entered : enterRegion naming counters builder region = .ok builder') :
    Neat naming builder' := by
  rcases enterRegion_eq_ok entered with ⟨-, rfl⟩ | ⟨number, tag, -, -, rfl⟩
  · exact neat
  · refine ⟨neat.actuators, ?_, neat.calls⟩
    intro previous
    exact (neat.setup previous).append fun _ => ⟨trivial, trivial⟩

theorem Neat.actuator (neat : Neat naming builder) (apart : naming.KeepsApart) {label : Char}
    {tags : Tag.Actuator} (mentioned : builder.actuator naming label = .ok (tags, builder')) :
    naming.actuator label = .ok tags ∧ Neat naming builder' := by
  rcases actuator_eq_ok mentioned with ⟨known, rfl⟩ | ⟨-, named, rfl⟩
  · exact ⟨neat.actuators label _ known, neat⟩
  · refine ⟨named, ?_, ?_, neat.calls⟩
    · intro other tags known
      rcases of_lookup_append_singleton known with before | ⟨rfl, rfl⟩
      · exact neat.actuators other tags before
      · exact named
    · intro previous
      exact (neat.setup previous).append (ReleasesFirst.command apart named .retract)

theorem Neat.timer (neat : Neat naming builder) (apart : naming.KeepsApart) {number : Nat}
    {delay : Delay} {tags : Tag.Timer}
    (mentioned : builder.timer naming number delay = .ok (tags, builder')) :
    naming.timer number = .ok tags ∧ Neat naming builder' := by
  obtain ⟨named, rfl⟩ := timer_eq_ok mentioned
  refine ⟨named, neat.actuators, ?_, ?_⟩
  · intro previous
    exact (neat.setup previous).append (releases_power apart named false)
  · intro previous
    refine (neat.calls previous).append fun _ => ⟨?_, trivial⟩
    intro other
    exact Naming.not_opposes apart (Naming.resolve_of_timer named).2 nofun

theorem Neat.addPart (apart : naming.KeepsApart) {part : Part} (neat : Neat naming builder)
    (neatWork : work.Neat naming)
    (added : addPart naming (builder, work) part = .ok (builder', work')) :
    Neat naming builder' ∧ work'.Neat naming := by
  rcases addPart_eq_ok added with ⟨actuation, tags, -, mentioned, rfl⟩ |
    ⟨delay, number, tags, -, -, mentioned, rfl⟩ | ⟨-, rfl, rfl⟩
  · obtain ⟨named, neat'⟩ := neat.actuator apart mentioned
    refine ⟨neat', ?_, neatWork.exit⟩
    intro previous
    exact (neatWork.body previous).append (ReleasesFirst.command apart named _)
  · obtain ⟨named, neat'⟩ := neat.timer apart mentioned
    refine ⟨neat', ?_, ?_⟩
    · intro previous
      exact (neatWork.body previous).append (releases_power apart named true)
    · intro previous
      exact (neatWork.exit previous).append (releases_power apart named false)
  · exact ⟨neat, neatWork⟩

theorem Neat.addStep (apart : naming.KeepsApart) {sequence : Sequence} {cases cases' : List Case}
    {step : List Part × Nat} (neat : Neat naming builder)
    (neatCases : ∀ case ∈ cases, NeatCase naming case)
    (added : addStep naming sequence (builder, cases) step = .ok (builder', cases')) :
    Neat naming builder' ∧ ∀ case ∈ cases', NeatCase naming case := by
  obtain ⟨entered, work, enters, works, rfl⟩ := addStep_eq_ok added
  have neatEntered : Neat naming entered :=
    foldlM_keeps (Neat naming) (fun _ _ _ _ neat entered => neat.enterRegion entered) enters neat
  have kept : Neat naming builder' ∧ work.Neat naming :=
    foldlM_keeps (fun state => Neat naming state.1 ∧ state.2.Neat naming)
      (fun _ _ _ _ neat added => neat.1.addPart apart neat.2 added) works
      ⟨neatEntered, fun _ => trivial, fun _ => trivial⟩
  refine ⟨kept.1, ?_⟩
  rw [List.forall_mem_append, List.forall_mem_singleton]
  exact ⟨neatCases, kept.2.body, kept.2.exit⟩

theorem neatCase_waitForWrap {cases : List Case} (neat : ∀ case ∈ cases, NeatCase naming case) :
    ∀ case ∈ waitForWrap cases, NeatCase naming case := by
  unfold waitForWrap
  split
  · rw [List.forall_mem_cons] at neat ⊢
    exact neat
  · exact neat

end Program.Builder

/-- A program that is built of names that keep signals apart releases first. -/
theorem Program.releases_of_build (apart : naming.KeepsApart) {sequence : Sequence}
    {program : Program} (built : build naming sequence = .ok program) :
    program.Releases naming := by
  obtain ⟨⟨builder, cases⟩, folded, built⟩ := exists_of_bind_eq_ok built
  obtain ⟨neat, neatCases⟩ : Builder.Neat naming builder ∧
      ∀ case ∈ cases, Builder.NeatCase naming case :=
    foldlM_keeps
      (fun state => Builder.Neat naming state.1 ∧ ∀ case ∈ state.2, Builder.NeatCase naming case)
      (fun _ _ _ _ neat added => neat.1.addStep apart neat.2 added) folded
      ⟨Builder.neat_empty naming, by simp⟩
  obtain rfl := Except.ok.inj built
  have all : ∀ case ∈ (⟨0, none, builder.setup, [], .jump 10⟩ : Case) ::
      (if sequence.wrapped then Builder.waitForWrap cases else cases),
      Builder.NeatCase naming case := by
    refine List.forall_mem_cons.mpr ⟨⟨neat.setup, fun _ => trivial⟩, ?_⟩
    split
    · exact Builder.neatCase_waitForWrap neatCases
    · exact neatCases
  exact ⟨fun case among => (all case among).1, fun case among => (all case among).2, neat.calls⟩

theorem Program.releases_of_compile {sequence : Sequence} {project : Option Project}
    {program : Program} (compiled : compile sequence project = .ok program)
    (apart : (Naming.ofProject? project).KeepsApart) :
    program.Releases (.ofProject? project) :=
  releases_of_build apart (build_of_compile compiled).2

/-- A compiled program that begins with all coils off leaves no two opposite coils on. -/
theorem Program.Path.exclusive {sequence : Sequence} {project : Option Project}
    {program : Program} {memory : Memory} {scan : Program.Scan}
    (path : program.Path ⟨0, [], memory⟩ scan) (compiled : compile sequence project = .ok program)
    (apart : (Naming.ofProject? project).KeepsApart)
    (off : ∀ label direction coil,
      (Naming.ofProject? project).resolve (Tag.Role.coil direction) (.actuator label) = .ok coil →
        memory.bit coil = false) : scan.memory.Exclusive (.ofProject? project) := by
  have begins : Program.Scan.Careful (.ofProject? project) ⟨0, [], memory⟩ := by
    refine ⟨?_, none, nofun, trivial⟩
    intro label extend retract extends' _ both
    rw [off label .extend extend extends'] at both
    exact Bool.false_ne_true both.1
  exact (path.careful apart (releases_of_compile compiled apart) begins).exclusive

/-! ## Scans are paths -/

theorem Transition.take_spec (transition : Transition) (memory : Memory) :
    (transition.take memory).1 ∈ transition.targets ∧
      ∃ words, (transition.take memory).2 = { memory with words } := by
  induction transition generalizing memory with
  | jump target => exact ⟨List.mem_singleton_self _, memory.words, rfl⟩
  | loop start => exact ⟨List.mem_singleton_self _, memory.words, rfl⟩
  | count counter limit start otherwise ih =>
      simp only [take]
      split
      · exact ⟨List.mem_cons_self .., _, rfl⟩
      · obtain ⟨leads, words, memoryEq⟩ := ih (memory.setWord counter 0)
        exact ⟨List.mem_cons_of_mem _ leads, words, memoryEq⟩

theorem Instruction.does_run (instruction : Instruction) (memory : Memory) :
    instruction.Does memory (instruction.run memory) := by
  cases instruction with
  | setBool tag value => exact .setBool tag value memory
  | setInt tag value => exact .setInt tag value memory
  | callTimer name power done elapsed preset => exact .callTimer fun _ _ => rfl

/-- Scan after scan, with what the plant shows at each. -/
def Program.scans (program : Program) (plants : List (Memory → String → Bool))
    (state : Nat × Memory) : Nat × Memory :=
  plants.foldl (fun state plant => program.scan plant state) state

namespace Program.Path

variable {program : Program} {first : Program.Scan} {active : Nat} {memory : Memory}

/-- A program may carry out the statements that come next. -/
theorem runAll {instructions left : List Instruction}
    (path : program.Path first ⟨active, instructions ++ left, memory⟩) :
    program.Path first ⟨active, left, Instruction.runAll instructions memory⟩ := by
  induction instructions generalizing memory with
  | nil => exact path
  | cons instruction rest ih => exact ih (path.step (instruction.does_run memory))

/-- Every scan follows a path, whatever the plant shows. -/
theorem scan (path : program.Path first ⟨active, [], memory⟩) (plant : Memory → String → Bool)
    (calls : ∀ memory, Instruction.runAll program.calls memory = memory) :
    program.Path first
      ⟨(program.scan plant (active, memory)).1, [], (program.scan plant (active, memory)).2⟩ := by
  have whole {target : Nat} {instructions : List Instruction}
      (path : program.Path first ⟨target, instructions ++ program.calls, memory⟩) :
      program.Path first ⟨target, [], Instruction.runAll instructions memory⟩ := by
    rw [← List.append_nil program.calls] at path
    have called := path.runAll.runAll
    rwa [calls] at called
  cases here : program.case? active with
  | none =>
      simp only [Program.scan, here]
      exact path
  | some case =>
      simp only [Program.scan, here]
      split
      · obtain ⟨leads, words, memoryEq⟩ := Transition.take_spec case.next
          (Instruction.runAll case.onExit (Instruction.runAll case.body memory))
        have left := whole (path.leave here leads)
        have both : Instruction.runAll (case.body ++ case.onExit) memory =
            Instruction.runAll case.onExit (Instruction.runAll case.body memory) :=
          List.foldl_append
        rw [both] at left
        rw [memoryEq]
        exact left.count words
      · exact whole (path.stay here)

/-- So do scans one after the other. -/
theorem scans {state : Nat × Memory} (path : program.Path first ⟨state.1, [], state.2⟩)
    (plants : List (Memory → String → Bool))
    (calls : ∀ memory, Instruction.runAll program.calls memory = memory) :
    program.Path first ⟨(program.scans plants state).1, [], (program.scans plants state).2⟩ := by
  induction plants generalizing state with
  | nil => exact path
  | cons plant rest ih => exact ih (path.scan plant calls)

end Program.Path

end Pneumatic
