import Pneumatic.Proofs.Program.Build
import Pneumatic.Proofs.Program.Lines

/-!
# The text of a program

Two programs with automatic names have the same text exactly if they have the same cases, an
endless loop counting as a jump, and the same timer calls, a preset counting in whole
milliseconds.
-/

namespace Pneumatic

/-! ## Calls -/

/-- The whole milliseconds of a span. -/
def Duration.truncated (span : Duration) : Duration where
  nanos := span.millis * 1_000_000
  nanos_lt := (Nat.div_mul_le_self _ _).trans_lt span.nanos_lt

@[simp] theorem Duration.millis_truncated (span : Duration) :
    span.truncated.millis = span.millis :=
  Nat.mul_div_cancel _ (by decide)

theorem Duration.truncated_eq_of_millis {left right : Duration}
    (same : left.millis = right.millis) : left.truncated = right.truncated := by
  simp only [truncated, same]

namespace Preset

/-- The preset in whole milliseconds; a missing offset counts as zero. -/
def truncated : Preset → Preset
  | .fixed span => .fixed span.truncated
  | .variable tag offset => .variable tag (some (offset.getD .zero).truncated)

theorem render_truncated (preset : Preset) : preset.truncated.render = preset.render := by
  cases preset with
  | fixed span => simp [truncated, render]
  | «variable» tag offset =>
      simp only [truncated, render, Option.map_some, Option.getD_some, Duration.millis_truncated,
        Duration.map_millis_getD]

/-- A literal is no conversion. -/
theorem render_fixed_ne (span : Duration) (tag : String) (offset : Option Duration) :
    (Preset.fixed span).render ≠ (Preset.variable tag offset).render := by
  intro same
  have chars := congrArg String.toList same
  simp only [render] at chars
  split at chars <;> simp at chars

theorem truncated_eq_of_render {delay delay' : Delay}
    (same : (Program.Builder.preset delay).render = (Program.Builder.preset delay').render) :
    (Program.Builder.preset delay).truncated = (Program.Builder.preset delay').truncated := by
  cases delay with
  | fixed span =>
      cases delay' with
      | fixed span' =>
          simp only [Program.Builder.preset, render, String.append_left_inj,
            String.append_right_inj] at same
          exact congrArg fixed (Duration.truncated_eq_of_millis (decimal_injective same))
      | relative offset' => exact absurd same (render_fixed_ne _ _ _)
  | relative offset =>
      cases delay' with
      | fixed span' => exact absurd same.symm (render_fixed_ne _ _ _)
      | relative offset' =>
          have values := congrArg (Expression.millis? fun _ => 0) same
          simp only [Program.Builder.preset, Expression.millis?_variable, Option.some.injEq,
            add_right_inj, Nat.cast_inj, Duration.map_millis_getD] at values
          simp only [Program.Builder.preset, truncated, Duration.truncated_eq_of_millis values]

end Preset

namespace Instruction

/-- The instruction with the preset of a call in whole milliseconds. -/
def truncated : Instruction → Instruction
  | .callTimer name power done elapsed preset => .callTimer name power done elapsed preset.truncated
  | .setBool tag value => .setBool tag value
  | .setInt tag value => .setInt tag value

theorem render_truncated (instruction : Instruction) :
    instruction.truncated.render = instruction.render := by
  cases instruction with
  | callTimer name power done elapsed preset =>
      simp only [truncated, render, Preset.render_truncated]
  | setBool tag value => rfl
  | setInt tag value => rfl

end Instruction

namespace Delay

/-- The call of a timer with automatic names. -/
def call (delay : Delay) (number : Nat) : Instruction :=
  .callTimer ("Timer_" ++ String.ofList (Text.digits number) ++ "_Instance")
    (Tag.Timer.auto number).power (Tag.Timer.auto number).done (Tag.Timer.auto number).elapsed
    (Program.Builder.preset delay)

theorem truncated_call_eq {delay delay' : Delay} {number : Nat}
    (same : (delay.call number).render = (delay'.call number).render) :
    (delay.call number).truncated = (delay'.call number).truncated := by
  simp only [call, Instruction.render, String.append_left_inj, String.append_right_inj] at same
  simp only [call, Instruction.truncated, Preset.truncated_eq_of_render same]

/-- Calls of timers that are numbered in turn are known from their texts. -/
theorem truncated_calls_eq {delays delays' : List Delay} (first : Nat)
    (same : ((delays.zipIdx first).map fun (delay, number) => (delay.call number).render) =
      (delays'.zipIdx first).map fun (delay, number) => (delay.call number).render) :
    ((delays.zipIdx first).map fun (delay, number) => (delay.call number).truncated) =
      (delays'.zipIdx first).map fun (delay, number) => (delay.call number).truncated := by
  induction delays generalizing first delays' with
  | nil =>
      cases delays' with
      | nil => rfl
      | cons delay' rest' => simp at same
  | cons delay rest ih =>
      cases delays' with
      | nil => simp at same
      | cons delay' rest' =>
          simp only [List.zipIdx_cons, List.map_cons, List.cons.injEq] at same ⊢
          exact ⟨truncated_call_eq same.1, ih (first + 1) same.2⟩

end Delay

/-! ## Lines without blanks in front -/

theorem Instruction.flush_lines {depth : Nat} {instructions : List Instruction}
    (clear : ∀ instruction ∈ instructions, Text.Clear instruction.render) :
    ∀ line ∈ lines depth instructions, line.Flush := by
  intro line among
  obtain ⟨instruction, inside, rfl⟩ := List.mem_map.mp among
  exact (clear instruction inside).flush depth

theorem Transition.Plain.flush_lines {transition : Transition} (plain : transition.Plain)
    (depth : Nat) : ∀ line ∈ transition.lines depth, line.Flush := by
  induction plain generalizing depth with
  | jump target | loop target => simp [lines, Line.Flush]
  | @count counter limit start otherwise clear bounds plain ih =>
      have increment := ((clear.append " := ").append counter).append " + 1;"
      have reset := clear.append " := 0;"
      simp only [lines, List.cons_append, List.nil_append, List.forall_mem_cons,
        List.forall_mem_append]
      refine ⟨increment.flush _, ?_, ?_, ?_, reset.flush _, ih (depth + 1), ?_⟩ <;>
        simp [Line.Flush]

theorem flush_number (depth number : Nat) : Line.Flush ⟨depth, decimal number ++ ":"⟩ := by
  obtain ⟨c, rest, digits⟩ := List.exists_cons_of_ne_nil (Text.digits_ne_nil number)
  have isDigit := Text.isDigit_of_mem_digits (digits ▸ List.mem_cons_self : c ∈ Text.digits number)
  have chars : (decimal number ++ ":").toList = c :: (rest ++ [':']) := by
    rw [decimal, String.toList_append, String.toList_ofList, digits]
    rfl
  rw [Line.Flush, chars, List.head?_cons, ne_eq, Option.some.injEq]
  rintro rfl
  contradiction

theorem Case.Plain.flush_lines {case : Case} (plain : case.Plain) (depth : Nat) :
    ∀ line ∈ case.lines depth, line.Flush := by
  have body (depth : Nat) : ∀ line ∈ Instruction.lines depth case.body, line.Flush :=
    Instruction.flush_lines fun instruction among => (plain.body instruction among).clear
  have exit (depth : Nat) : ∀ line ∈ Instruction.lines depth case.onExit, line.Flush :=
    Instruction.flush_lines fun instruction among => (plain.exit instruction among).clear
  rw [lines_eq, List.forall_mem_cons, List.forall_mem_append]
  refine ⟨flush_number depth case.number, body (depth + 1), ?_⟩
  unfold leaving
  split
  · simp only [List.forall_mem_append, List.forall_mem_singleton]
    refine ⟨⟨⟨?_, exit (depth + 2)⟩, plain.next.flush_lines (depth + 2)⟩, ?_⟩ <;> simp [Line.Flush]
  · exact List.forall_mem_append.mpr ⟨exit (depth + 1), plain.next.flush_lines (depth + 1)⟩

theorem Delay.clear_call (delay : Delay) (number : Nat) :
    Text.Clear (delay.call number).render := by
  have timer : Text.Clear "Timer_" := ⟨'T', _, rfl, by decide, by decide, by decide⟩
  have begins : ∃ more, (delay.call number).render = "Timer_" ++ more := by
    simp only [call, Instruction.render, String.append_assoc]
    exact ⟨_, rfl⟩
  obtain ⟨more, begins⟩ := begins
  exact begins ▸ timer.append more

/-! ## Programs with automatic names -/

theorem Tag.Role.clear_autoName {role : Tag.Role} {component : ComponentId}
    (applies : role.appliesTo component = true) : Text.Clear (role.autoName component) := by
  rw [Text.Clear, toList_autoName applies]
  cases role <;> exact ⟨_, _, rfl, by decide, by decide, by decide⟩

theorem Tag.Actuator.clear_command (label : Char) (direction : Direction) :
    ∀ assignment ∈ (auto label).command direction, Text.Clear assignment.1 := by
  have extend : Text.Clear (Role.actuatorExtend.autoName (.actuator label)) :=
    Role.clear_autoName rfl
  have retract : Text.Clear (Role.actuatorRetract.autoName (.actuator label)) :=
    Role.clear_autoName rfl
  cases direction <;> simp [command, auto, extend, retract]

namespace Program.Builder

theorem assigns_assign {command : List (String × Bool)}
    (clear : ∀ assignment ∈ command, Text.Clear assignment.1) :
    ∀ instruction ∈ assign command, instruction.Assigns := by
  intro instruction among
  obtain ⟨⟨tag, value⟩, inside, rfl⟩ := List.mem_map.mp among
  cases value with
  | false => exact .off (clear _ inside)
  | true => exact .on (clear _ inside)

theorem Rests.assigns {instruction : Instruction} (rests : Rests instruction) :
    instruction.Assigns := by
  cases rests with
  | release label => exact .off (Tag.Role.clear_autoName rfl)
  | retract label => exact .on (Tag.Role.clear_autoName rfl)
  | off number => exact .off (Tag.Role.clear_autoName rfl)
  | reset number => exact .reset (Tag.Role.clear_autoName rfl)

end Program.Builder

namespace Part.Runs

variable {part : Part}

theorem assigns_body (runs : part.Runs) : ∀ instruction ∈ part.body, instruction.Assigns := by
  cases runs with
  | actuation actuation =>
      exact Program.Builder.assigns_assign
        (Tag.Actuator.clear_command actuation.label actuation.direction)
  | timer delay number =>
      refine List.forall_mem_singleton.mpr (.on ?_)
      exact Tag.Role.clear_autoName rfl

theorem assigns_exit (runs : part.Runs) : ∀ instruction ∈ part.exit, instruction.Assigns := by
  cases runs with
  | actuation actuation => simp [exit]
  | timer delay number =>
      refine List.forall_mem_singleton.mpr (.off ?_)
      exact Tag.Role.clear_autoName rfl

theorem exists_signal (runs : part.Runs) :
    ∃ signal, part.signal? = some signal ∧ Tag.Awaited signal := by
  cases runs with
  | actuation actuation => exact ⟨_, rfl, .sensor actuation.label actuation.direction⟩
  | timer delay number => exact ⟨_, rfl, .done number⟩

end Part.Runs

namespace Program

variable {sequence sequence' : Sequence} {program program' : Program}

/-- The counters of regions are named clearly. -/
theorem Builder.plain_leaveRegions {counters : List (Nat × String)} {regions : List Region}
    {outer : Transition} {positions : List Nat} (plain : outer.Plain)
    (named : ∀ position ∈ positions, ∀ tag, counters.lookup position = some tag →
      Text.Clear tag) : (leaveRegions counters regions outer positions).Plain := by
  induction positions with
  | nil => exact plain
  | cons position rest ih =>
      rw [List.forall_mem_cons] at named
      have otherwise := ih named.2
      simp only [leaveRegions]
      split
      · exact otherwise
      · split
        · exact .loop _
        · next tag _ found => exact .count _ (named.1 tag found) (.literal _) otherwise
        · next tag _ found => exact .count _ (named.1 tag found) (.variable _) otherwise
        · exact otherwise

theorem awaited_of_waits {parts : List Part} {index : Nat} {case : Case}
    (runs : ∀ part ∈ parts, part.Runs) (serves : case.Serves sequence index parts)
    {signal : String} (waits : signal ∈ case.waits) : Tag.Awaited signal := by
  obtain ⟨part, among, signalEq⟩ := (serves.waits signal).mp waits
  obtain ⟨signal', signalEq', awaited⟩ := (runs part among).exists_signal
  rwa [Option.some.inj (signalEq.symm.trans signalEq')]

/-- The case of a step. -/
theorem plain_of_serves {index : Nat} {parts : List Part} {case : Case}
    (runs : ∀ part ∈ parts, part.Runs) (serves : case.Serves sequence index parts) :
    case.Plain where
  body := by
    rw [serves.body, List.forall_mem_flatMap]
    exact fun part among => (runs part among).assigns_body
  exit := by
    rw [serves.exit, List.forall_mem_flatMap]
    exact fun part among => (runs part among).assigns_exit
  guard guard guarded term among := by
    refine awaited_of_waits runs serves ?_
    rw [Case.waits, Option.mem_def.mp guarded]
    exact among
  unguarded noGuard := by
    rw [serves.exit, List.flatMap_eq_nil_iff]
    intro part among
    obtain ⟨signal, signalEq, -⟩ := (runs part among).exists_signal
    have waits := (serves.waits signal).mpr ⟨part, among, signalEq⟩
    rw [Case.waits, noGuard] at waits
    contradiction
  next := by
    obtain ⟨counters, nextEq, named⟩ := serves.next
    rw [nextEq]
    refine Builder.plain_leaveRegions (.jump _) fun position ending tag found => ?_
    rw [named position ending] at found
    obtain ⟨number, -, rfl⟩ := Option.map_eq_some_iff.mp found
    exact Tag.Role.clear_autoName rfl

theorem plain_waitForWrap {cases : List Case} (plain : ∀ case ∈ cases, case.Plain) :
    ∀ case ∈ Builder.waitForWrap cases, case.Plain := by
  unfold Builder.waitForWrap
  split
  · next first rest last guarded =>
      obtain ⟨case, isLast, guardEq⟩ := Option.bind_eq_some_iff.mp guarded
      have lastPlain := plain case (List.mem_of_getLast? isLast)
      rw [List.forall_mem_cons] at plain ⊢
      refine ⟨⟨plain.1.body, plain.1.exit, ?_, ?_, plain.1.next⟩, plain.2⟩
      · rintro guard ⟨⟩ term among
        rcases Condition.mem_andAll.mp among with before | added
        · cases own : first.guard with
          | none =>
              rw [own] at before
              contradiction
          | some guard =>
              rw [own] at before
              exact plain.1.guard guard own term before
        · exact lastPlain.guard last guardEq term added
      · intro unguarded
        contradiction
  · exact plain

theorem plain_of_compile (compiled : compile sequence none = .ok program) :
    ∀ case ∈ program.cases, case.Plain := by
  obtain ⟨builder, cases, built⟩ := built_of_compile compiled
  have start : (Case.mk 0 none builder.setup [] (.jump 10)).Plain :=
    ⟨fun instruction among => (built.prepared.setup instruction among).assigns, by simp, by simp,
      fun _ => rfl, .jump 10⟩
  have steps : ∀ case ∈ cases, case.Plain := by
    intro case among
    obtain ⟨index, here⟩ := List.mem_iff_getElem?.mp among
    have inside : index < sequence.parts.length :=
      built.covers.1 ▸ (List.getElem?_eq_some_iff.mp here).1
    obtain ⟨-, found, there, serves⟩ := built.covers.2 index _ (List.getElem?_eq_getElem inside)
    obtain rfl := Option.some.inj (here.symm.trans there)
    exact plain_of_serves (built.runs _ (List.getElem_mem inside)) serves
  rw [built.cases, List.forall_mem_cons]
  refine ⟨start, ?_⟩
  split
  · exact plain_waitForWrap steps
  · exact steps

theorem calls_of_compile (compiled : compile sequence none = .ok program) :
    program.calls = (sequence.delays.zipIdx 1).map fun (delay, number) => delay.call number := by
  obtain ⟨-, calls, -⟩ := exists_components_of_compile compiled
  have always : ((sequence.delays.zipIdx 1).mapM fun (delay, number) =>
      Tag.Naming.automatic.call? number delay) =
        some ((sequence.delays.zipIdx 1).map fun (delay, number) => delay.call number) :=
    List.mapM_pure
  exact Option.some.inj (calls.symm.trans always)

theorem flush_lines (compiled : compile sequence none = .ok program) :
    ∀ line ∈ program.lines, line.Flush := by
  have cases : ∀ line ∈ program.cases.flatMap (Case.lines 1), line.Flush := by
    rw [List.forall_mem_flatMap]
    exact fun case among => (plain_of_compile compiled case among).flush_lines 1
  have calls : ∀ line ∈ Instruction.lines 0 program.calls, line.Flush := by
    refine Instruction.flush_lines ?_
    rw [calls_of_compile compiled, List.forall_mem_map]
    exact fun (delay, number) _ => delay.clear_call number
  simp only [lines, List.forall_mem_append, List.forall_mem_singleton]
  refine ⟨⟨⟨?_, cases⟩, ?_⟩, ?_⟩
  · simp [Line.Flush]
  · simp [Line.Flush]
  · split
    · exact List.forall_mem_nil _
    · rw [List.forall_mem_cons]
      exact ⟨by simp [Line.Flush], calls⟩

/-- The lines behind the cases. -/
def closing (calls : List Instruction) : List Line :=
  if calls.isEmpty then [] else ⟨0, ""⟩ :: Instruction.lines 0 calls

theorem closing_truncated (calls : List Instruction) :
    closing (calls.map Instruction.truncated) = closing calls := by
  simp only [closing, List.isEmpty_map, Instruction.lines, List.map_map, Function.comp_def,
    Instruction.render_truncated]

theorem render_of_closing {calls calls' : List Instruction}
    (same : closing calls = closing calls') :
    calls.map Instruction.render = calls'.map Instruction.render := by
  have written (calls : List Instruction) :
      (closing calls).tail.map (·.text) = calls.map Instruction.render := by
    unfold closing
    split
    · next empty => rw [List.isEmpty_iff.mp empty]; rfl
    · simp [Instruction.lines]
  rw [← written, same, written]

theorem lines_eq (program : Program) :
    program.lines = ⟨0, "CASE #NEXT OF"⟩ ::
      (program.cases.flatMap (Case.lines 1) ++ ⟨0, "END_CASE;"⟩ :: closing program.calls) := by
  simp [lines, closing]

/-- The text of a program with automatic names tells its cases and its calls, up to the
difference between an endless loop and a jump, and up to whole milliseconds. -/
theorem bodyLines_eq_iff (compiled : compile sequence none = .ok program)
    (compiled' : compile sequence' none = .ok program') :
    program.bodyLines = program'.bodyLines ↔
      program.cases.map Case.direct = program'.cases.map Case.direct ∧
        program.calls.map Instruction.truncated = program'.calls.map Instruction.truncated := by
  constructor
  · intro same
    have lines := Line.eq_of_map_render (flush_lines compiled) (flush_lines compiled') same
    rw [lines_eq, lines_eq, List.cons.injEq] at lines
    obtain ⟨cases, closings⟩ := Case.flatMap_lines_append_inj (plain_of_compile compiled)
      (plain_of_compile compiled') lines.2
    have calls := render_of_closing closings
    rw [calls_of_compile compiled, calls_of_compile compiled', List.map_map, List.map_map] at calls
    have truncated := Delay.truncated_calls_eq 1 calls
    rw [calls_of_compile compiled, calls_of_compile compiled', List.map_map, List.map_map]
    exact ⟨cases, truncated⟩
  · rintro ⟨cases, calls⟩
    -- What the maps forget is not written.
    have blocks (cases : List Case) :
        (cases.map Case.direct).flatMap (Case.lines 1) = cases.flatMap (Case.lines 1) := by
      simp only [List.flatMap_map, Case.lines_direct]
    rw [bodyLines, bodyLines, lines_eq, lines_eq, ← blocks program.cases, cases, blocks,
      ← closing_truncated program.calls, calls, closing_truncated]

/-- An offset of less than a millisecond is not written. -/
theorem bodyLines_eq_iff_short_offset :
    ∃ sequence sequence' program program', Sequence.parse "[A+,TS,A-]^N" = .ok sequence ∧
      Sequence.parse "[A+,T+0.0009S,A-]^N" = .ok sequence' ∧
      compile sequence none = .ok program ∧ compile sequence' none = .ok program' ∧
      program.calls ≠ program'.calls ∧ program.bodyLines = program'.bodyLines ∧
      program.cases.map Case.direct = program'.cases.map Case.direct ∧
      program.calls.map Instruction.truncated = program'.calls.map Instruction.truncated := by
  have same : ((Sequence.parse "[A+,TS,A-]^N").toOption.any fun sequence =>
      (Sequence.parse "[A+,T+0.0009S,A-]^N").toOption.any fun sequence' =>
        (compile sequence none).toOption.any fun program =>
          (compile sequence' none).toOption.any fun program' =>
            program.calls != program'.calls && program.bodyLines == program'.bodyLines) = true := by
    decide +kernel
  obtain ⟨sequence, parsed, same⟩ := any_toOption_iff.mp same
  obtain ⟨sequence', parsed', same⟩ := any_toOption_iff.mp same
  obtain ⟨program, compiled, same⟩ := any_toOption_iff.mp same
  obtain ⟨program', compiled', same⟩ := any_toOption_iff.mp same
  rw [Bool.and_eq_true, bne_iff_ne, beq_iff_eq] at same
  exact ⟨sequence, sequence', program, program', parsed, parsed', compiled, compiled', same.1,
    same.2, (bodyLines_eq_iff compiled compiled').mp same.2⟩

end Program

end Pneumatic
