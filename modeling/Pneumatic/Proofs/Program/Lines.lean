import Pneumatic.Proofs.Program.Presets
import Pneumatic.Proofs.Tag.Automatic
import Mathlib.Data.List.Basic

/-!
# What lines say

The lines of a case end where they do whatever follows them: a statement is neither a
transition nor a block, a transition is closed by its own last line, and a guard is told from
both by its first word.  So the lines of cases determine the cases, up to the difference
between a jump and an endless loop.
-/

namespace Pneumatic

/-! ## Indentation -/

namespace Line

/-- A line whose text does not start with a blank. -/
def Flush (line : Line) : Prop :=
  line.text.toList.head? ≠ some ' '

/-- The line that is written so. -/
def read (written : String) : Line :=
  let text := written.toList.dropWhile (· == ' ')
  ⟨(written.toList.length - text.length) / 4, String.ofList text⟩

theorem read_render {line : Line} (flush : line.Flush) : read line.render = line := by
  have written : line.render.toList =
      List.replicate (4 * line.depth) ' ' ++ line.text.toList := by
    rw [render, String.toList_append, String.toList_ofList]
  have text : line.render.toList.dropWhile (· == ' ') = line.text.toList := by
    rw [written, List.dropWhile_append_of_pos fun c among => by
      rw [List.eq_of_mem_replicate among]; rfl]
    cases chars : line.text.toList with
    | nil => rfl
    | cons c rest =>
        rw [Flush, chars, List.head?_cons, ne_eq, Option.some.injEq] at flush
        rw [List.dropWhile_cons_of_neg (by simpa using flush)]
  have depth : (line.render.toList.length - line.text.toList.length) / 4 = line.depth := by
    rw [written, List.length_append, List.length_replicate]
    omega
  simp only [read, text, depth, String.ofList_toList]

/-- Lines without blanks in front of their texts are known from how they are written. -/
theorem eq_of_map_render {lines lines' : List Line} (flush : ∀ line ∈ lines, line.Flush)
    (flush' : ∀ line ∈ lines', line.Flush) (same : lines.map render = lines'.map render) :
    lines = lines' := by
  have back {lines : List Line} (flush : ∀ line ∈ lines, line.Flush) :
      (lines.map render).map read = lines := by
    rw [List.map_map]
    calc lines.map (read ∘ render)
      _ = lines.map id := List.map_congr_left fun line among => read_render (flush line among)
      _ = lines := List.map_id lines
  rw [← back flush, same, back flush']

end Line

/-! ## Statements -/

/-- A text that starts with something else than a blank, the next case, or a condition. -/
def Text.Clear (text : String) : Prop :=
  ∃ c rest, text.toList = c :: rest ∧ c ≠ ' ' ∧ c ≠ '#' ∧ c ≠ 'I'

theorem Text.Clear.append {text : String} (clear : Clear text) (more : String) :
    Clear (text ++ more) := by
  obtain ⟨c, rest, chars, other⟩ := clear
  exact ⟨c, rest ++ more.toList, by rw [String.toList_append, chars, List.cons_append], other⟩

/-- A line that jumps, and a condition, begin otherwise. -/
theorem Text.Clear.ne_of_head {text other : String} (clear : Clear text) {c : Char}
    (head : other.toList.head? = some c) (marks : c = '#' ∨ c = 'I') : other ≠ text := by
  rintro rfl
  obtain ⟨first, rest, chars, -, noJump, noCondition⟩ := clear
  rw [chars, List.head?_cons, Option.some.injEq] at head
  rcases marks with rfl | rfl
  · exact noJump head
  · exact noCondition head

theorem Text.Clear.flush {text : String} (clear : Clear text) (depth : Nat) :
    Line.Flush ⟨depth, text⟩ := by
  obtain ⟨c, rest, chars, other, -⟩ := clear
  simpa [Line.Flush, chars] using other

theorem decimal_injective {left right : Nat} (same : decimal left = decimal right) :
    left = right :=
  Tag.digits_injective (String.ofList_injective same)

namespace Instruction

/-- An assignment to a bit, or a word that is reset. -/
inductive Assigns : Instruction → Prop where
  | on {tag : String} : Text.Clear tag → Assigns (.setBool tag true)
  | off {tag : String} : Text.Clear tag → Assigns (.setBool tag false)
  | reset {tag : String} : Text.Clear tag → Assigns (.setInt tag 0)

theorem render_on (tag : String) : (setBool tag true).render = tag ++ " := TRUE;" := by
  simp [render, String.append_assoc]

theorem render_off (tag : String) : (setBool tag false).render = tag ++ " := FALSE;" := by
  simp [render, String.append_assoc]

theorem render_reset (tag : String) : (setInt tag 0).render = tag ++ " := 0;" := by
  have zero : signedDecimal 0 = "0" := by decide +kernel
  simp [render, zero, String.append_assoc]

variable {left right : Instruction}

theorem Assigns.clear (assigns : left.Assigns) : Text.Clear left.render := by
  cases assigns with
  | on clear => exact render_on _ ▸ clear.append _
  | off clear => exact render_off _ ▸ clear.append _
  | reset clear => exact render_reset _ ▸ clear.append _

/-- Assignments are told apart by what they end in. -/
theorem Assigns.eq_of_render (assigns : left.Assigns) (assigns' : right.Assigns)
    (same : left.render = right.render) : left = right := by
  cases assigns <;> cases assigns' <;> simp only [render_on, render_off, render_reset] at same
  case on.on | off.off | reset.reset => rw [(String.append_left_inj _).mp same]
  all_goals
    have ends := congrArg (fun text => text.toList.reverse) same
    simp at ends

/-- An assignment is not an increment. -/
theorem Assigns.render_ne (assigns : left.Assigns) (text : String) :
    left.render ≠ text ++ " + 1;" := by
  intro same
  cases assigns <;> simp only [render_on, render_off, render_reset] at same
  all_goals
    have ends := congrArg (fun text => text.toList.reverse) same
    simp at ends

/-- Lines of which the first is no assignment. -/
def Stop (rest : List Line) : Prop :=
  ∀ line ∈ rest.head?, ∀ instruction : Instruction, instruction.Assigns →
    line.text ≠ instruction.render

/-- Assignments end before the first line that is none. -/
theorem lines_append_inj {depth : Nat} {left right : List Instruction} {rest rest' : List Line}
    (assigns : ∀ instruction ∈ left, instruction.Assigns)
    (assigns' : ∀ instruction ∈ right, instruction.Assigns) (ends : Stop rest) (ends' : Stop rest')
    (same : lines depth left ++ rest = lines depth right ++ rest') :
    left = right ∧ rest = rest' := by
  induction left generalizing right with
  | nil =>
      cases right with
      | nil => exact ⟨rfl, same⟩
      | cons instruction more =>
          rw [List.forall_mem_cons] at assigns'
          simp only [lines, List.map_nil, List.nil_append] at same
          rw [same] at ends
          exact absurd rfl (ends _ rfl instruction assigns'.1)
  | cons first more ih =>
      rw [List.forall_mem_cons] at assigns
      cases right with
      | nil =>
          simp only [lines, List.map_nil, List.nil_append] at same
          rw [← same] at ends'
          exact absurd rfl (ends' _ rfl first assigns.1)
      | cons first' more' =>
          rw [List.forall_mem_cons] at assigns'
          simp only [lines, List.map_cons, List.cons_append, List.cons.injEq, Line.mk.injEq,
            true_and] at same
          obtain ⟨head, same⟩ := same
          obtain ⟨rfl, restEq⟩ := ih assigns.2 assigns'.2 same
          rw [assigns.1.eq_of_render assigns'.1 head]
          exact ⟨rfl, restEq⟩

end Instruction

/-! ## Conditions -/

/-- A signal that a case waits for when signals have automatic names. -/
inductive Tag.Awaited : String → Prop where
  | sensor (label : Char) (direction : Direction) :
      Awaited ((Tag.Actuator.auto label).sensor direction)
  | done (number : Nat) : Awaited (Tag.Timer.auto number).done

namespace Tag.Awaited

variable {left right : String}

theorem toList_done (number : Nat) : (Timer.auto number).done.toList =
    "Timer_".toList ++ (Text.digits number ++ "_Done".toList) :=
  Role.toList_autoName rfl

/-- A sensor does not begin like the end of a timer. -/
theorem sensor_append_ne (label : Char) (direction : Direction) (number : Nat)
    (more more' : List Char) : ((Actuator.auto label).sensor direction).toList ++ more ≠
      (Timer.auto number).done.toList ++ more' := by
  intro same
  rw [sensor_auto, Role.toList_autoName (Role.sensor_appliesTo direction label),
    toList_done] at same
  cases direction <;> simp [Role.sensor, Role.before] at same

/-- No signal begins like another one. -/
theorem append_inj (awaited : Awaited left) (awaited' : Awaited right) {more more' : List Char}
    (same : left.toList ++ more = right.toList ++ more') : left = right ∧ more = more' := by
  cases awaited with
  | sensor label direction =>
      cases awaited' with
      | sensor label' direction' =>
          rw [sensor_auto, sensor_auto] at same ⊢
          rw [Role.toList_autoName (Role.sensor_appliesTo direction label),
            Role.toList_autoName (Role.sensor_appliesTo direction' label')] at same
          cases direction <;> cases direction' <;>
            simp_all [Role.sensor, Role.before, Role.behind, Role.mark]
      | done number => exact absurd same (sensor_append_ne _ _ _ _ _)
  | done number =>
      cases awaited' with
      | sensor label direction => exact absurd same.symm (sensor_append_ne _ _ _ _ _)
      | done number' =>
          -- The number of a timer ends where the next mark is.
          have noMark (number : Nat) : '_' ∉ Text.digits number := Text.not_mem_digits rfl number
          have mark : "_Done".toList = '_' :: "Done".toList := rfl
          simp only [toList_done, mark, List.append_assoc, List.append_cancel_left_eq,
            List.cons_append] at same
          have cuts := congrArg (Text.cut '_') same
          rw [Text.cut_append (noMark number), Text.cut_append (noMark number')] at cuts
          obtain ⟨digits, rest⟩ := Prod.mk.inj cuts
          obtain rfl := digits_injective digits
          exact ⟨rfl, List.append_cancel_left (Option.some.inj rest)⟩

theorem ne_empty (awaited : Awaited left) : left ≠ "" := by
  intro empty
  cases awaited with
  | sensor label direction =>
      cases direction <;> simp [Actuator.sensor, Actuator.auto, Role.autoName] at empty
  | done number => simp [Timer.auto, Role.autoName] at empty

end Tag.Awaited

namespace Condition

/-- The signals behind the first one. -/
def tail (terms : List String) : List Char :=
  terms.flatMap fun term => " AND ".toList ++ term.toList

theorem toList_render_cons (term : String) (terms : List String) :
    (Condition.mk (term :: terms)).render.toList = term.toList ++ tail terms := by
  rw [render, String.toList_intercalate]
  induction terms generalizing term with
  | nil => simp [tail]
  | cons next rest ih =>
      have behind := ih next
      simp only [List.map_cons] at behind ⊢
      rw [List.intercalate_cons_cons, behind]
      simp [tail]

theorem tail_injective {left right : List String} (awaited : ∀ term ∈ left, Tag.Awaited term)
    (awaited' : ∀ term ∈ right, Tag.Awaited term) (same : tail left = tail right) :
    left = right := by
  induction left generalizing right with
  | nil =>
      cases right with
      | nil => rfl
      | cons term rest => simp [tail] at same
  | cons term rest ih =>
      cases right with
      | nil => simp [tail] at same
      | cons term' rest' =>
          rw [List.forall_mem_cons] at awaited awaited'
          simp only [tail, List.flatMap_cons, List.append_assoc] at same
          obtain ⟨rfl, restEq⟩ := awaited.1.append_inj awaited'.1 (List.append_cancel_left same)
          rw [ih awaited.2 awaited'.2 restEq]

/-- A condition on a signal is not written as nothing. -/
theorem render_cons_ne {term : String} (awaited : Tag.Awaited term) (terms : List String) :
    (Condition.mk (term :: terms)).render ≠ (Condition.mk []).render := by
  intro same
  have empty : (Condition.mk []).render.toList = [] := rfl
  have chars := congrArg String.toList same
  rw [empty, toList_render_cons, List.append_eq_nil_iff] at chars
  exact awaited.ne_empty (String.toList_eq_nil_iff.mp chars.1)

/-- A condition is known from its text. -/
theorem eq_of_render {left right : Condition} (awaited : ∀ term ∈ left.terms, Tag.Awaited term)
    (awaited' : ∀ term ∈ right.terms, Tag.Awaited term) (same : left.render = right.render) :
    left = right := by
  obtain ⟨terms⟩ := left
  obtain ⟨terms'⟩ := right
  cases terms with
  | nil =>
      cases terms' with
      | nil => rfl
      | cons term' rest' =>
          exact absurd same.symm (render_cons_ne (awaited' term' List.mem_cons_self) rest')
  | cons term rest =>
      cases terms' with
      | nil => exact absurd same (render_cons_ne (awaited term List.mem_cons_self) rest)
      | cons term' rest' =>
          rw [List.forall_mem_cons] at awaited awaited'
          have chars := congrArg String.toList same
          rw [toList_render_cons, toList_render_cons] at chars
          obtain ⟨rfl, tails⟩ := awaited.1.append_inj awaited'.1 chars
          rw [tail_injective awaited.2 awaited'.2 tails]

end Condition

namespace Limit

/-- A number, or the repeat variable plus a number. -/
inductive Bounds : Limit → Prop where
  | literal (count : UInt32) : Bounds (.literal count)
  | variable (offset : UInt32) : Bounds (.variable Tag.repeatVariable offset)

/-- A number does not begin like a variable. -/
theorem decimal_ne_variable (value : Nat) (offset : UInt32) :
    decimal value ≠ (Limit.variable Tag.repeatVariable offset).render := by
  intro same
  have among : 'N' ∈ (decimal value).toList := by
    rw [same]
    simp only [render]
    split <;> simp [Tag.repeatVariable]
  rw [decimal, String.toList_ofList] at among
  exact Text.not_mem_digits rfl value among

theorem plus_ne (text more : String) : text ++ " + " ++ more ≠ text := by
  intro same
  have sign : " + ".length = 3 := rfl
  have lengths := congrArg String.length same
  simp only [String.length_append, sign] at lengths
  omega

theorem Bounds.eq_of_render {left right : Limit} (bounds : left.Bounds) (bounds' : right.Bounds)
    (same : left.render = right.render) : left = right := by
  cases bounds with
  | literal count =>
      cases bounds' with
      | literal count' => rw [UInt32.toNat_inj.mp (decimal_injective same)]
      | «variable» offset => exact absurd same (decimal_ne_variable _ offset)
  | «variable» offset =>
      cases bounds' with
      | literal count => exact absurd same.symm (decimal_ne_variable _ offset)
      | «variable» offset' =>
          simp only [render] at same
          split at same <;> split at same
          · next zero zero' => rw [zero, zero']
          · exact absurd same.symm (plus_ne _ _)
          · exact absurd same (plus_ne _ _)
          · rw [UInt32.toNat_inj.mp (decimal_injective ((String.append_right_inj _).mp same))]

end Limit

/-! ## Transitions -/

namespace Transition

/-- The transition with a jump in the place of an endless loop. -/
def direct : Transition → Transition
  | .jump target => .jump target
  | .loop start => .jump start
  | .count counter limit start otherwise => .count counter limit start otherwise.direct

/-- A transition whose counters and limits are those of an automatically named program. -/
inductive Plain : Transition → Prop where
  | jump (target : Nat) : Plain (.jump target)
  | loop (start : Nat) : Plain (.loop start)
  | count {counter : String} {limit : Limit} (start : Nat) {otherwise : Transition} :
      Text.Clear counter → limit.Bounds → Plain otherwise →
      Plain (.count counter limit start otherwise)

theorem lines_direct (depth : Nat) (transition : Transition) :
    transition.direct.lines depth = transition.lines depth := by
  induction transition generalizing depth with
  | jump target => rfl
  | loop start => rfl
  | count counter limit start otherwise ih => rw [direct, lines, lines, ih]

theorem next_injective {left right : Nat}
    (same : "#NEXT := " ++ decimal left ++ ";" = "#NEXT := " ++ decimal right ++ ";") :
    left = right := by
  rw [String.append_left_inj, String.append_right_inj] at same
  exact decimal_injective same

/-- A counter is known from its increment, which has its name twice. -/
theorem increment_injective {left right : String}
    (same : left ++ " := " ++ left ++ " + 1;" = right ++ " := " ++ right ++ " + 1;") :
    left = right := by
  have chars := congrArg String.toList same
  have lengths := congrArg String.length same
  simp only [String.length_append] at lengths
  simp only [String.toList_append, List.append_assoc] at chars
  have length : left.toList.length = right.toList.length := by
    rw [String.length_toList, String.length_toList]
    omega
  exact String.toList_inj.mp (List.append_inj_left chars length)

theorem head?_next (target : Nat) :
    ("#NEXT := " ++ decimal target ++ ";").toList.head? = some '#' := by
  simp

theorem next_ne_clear {text : String} (clear : Text.Clear text) (target : Nat) :
    "#NEXT := " ++ decimal target ++ ";" ≠ text :=
  clear.ne_of_head (head?_next target) (.inl rfl)

/-- A transition begins with a line that is neither an assignment nor a condition. -/
theorem Plain.exists_head {transition : Transition} (plain : transition.Plain) (depth : Nat) :
    ∃ text rest, transition.lines depth = ⟨depth, text⟩ :: rest ∧
      (∀ instruction : Instruction, instruction.Assigns → text ≠ instruction.render) ∧
      text.toList.head? ≠ some 'I' := by
  cases plain with
  | jump target | loop target =>
      refine ⟨_, _, rfl, fun instruction assigns => next_ne_clear assigns.clear target, ?_⟩
      rw [head?_next]
      decide
  | @count counter limit start otherwise clear bounds plain =>
      refine ⟨_, _, rfl, fun instruction assigns => (assigns.render_ne _).symm, ?_⟩
      obtain ⟨c, rest, chars, -, -, other⟩ :=
        ((clear.append " := ").append counter).append " + 1;"
      rw [chars, List.head?_cons, ne_eq, Option.some.injEq]
      exact other

theorem Plain.next_append_inj {transition : Transition} (plain : transition.Plain)
    {depth target : Nat} {rest rest' : List Line}
    (same : ⟨depth, "#NEXT := " ++ decimal target ++ ";"⟩ :: rest =
      transition.lines depth ++ rest') :
    .jump target = transition.direct ∧ rest = rest' := by
  cases plain with
  | jump target' | loop target' =>
      simp only [lines, List.singleton_append, List.cons.injEq, Line.mk.injEq, true_and] at same
      obtain ⟨next, restEq⟩ := same
      rw [next_injective next, direct]
      exact ⟨rfl, restEq⟩
  | count start clear bounds plain =>
      simp only [lines, List.cons_append, List.cons.injEq, Line.mk.injEq, true_and] at same
      exact absurd same.1 (next_ne_clear (((clear.append _).append _).append _) target)

/-- A transition ends where it does whatever follows it. -/
theorem Plain.lines_append_inj {left right : Transition} (plain : left.Plain)
    (plain' : right.Plain) {depth : Nat} {rest rest' : List Line}
    (same : left.lines depth ++ rest = right.lines depth ++ rest') :
    left.direct = right.direct ∧ rest = rest' := by
  -- The lines behind `ELSE` are a transition themselves, and `END_IF;` is behind it.
  induction plain generalizing right depth rest rest' with
  | jump target | loop target => exact plain'.next_append_inj same
  | @count counter limit start otherwise clear bounds plain ih =>
      cases plain' with
      | jump target | loop target =>
          have plain : (Transition.count counter limit start otherwise).Plain :=
            .count start clear bounds plain
          obtain ⟨directEq, restEq⟩ := plain.next_append_inj same.symm
          exact ⟨directEq.symm, restEq.symm⟩
      | @count counter' limit' start' otherwise' clear' bounds' plain' =>
          simp only [lines, List.cons_append, List.nil_append, List.append_assoc, List.cons.injEq,
            Line.mk.injEq, true_and] at same
          obtain ⟨increment, test, next, -, same⟩ := same
          obtain rfl := increment_injective increment
          rw [String.append_left_inj, String.append_right_inj] at test
          obtain rfl := bounds.eq_of_render bounds' test
          obtain rfl := next_injective next
          obtain ⟨otherwiseEq, restEq⟩ := ih plain' same
          rw [direct, direct, otherwiseEq]
          exact ⟨rfl, (List.cons.inj restEq).2⟩

end Transition

/-! ## Cases -/

theorem Transition.Plain.stop {transition : Transition} (plain : transition.Plain) (depth : Nat)
    (rest : List Line) : Instruction.Stop (transition.lines depth ++ rest) := by
  obtain ⟨text, more, linesEq, other, -⟩ := plain.exists_head depth
  rw [linesEq]
  rintro line ⟨⟩
  exact other

namespace Case

/-- The case with jumps in the place of endless loops. -/
def direct (case : Case) : Case :=
  { case with next := case.next.direct }

/-- A case like those of an automatically named program. -/
structure Plain (case : Case) : Prop where
  body : ∀ instruction ∈ case.body, instruction.Assigns
  exit : ∀ instruction ∈ case.onExit, instruction.Assigns
  guard : ∀ guard ∈ case.guard, ∀ term ∈ guard.terms, Tag.Awaited term
  /-- A case that is left at once does nothing when it is left. -/
  unguarded : case.guard = none → case.onExit = []
  next : case.next.Plain

/-- The lines of a case behind its body. -/
def leaving (depth : Nat) (case : Case) : List Line :=
  match case.guard with
  | some guard =>
      [⟨depth + 1, "IF " ++ guard.render ++ " THEN"⟩] ++
        Instruction.lines (depth + 2) case.onExit ++ case.next.lines (depth + 2) ++
        [⟨depth + 1, "END_IF;"⟩]
  | none => Instruction.lines (depth + 1) case.onExit ++ case.next.lines (depth + 1)

theorem lines_eq (depth : Nat) (case : Case) :
    case.lines depth = ⟨depth, decimal case.number ++ ":"⟩ ::
      (Instruction.lines (depth + 1) case.body ++ case.leaving depth) := rfl

theorem lines_direct (depth : Nat) (case : Case) : case.direct.lines depth = case.lines depth := by
  simp only [lines, direct, Transition.lines_direct]

variable {left right case : Case} {depth : Nat} {rest rest' : List Line}

theorem leaving_of_some {guard : Condition} (guarded : case.guard = some guard) :
    case.leaving depth ++ rest = ⟨depth + 1, "IF " ++ guard.render ++ " THEN"⟩ ::
      (Instruction.lines (depth + 2) case.onExit ++
        (case.next.lines (depth + 2) ++ ⟨depth + 1, "END_IF;"⟩ :: rest)) := by
  simp [leaving, guarded]

theorem Plain.leaving_of_none (plain : case.Plain) (unguarded : case.guard = none) :
    case.leaving depth = case.next.lines (depth + 1) := by
  simp [leaving, unguarded, plain.unguarded unguarded, Instruction.lines]

theorem head?_condition (guard : Condition) :
    ("IF " ++ guard.render ++ " THEN").toList.head? = some 'I' := by
  simp

theorem condition_ne_clear {text : String} (clear : Text.Clear text) (guard : Condition) :
    "IF " ++ guard.render ++ " THEN" ≠ text :=
  clear.ne_of_head (head?_condition guard) (.inr rfl)

theorem Plain.stop (plain : case.Plain) (depth : Nat) (rest : List Line) :
    Instruction.Stop (case.leaving depth ++ rest) := by
  cases guarded : case.guard with
  | none =>
      rw [plain.leaving_of_none guarded]
      exact plain.next.stop (depth + 1) rest
  | some guard =>
      rw [leaving_of_some guarded]
      rintro line ⟨⟩ instruction assigns
      exact condition_ne_clear assigns.clear guard

/-- The first word behind the body tells a case with a guard from one without. -/
theorem Plain.not_leaving_of_none {guard : Condition} (plain : case.Plain)
    (unguarded : case.guard = none) {more : List Line} :
    ⟨depth + 1, "IF " ++ guard.render ++ " THEN"⟩ :: more ≠ case.leaving depth ++ rest := by
  intro same
  obtain ⟨text, others, linesEq, -, other⟩ := plain.next.exists_head (depth + 1)
  rw [plain.leaving_of_none unguarded, linesEq, List.cons_append, List.cons.injEq,
    Line.mk.injEq] at same
  rw [← same.1.2] at other
  exact other (head?_condition guard)

theorem Plain.leaving_append_inj (plain : left.Plain) (plain' : right.Plain)
    (same : left.leaving depth ++ rest = right.leaving depth ++ rest') :
    left.guard = right.guard ∧ left.onExit = right.onExit ∧
      left.next.direct = right.next.direct ∧ rest = rest' := by
  cases guarded : left.guard with
  | none =>
      cases guarded' : right.guard with
      | none =>
          rw [plain.leaving_of_none guarded, plain'.leaving_of_none guarded'] at same
          obtain ⟨next, restEq⟩ := plain.next.lines_append_inj plain'.next same
          rw [plain.unguarded guarded, plain'.unguarded guarded']
          exact ⟨rfl, rfl, next, restEq⟩
      | some guard =>
          rw [leaving_of_some guarded'] at same
          exact absurd same.symm (plain.not_leaving_of_none guarded)
  | some guard =>
      rw [leaving_of_some guarded] at same
      cases guarded' : right.guard with
      | none => exact absurd same (plain'.not_leaving_of_none guarded')
      | some guard' =>
          rw [leaving_of_some guarded', List.cons.injEq, Line.mk.injEq, String.append_left_inj,
            String.append_right_inj] at same
          obtain ⟨⟨-, condition⟩, same⟩ := same
          have guardEq := Condition.eq_of_render (plain.guard guard guarded)
            (plain'.guard guard' guarded') condition
          obtain ⟨exitEq, same⟩ := Instruction.lines_append_inj plain.exit plain'.exit
            (plain.next.stop _ _) (plain'.next.stop _ _) same
          obtain ⟨next, restEq⟩ := plain.next.lines_append_inj plain'.next same
          rw [guardEq]
          exact ⟨rfl, exitEq, next, (List.cons.inj restEq).2⟩

/-- A case ends where it does whatever follows it. -/
theorem Plain.lines_append_inj (plain : left.Plain) (plain' : right.Plain)
    (same : left.lines depth ++ rest = right.lines depth ++ rest') :
    left.direct = right.direct ∧ rest = rest' := by
  rw [lines_eq, lines_eq, List.cons_append, List.cons_append, List.cons.injEq, Line.mk.injEq,
    String.append_left_inj, List.append_assoc, List.append_assoc] at same
  obtain ⟨⟨-, number⟩, same⟩ := same
  obtain ⟨bodyEq, same⟩ := Instruction.lines_append_inj plain.body plain'.body
    (plain.stop depth rest) (plain'.stop depth rest') same
  obtain ⟨guardEq, exitEq, next, restEq⟩ := plain.leaving_append_inj plain' same
  rw [direct, direct, decimal_injective number, bodyEq, guardEq, exitEq, next]
  exact ⟨rfl, restEq⟩

/-- Cases end before the line that closes them. -/
theorem flatMap_lines_append_inj {cases cases' : List Case} (plain : ∀ case ∈ cases, case.Plain)
    (plain' : ∀ case ∈ cases', case.Plain)
    (same : cases.flatMap (lines depth) ++ ⟨0, "END_CASE;"⟩ :: rest =
      cases'.flatMap (lines depth) ++ ⟨0, "END_CASE;"⟩ :: rest') :
    cases.map direct = cases'.map direct ∧ rest = rest' := by
  have isNumber {number : Nat} : decimal number ++ ":" ≠ "END_CASE;" := by
    intro same
    have ends := congrArg (fun text => text.toList.reverse) same
    simp at ends
  induction cases generalizing cases' with
  | nil =>
      cases cases' with
      | nil => exact ⟨rfl, (List.cons.inj same).2⟩
      | cons case' more' =>
          simp only [List.flatMap_nil, List.nil_append, List.flatMap_cons, lines_eq,
            List.cons_append, List.cons.injEq, Line.mk.injEq] at same
          exact absurd same.1.2.symm isNumber
  | cons case more ih =>
      rw [List.forall_mem_cons] at plain
      cases cases' with
      | nil =>
          simp only [List.flatMap_nil, List.nil_append, List.flatMap_cons, lines_eq,
            List.cons_append, List.cons.injEq, Line.mk.injEq] at same
          exact absurd same.1.2 isNumber
      | cons case' more' =>
          rw [List.forall_mem_cons] at plain'
          rw [List.flatMap_cons, List.flatMap_cons, List.append_assoc, List.append_assoc] at same
          obtain ⟨caseEq, same⟩ := plain.1.lines_append_inj plain'.1 same
          obtain ⟨moreEq, restEq⟩ := ih plain.2 plain'.2 same
          rw [List.map_cons, List.map_cons, caseEq, moreEq]
          exact ⟨rfl, restEq⟩

end Case

end Pneumatic
