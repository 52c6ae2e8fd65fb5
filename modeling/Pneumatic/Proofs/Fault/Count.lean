import Pneumatic.Proofs.Fault.Fuel
import Pneumatic.Proofs.Fault.Range
import Mathlib.Algebra.Order.Floor.Div
import Mathlib.GroupTheory.GroupAction.Ring
import Mathlib.Logic.Relation

/-!
# The number of faults

Lines are visited until there are as many faults as the tier asks for.  Every fault takes away at
most one line and there are no more faults than lines, so a line is left to visit as long as a fault
is missing; a run that ends has all its faults.
-/

namespace Pneumatic.Fault

variable {σ : Type} {source : Source σ} {labels : List Char} {target body fuel index : Nat}
  {done : Damaged} {lines : List String} {tier : Tier} {state : σ}

/-! ## Visits -/

/-- A visit leaves everything as it was, or notes damage of some kind. -/
theorem safely_visit (inside : index < done.lines.length) :
    Safely (fun outcome => ∃ kind change, Fits done.lines kind.lost change ∧
      outcome.1 = done.record kind change) (visit source fuel labels done index state) := by
  unfold visit
  split
  · exact ⟨.delete, none, trivial, rfl⟩
  · next state' acts =>
      have drawn : Safely (fun outcome => outcome.1 < Kind.all.length)
          (drawn (source.below64? Kind.all.length fuel state')) :=
        safely_drawn fun outcome found => Source.lt_of_below64? (by decide) found
      refine drawn.bind fun outcome chosen => ?_
      refine (safely_fetch chosen).bind fun kind _ => ?_
      exact (safely_damage kind inside).bind fun outcome' fits => ⟨kind, outcome'.1, fits, rfl⟩

/-- A moment before a visit: what was done so far, the line to visit next, and the state of the
source. -/
structure Stage (σ : Type) where
  done : Damaged
  index : Nat
  state : σ

/-- From one moment to the next, as long as a fault is missing and a line is left: a line is
visited, or visits begin again with the first line. -/
inductive Leads (source : Source σ) (labels : List Char) (target : Nat) :
    Stage σ → Stage σ → Prop where
  | visit {done done' : Damaged} {index fuel : Nat} {state state' : σ} :
      done.faults.length < target → index < done.lines.length →
      visit source fuel labels done index state = .ok (done', state') →
      Leads source labels target ⟨done, index, state⟩ ⟨done', index + 1, state'⟩
  | again {done : Damaged} {index : Nat} {state : σ} :
      done.faults.length < target → done.lines ≠ [] → done.lines.length ≤ index →
      Leads source labels target ⟨done, index, state⟩ ⟨done, 0, state⟩

open Relation (ReflTransGen)

/-- Visiting lines asks for no line out of range.  It ends with enough faults or without a line. -/
theorem safely_visitLines :
    Safely (fun outcome => ∃ index',
        ReflTransGen (Leads source labels target) ⟨done, index, state⟩
          ⟨outcome.1, index', outcome.2⟩ ∧
        (target ≤ outcome.1.faults.length ∨ outcome.1.lines = []))
      (visitLines source labels target fuel done index state) := by
  induction fuel generalizing done index state with
  | zero => rfl
  | succ fuel ih =>
      unfold visitLines
      split
      · next stops =>
          rw [Bool.or_eq_true, decide_eq_true_iff, List.isEmpty_iff] at stops
          exact ⟨index, .refl, stops⟩
      · next goes =>
          rw [Bool.or_eq_true, decide_eq_true_iff, List.isEmpty_iff, not_or] at goes
          have missing := Nat.lt_of_not_le goes.1
          split
          · next inside =>
              cases visited : visit source fuel labels done index state with
              | error failure =>
                  have safely : Safely _ (visit source fuel labels done index state) :=
                    safely_visit inside
                  rw [visited] at safely
                  exact safely
              | ok outcome =>
                  refine ih.mono ?_
                  rintro final ⟨last, reached, ends⟩
                  exact ⟨last, .head (.visit missing inside visited) reached, ends⟩
          · next outside =>
              refine ih.mono ?_
              rintro final ⟨last, reached, ends⟩
              exact ⟨last, .head (.again missing goes.2 (Nat.le_of_not_lt outside)) reached, ends⟩

theorem visitLines_of_missing (missing : done.faults.length < target) (nonempty : done.lines ≠ []) :
    visitLines source labels target (fuel + 1) done index state =
      if index < done.lines.length then do
        let (done, state) ← visit source fuel labels done index state
        visitLines source labels target fuel done (index + 1) state
      else visitLines source labels target fuel done 0 state := by
  rw [visitLines, if_neg]
  rw [Bool.or_eq_true, decide_eq_true_iff, List.isEmpty_iff, not_or]
  exact ⟨Nat.not_le_of_lt missing, nonempty⟩

/-- What visits lead to comes of visiting lines with enough fuel. -/
theorem exists_visitLines_of_reached {stage final : Stage σ}
    (reached : ReflTransGen (Leads source labels target) stage final)
    (ends : target ≤ final.done.faults.length ∨ final.done.lines = []) :
    ∃ fuel, visitLines source labels target fuel stage.done stage.index stage.state =
      .ok (final.done, final.state) := by
  induction reached using ReflTransGen.head_induction_on with
  | refl =>
      refine ⟨1, ?_⟩
      rw [visitLines, if_pos]
      rwa [Bool.or_eq_true, decide_eq_true_iff, List.isEmpty_iff]
  | head leads _ ih =>
      obtain ⟨fuel', visitsOn⟩ := ih
      cases leads with
      | @visit done done' index fuel state state' missing inside visited =>
          refine ⟨max fuel fuel' + 1, ?_⟩
          rw [visitLines_of_missing missing (List.ne_nil_of_length_pos (Nat.zero_lt_of_lt inside)),
            if_pos inside, visit_of_le (Nat.le_max_left fuel fuel') visited]
          exact visitLines_of_le (Nat.le_max_right fuel fuel') visitsOn
      | again missing nonempty outside =>
          refine ⟨fuel' + 1, ?_⟩
          rw [visitLines_of_missing missing nonempty, if_neg (Nat.not_lt_of_le outside)]
          exact visitsOn

/-! ## Counting -/

/-- The removals among faults. -/
def removals (faults : List Applied) : Nat :=
  faults.countP (·.kind == .delete)

theorem removals_append_singleton (faults : List Applied) (fault : Applied) :
    removals (faults ++ [fault]) = removals faults + fault.kind.lost := by
  simp [removals, Kind.lost, List.countP_append, List.countP_singleton]

theorem removals_le_length (faults : List Applied) : removals faults ≤ faults.length :=
  List.countP_le_length

/-- What was done to a body of so many lines on the way to so many faults: every removal took a
line away, and every fault was found within the lines that were left. -/
structure Tally (body target : Nat) (done : Damaged) : Prop where
  lines : done.lines.length + removals done.faults = body
  faults : done.faults.length ≤ target
  places : ∀ position fault, done.faults[position]? = some fault →
    fault.line + removals (done.faults.take position) < body

namespace Tally

theorem start (lines : List String) (target : Nat) : Tally lines.length target ⟨lines, []⟩ :=
  ⟨rfl, Nat.zero_le _, nofun⟩

theorem record {kind : Kind} {change : Option Change} (tally : Tally body target done)
    (missing : done.faults.length < target) (fits : Fits done.lines kind.lost change) :
    Tally body target (done.record kind change) := by
  cases change with
  | none => exact tally
  | some change =>
      obtain ⟨lines, line⟩ := change
      obtain ⟨inside, lengthEq⟩ := fits
      have bodyEq := tally.lines
      constructor
      · change lines.length + removals (done.faults ++ [⟨kind, line⟩]) = body
        rw [removals_append_singleton]
        simp only
        omega
      · change (done.faults ++ [Applied.mk kind line]).length ≤ target
        rw [List.length_append, List.length_singleton]
        exact missing
      · intro position fault here
        simp only [Damaged.record] at here ⊢
        by_cases before : position < done.faults.length
        · rw [List.getElem?_append_left before] at here
          rw [List.take_append_of_le_length (Nat.le_of_lt before)]
          exact tally.places position fault here
        · obtain ⟨bound, -⟩ := List.getElem?_eq_some_iff.mp here
          obtain rfl : position = done.faults.length := by
            rw [List.length_append, List.length_singleton] at bound
            omega
          rw [List.getElem?_concat_length] at here
          obtain rfl := Option.some.inj here
          rw [List.take_left']
          · simp only
            omega
          · rfl

theorem leads {stage stage' : Stage σ} (leads : Leads source labels target stage stage')
    (tally : Tally body target stage.done) : Tally body target stage'.done := by
  cases leads with
  | visit missing inside visited =>
      obtain ⟨kind, change, fits, rfl⟩ := (safely_visit inside).of_eq_ok visited
      exact tally.record missing fits
  | again _ _ _ => exact tally

theorem reached {stage stage' : Stage σ}
    (reached : ReflTransGen (Leads source labels target) stage stage')
    (tally : Tally body target stage.done) : Tally body target stage'.done := by
  induction reached with
  | refl => exact tally
  | tail _ step ih => exact ih.leads step

/-- There are too few removals to leave no line before the last fault. -/
theorem lines_ne_nil (tally : Tally body target done) (reaches : target ≤ body)
    (missing : done.faults.length < target) : done.lines ≠ [] := by
  intro empty
  have bodyEq := tally.lines
  have few := removals_le_length done.faults
  rw [empty, List.length_nil] at bodyEq
  omega

end Tally

theorem Tier.target_eq (tier : Tier) (lines : Nat) :
    tier.target lines = lines ⌈/⌉ tier.linesPerFault :=
  (Nat.ceilDiv_eq_add_pred_div lines tier.linesPerFault).symm

theorem Tier.target_le (tier : Tier) (lines : Nat) : tier.target lines ≤ lines := by
  unfold target
  cases tier <;> simp only [linesPerFault] <;> omega

/-! ## Whole runs -/

theorem safely_attempt :
    Safely (fun outcome => ∃ index,
        ReflTransGen (Leads source labels (tier.target lines.length)) ⟨⟨lines, []⟩, 0, state⟩
          ⟨outcome.1, index, outcome.2⟩ ∧
        (tier.target lines.length ≤ outcome.1.faults.length ∨ outcome.1.lines = []))
      (attempt source fuel lines tier labels state) :=
  safely_visitLines

/-- What is damaged gets one fault for so many lines, rounded up.  Each removal takes one line away,
and each fault was found within the lines that the removals before it left.  No attempt, however it
ends, asks for a place out of range, and on the way to the last fault a line is always left. -/
theorem faults_exact {damaged : Damaged} {state' : σ}
    (injected : inject source fuel lines tier labels state = some (damaged, state')) :
    damaged.faults.length = lines.length ⌈/⌉ tier.linesPerFault ∧
    damaged.lines.length + removals damaged.faults = lines.length ∧
    (∀ position fault, damaged.faults[position]? = some fault →
      fault.line + removals (damaged.faults.take position) < lines.length) ∧
    (∀ fuel place, attempt source fuel lines tier labels state ≠ .error (.outOfRange place)) ∧
    (∃ index, ReflTransGen (Leads source labels (tier.target lines.length))
      ⟨⟨lines, []⟩, 0, state⟩ ⟨damaged, index, state'⟩) ∧
    ∀ stage, ReflTransGen (Leads source labels (tier.target lines.length))
        ⟨⟨lines, []⟩, 0, state⟩ stage →
      stage.done.faults.length < lines.length ⌈/⌉ tier.linesPerFault → stage.done.lines ≠ [] := by
  obtain ⟨index, reached, ends⟩ := safely_attempt.of_eq_ok (inject_eq_some_iff.mp injected)
  have start := Tally.start lines (tier.target lines.length)
  have tally : Tally lines.length (tier.target lines.length) damaged := .reached reached start
  have enough : tier.target lines.length ≤ damaged.faults.length := by
    rcases ends with enough | empty
    · exact enough
    · by_contra missing
      exact tally.lines_ne_nil (tier.target_le _) (Nat.lt_of_not_le missing) empty
  rw [← Tier.target_eq]
  refine ⟨Nat.le_antisymm tally.faults enough, tally.lines, tally.places, ?_, ⟨index, reached⟩, ?_⟩
  · exact fun fuel place => safely_attempt.ne_outOfRange place
  · intro stage passed missing
    exact (Tally.reached passed start).lines_ne_nil (tier.target_le _) missing

/-- A source with so many words to come, and zeros behind them. -/
def listed : Source (List UInt64) where
  next64 words := (words.headD 0, words.tail)
  next32 words := ((words.headD 0).toUInt32, words.tail)

/-- Two lines of four are removed, the second one where the third line came to stand. -/
theorem faults_exact_removals :
    ∃ damaged rest,
      inject listed 5 ["a", "b", "c", "d"] .hard []
        [0, 6917529027641081856, 0, 6917529027641081856] =
          some (damaged, rest) ∧
      damaged = ⟨["b", "d"], [⟨.delete, 0⟩, ⟨.delete, 1⟩]⟩ ∧
      damaged.faults.length = 4 ⌈/⌉ 3 ∧ damaged.lines.length + removals damaged.faults = 4 := by
  have injected : inject listed 5 ["a", "b", "c", "d"] .hard []
      [0, 6917529027641081856, 0, 6917529027641081856] =
        some (⟨["b", "d"], [⟨.delete, 0⟩, ⟨.delete, 1⟩]⟩, []) := by
    decide +kernel
  obtain ⟨faults, lines, -⟩ := faults_exact injected
  exact ⟨_, _, injected, rfl, faults, lines⟩

end Pneumatic.Fault
