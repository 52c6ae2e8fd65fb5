import Pneumatic.Proofs.Program.Mentions
import Mathlib.Data.List.Sort

/-!
# Numbers of components

Timers and pressures are numbered from one in reading order, each sort for itself, and regions with
a count in the order of regions.  So no two tokens have the same number, no two regions do, and a
region without a count has none.
-/

namespace Pneumatic

/-- The sort of the component that a token belongs to. -/
def Token.sort : Token → ComponentKind
  | .actuation _ => .actuator
  | .timer _ => .timer
  | .pressure _ => .pressure

/-- The number of a component of a sort. -/
def ComponentId.number? : ComponentKind → ComponentId → Option Nat
  | .timer, .timer number => some number
  | .counter, .counter number => some number
  | .pressure, .pressure number => some number
  | _, _ => none

theorem ComponentId.number?_eq_some {id : ComponentId} (numbered : id.kind ≠ .actuator) :
    ∃ number, id.number? id.kind = some number := by
  cases id with
  | actuator label => exact absurd rfl numbered
  | timer number | counter number | pressure number => exact ⟨number, rfl⟩

variable {kind : ComponentKind}

/-! ## Tokens -/

namespace Part

/-- The components of a sort that were numbered so far. -/
def Tally.count (tally : Tally) : ComponentKind → Nat
  | .timer => tally.timers
  | .pressure => tally.pressures
  | .actuator | .counter => 0

theorem kind_number (tally : Tally) (token : Token) :
    (number tally token).1.kind = token.sort := by
  cases token <;> rfl

/-- The next component has the next number of its sort. -/
theorem number?_number (numbered : kind ≠ .actuator) (tally : Tally) (token : Token) :
    (number tally token).1.number? kind =
        (if token.sort = kind then some (tally.count kind + 1) else none) ∧
      (number tally token).2.count kind =
        tally.count kind + if token.sort = kind then 1 else 0 := by
  cases token <;> cases kind <;>
    first | exact absurd rfl numbered | exact ⟨rfl, rfl⟩

/-- The numbers of a sort follow the reading order. -/
theorem filterMap_number?_ofTokens (numbered : kind ≠ .actuator) (tally : Tally)
    (tokens : List Token) :
    (ofTokens tally tokens).1.filterMap (·.component.number? kind) =
        List.range' (tally.count kind + 1) (tokens.countP (·.sort = kind)) ∧
      (ofTokens tally tokens).2.count kind =
        tally.count kind + tokens.countP (·.sort = kind) := by
  induction tokens generalizing tally with
  | nil => exact ⟨rfl, rfl⟩
  | cons token rest ih =>
      obtain ⟨numbers, count⟩ := ih (number tally token).2
      obtain ⟨own, after⟩ := number?_number numbered tally token
      rw [after] at numbers count
      rw [ofTokens, List.filterMap_cons, List.countP_cons, numbers, own, count]
      by_cases same : token.sort = kind
      · simp only [same, if_true, decide_true]
        exact ⟨rfl, by omega⟩
      · simp [same]

theorem map_kind_ofTokens (tally : Tally) (tokens : List Token) :
    (ofTokens tally tokens).1.map (·.component.kind) = tokens.map Token.sort := by
  induction tokens generalizing tally with
  | nil => rfl
  | cons token rest ih =>
      rw [ofTokens, List.map_cons, List.map_cons, ih, kind_number]

theorem filterMap_number?_ofSteps (numbered : kind ≠ .actuator) (tally : Tally)
    (steps : List Step) :
    (ofSteps tally steps).flatten.filterMap (·.component.number? kind) =
      List.range' (tally.count kind + 1)
        ((steps.flatMap Step.tokens).countP (·.sort = kind)) := by
  induction steps generalizing tally with
  | nil => rfl
  | cons step rest ih =>
      obtain ⟨numbers, count⟩ := filterMap_number?_ofTokens numbered tally step.tokens
      rw [ofSteps, List.flatten_cons, List.filterMap_append, numbers, ih, count, List.flatMap_cons,
        List.countP_append, Nat.add_right_comm, List.range'_append_1]

theorem zipIdx_map_const {Element Value : Type} (value : Value) (elements : List Element)
    (start : Nat) : (elements.map fun _ => value).zipIdx start =
      (List.range' start elements.length).map (value, ·) := by
  induction elements generalizing start with
  | nil => rfl
  | cons element rest ih =>
      rw [List.map_cons, List.zipIdx_cons, ih, List.length_cons, List.range'_succ, List.map_cons]

/-- Each number with the step that holds its token. -/
theorem flatMap_number?_ofSteps (numbered : kind ≠ .actuator) (tally : Tally)
    (steps : List Step) (first : Nat) :
    (((ofSteps tally steps).zipIdx first).flatMap fun entry =>
        (entry.1.filterMap (·.component.number? kind)).map (entry.2, ·)) =
      ((steps.zipIdx first).flatMap fun entry =>
        (entry.1.tokens.filter (·.sort = kind)).map fun _ => entry.2).zipIdx
          (tally.count kind + 1) := by
  induction steps generalizing tally first with
  | nil => rfl
  | cons step rest ih =>
      obtain ⟨numbers, count⟩ := filterMap_number?_ofTokens numbered tally step.tokens
      rw [ofSteps, List.zipIdx_cons, List.flatMap_cons, ih, count, List.zipIdx_cons,
        List.flatMap_cons, List.zipIdx_append, zipIdx_map_const, numbers, List.length_map,
        ← List.countP_eq_length_filter, Nat.add_right_comm]

theorem filterMap_ofRegions (counters : Nat) (regions : List Region) :
    (ofRegions counters regions).filterMap id =
      List.range' (counters + 1) (regions.countP (·.bound.isCounted)) := by
  induction regions generalizing counters with
  | nil => rfl
  | cons region rest ih =>
      cases counted : region.bound.isCounted with
      | false =>
          rw [ofRegions, counted, List.countP_cons_of_neg (by simp [counted])]
          exact ih counters
      | true =>
          rw [ofRegions, counted, List.countP_cons_of_pos (by simp [counted]), List.range'_succ]
          exact congrArg (_ :: ·) (ih (counters + 1))

/-- Each counter with the first step of its region. -/
theorem filterMap_first_ofRegions (counters : Nat) (regions : List Region) :
    ((List.range regions.length).filterMap fun position => regions[position]?.bind fun region =>
        ((ofRegions counters regions)[position]?.join).map (region.first, ·)) =
      ((regions.filter (·.bound.isCounted)).map (·.first)).zipIdx (counters + 1) := by
  induction regions generalizing counters with
  | nil => rfl
  | cons region rest ih =>
      rw [List.length_cons, List.range_succ_eq_map, List.filterMap_cons, List.filterMap_map]
      cases counted : region.bound.isCounted with
      | false =>
          have behind := ih counters
          simpa [ofRegions, counted, Function.comp_def] using behind
      | true =>
          have behind := ih (counters + 1)
          simpa [ofRegions, counted, Function.comp_def] using behind

end Part

namespace Sequence

variable (sequence : Sequence)

/-- The token at a place of a step. -/
def tokenAt? (step place : Nat) : Option Token :=
  sequence.steps[step]?.bind (·.tokens[place]?)

/-- The component that the token at a place of a step is numbered as. -/
def componentAt? (step place : Nat) : Option ComponentId :=
  (sequence.parts[step]?.bind (·[place]?)).map (·.component)

theorem map_kind_componentAt? (step place : Nat) :
    (sequence.componentAt? step place).map (·.kind) =
      (sequence.tokenAt? step place).map (·.sort) := by
  obtain ⟨tally, partsEq⟩ := Part.getElem?_ofSteps ⟨0, 0⟩ sequence.steps step
  rw [componentAt?, tokenAt?, parts, partsEq]
  cases sequence.steps[step]? with
  | none => rfl
  | some found =>
      have sorts := congrArg (·[place]?) (Part.map_kind_ofTokens tally found.tokens)
      simpa [Function.comp_def] using sorts

/-- Two tokens of a sequence have the same component only if it is an actuator. -/
theorem pairwise_parts : sequence.parts.flatten.Pairwise fun left right =>
    left.component = right.component → left.component.kind = .actuator := by
  rw [List.pairwise_iff_forall_sublist]
  intro left right inOrder same
  by_contra numbered
  obtain ⟨number, numberEq⟩ := ComponentId.number?_eq_some numbered
  have numbers := inOrder.filterMap (·.component.number? left.component.kind)
  have pair : [left, right].filterMap (·.component.number? left.component.kind) =
      [number, number] := by
    simp [← same, numberEq]
  rw [parts, Part.filterMap_number?_ofSteps numbered, pair] at numbers
  exact List.nodup_iff_sublist.mp List.nodup_range' number numbers

variable {sequence} {step place step' place' : Nat} {component : ComponentId}

theorem exists_part_of_componentAt? (found : sequence.componentAt? step place = some component) :
    ∃ (inside : step < sequence.parts.length) (within : place < sequence.parts[step].length),
      sequence.parts[step][place].component = component := by
  obtain ⟨part, here, componentEq⟩ := Option.map_eq_some_iff.mp found
  obtain ⟨parts, there, here⟩ := Option.bind_eq_some_iff.mp here
  obtain ⟨inside, rfl⟩ := List.getElem?_eq_some_iff.mp there
  obtain ⟨within, rfl⟩ := List.getElem?_eq_some_iff.mp here
  exact ⟨inside, within, componentEq⟩

/-- A token that is read before another one has another component. -/
theorem kind_of_earlier (earlier : step < step' ∨ step = step' ∧ place < place')
    (found : sequence.componentAt? step place = some component)
    (found' : sequence.componentAt? step' place' = some component) :
    component.kind = .actuator := by
  obtain ⟨inside, within, rfl⟩ := exists_part_of_componentAt? found
  obtain ⟨inside', within', same⟩ := exists_part_of_componentAt? found'
  obtain ⟨inSteps, acrossSteps⟩ := List.pairwise_flatten.mp sequence.pairwise_parts
  rcases earlier with before | ⟨rfl, before⟩
  · exact List.pairwise_iff_getElem.mp acrossSteps step step' inside inside' before _
      (List.getElem_mem within) _ (List.getElem_mem within') same.symm
  · exact List.pairwise_iff_getElem.mp (inSteps _ (List.getElem_mem inside)) place place'
      within within' before same.symm

/-- Only an actuator belongs to tokens at two places. -/
theorem place_eq_of_componentAt? (numbered : component.kind ≠ .actuator)
    (found : sequence.componentAt? step place = some component)
    (found' : sequence.componentAt? step' place' = some component) :
    step = step' ∧ place = place' := by
  have notBefore : ¬ (step < step' ∨ step = step' ∧ place < place') :=
    fun earlier => numbered (kind_of_earlier earlier found found')
  have notBehind : ¬ (step' < step ∨ step' = step ∧ place' < place) :=
    fun earlier => numbered (kind_of_earlier earlier found' found)
  omega

/-- The numbers of a sequence: timers, pressures and counted regions from one on in their order,
no two of them alike, and none for a region without a count. -/
structure Numbered (sequence : Sequence) : Prop where
  sorts : ∀ step place, (sequence.componentAt? step place).map (·.kind) =
    (sequence.tokenAt? step place).map (·.sort)
  tokens : ∀ kind, kind ≠ .actuator →
    sequence.parts.flatten.filterMap (·.component.number? kind) =
      List.range' 1 (sequence.tokens.countP (·.sort = kind))
  tokensApart : ∀ {step place step' place' : Nat} {component : ComponentId},
    component.kind ≠ .actuator → sequence.componentAt? step place = some component →
    sequence.componentAt? step' place' = some component → step = step' ∧ place = place'
  counted : ∀ position : Nat, (sequence.counters[position]?.join).isSome =
    sequence.regions[position]?.any (·.bound.isCounted)
  regions : sequence.counters.filterMap id =
    List.range' 1 (sequence.regions.countP (·.bound.isCounted))
  regionsApart : ∀ {left right number : Nat}, sequence.counters[left]?.join = some number →
    sequence.counters[right]?.join = some number → left = right

theorem numbered (sequence : Sequence) : sequence.Numbered where
  sorts := sequence.map_kind_componentAt?
  tokens kind numbered := by
    have numbers := Part.filterMap_number?_ofSteps numbered ⟨0, 0⟩ sequence.steps
    cases kind <;> first | exact absurd rfl numbered | exact numbers
  tokensApart := place_eq_of_componentAt?
  counted := Part.join_ofRegions 0 sequence.regions
  regions := Part.filterMap_ofRegions 0 sequence.regions
  regionsApart := Part.position_eq_of_join_ofRegions

end Sequence

end Pneumatic
