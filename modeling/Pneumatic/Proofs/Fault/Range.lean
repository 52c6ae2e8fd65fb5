import Pneumatic.Fault.Inject

/-!
# Damage within range

A draw below a bound gives a number below it, a search gives the first line that has something to
give, and an operator that is applied to a line of a program asks for lines of that program only.
What it gives reports one of these lines; a removal takes one line away, and every other operator
leaves as many as there were.
-/

namespace Pneumatic.Fault

/-! ## Operations that stay within range -/

/-- An operation that asks for no place out of range, and whose result satisfies a condition unless
the attempts that are allowed do not do. -/
def Safely {α : Type} (holds : α → Prop) : Except Failure α → Prop
  | .ok value => holds value
  | .error failure => failure = .outOfFuel

namespace Safely

variable {α β : Type} {holds : α → Prop} {result : Except Failure α}

theorem of_eq_ok (safely : Safely holds result) {value : α} (succeeds : result = .ok value) :
    holds value := by
  subst succeeds
  exact safely

theorem ne_outOfRange (safely : Safely holds result) (place : Nat) :
    result ≠ .error (.outOfRange place) := by
  rintro rfl
  exact nomatch safely

theorem mono {holds' : α → Prop} (safely : Safely holds result)
    (then' : ∀ value, holds value → holds' value) : Safely holds' result := by
  cases result with
  | ok value => exact then' value safely
  | error failure => exact safely

theorem bind {holds' : β → Prop} {next : α → Except Failure β} (safely : Safely holds result)
    (then' : ∀ value, holds value → Safely holds' (next value)) :
    Safely holds' (result >>= next) := by
  cases result with
  | ok value => exact then' value safely
  | error failure => exact safely

theorem map {holds' : β → Prop} {change : α → β} (safely : Safely holds result)
    (then' : ∀ value, holds value → holds' (change value)) : Safely holds' (result.map change) := by
  cases result with
  | ok value => exact then' value safely
  | error failure => exact safely

end Safely

theorem fetch_of_lt {α : Type} {list : List α} {place : Nat} (inside : place < list.length) :
    fetch list place = .ok list[place] := by
  rw [fetch, List.getElem?_eq_getElem inside]

theorem safely_fetch {α : Type} {list : List α} {place : Nat} (inside : place < list.length) :
    Safely (list[place]? = some ·) (fetch list place) := by
  rw [fetch_of_lt inside]
  exact List.getElem?_eq_getElem inside

/-! ## Draws -/

namespace Source

variable {σ : Type} {source : Source σ} {bits range word value fuel : Nat} {state state' : σ}

theorem lt_of_accept? (positive : 0 < range) (small : word < 1 <<< bits)
    (accepted : accept? bits range word = some value) : value < range := by
  simp only [accept?, Option.ite_none_right_eq_some, Option.some.injEq] at accepted
  obtain ⟨-, rfl⟩ := accepted
  rw [Nat.one_shiftLeft] at small
  rw [Nat.shiftRight_eq_div_pow]
  exact Nat.div_lt_of_lt_mul (Nat.mul_lt_mul_of_pos_right small positive)

theorem lt_of_below? {next : σ → Nat × σ} (positive : 0 < range)
    (small : ∀ state, (next state).1 < 1 <<< bits)
    (drawn : below? bits next range fuel state = some (value, state')) : value < range := by
  induction fuel generalizing state with
  | zero => contradiction
  | succ fuel ih =>
      simp only [below?] at drawn
      split at drawn
      · next accepted =>
          obtain ⟨rfl, -⟩ := Prod.mk.inj (Option.some.inj drawn)
          exact lt_of_accept? positive (small state) accepted
      · exact ih drawn

theorem lt_of_below64? (positive : 0 < range)
    (drawn : source.below64? range fuel state = some (value, state')) : value < range :=
  lt_of_below? positive (fun _ => UInt64.toNat_lt _) drawn

theorem lt_of_below32? (positive : 0 < range)
    (drawn : source.below32? range fuel state = some (value, state')) : value < range :=
  lt_of_below? positive (fun _ => UInt32.toNat_lt _) drawn

end Source

theorem safely_drawn {α : Type} {holds : α → Prop} {result : Option α}
    (all : ∀ value, result = some value → holds value) : Safely holds (drawn result) := by
  cases result with
  | none => rfl
  | some value => exact all value rfl

/-! ## Searches -/

variable {lines : List String} {index place : Nat}

/-- What a search through some places gives: nothing if none of their lines gives something, and
otherwise the first place whose line does. -/
inductive Finds {α : Type} (look : String → Option α) (lines : List String) (places : List Nat) :
    Option (Nat × α) → Prop where
  | nothing : (∀ place ∈ places, ∀ line, lines[place]? = some line → look line = none) →
      Finds look lines places none
  | first {front back : List Nat} {place : Nat} {line : String} {value : α} :
      places = front ++ place :: back → lines[place]? = some line → look line = some value →
      (∀ passed ∈ front, ∀ line, lines[passed]? = some line → look line = none) →
      Finds look lines places (some (place, value))

theorem Finds.cons {α : Type} {look : String → Option α} {places : List Nat} {line : String}
    {found : Option (Nat × α)} (here : lines[place]? = some line) (nothing : look line = none)
    (finds : Finds look lines places found) : Finds look lines (place :: places) found := by
  have passes : ∀ text, lines[place]? = some text → look text = none := by
    intro text here'
    rwa [← Option.some.inj (here.symm.trans here')]
  cases finds with
  | nothing nowhere => exact .nothing (List.forall_mem_cons.mpr ⟨passes, nowhere⟩)
  | @first front _ _ _ _ placesEq there gives passed =>
      have split : place :: places = (place :: front) ++ _ :: _ := congrArg (place :: ·) placesEq
      exact .first split there gives (List.forall_mem_cons.mpr ⟨passes, passed⟩)

theorem exists_finds {α : Type} (look : String → Option α) {places : List Nat}
    (inside : ∀ place ∈ places, place < lines.length) :
    ∃ found, search look lines places = .ok found ∧ Finds look lines places found := by
  induction places with
  | nil => exact ⟨none, rfl, .nothing nofun⟩
  | cons place rest ih =>
      rw [List.forall_mem_cons] at inside
      have here := List.getElem?_eq_getElem inside.1
      rw [search, fetch_of_lt inside.1]
      cases gives : look lines[place] with
      | some value =>
          have split : place :: rest = [] ++ place :: rest := rfl
          exact ⟨_, by simp only [bind, Except.bind, gives], .first split here gives nofun⟩
      | none =>
          obtain ⟨found, searched, finds⟩ := ih inside.2
          exact ⟨found, by simpa only [bind, Except.bind, gives] using searched,
            finds.cons here gives⟩

theorem safely_search {α : Type} {look : String → Option α} {places : List Nat}
    (inside : ∀ place ∈ places, place < lines.length) :
    Safely (fun found => ∀ place value, found = some (place, value) → place < lines.length)
      (search look lines places) := by
  obtain ⟨found, searched, finds⟩ := exists_finds look inside
  rw [searched]
  rintro place value rfl
  cases finds with
  | first _ here _ _ => exact (List.getElem?_eq_some_iff.mp here).1

/-! ## Operators -/

/-- The lines that damage of a kind takes away. -/
def Kind.lost (kind : Kind) : Nat :=
  if kind = .delete then 1 else 0

/-- A change that reports a line of a program and takes so many of its lines away. -/
def Fits (lines : List String) (lost : Nat) : Option Change → Prop
  | none => True
  | some (lines', line) => line < lines.length ∧ lines'.length + lost = lines.length

/-- The line to exchange a line with: the one two places on, or two places back if there is none. -/
def IsPartner (count index other : Nat) : Prop :=
  other = index + 2 ∧ other < count ∨ count ≤ index + 2 ∧ index = other + 2

theorem partner?_eq_some_iff {count other : Nat} :
    partner? count index = some other ↔ IsPartner count index other := by
  unfold partner? IsPartner
  split
  · rw [Option.some.injEq]
    omega
  · split
    · rw [Option.some.injEq]
      omega
    · simp only [reduceCtorEq, false_iff]
      omega

theorem lt_of_partner? {count other : Nat} (found : partner? count index = some other)
    (inside : index < count) : other < count := by
  have isPartner := partner?_eq_some_iff.mp found
  unfold IsPartner at isPartner
  omega

theorem ne_of_partner? {count other : Nat} (found : partner? count index = some other) :
    index ≠ other := by
  have isPartner := partner?_eq_some_iff.mp found
  unfold IsPartner at isPartner
  omega

theorem safely_transpose (inside : index < lines.length) :
    Safely (Fits lines 0) (transpose lines index) := by
  unfold transpose
  cases partner : partner? lines.length index with
  | none => trivial
  | some other =>
      refine (safely_fetch inside).bind fun line _ => ?_
      refine (safely_fetch (lt_of_partner? partner inside)).bind fun line' _ => ?_
      by_cases same : line = line'
      · simp only [same, if_true]
        trivial
      · simp only [same, if_false]
        exact ⟨inside, by simp⟩

theorem safely_truncate (count : Nat) (inside : index < lines.length) :
    Safely (Fits lines 0) (truncate count lines index) := by
  refine (safely_fetch inside).bind fun line _ => ?_
  cases empty : line.toList.isEmpty with
  | true =>
      simp only [empty, if_true]
      trivial
  | false =>
      simp only [empty, Bool.false_eq_true, if_false]
      exact ⟨inside, by simp⟩

theorem safely_delete (inside : index < lines.length) :
    Safely (Fits lines 1) (delete lines index) := by
  refine (safely_fetch inside).bind fun line _ => ⟨inside, ?_⟩
  rw [List.length_eraseIdx_of_lt inside]
  omega

theorem safely_editFrom (edit : String → Option String) (start : Nat) :
    Safely (Fits lines 0) (editFrom edit lines start) := by
  have inside : ∀ place ∈ (List.range lines.length).drop start, place < lines.length :=
    fun place among => List.mem_range.mp (List.mem_of_mem_drop among)
  refine (safely_search inside).bind fun found known => ?_
  cases found with
  | none => trivial
  | some found => exact ⟨known found.1 found.2 rfl, by simp⟩

theorem safely_redirect {place : Nat} (label other : Char) (inside : place < lines.length) :
    Safely (fun change => Fits lines 0 (some change)) (redirect lines place label other) := by
  refine (safely_fetch inside).bind fun line _ => ⟨inside, ?_⟩
  simp

variable {σ : Type} {source : Source σ} {fuel : Nat} {labels : List Char} {state : σ}

theorem safely_swapActuator (index : Nat) :
    Safely (fun outcome => Fits lines 0 outcome.1)
      (swapActuator source fuel labels lines index state) := by
  unfold swapActuator
  split
  · trivial
  · have inside : ∀ place ∈ (List.range lines.length).drop index ++
        (List.range lines.length).take index, place < lines.length := by
      intro place among
      rcases List.mem_append.mp among with behind | before
      · exact List.mem_range.mp (List.mem_of_mem_drop behind)
      · exact List.mem_range.mp (List.mem_of_mem_take before)
    refine (safely_search inside).bind fun found known => ?_
    cases found with
    | none => trivial
    | some found =>
        obtain ⟨place, label⟩ := found
        simp only
        split
        · trivial
        · next others =>
            have positive : 0 < (labels.filter (· ≠ label)).length := by
              rw [List.length_pos_iff, ne_eq, ← List.isEmpty_iff]
              exact others
            have drawn : Safely (fun outcome => outcome.1 < (labels.filter (· ≠ label)).length)
                (drawn (source.below32? (labels.filter (· ≠ label)).length fuel state)) :=
              safely_drawn fun outcome found => Source.lt_of_below32? positive found
            refine drawn.bind fun outcome chosen => ?_
            refine (safely_fetch chosen).bind fun other _ => ?_
            refine (safely_redirect label other (known place label rfl)).bind fun change fits => ?_
            exact fits

/-- Damage to a line of a program asks for lines of that program only. -/
theorem safely_damage (kind : Kind) (inside : index < lines.length) :
    Safely (fun outcome => Fits lines kind.lost outcome.1)
      (damage source fuel kind labels lines index state) := by
  cases kind with
  | transpose => exact (safely_transpose inside).map fun _ fits => fits
  | truncate =>
      have drawn : Safely (fun outcome => outcome.1 < 3) (drawn (source.below64? 3 fuel state)) :=
        safely_drawn fun outcome found => Source.lt_of_below64? (by decide) found
      exact drawn.bind fun outcome _ => (safely_truncate _ inside).map fun _ fits => fits
  | delete => exact (safely_delete inside).map fun _ fits => fits
  | flipBoolean => exact (safely_editFrom _ _).map fun _ fits => fits
  | stripCondition => exact (safely_editFrom _ _).map fun _ fits => fits
  | swapActuator => exact safely_swapActuator index

end Pneumatic.Fault
