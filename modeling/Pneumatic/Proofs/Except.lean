import Mathlib.Data.List.Forall2

/-!
# Operations that can fail

How an operation succeeds or fails that is made of others: one after the other, with its errors
renamed, or once for each element of a list.
-/

namespace Pneumatic

section

variable {ε ε' α β : Type} {first : Except ε α} {next : α → Except ε β} {value : α} {error : ε}

/-! ## One after the other -/

/-- What comes out of two operations comes out of both. -/
theorem exists_of_bind_eq_ok {result : β} (succeeds : first >>= next = .ok result) :
    ∃ value, first = .ok value ∧ next value = .ok result := by
  cases first with
  | error error => contradiction
  | ok value => exact ⟨value, rfl, succeeds⟩

/-- One of two operations fails if they fail one after the other. -/
theorem of_bind_eq_error (fails : first >>= next = .error error) :
    first = .error error ∨ ∃ value, first = .ok value ∧ next value = .error error := by
  cases first with
  | error own =>
      obtain rfl := Except.error.inj fails
      exact .inl rfl
  | ok value => exact .inr ⟨value, rfl, fails⟩

/-- Two operations succeed one after the other if both succeed, as long as what comes out of the
first does not decide whether the second succeeds. -/
theorem exists_bind_iff {succeeds : Prop}
    (independent : ∀ value, (∃ result, next value = .ok result) ↔ succeeds) :
    (∃ result, first >>= next = .ok result) ↔ (∃ value, first = .ok value) ∧ succeeds := by
  constructor
  · rintro ⟨result, both⟩
    obtain ⟨value, firstEq, nextEq⟩ := exists_of_bind_eq_ok both
    exact ⟨⟨value, firstEq⟩, (independent value).mp ⟨result, nextEq⟩⟩
  · rintro ⟨⟨value, rfl⟩, holds⟩
    exact (independent value).mpr holds

/-! ## Errors renamed or forgotten -/

theorem of_mapError_eq_ok {change : ε → ε'} (succeeds : first.mapError change = .ok value) :
    first = .ok value := by
  cases first with
  | error error => contradiction
  | ok found => exact congrArg Except.ok (Except.ok.inj succeeds)

theorem of_mapError_eq_error {change : ε → ε'} {error : ε'}
    (fails : first.mapError change = .error error) :
    ∃ own, first = .error own ∧ error = change own := by
  cases first with
  | error own => exact ⟨own, rfl, (Except.error.inj fails).symm⟩
  | ok value => contradiction

theorem isSome_map_toOption {change : α → β} :
    (first.toOption.map change).isSome = true ↔ ∃ value, first = .ok value := by
  cases first <;> simp [Except.toOption]

theorem any_toOption_iff {test : α → Bool} :
    first.toOption.any test = true ↔ ∃ value, first = .ok value ∧ test value = true := by
  cases first <;> simp [Except.toOption]

end

/-! ## Once for each element of a list -/

section

variable {ε α σ : Type} {step : σ → α → Except ε σ} {list : List α}

/-- What every step of a fold that succeeds keeps holds at its end. -/
theorem foldlM_keeps (Holds : σ → Prop)
    (steps : ∀ state, ∀ element ∈ list, ∀ state', Holds state → step state element = .ok state' →
      Holds state') {state state' : σ}
    (folded : list.foldlM step state = .ok state') (holds : Holds state) : Holds state' := by
  induction list generalizing state with
  | nil =>
      obtain rfl := Except.ok.inj folded
      exact holds
  | cons element rest ih =>
      rw [List.foldlM_cons] at folded
      obtain ⟨next, stepped, folded⟩ := exists_of_bind_eq_ok folded
      have next := steps state element List.mem_cons_self next holds stepped
      exact ih (fun state later among => steps state later (List.mem_cons_of_mem _ among))
        folded next

/-- A fold succeeds if each of its steps does, whatever came before. -/
theorem exists_foldlM_eq_ok
    (steps : ∀ element ∈ list, ∀ state, ∃ state', step state element = .ok state') (state : σ) :
    ∃ state', list.foldlM step state = .ok state' := by
  induction list generalizing state with
  | nil => exact ⟨state, rfl⟩
  | cons element rest ih =>
      rw [List.forall_mem_cons] at steps
      obtain ⟨middle, stepped⟩ := steps.1 state
      rw [List.foldlM_cons, stepped]
      exact ih steps.2 middle

/-- A fold fails as one of its steps does. -/
theorem of_foldlM_eq_error {state : σ} {error : ε} (fails : list.foldlM step state = .error error) :
    ∃ element ∈ list, ∃ state, step state element = .error error := by
  induction list generalizing state with
  | nil => contradiction
  | cons element rest ih =>
      rw [List.foldlM_cons] at fails
      rcases of_bind_eq_error fails with now | ⟨middle, -, later⟩
      · exact ⟨element, List.mem_cons_self, state, now⟩
      · obtain ⟨other, among, failed⟩ := ih later
        exact ⟨other, List.mem_cons_of_mem _ among, failed⟩

end

section

variable {Element Result Value : Type} {function : Element → Option Result}
  {elements : List Element} {results : List Result}

/-- A map succeeds if the function does at every element, and its results are those of the
function. -/
theorem mapM_eq_some_iff :
    elements.mapM function = some results ↔ elements.map function = results.map some := by
  induction elements generalizing results with
  | nil => cases results <;> simp
  | cons element rest ih =>
      simp only [List.mapM_cons, Option.bind_eq_bind, Option.bind_eq_some_iff, ih, Option.pure_def,
        Option.some.injEq]
      cases results with
      | nil => simp
      | cons result others =>
          simp only [List.map_cons, List.cons.injEq]
          constructor
          · rintro ⟨_, first, _, later, rfl, rfl⟩
            exact ⟨first, later⟩
          · rintro ⟨first, later⟩
            exact ⟨result, first, others, later, rfl, rfl⟩

/-- Mapping a function over one more element. -/
theorem mapM_append_singleton {element : Element} {result : Result}
    (mapped : elements.mapM function = some results) (last : function element = some result) :
    (elements ++ [element]).mapM function = some (results ++ [result]) := by
  simp [List.mapM_append, mapped, last]

theorem forall₂_of_mapM (mapped : elements.mapM function = some results) :
    List.Forall₂ (fun element result => function element = some result) elements results := by
  rw [mapM_eq_some_iff, ← List.forall₂_eq_eq_eq, List.forall₂_map_left_iff,
    List.forall₂_map_right_iff] at mapped
  exact mapped

theorem exists_of_mem_mapM (mapped : elements.mapM function = some results) {result : Result}
    (among : result ∈ results) : ∃ element ∈ elements, function element = some result := by
  have image := List.mem_map_of_mem (f := some) among
  rwa [← mapM_eq_some_iff.mp mapped, List.mem_map] at image

theorem exists_mem_of_mapM (mapped : elements.mapM function = some results) {element : Element}
    (among : element ∈ elements) : ∃ result ∈ results, function element = some result := by
  have image := List.mem_map_of_mem (f := function) among
  rw [mapM_eq_some_iff.mp mapped, List.mem_map] at image
  obtain ⟨result, inResults, same⟩ := image
  exact ⟨result, inResults, same.symm⟩

theorem mem_of_mapM (mapped : elements.mapM function = some results) {element : Element}
    {result : Result} (among : element ∈ elements) (resultEq : function element = some result) :
    result ∈ results := by
  obtain ⟨image, inResults, imageEq⟩ := exists_mem_of_mapM mapped among
  rwa [← Option.some.inj (imageEq.symm.trans resultEq)]

/-- What the results hold in turn, as long as it can be told from the elements. -/
theorem flatMap_of_mapM {left : Result → List Value} {right : Element → List Value}
    (mapped : elements.mapM function = some results)
    (agree : ∀ element result, function element = some result → left result = right element) :
    results.flatMap left = elements.flatMap right := by
  have pieces := List.rel_map (R := fun element result => function element = some result)
    (P := (· = ·)) (fun element result mapped => (agree element result mapped).symm)
    (forall₂_of_mapM mapped)
  rw [List.forall₂_eq_eq_eq] at pieces
  rw [List.flatMap_def, List.flatMap_def, pieces]

end

end Pneumatic
