import Pneumatic.Proofs.Except
import Pneumatic.Proofs.Fault.Count
import Pneumatic.Proofs.Fault.Weight
import Mathlib.Algebra.Group.Even

/-!
# Damage undone

Each fault changes the lines, but a later one may change them back.  Faults that take something
away lower the weight of the lines and no fault raises it, so these are never undone; neither is a
single fault, nor an odd number of negated truth values, since each makes the lines a character
longer or shorter.
-/

namespace Pneumatic.Fault

/-! ## What a fault does to the lines -/

/-- The weight of lines, each with its line break. -/
def weight : List String → Nat :=
  total fun text => weigh text + 1

/-- The characters of lines. -/
def size : List String → Nat :=
  total List.length

/-- Whether damage of a kind takes nothing away. -/
def Kind.keeps : Kind → Bool
  | .transpose | .flipBoolean | .swapActuator => true
  | .truncate | .delete | .stripCondition => false

/-- The truth values that damage of a kind negates. -/
def Kind.flips (kind : Kind) : Nat :=
  if kind = .flipBoolean then 1 else 0

/-- The truth values that faults negated. -/
def flips (faults : List Applied) : Nat :=
  faults.countP (·.kind == .flipBoolean)

theorem flips_append_singleton (faults : List Applied) (fault : Applied) :
    flips (faults ++ [fault]) = flips faults + fault.kind.flips := by
  simp [flips, Kind.flips, List.countP_append, List.countP_singleton]

/-- Lines that damage of a kind made of others: never the same, lighter if something was taken
away, and otherwise as heavy, and of another size modulo two if a truth value was negated. -/
structure Marks (kind : Kind) (lines lines' : List String) : Prop where
  ne : lines' ≠ lines
  lighter : kind.keeps = false → weight lines' < weight lines
  even : kind.keeps = true → weight lines' = weight lines ∧
    size lines' % 2 = (size lines + kind.flips) % 2

variable {lines lines' : List String} {index place line : Nat}

theorem Marks.of_lighter {kind : Kind} (takes : kind.keeps = false)
    (lighter : weight lines' < weight lines) : Marks kind lines lines' where
  ne := by
    rintro rfl
    exact Nat.lt_irrefl _ lighter
  lighter _ := lighter
  even keeps := by simp [takes] at keeps

/-- No damage makes lines heavier. -/
theorem Marks.weight_le {kind : Kind} (marks : Marks kind lines lines') :
    weight lines' ≤ weight lines := by
  cases keeps : kind.keeps with
  | true => exact Nat.le_of_eq (marks.even keeps).1
  | false => exact Nat.le_of_lt (marks.lighter keeps)

/-- A lighter line makes the lines lighter. -/
theorem weight_set_lt {found edited : String} (here : lines[place]? = some found)
    (lighter : weigh edited.toList < weigh found.toList) :
    weight (lines.set place edited) < weight lines := by
  have balance := total_set (fun text => weigh text + 1) here edited
  unfold weight
  omega

theorem fetch_eq_ok_iff {α : Type} {list : List α} {element : α} :
    fetch list place = .ok element ↔ list[place]? = some element := by
  unfold fetch
  cases list[place]? <;> simp

/-- What is found is what a line gives. -/
theorem of_search_eq_some {α : Type} {look : String → Option α} {places : List Nat} {value : α}
    (found : search look lines places = .ok (some (place, value))) :
    ∃ line, lines[place]? = some line ∧ look line = some value := by
  induction places with
  | nil => cases found
  | cons first rest ih =>
      obtain ⟨line, fetched, found⟩ := exists_of_bind_eq_ok found
      split at found
      · next looked =>
          obtain ⟨rfl, rfl⟩ := Prod.mk.inj (Option.some.inj (Except.ok.inj found))
          exact ⟨line, fetch_eq_ok_iff.mp fetched, looked⟩
      · exact ih found

theorem of_editFrom_eq_some {edit : String → Option String} {start : Nat}
    (changed : editFrom edit lines start = .ok (some (lines', line))) :
    ∃ found edited, lines[line]? = some found ∧ edit found = some edited ∧
      lines' = lines.set line edited := by
  obtain ⟨searched, found, changed⟩ := exists_of_bind_eq_ok changed
  cases searched with
  | none => cases changed
  | some searched =>
      obtain ⟨place, edited⟩ := searched
      obtain ⟨rfl, rfl⟩ := Prod.mk.inj (Option.some.inj (Except.ok.inj changed))
      obtain ⟨line, here, editedEq⟩ := of_search_eq_some found
      exact ⟨line, edited, here, editedEq, rfl⟩

theorem marks_transpose (changed : transpose lines index = .ok (some (lines', line))) :
    Marks .transpose lines lines' := by
  unfold transpose at changed
  split at changed
  · cases changed
  · next other partner =>
      obtain ⟨found, fetched, changed⟩ := exists_of_bind_eq_ok changed
      obtain ⟨found', fetched', changed⟩ := exists_of_bind_eq_ok changed
      have here := fetch_eq_ok_iff.mp fetched
      have there := fetch_eq_ok_iff.mp fetched'
      have apart := ne_of_partner? partner
      split at changed
      · cases changed
      · next differ =>
          obtain ⟨rfl, -⟩ := Prod.mk.inj (Option.some.inj (Except.ok.inj changed))
          refine ⟨fun unchanged => differ ?_, nofun,
            fun _ => ⟨total_exchange _ apart here there, ?_⟩⟩
          · have moved : ((lines.set index found').set other found)[index]? = some found' := by
              rw [List.getElem?_set_ne (Ne.symm apart),
                List.getElem?_set_self (List.getElem?_eq_some_iff.mp here).1]
            rw [unchanged, here] at moved
            exact Option.some.inj moved
          · exact congrArg (· % 2) (total_exchange _ apart here there)

theorem marks_truncate {count : Nat} (positive : 0 < count)
    (changed : truncate count lines index = .ok (some (lines', line))) :
    Marks .truncate lines lines' := by
  obtain ⟨found, fetched, changed⟩ := exists_of_bind_eq_ok changed
  simp only at changed
  split at changed
  · cases changed
  · next nonempty =>
      obtain ⟨rfl, -⟩ := Prod.mk.inj (Option.some.inj (Except.ok.inj changed))
      refine .of_lighter rfl (weight_set_lt (fetch_eq_ok_iff.mp fetched) ?_)
      have parts := weigh_add_le (found.toList.take (found.toList.length - count))
        (found.toList.drop (found.toList.length - count))
      have dropped := length_le_weigh (found.toList.drop (found.toList.length - count))
      have long : 0 < found.toList.length := by
        rw [List.length_pos_iff, ne_eq, ← List.isEmpty_iff]
        exact nonempty
      rw [List.take_append_drop] at parts
      rw [List.length_drop] at dropped
      rw [String.toList_ofList]
      omega

theorem marks_delete (changed : delete lines index = .ok (some (lines', line))) :
    Marks .delete lines lines' := by
  obtain ⟨found, fetched, changed⟩ := exists_of_bind_eq_ok changed
  obtain ⟨rfl, -⟩ := Prod.mk.inj (Option.some.inj (Except.ok.inj changed))
  have balance := total_eraseIdx (fun text => weigh text + 1) (fetch_eq_ok_iff.mp fetched)
  refine .of_lighter rfl ?_
  unfold weight
  omega

theorem marks_flipBoolean (changed : flipBoolean lines index = .ok (some (lines', line))) :
    Marks .flipBoolean lines lines' := by
  obtain ⟨found, edited, here, editedEq, rfl⟩ := of_editFrom_eq_some changed
  obtain ⟨text, flipped, rfl⟩ := Option.map_eq_some_iff.mp editedEq
  have flips := flipFirst?_eq_some_iff.mp flipped
  have heavy := total_set (fun text => weigh text + 1) here (String.ofList text)
  have long := total_set List.length here (String.ofList text)
  have sameWeight := flips.weigh_eq
  have otherLength := flips.length_mod_two
  rw [String.toList_ofList] at heavy long
  have odd : size (lines.set line (String.ofList text)) % 2 = (size lines + 1) % 2 := by
    unfold size
    omega
  refine ⟨fun unchanged => ?_, nofun, fun _ => ⟨?_, odd⟩⟩
  · rw [unchanged] at odd
    omega
  · unfold weight
    omega

theorem marks_stripCondition (changed : stripCondition lines index = .ok (some (lines', line))) :
    Marks .stripCondition lines lines' := by
  obtain ⟨found, edited, here, stripped, rfl⟩ := of_editFrom_eq_some changed
  exact .of_lighter rfl (weight_set_lt here (weigh_of_stripTerm? stripped))

variable {σ : Type} {source : Source σ} {fuel : Nat} {labels : List Char} {state state' : σ}

theorem marks_redirect {label other : Char} {found : String} (here : lines[place]? = some found)
    (differ : label ≠ other) (occurs : Text.occursIn (mention label) found.toList = true) :
    Marks .swapActuator lines (lines.set place
      (String.ofList (Text.replaceAll (mention label) (mention other) found.toList))) := by
  have redirects : Redirects found.toList
      (Text.replaceAll (mention label) (mention other) found.toList) :=
    redirects_replaceFrom label other found.toList 0
  have changes := replaceAll_ne label other differ occurs
  generalize Text.replaceAll (mention label) (mention other) found.toList = text at *
  have heavy := total_set (fun text => weigh text + 1) here (String.ofList text)
  have long := total_set List.length here (String.ofList text)
  rw [String.toList_ofList, redirects.weigh_eq] at heavy
  rw [String.toList_ofList, redirects.length_eq] at long
  refine ⟨fun unchanged => changes ?_, nofun, fun _ => ⟨Nat.add_right_cancel heavy, ?_⟩⟩
  · have edited := @List.getElem?_set_self _ _ _ (String.ofList text)
      (List.getElem?_eq_some_iff.mp here).1
    rw [unchanged, here] at edited
    rw [Option.some.inj edited, String.toList_ofList]
  · exact congrArg (· % 2) (Nat.add_right_cancel long)

theorem marks_swapActuator
    (changed : swapActuator source fuel labels lines index state =
      .ok (some (lines', line), state')) : Marks .swapActuator lines lines' := by
  unfold swapActuator at changed
  split at changed
  · cases changed
  · obtain ⟨searched, found, changed⟩ := exists_of_bind_eq_ok changed
    cases searched with
    | none => cases changed
    | some searched =>
        obtain ⟨place, label⟩ := searched
        simp only at changed
        split at changed
        · cases changed
        · obtain ⟨⟨choice, state⟩, -, changed⟩ := exists_of_bind_eq_ok changed
          obtain ⟨other, chosen, changed⟩ := exists_of_bind_eq_ok changed
          obtain ⟨change, redirected, changed⟩ := exists_of_bind_eq_ok changed
          obtain ⟨text, fetched, redirected⟩ := exists_of_bind_eq_ok redirected
          obtain rfl := Except.ok.inj redirected
          obtain ⟨outcome, -⟩ := Prod.mk.inj (Except.ok.inj changed)
          obtain ⟨rfl, -⟩ := Prod.mk.inj (Option.some.inj outcome)
          have here := fetch_eq_ok_iff.mp fetched
          obtain ⟨text', here', mentions⟩ := of_search_eq_some found
          obtain rfl : text' = text := Option.some.inj (here'.symm.trans here)
          have occurs := List.find?_some mentions
          have differ : label ≠ other := by
            have among := List.mem_of_getElem? (fetch_eq_ok_iff.mp chosen)
            exact Ne.symm (of_decide_eq_true (List.mem_filter.mp among).2)
          exact marks_redirect here differ occurs

/-- Damage that is not declined leaves its mark. -/
theorem marks_damage {kind : Kind}
    (changed : damage source fuel kind labels lines index state =
      .ok (some (lines', line), state')) : Marks kind lines lines' := by
  have inner {result : Except Failure (Option Change)} {state : σ}
      (mapped : result.map (·, state) = .ok (some (lines', line), state')) :
      result = .ok (some (lines', line)) := by
    cases result with
    | error failure => cases mapped
    | ok change => exact congrArg Except.ok (Prod.mk.inj (Except.ok.inj mapped)).1
  cases kind with
  | transpose => exact marks_transpose (inner changed)
  | truncate =>
      obtain ⟨⟨extra, state⟩, -, changed⟩ := exists_of_bind_eq_ok changed
      exact marks_truncate (Nat.succ_pos extra) (inner changed)
  | delete => exact marks_delete (inner changed)
  | flipBoolean => exact marks_flipBoolean (inner changed)
  | stripCondition => exact marks_stripCondition (inner changed)
  | swapActuator => exact marks_swapActuator changed

/-! ## What all faults do together -/

variable {done done' : Damaged} {body : List String} {target : Nat}

/-- A visit leaves everything as it was, or adds a fault that leaves its mark. -/
theorem marks_visit (visited : visit source fuel labels done index state = .ok (done', state')) :
    done' = done ∨ ∃ kind line, Marks kind done.lines done'.lines ∧
      done'.faults = done.faults ++ [⟨kind, line⟩] := by
  unfold visit at visited
  split at visited
  · exact .inl (Prod.mk.inj (Except.ok.inj visited)).1.symm
  · obtain ⟨⟨choice, between⟩, -, visited⟩ := exists_of_bind_eq_ok visited
    obtain ⟨kind, -, visited⟩ := exists_of_bind_eq_ok visited
    obtain ⟨⟨change, after⟩, damaged, visited⟩ := exists_of_bind_eq_ok visited
    obtain ⟨rfl, rfl⟩ := Prod.mk.inj (Except.ok.inj visited)
    cases change with
    | none => exact .inl rfl
    | some change => exact .inr ⟨kind, change.2, marks_damage damaged, rfl⟩

/-- What was done to a body so far: nothing was undone that took something away, a single fault
shows, and the size tells how many truth values were negated. -/
structure Toll (body : List String) (done : Damaged) : Prop where
  unharmed : done.faults = [] → done.lines = body
  single : done.faults.length = 1 → done.lines ≠ body
  light : weight done.lines ≤ weight body
  lighter : (∃ fault ∈ done.faults, fault.kind.keeps = false) → weight done.lines < weight body
  even : (∀ fault ∈ done.faults, fault.kind.keeps = true) →
    size done.lines % 2 = (size body + flips done.faults) % 2

namespace Toll

theorem start (body : List String) : Toll body ⟨body, []⟩ where
  unharmed _ := rfl
  single := nofun
  light := Nat.le_refl _
  lighter := nofun
  even _ := rfl

theorem add {kind : Kind} (toll : Toll body done) (marks : Marks kind done.lines lines') :
    Toll body ⟨lines', done.faults ++ [⟨kind, line⟩]⟩ where
  unharmed unfaulted := by simp at unfaulted
  single one := by
    have first : done.faults = [] := by simpa using one
    rw [← toll.unharmed first]
    exact marks.ne
  light := Nat.le_trans marks.weight_le toll.light
  lighter := by
    rintro ⟨fault, among, takes⟩
    rcases List.mem_append.mp among with before | last
    · exact Nat.lt_of_le_of_lt marks.weight_le (toll.lighter ⟨fault, before, takes⟩)
    · obtain rfl := List.mem_singleton.mp last
      exact Nat.lt_of_lt_of_le (marks.lighter takes) toll.light
  even keep := by
    simp only [List.mem_append, List.mem_singleton] at keep
    have before := toll.even fun fault among => keep fault (.inl among)
    have here := (marks.even (keep _ (.inr rfl))).2
    rw [flips_append_singleton]
    simp only
    omega

theorem visit (visited : visit source fuel labels done index state = .ok (done', state'))
    (toll : Toll body done) : Toll body done' := by
  rcases marks_visit visited with rfl | ⟨kind, line, marks, faultsEq⟩
  · exact toll
  · obtain ⟨lines', faults'⟩ := done'
    obtain rfl : faults' = done.faults ++ [⟨kind, line⟩] := faultsEq
    exact toll.add marks

theorem reached {stage stage' : Stage σ}
    (reached : Relation.ReflTransGen (Leads source labels target) stage stage')
    (toll : Toll body stage.done) : Toll body stage'.done := by
  induction reached with
  | refl => exact toll
  | tail _ step ih =>
      cases step with
      | visit _ _ visited => exact ih.visit visited
      | again _ _ _ => exact ih

end Toll

theorem Tier.target_pos (tier : Tier) {lines : Nat} (positive : 0 < lines) :
    0 < tier.target lines := by
  unfold target
  cases tier <;> simp only [linesPerFault] <;> omega

/-- Faults that give the lines back are two or more, none of them takes anything away, and they
negate an even number of truth values. -/
theorem undone_of_eq {tier : Tier} {damaged : Damaged} (nonempty : lines ≠ [])
    (injected : inject source fuel lines tier labels state = .some (damaged, state'))
    (same : damaged.lines = lines) :
    2 ≤ damaged.faults.length ∧ (∀ fault ∈ damaged.faults, fault.kind.keeps = true) ∧
      Even (flips damaged.faults) := by
  obtain ⟨index, reached, ends⟩ := safely_attempt.of_eq_ok (inject_eq_some_iff.mp injected)
  have toll : Toll lines damaged := .reached reached (.start lines)
  have enough : tier.target lines.length ≤ damaged.faults.length :=
    ends.resolve_right (same ▸ nonempty)
  have positive := tier.target_pos (List.length_pos_iff.mpr nonempty)
  have keep : ∀ fault ∈ damaged.faults, fault.kind.keeps = true := by
    intro fault among
    by_contra takes
    have lighter := toll.lighter ⟨fault, among, Bool.eq_false_iff.mpr takes⟩
    rw [same] at lighter
    exact Nat.lt_irrefl _ lighter
  refine ⟨?_, keep, ?_⟩
  · have notOne : damaged.faults.length ≠ 1 := fun one => toll.single one same
    omega
  · have even := toll.even keep
    rw [same] at even
    rw [Nat.even_iff]
    omega

end Pneumatic.Fault
