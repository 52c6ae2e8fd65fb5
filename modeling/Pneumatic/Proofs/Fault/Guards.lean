import Pneumatic.Proofs.Fault.Weight
import Pneumatic.Proofs.Program.Lines

/-!
# Conditions with a term less

Dropping a term cuts a line from its last `AND` to the `THEN` behind it, wherever these words stand
in it.  In a line that asks for some signals this takes away the last of them, unless that signal
is called `AND` itself: then the line is cut between the two, and the `THEN` goes as well.
-/

namespace Pneumatic.Fault

variable {line : String} {text : List Char}

/-! ## Dropping a term -/

/-- A line that begins with `IF`, blanks aside, and has an `AND`. -/
def AsksMore (line : String) : Prop :=
  "IF ".toList <+: line.toList.dropWhile Text.isBlank ∧ " AND ".toList <:+: line.toList

/-- A text and what is left of it without its last `AND` and all behind it in front of the next
`THEN`, or behind it at all if there is no `THEN`. -/
inductive Strips (text : List Char) : List Char → Prop where
  | term {before behind term after : List Char} : Text.LastAt " AND ".toList text before behind →
      Text.FirstAt " THEN".toList behind term after →
      Strips text (before ++ (" THEN".toList ++ after))
  | rest {before behind : List Char} : Text.LastAt " AND ".toList text before behind →
      ¬ " THEN".toList <:+: behind → Strips text before

theorem stripTerm?_eq_none_iff : stripTerm? line = none ↔ ¬ AsksMore line := by
  rw [AsksMore, not_and_or, ← Text.dropLead?_eq_none_iff, ← Text.splitLast?_eq_none_iff, stripTerm?,
    Text.trimStart]
  cases Text.dropLead? "IF ".toList (line.toList.dropWhile Text.isBlank) <;>
    cases Text.splitLast? " AND ".toList line.toList <;> simp

theorem strips_of_stripTerm? {edited : String} (stripped : stripTerm? line = some edited) :
    ∃ text, edited = String.ofList text ∧ Strips line.toList text := by
  obtain ⟨-, -, stripped⟩ := Option.bind_eq_some_iff.mp stripped
  obtain ⟨⟨before, behind⟩, split, stripped⟩ := Option.bind_eq_some_iff.mp stripped
  obtain rfl := Option.some.inj stripped
  have last := Text.splitLast?_eq_some_iff.mp split
  refine ⟨_, rfl, ?_⟩
  cases found : Text.splitFirst? " THEN".toList behind with
  | none =>
      rw [List.append_nil]
      exact .rest last (Text.splitFirst?_eq_none_iff.mp found)
  | some parts => exact .term last (Text.splitFirst?_eq_some_iff.mp found)

/-! ## Guard lines -/

/-- A blank behind a word is the first one, or there is a later one behind it. -/
theorem eq_or_exists_of_blank {word rest front back : List Char} (dense : ' ' ∉ word)
    (textEq : word ++ ' ' :: rest = front ++ ' ' :: back) :
    front = word ∧ rest = back ∨ ∃ front', front = word ++ ' ' :: front' ∧
      rest = front' ++ ' ' :: back := by
  induction word generalizing front with
  | nil =>
      cases front with
      | nil => exact .inl ⟨rfl, (List.cons.inj textEq).2⟩
      | cons c front' =>
          obtain ⟨rfl, restEq⟩ := List.cons.inj textEq
          exact .inr ⟨front', rfl, restEq⟩
  | cons w word ih =>
      rw [List.mem_cons, not_or] at dense
      cases front with
      | nil => exact absurd (List.cons.inj textEq).1.symm dense.1
      | cons d front' =>
          obtain ⟨rfl, behind⟩ := List.cons.inj textEq
          rcases ih dense.2 behind with ⟨rfl, restEq⟩ | ⟨later, rfl, restEq⟩
          · exact .inl ⟨rfl, restEq⟩
          · exact .inr ⟨later, rfl, restEq⟩

/-- The line that asks for the terms of a condition. -/
def guardLine (depth : Nat) (guard : Condition) : String :=
  Line.render ⟨depth, "IF " ++ guard.render ++ " THEN"⟩

/-- A guard line up to its last term but one. -/
def opening (depth : Nat) (guard : Condition) : List Char :=
  List.replicate (4 * depth) ' ' ++ ("IF ".toList ++ guard.render.toList)

theorem toList_guardLine (depth : Nat) (guard : Condition) :
    (guardLine depth guard).toList = opening depth guard ++ " THEN".toList := by
  simp [guardLine, Line.render, opening]

theorem opening_append (depth : Nat) {terms : List String} (nonempty : terms ≠ []) (last : String) :
    opening depth ⟨terms ++ [last]⟩ =
      opening depth ⟨terms⟩ ++ (" AND ".toList ++ last.toList) := by
  obtain ⟨first, rest, rfl⟩ := List.exists_cons_of_ne_nil nonempty
  rw [opening, opening, List.cons_append, Condition.toList_render_cons,
    Condition.toList_render_cons]
  simp [Condition.tail]

section

variable {depth : Nat} {terms : List String} {last : String}

theorem and_append (rest : List Char) :
    " AND ".toList ++ rest = ' ' :: ("AND".toList ++ ' ' :: rest) := by
  have andEq : " AND ".toList = ' ' :: ("AND".toList ++ [' ']) := by decide
  rw [andEq]
  simp

/-- An `AND` that is no further in front than the one before the last term of a guard line is that
one, or the last term is the `AND`. -/
theorem of_and_behind (dense : ' ' ∉ last.toList) {front between back : List Char}
    (textEq : front ++ (" AND ".toList ++ (last.toList ++ " THEN".toList)) =
      between ++ (" AND ".toList ++ back)) :
    between.length ≤ front.length ∨ between = front ++ " AND".toList ∧ last = "AND" := by
  have denseAnd : ' ' ∉ "AND".toList := by decide
  have denseThen : ' ' ∉ "THEN".toList := by decide
  rcases List.append_eq_append_iff.mp textEq with ⟨beyond, rfl, behind⟩ | ⟨before, rfl, -⟩
  · cases beyond with
    | nil => exact .inl (by simp)
    | cons c beyond =>
        have thenEq : " THEN".toList = ' ' :: "THEN".toList := by decide
        rw [and_append, and_append, thenEq, List.cons_append] at behind
        obtain ⟨rfl, tailEq⟩ := List.cons.inj behind
        -- Three words stand behind the blank, `AND`, the term and `THEN`, so the other `AND` begins
        -- at one of the two blanks between them; only the term can be this `AND`.
        rcases eq_or_exists_of_blank denseAnd tailEq with ⟨rfl, termEq⟩ | ⟨beyond, -, termEq⟩
        · rcases eq_or_exists_of_blank dense termEq with ⟨lastEq, -⟩ | ⟨later, andEq, -⟩
          · exact .inr ⟨rfl, String.toList_inj.mp lastEq.symm⟩
          · exact absurd (andEq ▸ List.mem_append_right _ List.mem_cons_self) denseAnd
        · rcases eq_or_exists_of_blank dense termEq with ⟨-, endEq⟩ | ⟨later, -, endEq⟩
          · exact absurd endEq (by simp)
          · exact absurd (endEq ▸ List.mem_append_right _ List.mem_cons_self) denseThen
  · exact .inl (by simp)

/-- A guard line is split in front of its last term. -/
theorem lastAt_guard (dense : ' ' ∉ last.toList) (other : last ≠ "AND") (front : List Char) :
    Text.LastAt " AND ".toList (front ++ (" AND ".toList ++ (last.toList ++ " THEN".toList))) front
      (last.toList ++ " THEN".toList) where
  parts := rfl
  last _ _ textEq := (of_and_behind dense textEq).resolve_right fun ⟨_, same⟩ => other same

/-- A guard line whose last term is `AND` is split behind this term. -/
theorem lastAt_guard_and (front : List Char) :
    Text.LastAt " AND ".toList (front ++ (" AND ".toList ++ ("AND".toList ++ " THEN".toList)))
      (front ++ " AND".toList) "THEN".toList where
  parts := by simp
  last between back textEq := by
    rcases of_and_behind (by decide) textEq with short | ⟨rfl, -⟩
    · exact Nat.le_trans short (by simp)
    · exact Nat.le_refl _

/-- The `THEN` behind a term is the first one. -/
theorem firstAt_then (dense : ' ' ∉ last.toList) :
    Text.FirstAt " THEN".toList (last.toList ++ " THEN".toList) last.toList [] where
  parts := by simp
  first front back textEq := by
    rcases eq_or_exists_of_blank dense textEq with ⟨rfl, -⟩ | ⟨later, rfl, -⟩
    · exact Nat.le_refl _
    · simp

/-- What a guard line becomes: the line that asks for all signals but the last one, unless this is
called `AND`. -/
def guardLineStripped (depth : Nat) (terms : List String) (last : String) : String :=
  if last = "AND" then Line.render ⟨depth, "IF " ++ (Condition.mk terms).render ++ " AND"⟩
  else guardLine depth ⟨terms⟩

theorem asksMore_guardLine (depth : Nat) (nonempty : terms ≠ []) (last : String) :
    AsksMore (guardLine depth ⟨terms ++ [last]⟩) := by
  constructor
  · rw [toList_guardLine, opening, List.append_assoc, List.append_assoc,
      List.dropWhile_append_of_pos (fun c among => by rw [List.eq_of_mem_replicate among]; rfl)]
    exact List.prefix_append _ _
  · rw [toList_guardLine, opening_append depth nonempty]
    exact ⟨opening depth ⟨terms⟩, last.toList ++ " THEN".toList, by simp⟩

theorem eq_of_strips_guardLine (nonempty : terms ≠ []) (dense : ' ' ∉ last.toList)
    (strips : Strips (guardLine depth ⟨terms ++ [last]⟩).toList text) :
    String.ofList text = guardLineStripped depth terms last := by
  rw [toList_guardLine, opening_append depth nonempty, List.append_assoc,
    List.append_assoc] at strips
  unfold guardLineStripped
  split
  · next same =>
      subst same
      have apart := lastAt_guard_and (opening depth ⟨terms⟩)
      cases strips with
      | term split ends =>
          obtain ⟨-, rfl⟩ := split.unique apart
          have absent : ¬ " THEN".toList <:+: "THEN".toList := by decide
          exact absurd ⟨_, _, (List.append_assoc ..).trans ends.parts.symm⟩ absent
      | rest split _ =>
          obtain ⟨rfl, -⟩ := split.unique apart
          simp [Line.render, opening, ← String.toList_inj]
  · next other =>
      have apart := lastAt_guard dense other (opening depth ⟨terms⟩)
      cases strips with
      | term split ends =>
          obtain ⟨rfl, rfl⟩ := split.unique apart
          obtain ⟨-, rfl⟩ := ends.unique (firstAt_then dense)
          rw [← String.toList_inj, toList_guardLine, String.toList_ofList, List.append_nil]
      | rest split absent =>
          obtain ⟨-, rfl⟩ := split.unique apart
          exact absurd (List.suffix_append _ _).isInfix absent

end

end Pneumatic.Fault
