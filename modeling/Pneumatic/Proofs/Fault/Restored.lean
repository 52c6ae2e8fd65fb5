import Pneumatic.Program.Render
import Pneumatic.Proofs.Fault.Undone
import Pneumatic.Proofs.Notation.Nesting
import Pneumatic.Proofs.Program.Counters

/-!
# Programs restored

Negating a truth value twice gives the lines back.  The next line that has one is the same before
and after, so a source that damages the program once in each round, by negating the next truth
value behind the first line, gives every program back after an even number of faults.
-/

namespace Pneumatic.Fault

variable {lines lines' : List String} {index place : Nat}

/-! ## Negating twice -/

/-- What an edit finds in the changed lines, if it gives the line back that it has changed. -/
theorem search_set {edit : String → Option String} {places : List Nat} {found edited : String}
    (changed : search edit lines places = .ok (some (place, edited)))
    (here : lines[place]? = some found) (back : edit edited = some found) :
    search edit (lines.set place edited) places = .ok (some (place, found)) := by
  have changes : edit found = some edited := by
    obtain ⟨text, here', edits⟩ := of_search_eq_some changed
    rw [here] at here'
    rwa [Option.some.inj here']
  induction places with
  | nil => cases changed
  | cons first rest ih =>
      obtain ⟨text, fetched, changed⟩ := exists_of_bind_eq_ok changed
      rw [fetch_eq_ok_iff] at fetched
      rw [search]
      by_cases same : first = place
      · subst same
        have inside := (List.getElem?_eq_some_iff.mp here).1
        have fetched' : fetch (lines.set first edited) first = .ok edited :=
          fetch_eq_ok_iff.mpr (List.getElem?_set_self inside)
        rw [fetched']
        simp only [bind, Except.bind, back]
      · have fetched' : fetch (lines.set place edited) first = .ok text :=
          fetch_eq_ok_iff.mpr (by rw [List.getElem?_set_ne (Ne.symm same), fetched])
        rw [fetched']
        cases edits : edit text with
        | some other =>
            rw [edits] at changed
            exact absurd (Prod.mk.inj (Option.some.inj (Except.ok.inj changed))).1 same
        | none =>
            rw [edits] at changed
            simp only [bind, Except.bind, edits]
            exact ih changed

/-- Negating the next truth value again gives the lines back. -/
theorem flipBoolean_again (changed : flipBoolean lines index = .ok (some (lines', place))) :
    flipBoolean lines' index = .ok (some (lines, place)) := by
  obtain ⟨searched, search, changed⟩ := exists_of_bind_eq_ok changed
  cases searched with
  | none => cases changed
  | some searched =>
      obtain ⟨place', edited⟩ := searched
      obtain ⟨rfl, rfl⟩ := Prod.mk.inj (Option.some.inj (Except.ok.inj changed))
      obtain ⟨found, here, edits⟩ := of_search_eq_some search
      obtain ⟨text, flipped, rfl⟩ := Option.map_eq_some_iff.mp edits
      have back : (flipFirst? (String.ofList text).toList).map String.ofList = some found := by
        have flips := (flipFirst?_eq_some_iff.mp flipped).symm
        rw [String.toList_ofList, flipFirst?_eq_some_iff.mpr flips, Option.map_some,
          String.ofList_toList]
      have again := search_set search here back
      obtain ⟨inside, rfl⟩ := List.getElem?_eq_some_iff.mp here
      unfold flipBoolean editFrom
      rw [List.length_set, again]
      simp only [bind, Except.bind, pure, Except.pure, Option.map_some, List.set_set,
        List.set_getElem_self]

/-! ## A source that negates once in each round -/

/-- A word that draws the negation of a truth value. -/
def negating : UInt64 := 10376293541461622784

/-- A word that leaves a line alone. -/
def idle : UInt64 := 18446744073709551615

/-- The words for a round over so many lines that damages the program at the first one. -/
def round (count : Nat) : List UInt64 :=
  0 :: negating :: List.replicate (count - 1) idle

variable {labels : List Char} {target fuel : Nat} {done : Damaged} {words : List UInt64}

theorem visit_idle : visit listed fuel labels done index (idle :: words) = .ok (done, words) := by
  have rests : decide (idle < 5534023222112865280) = false := by decide
  have acts : listed.threeInTen (idle :: words) = (false, words) := congrArg (·, words) rests
  rw [visit, acts]

theorem visit_negating (changed : flipBoolean done.lines index = .ok (some (lines', place))) :
    visit listed 1 labels done index (0 :: negating :: words) =
      .ok (⟨lines', done.faults ++ [⟨.flipBoolean, place⟩]⟩, words) := by
  have acts : listed.threeInTen (0 :: negating :: words) = (true, negating :: words) := rfl
  have accepts : Source.accept? 64 Kind.all.length negating.toNat = some 3 := by decide +kernel
  have draws : listed.below64? Kind.all.length 1 (negating :: words) = some (3, words) := by
    simp only [Source.below64?, Source.below?, listed, List.headD_cons, List.tail_cons, Prod.map,
      id, accepts]
  have fetches : fetch Kind.all 3 = .ok .flipBoolean := rfl
  rw [visit, acts]
  simp only [draws, drawn, fetches, bind, Except.bind, damage, changed, Except.map,
    Damaged.record, pure, Except.pure]

open Relation (ReflTransGen)

/-- Idle words lead to the end of the lines. -/
theorem reached_of_idle (missing : done.faults.length < target) {count : Nat}
    (ends : index + count = done.lines.length) :
    ReflTransGen (Leads listed labels target) ⟨done, index, List.replicate count idle ++ words⟩
      ⟨done, done.lines.length, words⟩ := by
  induction count generalizing index with
  | zero =>
      obtain rfl : index = done.lines.length := ends
      exact .refl
  | succ count ih =>
      have inside : index < done.lines.length := by omega
      exact .head (.visit missing inside (visit_idle : visit listed 0 _ _ _ _ = _)) (ih (by omega))

/-- Each round negates the truth value once more. -/
theorem reached_of_rounds {here there : List String}
    (negates : flipBoolean here 0 = .ok (some (there, place)))
    (again : flipBoolean there 0 = .ok (some (here, place)))
    (positive : 0 < here.length) (same : there.length = here.length) {missing : Nat}
    {faults : List Applied} (ends : faults.length + missing = target) :
    ∃ final, ReflTransGen (Leads listed labels target)
        ⟨⟨here, faults⟩, 0, (List.replicate missing (round here.length)).flatten⟩ final ∧
      final.done.faults.length = target ∧
      final.done.lines = if Even missing then here else there := by
  induction missing generalizing here there faults with
  | zero => exact ⟨_, .refl, ends, rfl⟩
  | succ missing ih =>
      let done : Damaged := ⟨there, faults ++ [⟨.flipBoolean, place⟩]⟩
      have length : done.faults.length = faults.length + 1 := List.length_append
      have lacks : faults.length < target := by omega
      have first : Leads listed labels target
          ⟨⟨here, faults⟩, 0, (List.replicate (missing + 1) (round here.length)).flatten⟩
          ⟨done, 1, List.replicate (here.length - 1) idle ++
            (List.replicate missing (round here.length)).flatten⟩ :=
        .visit lacks positive (visit_negating negates)
      cases missing with
      | zero => exact ⟨_, .single first, length.trans ends, rfl⟩
      | succ missing =>
          have more : done.faults.length < target := by omega
          have all : 1 + (here.length - 1) = done.lines.length := by
            change _ = there.length
            omega
          have left : done.lines ≠ [] := List.ne_nil_of_length_pos (same ▸ positive)
          obtain ⟨final, reached, finalLength, finalLines⟩ :=
            ih again negates (same ▸ positive) same.symm
              (by omega : done.faults.length + _ = target)
          refine ⟨final, .head first ?_, finalLength, ?_⟩
          · rw [same] at reached
            exact (reached_of_idle more all).trans
              (.head (.again more left (Nat.le_refl _)) reached)
          · rw [finalLines]
            simp only [Nat.even_add_one, ite_not]

/-- Some source gives the lines back if there is an even number of faults and a line behind the
first has a truth value. -/
theorem exists_restored {tier : Tier} (even : Even (tier.target lines.length))
    (negates : flipBoolean lines 0 = .ok (some (lines', place))) (labels : List Char) :
    ∃ fuel words damaged words', inject listed fuel lines tier labels words =
      some (damaged, words') ∧ damaged.lines = lines := by
  have positive : 0 < lines.length := by
    rw [List.length_pos_iff]
    rintro rfl
    cases negates
  have same : lines'.length = lines.length := by
    obtain ⟨found, edited, -, -, rfl⟩ := of_editFrom_eq_some negates
    exact List.length_set
  have unharmed : ([] : List Applied).length + tier.target lines.length =
      tier.target lines.length :=
    Nat.zero_add _
  obtain ⟨final, reached, length, linesEq⟩ :=
    @reached_of_rounds _ labels _ _ _ negates (flipBoolean_again negates) positive same _ _ unharmed
  obtain ⟨fuel, visits⟩ := exists_visitLines_of_reached reached (.inl (Nat.le_of_eq length.symm))
  rw [if_pos even] at linesEq
  exact ⟨fuel, _, final.done, final.state, inject_eq_some_iff.mpr visits, linesEq⟩

/-! ## Lines with a truth value -/

theorem isSome_flipFirst?_append (front back : List Char)
    (shows : (flipFirst? back).isSome = true) : (flipFirst? (front ++ back)).isSome = true := by
  induction front with
  | nil => exact shows
  | cons c rest ih =>
      rw [List.cons_append, flipFirst?]
      split
      · rfl
      · rfl
      · rw [Option.isSome_map, ih]

/-- An assignment to a coil shows a truth value. -/
theorem isSome_flipFirst?_setBool (depth : Nat) (tag : String) (value : Bool) :
    (flipFirst? (Line.render ⟨depth, (Instruction.setBool tag value).render⟩).toList).isSome =
      true := by
  have shows : (flipFirst? ((if value then "TRUE" else "FALSE").toList ++ ";".toList)).isSome =
      true := by
    cases value <;> rfl
  rw [Line.render, Instruction.render, String.toList_append, String.toList_append,
    String.toList_append, String.toList_append, List.append_assoc, List.append_assoc]
  exact isSome_flipFirst?_append _ _ (isSome_flipFirst?_append _ _
    (isSome_flipFirst?_append _ _ shows))

/-- A search finds something if one of its places has something to find. -/
theorem exists_search {α : Type} {look : String → Option α} {places : List Nat} {line : String}
    (inside : ∀ place ∈ places, place < lines.length) (among : place ∈ places)
    (here : lines[place]? = some line) (shows : (look line).isSome = true) :
    ∃ found value, search look lines places = .ok (some (found, value)) := by
  obtain ⟨found, searched, finds⟩ := exists_finds look inside
  cases finds with
  | nothing nowhere =>
      rw [nowhere place among line here] at shows
      contradiction
  | first _ _ _ _ => exact ⟨_, _, searched⟩

/-- There is something to negate if a line behind has a truth value. -/
theorem exists_flipBoolean {line : String} (behind : index < place)
    (here : lines[place]? = some line) (shows : (flipFirst? line.toList).isSome = true) :
    ∃ lines' found, flipBoolean lines index = .ok (some (lines', found)) := by
  have within : ∀ place ∈ (List.range lines.length).drop (index + 1), place < lines.length :=
    fun place among => List.mem_range.mp (List.mem_of_mem_drop among)
  have among : place ∈ (List.range lines.length).drop (index + 1) := by
    rw [List.mem_drop_iff_getElem]
    have inside := (List.getElem?_eq_some_iff.mp here).1
    exact ⟨place - (index + 1), by simp; omega, by simp; omega⟩
  obtain ⟨found, edited, finds⟩ : ∃ found edited,
      search (fun line => (flipFirst? line.toList).map String.ofList) lines
        ((List.range lines.length).drop (index + 1)) = .ok (some (found, edited)) :=
    exists_search within among here (by simpa using shows)
  refine ⟨lines.set found edited, found, ?_⟩
  unfold flipBoolean editFrom
  rw [finds]
  rfl

end Pneumatic.Fault

namespace Pneumatic.Program

open Fault (inject injectSeeded listed flips)

variable {source : String} {sequence : Sequence} {project : Option Project} {program : Program}

/-! ## Programs -/

theorem tokens_ne_nil (parsed : Sequence.parse source = .ok sequence) {step : Step}
    (among : step ∈ sequence.steps) : step.tokens ≠ [] := by
  cases step with
  | single token => exact List.cons_ne_nil token []
  | group tokens =>
      have long := Sequence.two_le_length_of_group parsed among
      exact List.ne_nil_of_length_pos (Nat.zero_lt_of_lt long)

/-- The setup of a program assigns to a coil. -/
theorem exists_setBool_mem_setup (parsed : Sequence.parse source = .ok sequence)
    (compiled : compile sequence project = .ok program) :
    ∃ tag value, .setBool tag value ∈ program.setup := by
  obtain ⟨step, among⟩ := List.exists_mem_of_length_pos (Sequence.length_pos_of_parse parsed)
  obtain ⟨index, here⟩ := List.mem_iff_getElem?.mp among
  obtain ⟨found, partsEq⟩ := Part.getElem?_ofSteps ⟨0, 0⟩ sequence.steps index
  rw [here, Option.map_some] at partsEq
  have inParts : (Part.ofTokens found step.tokens).1 ∈ sequence.parts :=
    List.mem_of_getElem? partsEq
  have nonempty : (Part.ofTokens found step.tokens).1 ≠ [] := by
    intro empty
    have tokensEq := Part.map_token_ofTokens found step.tokens
    rw [empty] at tokensEq
    exact tokens_ne_nil parsed among tokensEq.symm
  obtain ⟨part, inside⟩ := List.exists_mem_of_ne_nil _ nonempty
  obtain ⟨runs, -⟩ := build_of_compile compiled
  obtain ⟨⟨components, mapped, setup, -⟩, -⟩ := exists_components_of_compile compiled
  obtain ⟨component, inComponents, named⟩ := exists_mem_of_mapM mapped
    (List.mem_eraseDups.mpr (Sequence.component_mem_mentions inParts inside))
  have assigns {tag : String} {value : Bool} (rests : .setBool tag value ∈ component.rest) :
      ∃ tag value, .setBool tag value ∈ program.setup :=
    ⟨tag, value, setup ▸ List.mem_flatMap.mpr ⟨component, inComponents, rests⟩⟩
  cases runs _ inParts part inside with
  | actuation actuation =>
      obtain ⟨tags, -, rfl⟩ := Option.map_eq_some_iff.mp named
      exact assigns List.mem_cons_self
  | timer delay number =>
      obtain ⟨tags, -, rfl⟩ := Option.map_eq_some_iff.mp named
      exact assigns List.mem_cons_self

/-- A program has a truth value behind its first line. -/
theorem exists_truth_of_compile (parsed : Sequence.parse source = .ok sequence)
    (compiled : compile sequence project = .ok program) :
    ∃ place line, 0 < place ∧ program.bodyLines[place]? = some line ∧
      (Fault.flipFirst? line.toList).isSome = true := by
  obtain ⟨tag, value, among⟩ := exists_setBool_mem_setup parsed compiled
  obtain ⟨cases, counted⟩ := exists_counted_of_compile compiled
  have inCases : ⟨2, (Instruction.setBool tag value).render⟩ ∈
      program.cases.flatMap (Case.lines 1) := by
    rw [counted.all, List.flatMap_cons, List.mem_append, Case.lines, List.mem_append,
      List.mem_append]
    exact .inl (.inl (.inr (List.mem_map_of_mem among)))
  obtain ⟨place, here⟩ := List.mem_iff_getElem?.mp inCases
  have inside := (List.getElem?_eq_some_iff.mp here).1
  refine ⟨place + 1, _, Nat.succ_pos place, ?_, Fault.isSome_flipFirst?_setBool 2 tag value⟩
  rw [bodyLines, List.getElem?_map, lines, List.append_assoc, List.append_assoc,
    List.singleton_append, List.getElem?_cons_succ, List.getElem?_append_left inside, here]
  rfl

/-- A program that is given back has two or more faults.  None of them takes anything away, and
they negate an even number of truth values.  This does happen: if there is an even number of
faults, some source gives the program back. -/
theorem restored_only_if_undone (parsed : Sequence.parse source = .ok sequence)
    (compiled : compile sequence project = .ok program) (tier : Fault.Tier) (labels : List Char) :
    (∀ {σ : Type} (random : Fault.Source σ) fuel state damaged state',
      inject random fuel program.bodyLines tier labels state = some (damaged, state') →
      damaged.lines = program.bodyLines →
        2 ≤ damaged.faults.length ∧ (∀ fault ∈ damaged.faults, fault.kind.keeps = true) ∧
          Even (flips damaged.faults)) ∧
    (Even (tier.target program.bodyLines.length) → ∃ fuel words damaged words',
      inject listed fuel program.bodyLines tier labels words = some (damaged, words') ∧
        damaged.lines = program.bodyLines) := by
  obtain ⟨place, line, behind, here, shows⟩ := exists_truth_of_compile parsed compiled
  have nonempty : program.bodyLines ≠ [] :=
    List.ne_nil_of_length_pos (Nat.zero_lt_of_lt (List.getElem?_eq_some_iff.mp here).1)
  refine ⟨?_, fun even => ?_⟩
  · intro σ random fuel state damaged state' injected same
    exact Fault.undone_of_eq nonempty injected same
  · obtain ⟨lines', found, negates⟩ := Fault.exists_flipBoolean behind here shows
    exact Fault.exists_restored even negates labels

/-- Twelve lines and four faults. -/
theorem restored_only_if_undone_four :
    ∃ sequence program, Sequence.parse "A+" = .ok sequence ∧
      compile sequence none = .ok program ∧ Fault.Tier.hard.target program.bodyLines.length = 4 ∧
      ∃ fuel words damaged words',
        inject listed fuel program.bodyLines .hard sequence.labels words =
          some (damaged, words') ∧ damaged.lines = program.bodyLines := by
  have four : ((Sequence.parse "A+").toOption.any fun sequence =>
      (compile sequence none).toOption.any fun program =>
        Fault.Tier.hard.target program.bodyLines.length == 4) = true := by
    decide +kernel
  obtain ⟨sequence, parsed, compiles⟩ := any_toOption_iff.mp four
  obtain ⟨program, compiled, target⟩ := any_toOption_iff.mp compiles
  have target := eq_of_beq target
  obtain ⟨-, restores⟩ := restored_only_if_undone parsed compiled .hard sequence.labels
  exact ⟨sequence, program, parsed, compiled, target, restores (by rw [target]; decide)⟩

/-- With one seed two lines are exchanged and exchanged back, and a truth value is negated twice:
the damaged program is the program. -/
theorem restored_by_seed :
    ∃ sequence program damaged, Sequence.parse "A+" = .ok sequence ∧
      compile sequence none = .ok program ∧ program.bodyLines ≠ [] ∧
      injectSeeded 3639 program.bodyLines .hard sequence.labels = some damaged ∧
      damaged.lines = program.bodyLines := by
  have restores : ((Sequence.parse "A+").toOption.any fun sequence =>
      (compile sequence none).toOption.any fun program =>
        program.bodyLines != [] && (injectSeeded 3639 program.bodyLines .hard sequence.labels).any
          (·.lines == program.bodyLines)) = true := by
    decide +kernel
  obtain ⟨sequence, parsed, compiles⟩ := any_toOption_iff.mp restores
  obtain ⟨program, compiled, same⟩ := any_toOption_iff.mp compiles
  rw [Bool.and_eq_true, bne_iff_ne] at same
  obtain ⟨nonempty, same⟩ := same
  cases injected : injectSeeded 3639 program.bodyLines .hard sequence.labels with
  | none => simp [injected] at same
  | some damaged =>
      rw [injected, Option.any_some, beq_iff_eq] at same
      exact ⟨sequence, program, damaged, parsed, compiled, nonempty, injected, same⟩

end Pneumatic.Program
