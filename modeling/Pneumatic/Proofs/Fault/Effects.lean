import Pneumatic.Proofs.Fault.Guards
import Pneumatic.Proofs.Fault.Undone

/-!
# What damage changes

Damage that is not declined changes the line that it reports and no other, but for an exchange,
which changes the partner of the line as well, and a removal, which moves the lines behind up.  It
is declined exactly if there is nothing to change, and then the lines stay as they are.
-/

namespace Pneumatic.Fault

/-! ## What damage is to do -/

/-- A line with a truth value. -/
def ShowsTruth (line : String) : Prop :=
  "TRUE".toList <:+: line.toList ∨ "FALSE".toList <:+: line.toList

/-- A line that mentions one of the labels. -/
def Mentions (labels : List Char) (line : String) : Prop :=
  ∃ label ∈ labels, mention label <:+: line.toList

/-- The first of the labels that a line mentions. -/
def MentionsFirst (labels : List Char) (line : String) (label : Char) : Prop :=
  mention label <:+: line.toList ∧ ∃ front back, labels = front ++ label :: back ∧
    ∀ earlier ∈ front, ¬ mention earlier <:+: line.toList

/-- The places in front of a place, from a line on and round to the first line at the end. -/
def Passes (index place passed : Nat) : Prop :=
  if index ≤ place then index ≤ passed ∧ passed < place else index ≤ passed ∨ passed < place

/-- The nearest line, from a line on and round at the end, of which a condition holds. -/
structure Nearest (holds : String → Prop) (lines : List String) (index place : Nat)
    (line : String) : Prop where
  here : lines[place]? = some line
  found : holds line
  passed : ∀ passed text, Passes index place passed → lines[passed]? = some text → ¬ holds text

variable {σ : Type} (source : Source σ) (fuel : Nat) (state : σ)

/-- What damage of a kind at a line makes of lines, and the line that it reports, with the choices
that a source makes. -/
inductive Does (labels : List Char) (lines : List String) (index : Nat) :
    Kind → List String → Nat → Prop where
  | transpose {other : Nat} {line partner : String} : IsPartner lines.length index other →
      lines[index]? = some line → lines[other]? = some partner → line ≠ partner →
      Does labels lines index .transpose ((lines.set index partner).set other line) index
  -- The number drawn is one less than the number of characters to drop.
  | truncate {extra : Nat} {state' : σ} {line : String} {kept dropped : List Char} :
      source.below64? 3 fuel state = some (extra, state') → lines[index]? = some line →
      line.toList = kept ++ dropped → dropped ≠ [] →
      dropped.length = min (extra + 1) line.toList.length →
      Does labels lines index .truncate (lines.set index (String.ofList kept)) index
  | delete {front back : List String} {line : String} : lines = front ++ line :: back →
      front.length = index → Does labels lines index .delete (front ++ back) index
  | flipBoolean {place : Nat} {line : String} {text : List Char} : index < place →
      Nearest ShowsTruth lines (index + 1) place line → Flips line.toList text →
      Does labels lines index .flipBoolean (lines.set place (String.ofList text)) place
  | stripCondition {place : Nat} {line : String} {text : List Char} : index ≤ place →
      Nearest AsksMore lines index place line → Strips line.toList text →
      Does labels lines index .stripCondition (lines.set place (String.ofList text)) place
  | swapActuator {place choice : Nat} {state' : σ} {line : String} {label other : Char}
      {text : List Char} : Nearest (Mentions labels) lines index place line →
      MentionsFirst labels line label →
      source.below32? (labels.filter (· ≠ label)).length fuel state = some (choice, state') →
      (labels.filter (· ≠ label))[choice]? = some other →
      Text.Replaces (mention label) (mention other) line.toList text →
      Does labels lines index .swapActuator (lines.set place (String.ofList text)) place

/-- Lines in which damage of a kind at a line finds nothing to change. -/
def Spares (labels : List Char) (lines : List String) (index : Nat) : Kind → Prop
  | .transpose => ∀ other, IsPartner lines.length index other → lines[other]? = lines[index]?
  | .truncate => lines[index]? = some ""
  | .delete => False
  | .flipBoolean => ∀ place line, index < place → lines[place]? = some line → ¬ ShowsTruth line
  | .stripCondition => ∀ place line, index ≤ place → lines[place]? = some line → ¬ AsksMore line
  | .swapActuator => (∀ label ∈ labels, ∀ other ∈ labels, other = label) ∨
      ∀ line ∈ lines, ¬ Mentions labels line

/-- A change, or none, that is what damage of a kind at a line is to do. -/
def Accounts (labels : List Char) (lines : List String) (index : Nat) (kind : Kind) :
    Option Change → Prop
  | none => Spares labels lines index kind
  | some (lines', place) => Does source fuel state labels lines index kind lines' place

/-- The attempts that are allowed do not do to draw what damage of a kind asks for. -/
def Stalls (labels : List Char) : Kind → Prop
  | .truncate => source.below64? 3 fuel state = none
  | .swapActuator => ∃ label ∈ labels,
      source.below32? (labels.filter (· ≠ label)).length fuel state = none
  | _ => False

variable {source fuel state}
variable {lines lines' : List String} {labels : List Char} {index place : Nat}

/-! ## Exchanging, shortening and removing -/

theorem accounts_transpose (inside : index < lines.length) :
    ∃ change, transpose lines index = .ok change ∧
      Accounts source fuel state labels lines index .transpose change := by
  unfold transpose
  cases found : partner? lines.length index with
  | none =>
      refine ⟨none, rfl, fun other isPartner => ?_⟩
      rw [← partner?_eq_some_iff, found] at isPartner
      contradiction
  | some other =>
      have within := lt_of_partner? found inside
      have isPartner := partner?_eq_some_iff.mp found
      simp only [fetch_of_lt inside, fetch_of_lt within, bind, Except.bind, pure, Except.pure]
      by_cases same : lines[index] = lines[other]
      · refine ⟨none, by rw [if_pos same], fun other' isPartner' => ?_⟩
        obtain rfl : other' = other := by
          rw [← partner?_eq_some_iff, found] at isPartner'
          exact (Option.some.inj isPartner').symm
        rw [List.getElem?_eq_getElem inside, List.getElem?_eq_getElem within, same]
      · refine ⟨some _, by rw [if_neg same], ?_⟩
        exact .transpose isPartner (List.getElem?_eq_getElem inside)
          (List.getElem?_eq_getElem within) same

theorem accounts_truncate {extra : Nat} {state' : σ}
    (draws : source.below64? 3 fuel state = some (extra, state')) (inside : index < lines.length) :
    ∃ change, truncate (extra + 1) lines index = .ok change ∧
      Accounts source fuel state labels lines index .truncate change := by
  unfold truncate
  simp only [fetch_of_lt inside, bind, Except.bind, pure, Except.pure]
  have here := List.getElem?_eq_getElem inside
  generalize lines[index] = line at here
  cases empty : line.toList.isEmpty with
  | true =>
      refine ⟨none, by simp, ?_⟩
      rw [Accounts, Spares, here, String.toList_eq_nil_iff.mp (List.isEmpty_iff.mp empty)]
  | false =>
      have long : 0 < line.toList.length := List.length_pos_iff.mpr (by simpa using empty)
      let kept := line.toList.length - (extra + 1)
      refine ⟨.some (lines.set index (String.ofList (line.toList.take kept)), index),
        by simp [kept], ?_⟩
      have length : (line.toList.drop kept).length = min (extra + 1) line.toList.length := by
        rw [List.length_drop]
        omega
      refine .truncate draws here (List.take_append_drop kept _).symm ?_ length
      exact List.ne_nil_of_length_pos (by omega)

theorem accounts_delete (inside : index < lines.length) :
    ∃ change, delete lines index = .ok change ∧
      Accounts source fuel state labels lines index .delete change := by
  unfold delete
  simp only [fetch_of_lt inside, bind, Except.bind, pure, Except.pure]
  refine ⟨_, rfl, ?_⟩
  have parts : lines = lines.take index ++ lines[index] :: lines.drop (index + 1) := by
    rw [List.getElem_cons_drop, List.take_append_drop]
  rw [List.eraseIdx_eq_take_drop_succ]
  exact .delete parts (List.length_take_of_le (Nat.le_of_lt inside))

/-! ## Editing the nearest line -/

theorem mem_drop_range {count start : Nat} :
    place ∈ (List.range count).drop start ↔ start ≤ place ∧ place < count := by
  rw [List.range_eq_range', List.drop_range', List.mem_range'_1]
  omega

theorem mem_take_range {count stop : Nat} :
    place ∈ (List.range count).take stop ↔ place < stop ∧ place < count := by
  rw [List.take_range, List.mem_range]
  omega

/-- The places of a search from a line on are in the order in which it passes them. -/
theorem sorted_drop (count index : Nat) :
    ((List.range count).drop index).Pairwise fun place other => ¬ Passes index place other := by
  refine (List.pairwise_lt_range.drop).imp_of_mem fun {place other} among _ below passes => ?_
  rw [Passes, if_pos (mem_drop_range.mp among).1] at passes
  exact Nat.lt_asymm below passes.2

/-- The places of a search that goes round are in the order in which it passes them. -/
theorem sorted_round (count index : Nat) :
    ((List.range count).drop index ++ (List.range count).take index).Pairwise
      fun place other => ¬ Passes index place other := by
  refine List.pairwise_append.mpr ⟨sorted_drop count index, ?_, ?_⟩
  -- On the way to a place in front of the line, everything behind the line is passed first.
  · refine (List.pairwise_lt_range.take).imp_of_mem fun {place other} among among' below => ?_
    have before := (mem_take_range.mp among).1
    have before' := (mem_take_range.mp among').1
    rw [Passes, if_neg (by omega)]
    omega
  · intro place among other among'
    rw [Passes, if_pos (mem_drop_range.mp among).1]
    have before := (mem_take_range.mp among').1
    omega

/-- What is passed on the way to a place is in front of it. -/
theorem mem_front_of_passes {places front back : List Nat} {other : Nat}
    (sorted : places.Pairwise fun place other => ¬ Passes index place other)
    (placesEq : places = front ++ place :: back) (among : other ∈ places)
    (passes : Passes index place other) : other ∈ front := by
  subst placesEq
  rw [List.pairwise_append, List.pairwise_cons] at sorted
  rcases List.mem_append.mp among with before | behind
  · exact before
  · rcases List.mem_cons.mp behind with rfl | behind
    · unfold Passes at passes
      split at passes <;> omega
    · exact absurd passes (sorted.2.1.1 other behind)

/-- An edit that applies to exactly the lines of which a condition holds changes the nearest of
them. -/
theorem exists_editFrom {edit : String → Option String} {holds : String → Prop}
    (declines : ∀ line, edit line = none ↔ ¬ holds line) (lines : List String) (start : Nat) :
    ∃ change, editFrom edit lines start = .ok change ∧
      match change with
      | none => ∀ place line, start ≤ place → lines[place]? = some line → ¬ holds line
      | some (lines', place) => ∃ line edited, start ≤ place ∧
          Nearest holds lines start place line ∧ edit line = some edited ∧
          lines' = lines.set place edited := by
  have inside : ∀ place ∈ (List.range lines.length).drop start, place < lines.length :=
    fun place among => (mem_drop_range.mp among).2
  obtain ⟨found, searched, finds⟩ := exists_finds edit inside
  rw [editFrom, searched]
  refine ⟨_, rfl, ?_⟩
  cases finds with
  | nothing nowhere =>
      intro place line behind here
      have within := (List.getElem?_eq_some_iff.mp here).1
      exact (declines line).mp (nowhere place (mem_drop_range.mpr ⟨behind, within⟩) line here)
  | @first front back place line edited placesEq here edits passed =>
      have among : place ∈ (List.range lines.length).drop start := by
        rw [placesEq]
        exact List.mem_append_right _ List.mem_cons_self
      have behind := (mem_drop_range.mp among).1
      refine ⟨line, edited, behind, ⟨here, ?_, fun other text passes there => ?_⟩, edits, rfl⟩
      · by_contra unfit
        rw [(declines line).mpr unfit] at edits
        contradiction
      · have member : other ∈ (List.range lines.length).drop start := by
          rw [Passes, if_pos behind] at passes
          exact mem_drop_range.mpr ⟨passes.1, (List.getElem?_eq_some_iff.mp there).1⟩
        have front := mem_front_of_passes (sorted_drop _ _) placesEq member passes
        exact (declines text).mp (passed other front text there)

/-! ## Negating a truth value -/

theorem flipFirst?_eq_none_iff {text : List Char} :
    flipFirst? text = none ↔ ¬ ("TRUE".toList <:+: text ∨ "FALSE".toList <:+: text) := by
  induction text with
  | nil => simp [flipFirst?]
  | cons c rest ih =>
      rw [flipFirst?]
      split
      · next dropped =>
          have leads := (Text.dropLead?_eq_some_iff.mp dropped).symm
          exact iff_of_false (Option.some_ne_none _)
            (not_not.mpr (.inl (List.IsPrefix.isInfix ⟨_, leads⟩)))
      · next dropped =>
          have leads := (Text.dropLead?_eq_some_iff.mp dropped).symm
          exact iff_of_false (Option.some_ne_none _)
            (not_not.mpr (.inr (List.IsPrefix.isInfix ⟨_, leads⟩)))
      · next noTrue noFalse =>
          rw [Text.dropLead?_eq_none_iff] at noTrue noFalse
          rw [Option.map_eq_none_iff, ih, List.infix_cons_iff, List.infix_cons_iff,
            or_iff_right noTrue, or_iff_right noFalse]

theorem accounts_flipBoolean (labels : List Char) (lines : List String) (index : Nat) :
    ∃ change, flipBoolean lines index = .ok change ∧
      Accounts source fuel state labels lines index .flipBoolean change := by
  have declines : ∀ line : String,
      (flipFirst? line.toList).map String.ofList = none ↔ ¬ ShowsTruth line :=
    fun line => Option.map_eq_none_iff.trans flipFirst?_eq_none_iff
  obtain ⟨change, edited, outcome⟩ := exists_editFrom declines lines (index + 1)
  refine ⟨change, edited, ?_⟩
  cases change with
  | none => exact outcome
  | some change =>
      obtain ⟨lines', place⟩ := change
      obtain ⟨line, edited, behind, nearest, edits, rfl⟩ := outcome
      obtain ⟨text, flipped, rfl⟩ := Option.map_eq_some_iff.mp edits
      exact .flipBoolean behind nearest (flipFirst?_eq_some_iff.mp flipped)

theorem accounts_stripCondition (labels : List Char) (lines : List String) (index : Nat) :
    ∃ change, stripCondition lines index = .ok change ∧
      Accounts source fuel state labels lines index .stripCondition change := by
  obtain ⟨change, edited, outcome⟩ :=
    exists_editFrom (fun _ => stripTerm?_eq_none_iff) lines index
  refine ⟨change, edited, ?_⟩
  cases change with
  | none => exact outcome
  | some change =>
      obtain ⟨lines', place⟩ := change
      obtain ⟨line, edited, behind, nearest, edits, rfl⟩ := outcome
      obtain ⟨text, rfl, strips⟩ := strips_of_stripTerm? edits
      exact .stripCondition behind nearest strips

/-! ## Pointing a line to another actuator -/

theorem mentioned?_eq_some_iff {line : String} {label : Char} :
    mentioned? labels line = some label ↔ MentionsFirst labels line label := by
  rw [mentioned?, List.find?_eq_some_iff_append, MentionsFirst, Text.occursIn_iff]
  simp only [Bool.not_eq_true', ← Bool.not_eq_true, Text.occursIn_iff]

theorem mentioned?_eq_none_iff {line : String} :
    mentioned? labels line = none ↔ ¬ Mentions labels line := by
  simp [mentioned?, Mentions, Text.occursIn_iff]

theorem exists_findMention (labels : List Char) (lines : List String) (index : Nat) :
    ∃ found, findMention labels lines index = .ok found ∧
      match found with
      | none => ∀ line ∈ lines, ¬ Mentions labels line
      | some (place, label) => ∃ line, MentionsFirst labels line label ∧
          Nearest (Mentions labels) lines index place line := by
  let places := List.range lines.length
  have all : ∀ place, place ∈ places.drop index ++ places.take index ↔ place < lines.length := by
    intro place
    rw [List.mem_append, mem_drop_range, mem_take_range]
    omega
  obtain ⟨found, searched, finds⟩ :=
    exists_finds (mentioned? labels) fun place among => (all place).mp among
  refine ⟨found, searched, ?_⟩
  cases finds with
  | nothing nowhere =>
      intro line among
      obtain ⟨place, here⟩ := List.mem_iff_getElem?.mp among
      have within := (List.getElem?_eq_some_iff.mp here).1
      exact mentioned?_eq_none_iff.mp (nowhere place ((all place).mpr within) line here)
  | @first front back place line label placesEq here looked passed =>
      have first := mentioned?_eq_some_iff.mp looked
      refine ⟨line, first, here, ?_, fun other text passes there => ?_⟩
      · obtain ⟨mentions, _, _, rfl, -⟩ := first
        exact ⟨label, List.mem_append_right _ List.mem_cons_self, mentions⟩
      · have member := (all other).mpr (List.getElem?_eq_some_iff.mp there).1
        have front := mem_front_of_passes (sorted_round _ _) placesEq member passes
        exact mentioned?_eq_none_iff.mp (passed other front text there)

theorem accounts_swapActuator :
    (swapActuator source fuel labels lines index state = .error .outOfFuel ∧
      Stalls source fuel state labels .swapActuator) ∨
    ∃ change state', swapActuator source fuel labels lines index state = .ok (change, state') ∧
      Accounts source fuel state labels lines index .swapActuator change := by
  unfold swapActuator
  split
  · next few =>
      refine .inr ⟨none, state, rfl, .inl fun label among other among' => ?_⟩
      match labels, few with
      | [only], _ => rw [List.mem_singleton.mp among, List.mem_singleton.mp among']
  · obtain ⟨found, finds, outcome⟩ := exists_findMention labels lines index
    rw [finds]
    cases found with
    | none => exact .inr ⟨none, state, rfl, .inr outcome⟩
    | some found =>
        obtain ⟨place, label⟩ := found
        obtain ⟨line, first, nearest⟩ := outcome
        simp only [bind, Except.bind]
        split
        · next alone =>
            have same : ∀ other ∈ labels, other = label := by
              simpa [List.filter_eq_nil_iff] using alone
            refine .inr ⟨none, state, rfl, .inl fun left among right among' => ?_⟩
            rw [same left among, same right among']
        · next others =>
            have positive : 0 < (labels.filter (· ≠ label)).length := by
              rw [List.length_pos_iff, ne_eq, ← List.isEmpty_iff]
              exact others
            cases draws : source.below32? (labels.filter (· ≠ label)).length fuel state with
            | none =>
                obtain ⟨-, _, _, labelsEq, -⟩ := first
                have among : label ∈ labels := labelsEq ▸ List.mem_append_right _ List.mem_cons_self
                exact .inl ⟨rfl, label, among, draws⟩
            | some outcome =>
                obtain ⟨choice, state'⟩ := outcome
                have within := Source.lt_of_below32? positive draws
                have chosen := fetch_of_lt within
                have there := List.getElem?_eq_getElem within
                generalize (labels.filter (· ≠ label))[choice] = other at chosen there
                let text := Text.replaceAll (mention label) (mention other) line.toList
                have redirects : redirect lines place label other =
                    .ok (lines.set place (String.ofList text), place) := by
                  rw [redirect, fetch_eq_ok_iff.mpr nearest.here]
                  rfl
                refine .inr ⟨Option.some (lines.set place (String.ofList text), place), state',
                  by simp only [drawn, chosen, redirects, pure, Except.pure], ?_⟩
                exact .swapActuator nearest first draws there
                  (Text.replaces_replaceAll (List.cons_ne_nil _ _) _ _)

/-! ## Damage of every kind -/

theorem accounts_damage (kind : Kind) (inside : index < lines.length) :
    (damage source fuel kind labels lines index state = .error .outOfFuel ∧
      Stalls source fuel state labels kind) ∨
    ∃ change state', damage source fuel kind labels lines index state = .ok (change, state') ∧
      Accounts source fuel state labels lines index kind change := by
  have inner {result : Except Failure (Option Change)} {kind : Kind} {left : σ}
      (made : ∃ change, result = .ok change ∧
        Accounts source fuel state labels lines index kind change) :
      ∃ change state', result.map (·, left) = .ok (change, state') ∧
        Accounts source fuel state labels lines index kind change := by
    obtain ⟨change, rfl, accounts⟩ := made
    exact ⟨change, left, rfl, accounts⟩
  cases kind with
  | transpose => exact .inr (inner (accounts_transpose inside))
  | truncate =>
      unfold damage
      cases draws : source.below64? 3 fuel state with
      | none => exact .inl ⟨rfl, draws⟩
      | some outcome =>
          obtain ⟨extra, state'⟩ := outcome
          exact .inr (inner (accounts_truncate draws inside))
  | delete => exact .inr (inner (accounts_delete inside))
  | flipBoolean => exact .inr (inner (accounts_flipBoolean labels lines index))
  | stripCondition => exact .inr (inner (accounts_stripCondition labels lines index))
  | swapActuator => exact accounts_swapActuator

/-- A guard line is not passed over, and is without its last term if it is the one reported. -/
theorem accounts_guardLine {change : Option Change} {depth : Nat} {terms : List String}
    {last : String}
    (accounts : Accounts source fuel state labels lines index .stripCondition change)
    (behind : index ≤ place) (nonempty : terms ≠ []) (dense : ' ' ∉ last.toList)
    (here : lines[place]? = .some (guardLine depth ⟨terms ++ [last]⟩)) :
    ∃ lines' reported, change = .some (lines', reported) ∧ reported ≤ place ∧
      (reported = place → lines' = lines.set place (guardLineStripped depth terms last)) := by
  have asks := asksMore_guardLine depth nonempty last
  cases change with
  | none => exact absurd asks (accounts place _ behind here)
  | some change =>
      obtain ⟨lines', reported⟩ := change
      cases accounts with
      | stripCondition behind' nearest strips =>
          refine ⟨_, reported, rfl, ?_, fun same => ?_⟩
          · by_contra beyond
            have passes : Passes index reported place := by
              rw [Passes, if_pos behind']
              omega
            exact nearest.passed place _ passes here asks
          · subst same
            obtain rfl := Option.some.inj (nearest.here.symm.trans here)
            rw [eq_of_strips_guardLine nonempty dense strips]

/-- Damage does not fail but for want of attempts to draw.  It is declined exactly if the lines are
left as they are, which is if there is nothing to change.  Otherwise it reports a line of the
program, and has done what its kind is to do there.  A guard line has its last term taken away,
and its `THEN` as well if this term is called `AND`. -/
theorem damage_exact (source : Source σ) (fuel : Nat) (kind : Kind) (labels : List Char)
    (done : Damaged) (index : Nat) (state : σ) (inside : index < done.lines.length) :
    (damage source fuel kind labels done.lines index state = .error .outOfFuel ∧
      Stalls source fuel state labels kind) ∨
    ∃ change state', damage source fuel kind labels done.lines index state = .ok (change, state') ∧
      (change = none ↔ (done.record kind change).lines = done.lines) ∧
      Accounts source fuel state labels done.lines index kind change ∧
      (∀ lines' place, change = some (lines', place) → place < done.lines.length) ∧
      (kind = .stripCondition → ∀ place depth terms last, index ≤ place → terms ≠ [] →
        ' ' ∉ last.toList → done.lines[place]? = some (guardLine depth ⟨terms ++ [last]⟩) →
        ∃ lines' reported, change = some (lines', reported) ∧ reported ≤ place ∧
          (reported = place →
            lines' = done.lines.set place (guardLineStripped depth terms last))) := by
  have accounted := @accounts_damage _ source fuel state done.lines labels index kind inside
  rcases accounted with stalled | ⟨change, state', damaged, accounts⟩
  · exact .inl stalled
  · refine .inr ⟨change, state', damaged, ?_, accounts, ?_, ?_⟩
    · cases change with
      | none => exact iff_of_true rfl rfl
      | some change => exact iff_of_false nofun (marks_damage damaged).ne
    · rintro lines' place rfl
      exact ((safely_damage kind inside).of_eq_ok damaged).1
    · rintro rfl place depth terms last behind nonempty dense here
      exact accounts_guardLine accounts behind nonempty dense here

theorem damage_exact_three_terms : ∃ rest : List UInt64,
    damage listed 0 .stripCondition ['A', 'B'] [guardLine 1 ⟨["X", "Y", "Z"]⟩] 0 [] =
      .ok (some ([guardLine 1 ⟨["X", "Y"]⟩], 0), rest) := by
  rcases damage_exact listed 0 .stripCondition ['A', 'B'] ⟨[guardLine 1 ⟨["X", "Y", "Z"]⟩], []⟩ 0
    [] (by decide) with ⟨-, stalls⟩ | ⟨change, rest, damaged, -, -, -, strips⟩
  · exact stalls.elim
  · obtain ⟨lines', reported, rfl, first, stripped⟩ :=
      strips rfl 0 1 ["X", "Y"] "Z" (Nat.le_refl 0) (by decide) (by decide) rfl
    obtain rfl := Nat.le_zero.mp first
    rw [stripped rfl] at damaged
    exact ⟨rest, damaged⟩

/-- A second term that is called `AND` does not go alone. -/
theorem stripCondition_and_term :
    guardLine 0 ⟨["X", "AND"]⟩ = "IF X AND AND THEN" ∧
      stripCondition [guardLine 0 ⟨["X", "AND"]⟩] 0 = .ok (some (["IF X AND"], 0)) ∧
      guardLine 0 ⟨["X"]⟩ ≠ "IF X AND" := by
  decide +kernel

end Pneumatic.Fault
