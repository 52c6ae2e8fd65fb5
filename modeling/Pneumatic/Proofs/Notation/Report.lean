import Pneumatic.Proofs.Notation.Findings
import Pneumatic.Proofs.Notation.Normal
import Mathlib.Data.List.TakeWhile

/-!
# Reporting

What is reported about a sequence is complete and nothing but messages of broken rules and
fragments of its normal form, none twice.  The message of a broken rule stands in front of the
text of a fragment that breaks it exactly if nothing found earlier is about that text.
-/

namespace Pneumatic

namespace Violation

theorem message_injective : Function.Injective message := by
  intro left right same
  cases left <;> cases right <;> first | rfl | simp [message] at same

/-- A message is more than one word. -/
theorem blank_mem_message (rule : Violation) : ' ' ∈ rule.message.toList := by
  cases rule <;> rw [message, String.toList_ofList] <;> decide

end Violation

/-- A broken rule is recorded first by its message, behind all that was found before it. -/
theorem Finding.exists_message {found : List Finding} {rule : Violation} {about : List Fragment}
    (among : .broken rule about ∈ found) :
    ∃ after, found.flatMap texts =
      (found.takeWhile (·.rule? ≠ some rule)).flatMap texts ++ rule.message :: after := by
  have parts := List.takeWhile_append_dropWhile (p := (·.rule? ≠ some rule)) (l := found)
  have stops := List.head?_dropWhile_not (·.rule? ≠ some rule) found
  cases restEq : found.dropWhile (·.rule? ≠ some rule) with
  | nil =>
      have other := List.dropWhile_eq_nil_iff.mp restEq _ among
      simp [rule?] at other
  | cons first rest =>
      rw [restEq] at stops parts
      have own : first.rule? = some rule := by simpa using stops
      cases first with
      | wrong fragment => simp [rule?] at own
      | broken other otherAbout =>
          obtain rfl := Option.some.inj own
          refine ⟨(otherAbout.map (·.text)).filter (!·.isEmpty) ++ rest.flatMap texts, ?_⟩
          conv_lhs => rw [← parts]
          rw [List.flatMap_append, List.flatMap_cons, texts, Diagnostics.violation,
            Diagnostics.about, List.cons_append]

namespace Fragment

variable {source : String} {fragment other : Fragment}

/-- The text of a fragment is no message. -/
theorem text_ne_message (among : fragment ∈ split (normalize source)) (rule : Violation) :
    fragment.text ≠ rule.message := by
  intro same
  obtain ⟨index, piece, inPieces, rfl⟩ := exists_piece among
  have blank : ' ' ∈ (ofPiece index piece).text.toList := same ▸ rule.blank_mem_message
  have inText := (Text.mem_of_mem_pieces inPieces (String.toList_ofList ▸ blank)).1
  have settled := (settled_of_mem_normalize inText).1
  simp [Text.isBlank] at settled

end Fragment

namespace Sequence

variable {source : String} {finding : Finding} {fragment : Fragment}

/-! ## What the findings are about -/

theorem hasBadEnd_iff :
    hasBadEnd fragment = true ↔
      (∃ close ∈ fragment.closes, Bound.read? close.spec = none) ∨ fragment.trailing ≠ "" := by
  simp [hasBadEnd]

theorem mem_fragmentFindings_iff :
    finding ∈ fragmentFindings fragment ↔
      finding = .broken .missingValue [fragment] ∧ fragment.core = "" ∨
      finding = .wrong fragment ∧
        (fragment.core ≠ "" ∧ Token.read? fragment.core = none ∨ hasBadEnd fragment = true) := by
  simp only [fragmentFindings, List.mem_append, String.isEmpty_iff, Option.isNone_iff_eq_none]
  grind

theorem among_of_mem_fragmentFindings {text : String} (inside : fragment ∈ Fragment.split text)
    (among : finding ∈ fragmentFindings fragment) : finding.Among (Fragment.split text) := by
  rcases mem_fragmentFindings_iff.mp among with ⟨rfl, -⟩ | ⟨rfl, bad⟩
  · exact Finding.among_broken (by simpa using inside)
  · refine ⟨by simpa [Finding.fragments] using inside, fun _ other inOther empty => ?_⟩
    obtain rfl := List.mem_singleton.mp inOther
    obtain ⟨-, core, closes, trailing⟩ := Fragment.parts_of_text_eq_empty inside empty
    rw [hasBadEnd_iff] at bad
    simp [core, closes, trailing] at bad

/-- What is found is what stands on the surface, or else at most one thing without a fragment,
or else the short regions. -/
theorem findings_cases (source : String) :
    (surfaceFindings (Fragment.split (Fragment.normalize source)) ≠ [] ∧
      findings source = surfaceFindings (Fragment.split (Fragment.normalize source))) ∨
    surfaceFindings (Fragment.split (Fragment.normalize source)) = [] ∧
      ((∃ rule, findings source = [.broken rule []]) ∨
        ∃ short : List (Nat × Nat), findings source = short.map fun (opened, closed) =>
          .broken .shortRegion
            (Brackets.pick (Fragment.split (Fragment.normalize source)) [opened, closed])) := by
  rw [findings]
  generalize Fragment.normalize source = normal
  simp only
  split
  · next empty =>
      refine .inr ⟨?_, .inl ⟨_, rfl⟩⟩
      rw [Fragment.split, if_pos empty]
      rfl
  · split
    · next finding more surface =>
        rw [surface]
        exact .inl ⟨List.cons_ne_nil _ _, rfl⟩
    · next surface =>
        refine .inr ⟨surface, ?_⟩
        split
        · exact .inl ⟨_, rfl⟩
        · exact .inr ⟨_, rfl⟩

theorem among_of_mem_findings (among : finding ∈ findings source) :
    finding.Among (Fragment.split (Fragment.normalize source)) := by
  rcases findings_cases source with ⟨-, surface⟩ | ⟨-, ⟨rule, alone⟩ | ⟨short, regions⟩⟩
  · rw [surface, surfaceFindings, List.mem_append, List.mem_flatMap] at among
    rcases among with ⟨fragment, inside, among⟩ | brackets
    · exact among_of_mem_fragmentFindings inside among
    · exact (Brackets.breach_of_mem_findings brackets).among
  · rw [alone] at among
    obtain rfl := List.mem_singleton.mp among
    exact Finding.among_broken (fun _ unlisted => absurd unlisted List.not_mem_nil)
  · rw [regions] at among
    obtain ⟨region, -, rfl⟩ := List.mem_map.mp among
    exact Finding.among_broken fun _ => Brackets.mem_of_mem_pick

/-! ## What is reported -/

theorem mem_validate_iff {text : String} :
    text ∈ validate source ↔ ∃ finding ∈ findings source, text ∈ finding.texts := by
  rw [validate_eq, List.mem_eraseDups, List.mem_flatMap]

theorem message_mem_validate {rule : Violation} {about : List Fragment}
    (found : .broken rule about ∈ findings source) : rule.message ∈ validate source :=
  mem_validate_iff.mpr
    ⟨_, found, (among_of_mem_findings found).mem_texts_iff.mpr (.inl ⟨rule, rfl, rfl⟩)⟩

theorem text_mem_validate (found : finding ∈ findings source)
    (about : fragment ∈ finding.fragments) (nonempty : fragment.text ≠ "") :
    fragment.text ∈ validate source :=
  mem_validate_iff.mpr
    ⟨_, found, (among_of_mem_findings found).mem_texts_iff.mpr (.inr ⟨nonempty, _, about, rfl⟩)⟩

theorem mem_findings_of_mem_surfaceFindings
    (surface : finding ∈ surfaceFindings (Fragment.split (Fragment.normalize source))) :
    finding ∈ findings source := by
  rcases findings_cases source with ⟨-, found⟩ | ⟨clean, -⟩
  · rwa [found]
  · rw [clean] at surface
    exact absurd surface List.not_mem_nil

theorem mem_findings_of_mem_fragmentFindings
    (inside : fragment ∈ Fragment.split (Fragment.normalize source))
    (own : finding ∈ fragmentFindings fragment) : finding ∈ findings source :=
  mem_findings_of_mem_surfaceFindings
    (List.mem_append_left _ (List.mem_flatMap.mpr ⟨fragment, inside, own⟩))

/-- What is reported is complete and sound.  No entry is empty or stands there twice, and each is
a message or the text of a fragment of the normal form.  A fragment whose core is no token, one
with a bound that is none, and one with text behind its brackets are there with their text, and
a fragment without a core with the message about missing values. -/
theorem report_sound_and_complete (source : String) :
    (validate source).Nodup ∧ "" ∉ validate source ∧
    (∀ text ∈ validate source, (∃ rule : Violation, text = rule.message) ∨
      ∃ fragment ∈ Fragment.split (Fragment.normalize source), text = fragment.text) ∧
    ∀ fragment ∈ Fragment.split (Fragment.normalize source),
      (fragment.core ≠ "" ∧ Token.read? fragment.core = none ∨
        (∃ close ∈ fragment.closes, Bound.read? close.spec = none) ∨ fragment.trailing ≠ "" →
          fragment.text ∈ validate source) ∧
      (fragment.core = "" → Violation.missingValue.message ∈ validate source) := by
  refine ⟨?_, ?_, ?_, fun fragment inside => ⟨fun bad => ?_, fun empty => ?_⟩⟩
  · rw [validate_eq]
    exact nodup_eraseDups _
  · rw [mem_validate_iff]
    rintro ⟨finding, found, inTexts⟩
    rcases (among_of_mem_findings found).mem_texts_iff.mp inTexts with
      ⟨rule, -, same⟩ | ⟨nonempty, -⟩
    · have blank := rule.blank_mem_message
      rw [← same] at blank
      simp at blank
    · exact nonempty rfl
  · intro text reported
    obtain ⟨finding, found, inTexts⟩ := mem_validate_iff.mp reported
    have among := among_of_mem_findings found
    rcases among.mem_texts_iff.mp inTexts with ⟨rule, -, same⟩ | ⟨-, fragment, about, same⟩
    · exact .inl ⟨rule, same⟩
    · exact .inr ⟨fragment, among.about fragment about, same⟩
  · rw [← hasBadEnd_iff] at bad
    have wrong := mem_fragmentFindings_iff.mpr (.inr ⟨rfl, bad⟩)
    have found := mem_findings_of_mem_fragmentFindings inside wrong
    exact mem_validate_iff.mpr ⟨_, found, List.mem_singleton_self _⟩
  · have missing := mem_fragmentFindings_iff.mpr (.inl ⟨rfl, empty⟩)
    exact message_mem_validate (mem_findings_of_mem_fragmentFindings inside missing)

/-- A core that is no token, a bound of no passes and a fragment without a core, in lower case and
with blanks, in a sequence whose brackets do not match either. -/
theorem report_sound_and_complete_mixed :
    "XY" ∈ validate "xy, [a+, b-]^0), " ∧ "B-]^0)" ∈ validate "xy, [a+, b-]^0), " ∧
      Violation.missingValue.message ∈ validate "xy, [a+, b-]^0), " := by
  have fragments : Fragment.split (Fragment.normalize "xy, [a+, b-]^0), ") =
      [⟨0, "XY", [], "XY", [], ""⟩, ⟨1, "[A+", [.square], "A+", [], ""⟩,
        ⟨2, "B-]^0)", [], "B-", [⟨.square, some "0"⟩, ⟨.round, none⟩], ""⟩,
        ⟨3, "", [], "", [], ""⟩] := by
    decide +kernel
  obtain ⟨-, -, -, complete⟩ := report_sound_and_complete "xy, [a+, b-]^0), "
  rw [fragments] at complete
  have noToken := complete ⟨0, "XY", [], "XY", [], ""⟩ (by simp)
  have noBound := complete ⟨2, "B-]^0)", [], "B-", [⟨.square, some "0"⟩, ⟨.round, none⟩], ""⟩
    (by simp)
  have noCore := complete ⟨3, "", [], "", [], ""⟩ (by simp)
  exact ⟨noToken.1 (.inl ⟨by decide, by decide +kernel⟩),
    noBound.1 (.inr (.inl ⟨_, List.mem_cons_self, by decide +kernel⟩)), noCore.2 rfl⟩

/-! ## Their order -/

variable {rule : Violation} {about : List Fragment}

theorem message_not_mem_texts (found : finding ∈ findings source)
    (other : finding.rule? ≠ some rule) : rule.message ∉ finding.texts := by
  have among := among_of_mem_findings found
  rw [among.mem_texts_iff]
  rintro (⟨own, ownEq, same⟩ | ⟨-, fragment, inFinding, same⟩)
  · obtain rfl := Violation.message_injective same
    exact other ownEq
  · exact Fragment.text_ne_message (among.about fragment inFinding) rule same.symm

/-- The message of a broken rule stands in front of the text of a fragment that breaks it exactly
if nothing found before the rule has that text. -/
theorem message_first_iff_takeWhile (found : .broken rule about ∈ findings source)
    (among : fragment ∈ about) (nonempty : fragment.text ≠ "") :
    [rule.message, fragment.text].Sublist (validate source) ↔
      ∀ earlier ∈ (findings source).takeWhile (·.rule? ≠ some rule),
        fragment.text ∉ earlier.texts := by
  obtain ⟨after, textsEq⟩ := Finding.exists_message found
  have new : rule.message ∉
      ((findings source).takeWhile (·.rule? ≠ some rule)).flatMap Finding.texts := by
    rw [List.mem_flatMap]
    rintro ⟨earlier, before, own⟩
    have other : earlier.rule? ≠ some rule := by simpa using List.mem_takeWhile_imp before
    exact message_not_mem_texts ((List.takeWhile_sublist _).subset before) other own
  have inside := (among_of_mem_findings found).about fragment among
  have inTexts := (among_of_mem_findings found).mem_texts_iff.mpr
    (.inr ⟨nonempty, fragment, among, rfl⟩)
  have anywhere := List.mem_flatMap.mpr ⟨_, found, inTexts⟩
  rw [textsEq] at anywhere
  rw [validate_eq, textsEq,
    pair_sublist_eraseDups_iff new (Fragment.text_ne_message inside rule) anywhere]
  simp only [List.mem_flatMap, not_exists, not_and]

/-- What is found before the first missing value is about fragments that have one. -/
theorem wrong_of_mem_takeWhile {fragments : List Fragment} {rest : List Finding}
    (missing : ∃ fragment ∈ fragments, fragment.core = "")
    (before : finding ∈ (fragments.flatMap fragmentFindings ++ rest).takeWhile
      (·.rule? ≠ some .missingValue)) :
    ∃ other ∈ fragments, other.core ≠ "" ∧ finding = .wrong other := by
  induction fragments with
  | nil => simp at missing
  | cons fragment fragments ih =>
      by_cases empty : fragment.core = ""
      · simp [fragmentFindings, empty, Finding.rule?] at before
      · have own : ∀ finding ∈ fragmentFindings fragment, finding = .wrong fragment := by
          intro finding among
          exact ((mem_fragmentFindings_iff.mp among).resolve_left fun bare => empty bare.2).1
        rw [List.flatMap_cons, List.append_assoc, List.takeWhile_append_of_pos, List.mem_append]
          at before
        · rcases before with here | later
          · exact ⟨fragment, List.mem_cons_self, empty, own finding here⟩
          · have further : ∃ other ∈ fragments, other.core = "" := by simpa [empty] using missing
            obtain ⟨other, among, named, wrong⟩ := ih further later
            exact ⟨other, List.mem_cons_of_mem _ among, named, wrong⟩
        · intro finding among
          rw [own finding among]
          rfl

/-- Findings about a fragment have its text, and no others. -/
theorem text_mem_texts_iff
    (among : finding.Among (Fragment.split (Fragment.normalize source)))
    (inside : fragment ∈ Fragment.split (Fragment.normalize source))
    (nonempty : fragment.text ≠ "") :
    fragment.text ∈ finding.texts ↔ ∃ other ∈ finding.fragments, other.text = fragment.text := by
  rw [among.mem_texts_iff]
  constructor
  · rintro (⟨rule, -, same⟩ | ⟨-, other, about, same⟩)
    · exact absurd same (Fragment.text_ne_message inside rule)
    · exact ⟨other, about, same.symm⟩
  · rintro ⟨other, about, same⟩
    exact .inr ⟨nonempty, other, about, same.symm⟩

theorem fragments_of_mem_fragmentFindings (own : finding ∈ fragmentFindings fragment) :
    finding.fragments = [fragment] := by
  rcases mem_fragmentFindings_iff.mp own with ⟨rfl, -⟩ | ⟨rfl, -⟩ <;> rfl

/-- The text of a fragment is not among what is said about fragments by themselves exactly if
nothing is said about this one. -/
theorem not_mem_texts_iff (inside : fragment ∈ Fragment.split (Fragment.normalize source))
    (nonempty : fragment.text ≠ "") :
    (∀ finding ∈ (Fragment.split (Fragment.normalize source)).flatMap fragmentFindings,
      fragment.text ∉ finding.texts) ↔ fragmentTexts fragment = [] := by
  constructor
  · intro unsaid
    rw [← flatMap_fragmentFindings, List.flatMap_eq_nil_iff]
    intro finding own
    have among := among_of_mem_fragmentFindings inside own
    refine absurd ?_ (unsaid finding (List.mem_flatMap.mpr ⟨fragment, inside, own⟩))
    rw [text_mem_texts_iff among inside nonempty, fragments_of_mem_fragmentFindings own]
    exact ⟨fragment, List.mem_cons_self, rfl⟩
  · intro clean finding said inTexts
    obtain ⟨other, otherInside, own⟩ := List.mem_flatMap.mp said
    have among := among_of_mem_fragmentFindings otherInside own
    rw [text_mem_texts_iff among inside nonempty, fragments_of_mem_fragmentFindings own] at inTexts
    obtain ⟨piece, single, same⟩ := inTexts
    obtain rfl := List.mem_singleton.mp single
    have parts := Fragment.eq_with_index inside otherInside same
    have alike : fragmentTexts piece = fragmentTexts fragment := by rw [parts]; rfl
    rw [clean, ← flatMap_fragmentFindings, List.flatMap_eq_nil_iff] at alike
    exact finding.texts_ne_nil (alike finding own)

/-- A broken rule with a fragment that breaks it is a missing value, a short region, or one of the
rules for brackets. -/
theorem rule_cases (found : .broken rule about ∈ findings source) (among : fragment ∈ about) :
    (rule = .missingValue ∧ fragment.core = "" ∧
      findings source = surfaceFindings (Fragment.split (Fragment.normalize source))) ∨
    (rule = .shortRegion ∧ ∀ finding ∈ findings source, finding.rule? = some .shortRegion) ∨
    findings source = surfaceFindings (Fragment.split (Fragment.normalize source)) ∧
      .broken rule about ∈ Brackets.findings (Fragment.split (Fragment.normalize source)) := by
  rcases findings_cases source with ⟨-, surface⟩ | ⟨-, ⟨other, alone⟩ | ⟨short, regions⟩⟩
  · rw [surface, surfaceFindings, List.mem_append, List.mem_flatMap] at found
    rcases found with ⟨piece, -, own⟩ | brackets
    · rcases mem_fragmentFindings_iff.mp own with ⟨same, empty⟩ | ⟨same, -⟩
      · obtain ⟨rfl, rfl⟩ := Finding.broken.inj same
        obtain rfl := List.mem_singleton.mp among
        exact .inl ⟨rfl, empty, surface⟩
      · exact Finding.noConfusion same
    · exact .inr (.inr ⟨surface, brackets⟩)
  · rw [alone] at found
    obtain ⟨rfl, rfl⟩ := Finding.broken.inj (List.mem_singleton.mp found)
    exact absurd among List.not_mem_nil
  · have allShort : ∀ finding ∈ findings source, finding.rule? = some .shortRegion := by
      intro finding among
      obtain ⟨region, -, rfl⟩ := List.mem_map.mp (regions ▸ among)
      rfl
    exact .inr (.inl ⟨Option.some.inj (allShort _ found), allShort⟩)

/-- No fragment without a core is among what is found before the first missing value. -/
theorem not_mem_texts_before_missing {rest : List Finding}
    (inside : fragment ∈ Fragment.split (Fragment.normalize source)) (empty : fragment.core = "")
    (before : finding ∈ ((Fragment.split (Fragment.normalize source)).flatMap fragmentFindings ++
      rest).takeWhile (·.rule? ≠ some .missingValue)) : fragment.text ∉ finding.texts := by
  obtain ⟨other, otherInside, named, rfl⟩ :=
    wrong_of_mem_takeWhile ⟨fragment, inside, empty⟩ before
  intro same
  have parts := Fragment.eq_with_index otherInside inside (List.mem_singleton.mp same)
  rw [parts] at empty
  exact named empty

/-- What is found before a rule for brackets are all findings about fragments by themselves and the
rules for brackets that were found broken earlier. -/
theorem takeWhile_surfaceFindings {fragments : List Fragment} (other : rule ≠ .missingValue) :
    (surfaceFindings fragments).takeWhile (·.rule? ≠ some rule) =
      fragments.flatMap fragmentFindings ++
        (Brackets.findings fragments).takeWhile (·.rule? ≠ some rule) := by
  rw [surfaceFindings, List.takeWhile_append_of_pos]
  intro finding said
  obtain ⟨fragment, -, own⟩ := List.mem_flatMap.mp said
  rcases mem_fragmentFindings_iff.mp own with ⟨rfl, -⟩ | ⟨rfl, -⟩
  · simpa [Finding.rule?] using Ne.symm other
  · rfl

/-- The message of a broken rule and the text of a fragment that breaks it are both reported.  The
message stands in front for a missing value and for a short region.  For any other rule it does
so exactly if nothing is wrong with the fragment by itself and no rule for brackets that was
found broken earlier is about a fragment with its text. -/
theorem message_first_iff (found : .broken rule about ∈ findings source)
    (among : fragment ∈ about) (nonempty : fragment.text ≠ "") :
    rule.message ∈ validate source ∧ fragment.text ∈ validate source ∧
    ([rule.message, fragment.text].Sublist (validate source) ↔
      rule = .missingValue ∨ rule = .shortRegion ∨
        fragmentTexts fragment = [] ∧
          ∀ earlier ∈ (Brackets.findings (Fragment.split (Fragment.normalize source))).takeWhile
            (·.rule? ≠ some rule), ∀ other ∈ earlier.fragments, other.text ≠ fragment.text) := by
  have inside := (among_of_mem_findings found).about fragment among
  refine ⟨message_mem_validate found, text_mem_validate found among nonempty, ?_⟩
  rw [message_first_iff_takeWhile found among nonempty]
  rcases rule_cases found among with ⟨rfl, empty, surface⟩ | ⟨rfl, allShort⟩ | ⟨surface, brackets⟩
  · rw [surface]
    exact iff_of_true (fun _ => not_mem_texts_before_missing inside empty) (.inl rfl)
  · refine iff_of_true (fun earlier before => ?_) (.inr (.inl rfl))
    have short := allShort earlier ((List.takeWhile_sublist _).subset before)
    have other := List.mem_takeWhile_imp before
    simp [short] at other
  · obtain ⟨_, ⟨rfl⟩, -, notMissing, notShort⟩ := (Brackets.breach_of_mem_findings brackets).rule
    rw [surface, takeWhile_surfaceFindings notMissing, List.forall_mem_append,
      not_mem_texts_iff inside nonempty]
    simp only [notMissing, notShort, false_or]
    refine and_congr_right fun _ => forall₂_congr fun earlier before => ?_
    have breach := Brackets.breach_of_mem_findings ((List.takeWhile_sublist _).subset before)
    rw [text_mem_texts_iff breach.among inside nonempty]
    simp only [not_exists, not_and]

/-- A group that is never closed: its message stands in front of the fragment that opens it. -/
theorem message_first_iff_open :
    Finding.broken .roundCount [⟨1, "(B+", [.round], "B+", [], ""⟩] ∈ findings "a+, (b+, c-" ∧
      [Violation.roundCount.message, "(B+"].Sublist (validate "a+, (b+, c-") := by
  have found : Finding.broken .roundCount [⟨1, "(B+", [.round], "B+", [], ""⟩] ∈
      findings "a+, (b+, c-" := by decide +kernel
  obtain ⟨-, -, first⟩ := message_first_iff found List.mem_cons_self (by decide)
  exact ⟨found, first.mpr (.inr (.inr ⟨by decide +kernel, by decide +kernel⟩))⟩

/-- The core of the fragment is no token, which is found before its bracket has no partner: the
text of the fragment stands in front of the message that it breaks the rule of. -/
theorem text_first_of_bad_core :
    Finding.broken .roundCount [⟨0, "(A+A-", [.round], "A+A-", [], ""⟩] ∈ findings "(A+A-" ∧
      validate "(A+A-" = ["(A+A-", Violation.roundCount.message] ∧
      ¬ [Violation.roundCount.message, "(A+A-"].Sublist (validate "(A+A-") := by
  decide +kernel

end Sequence

end Pneumatic
