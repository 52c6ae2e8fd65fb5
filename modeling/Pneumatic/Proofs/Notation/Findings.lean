import Pneumatic.Proofs.Notation.Normal
import Pneumatic.Proofs.Once

/-!
# Findings

What is wrong with a sequence, before it becomes texts: broken rules with the fragments that
they are about, and fragments that are wrong by themselves, in the order in which reading comes
upon them.  The diagnostics are the texts of these findings, each where it comes first.
-/

namespace Pneumatic

/-- Something wrong with a sequence: a broken rule and the fragments that it is about, or a
fragment that is wrong by itself. -/
inductive Finding where
  | broken (rule : Violation) (about : List Fragment)
  | wrong (fragment : Fragment)
  deriving DecidableEq, Repr

namespace Finding

/-- The texts recorded for a finding. -/
def texts : Finding → List String
  | broken rule about => Diagnostics.violation rule about
  | wrong fragment => [fragment.text]

/-- The rule that is broken. -/
def rule? : Finding → Option Violation
  | broken rule _ => some rule
  | wrong _ => none

/-- The fragments that a finding is about. -/
def fragments : Finding → List Fragment
  | broken _ about => about
  | wrong fragment => [fragment]

/-- A finding that is only about given fragments; one about a fragment by itself has a text. -/
structure Among (given : List Fragment) (finding : Finding) : Prop where
  about : ∀ fragment ∈ finding.fragments, fragment ∈ given
  nonempty : finding.rule? = none → ∀ fragment ∈ finding.fragments, fragment.text ≠ ""

theorem among_broken {given about : List Fragment} {rule : Violation}
    (inside : ∀ fragment ∈ about, fragment ∈ given) : (broken rule about).Among given :=
  ⟨inside, fun unruled => absurd unruled (Option.some_ne_none rule)⟩

theorem texts_ne_nil (finding : Finding) : finding.texts ≠ [] := by
  cases finding with
  | broken rule about => exact Brackets.violation_ne_nil rule about
  | wrong fragment => exact List.cons_ne_nil _ _

/-- The texts of a finding are the message of its rule and the texts of its fragments. -/
theorem Among.mem_texts_iff {given : List Fragment} {finding : Finding} {text : String}
    (among : finding.Among given) :
    text ∈ finding.texts ↔
      (∃ rule, finding.rule? = some rule ∧ text = rule.message) ∨
        text ≠ "" ∧ ∃ fragment ∈ finding.fragments, text = fragment.text := by
  cases finding with
  | broken rule about =>
      simp only [texts, rule?, fragments, Diagnostics.violation, Diagnostics.about]
      grind [String.isEmpty_iff]
  | wrong fragment =>
      have nonempty := among.nonempty rfl fragment (by simp [fragments])
      simp only [texts, rule?, fragments]
      grind

end Finding

namespace Brackets

/-- What is wrong with brackets of one kind that balance. -/
def pairFindings (fragments : List Fragment) (rules : Bracket.Rules) :
    List Nat → List Nat → List Finding
  | opening :: openings, closing :: closings =>
      (if closing ≤ opening then [.broken rules.order (pick fragments [opening, closing])]
      else []) ++
      (match openings.head? with
      | some next =>
          if next ≤ closing then [.broken rules.overlap (pick fragments [next, closing])] else []
      | none => []) ++
      pairFindings fragments rules openings closings
  | _, _ => []

/-- What is wrong with the brackets of one kind. -/
def kindFindings (fragments : List Fragment) (kind : Bracket) (marks : List Mark) :
    List Finding :=
  let own := ofKind kind marks
  if balanced own then
    let own := inner fragments kind own
    pairFindings fragments kind.rules (own.filterMap Mark.opening?) (own.filterMap Mark.closing?)
  else
    let lone := unpaired [] own
    [.broken kind.rules.count (fragments.filter fun fragment => lone.contains fragment.index)]

/-- What is wrong with the brackets of both kinds together. -/
def crossingFindings (fragments : List Fragment) (stack : List (Bracket × Nat)) :
    List Mark → List Finding
  | [] => []
  | .opens kind index :: rest =>
      (if kind == .square && stack.any (·.1 == .round) then
        [.broken .regionInGroup (pick fragments [index])]
      else []) ++
      crossingFindings fragments ((kind, index) :: stack) rest
  | .closes kind index :: rest =>
      match stack with
      | [] => crossingFindings fragments [] rest
      | (opened, opening) :: stack =>
          (if opened ≠ kind then [.broken .crossing (pick fragments [opening, index])] else []) ++
          crossingFindings fragments stack rest

/-- What is wrong with the brackets of a sequence. -/
def findings (fragments : List Fragment) : List Finding :=
  let marks := marks fragments
  kindFindings fragments .round marks ++ kindFindings fragments .square marks ++
    (if balanced (ofKind .round marks) && balanced (ofKind .square marks) then
      crossingFindings fragments [] marks
    else [])

theorem flatMap_pairFindings (fragments : List Fragment) (rules : Bracket.Rules)
    (openings closings : List Nat) :
    (pairFindings fragments rules openings closings).flatMap Finding.texts =
      pairTexts fragments rules openings closings := by
  fun_induction pairFindings fragments rules openings closings with
  | case1 opening openings closing closings ih =>
      simp only [pairTexts, List.flatMap_append, ih]
      congr 2
      · split <;> simp [Finding.texts]
      · cases openings.head? with
        | none => rfl
        | some next => simp only; split <;> simp [Finding.texts]
  | case2 openings closings other => simp [pairTexts]

theorem flatMap_crossingFindings (fragments : List Fragment) (stack : List (Bracket × Nat))
    (marks : List Mark) :
    (crossingFindings fragments stack marks).flatMap Finding.texts =
      crossingTexts fragments stack marks := by
  fun_induction crossingFindings fragments stack marks with
  | case1 => simp [crossingTexts]
  | case2 stack kind index rest ih =>
      simp only [crossingTexts, List.flatMap_append, ih]
      congr 1
      split <;> simp [Finding.texts]
  | case3 kind index rest ih => simpa only [crossingTexts] using ih
  | case4 kind index rest opened opening stack ih =>
      simp only [crossingTexts, List.flatMap_append, ih]
      congr 1
      split <;> simp [Finding.texts]

theorem flatMap_kindFindings (fragments : List Fragment) (kind : Bracket) (marks : List Mark) :
    (kindFindings fragments kind marks).flatMap Finding.texts =
      kindTexts fragments kind marks := by
  simp only [kindFindings, kindTexts]
  split
  · rw [flatMap_pairFindings]
  · simp [Finding.texts]

theorem flatMap_findings (fragments : List Fragment) :
    (findings fragments).flatMap Finding.texts = texts fragments := by
  simp only [findings, texts, List.flatMap_append, flatMap_kindFindings]
  congr 1
  split
  · rw [flatMap_crossingFindings]
  · rfl

/-! ## What the findings are about -/

theorem mem_of_mem_pick {fragments : List Fragment} {indices : List Nat} {fragment : Fragment}
    (picked : fragment ∈ pick fragments indices) : fragment ∈ fragments := by
  obtain ⟨index, -, found⟩ := List.mem_filterMap.mp picked
  exact List.mem_of_getElem? found

/-- A rule for brackets that is broken, and only fragments of the sequence that break it. -/
structure Breach (fragments : List Fragment) (finding : Finding) : Prop where
  rule : ∃ rule, finding.rule? = some rule ∧
    rule ≠ .emptySequence ∧ rule ≠ .missingValue ∧ rule ≠ .shortRegion
  about : ∀ fragment ∈ finding.fragments, fragment ∈ fragments

theorem Breach.among {fragments : List Fragment} {finding : Finding}
    (breach : Breach fragments finding) : finding.Among fragments := by
  obtain ⟨rule, ruleEq, -⟩ := breach.rule
  refine ⟨breach.about, fun unruled => ?_⟩
  rw [unruled] at ruleEq
  contradiction

theorem breach_pick (fragments : List Fragment) {rule : Violation} (indices : List Nat)
    (other : rule ≠ .emptySequence ∧ rule ≠ .missingValue ∧ rule ≠ .shortRegion) :
    Breach fragments (.broken rule (pick fragments indices)) :=
  ⟨⟨rule, rfl, other⟩, fun _ => mem_of_mem_pick⟩

variable {fragments : List Fragment} {finding : Finding}

theorem breach_of_mem_pairFindings {kind : Bracket} {openings closings : List Nat}
    (among : finding ∈ pairFindings fragments kind.rules openings closings) :
    Breach fragments finding := by
  fun_induction pairFindings fragments kind.rules openings closings with
  | case1 opening openings closing closings ih =>
      simp only [List.mem_append] at among
      rcases among with (order | overlap) | later
      · split at order
        · obtain rfl := List.mem_singleton.mp order
          exact breach_pick _ _ (by cases kind <;> decide)
        · contradiction
      · split at overlap
        · split at overlap
          · obtain rfl := List.mem_singleton.mp overlap
            exact breach_pick _ _ (by cases kind <;> decide)
          · contradiction
        · contradiction
      · exact ih later
  | case2 => contradiction

theorem breach_of_mem_kindFindings {kind : Bracket} {marks : List Mark}
    (among : finding ∈ kindFindings fragments kind marks) : Breach fragments finding := by
  simp only [kindFindings] at among
  split at among
  · exact breach_of_mem_pairFindings among
  · obtain rfl := List.mem_singleton.mp among
    refine ⟨⟨kind.rules.count, rfl, by cases kind <;> decide⟩, fun fragment lone => ?_⟩
    exact (List.mem_filter.mp lone).1

theorem breach_of_mem_crossingFindings {stack : List (Bracket × Nat)} {marks : List Mark}
    (among : finding ∈ crossingFindings fragments stack marks) : Breach fragments finding := by
  fun_induction crossingFindings fragments stack marks with
  | case1 => contradiction
  | case2 stack kind index rest ih =>
      rcases List.mem_append.mp among with here | later
      · split at here
        · obtain rfl := List.mem_singleton.mp here
          exact breach_pick _ _ (by decide)
        · contradiction
      · exact ih later
  | case3 kind index rest ih => exact ih among
  | case4 kind index rest opened opening stack ih =>
      rcases List.mem_append.mp among with here | later
      · split at here
        · obtain rfl := List.mem_singleton.mp here
          exact breach_pick _ _ (by decide)
        · contradiction
      · exact ih later

theorem breach_of_mem_findings (among : finding ∈ findings fragments) :
    Breach fragments finding := by
  simp only [findings, List.mem_append] at among
  rcases among with (round | square) | both
  · exact breach_of_mem_kindFindings round
  · exact breach_of_mem_kindFindings square
  · split at both
    · exact breach_of_mem_crossingFindings both
    · contradiction

end Brackets

/-! ## Recording -/

namespace Diagnostics

theorem messages_ofList (texts : List String) : (ofList texts).messages = texts.eraseDups := by
  induction texts using List.reverseRecOn with
  | nil => rfl
  | append_singleton before text ih =>
      have step : ofList (before ++ [text]) = (ofList before).push text := by
        simp [ofList, pushAll]
      rw [step, push]
      by_cases known : text ∈ before
      · rw [dif_pos (by simpa [ih] using known), ih, eraseDups_append_of_mem known]
      · rw [dif_neg (by simpa [ih] using known), eraseDups_append_of_not_mem known]
        exact congrArg (· ++ [text]) ih

end Diagnostics

namespace Sequence

/-- What is wrong with a fragment by itself. -/
def fragmentFindings (fragment : Fragment) : List Finding :=
  (if fragment.core.isEmpty then [.broken .missingValue [fragment]]
    else if (Token.read? fragment.core).isNone then [.wrong fragment]
    else []) ++
  (if hasBadEnd fragment then [.wrong fragment] else [])

/-- What is found before the tree is built. -/
def surfaceFindings (fragments : List Fragment) : List Finding :=
  fragments.flatMap fragmentFindings ++ Brackets.findings fragments

/-- All that is wrong with a sequence. -/
def findings (source : String) : List Finding :=
  let normal := Fragment.normalize source
  if normal.isEmpty then [.broken .emptySequence []]
  else
    let fragments := Fragment.split normal
    match surfaceFindings fragments with
    | finding :: more => finding :: more
    | [] =>
        match build fragments with
        | .error _ => [.broken .crossing []]
        | .ok (_, short) => short.map fun (opened, closed) =>
            .broken .shortRegion (Brackets.pick fragments [opened, closed])

theorem flatMap_fragmentFindings (fragment : Fragment) :
    (fragmentFindings fragment).flatMap Finding.texts = fragmentTexts fragment := by
  rw [fragmentFindings, fragmentTexts, List.flatMap_append]
  congr 1
  · split
    · simp [Finding.texts]
    · split <;> simp [Finding.texts]
  · split <;> simp [Finding.texts]

theorem flatMap_surfaceFindings (fragments : List Fragment) :
    (surfaceFindings fragments).flatMap Finding.texts = surfaceTexts fragments := by
  rw [surfaceFindings, surfaceTexts, List.flatMap_append, Brackets.flatMap_findings,
    List.flatMap_assoc]
  simp only [flatMap_fragmentFindings]

theorem flatMap_shortFindings (fragments : List Fragment) (short : List (Nat × Nat)) :
    (short.map fun (opened, closed) => Finding.broken .shortRegion
      (Brackets.pick fragments [opened, closed])).flatMap Finding.texts =
    short.flatMap fun (opened, closed) =>
      Diagnostics.violation .shortRegion (Brackets.pick fragments [opened, closed]) := by
  rw [List.flatMap_map]
  rfl

/-- The diagnostics are the texts of the findings, each where it comes first. -/
theorem validate_eq (source : String) :
    validate source = ((findings source).flatMap Finding.texts).eraseDups := by
  rw [validate, parse, findings]
  generalize Fragment.normalize source = normal
  cases empty : normal.isEmpty with
  | true => simp [Diagnostics.messages_ofList, Finding.texts, Diagnostics.violation,
      Diagnostics.about]
  | false =>
      have surface := flatMap_surfaceFindings (Fragment.split normal)
      simp only [Bool.false_eq_true, ↓reduceIte]
      rw [← surface]
      cases surfaceFindings (Fragment.split normal) with
      | cons finding more =>
          obtain ⟨text, rest, textsEq⟩ := List.exists_cons_of_ne_nil finding.texts_ne_nil
          simp [textsEq, Diagnostics.messages_ofList]
      | nil =>
          simp only [List.flatMap_nil]
          cases build (Fragment.split normal) with
          | error misfit =>
              simp [Diagnostics.messages_ofList, Finding.texts, Diagnostics.violation,
                Diagnostics.about]
          | ok built =>
              obtain ⟨nodes, short⟩ := built
              have late := flatMap_shortFindings (Fragment.split normal) short
              simp only
              rw [late]
              cases short.flatMap fun (opened, closed) => Diagnostics.violation .shortRegion
                  (Brackets.pick (Fragment.split normal) [opened, closed]) with
              | cons text more => exact Diagnostics.messages_ofList _
              | nil => rfl

end Sequence

end Pneumatic
