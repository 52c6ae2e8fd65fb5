import Pneumatic.Proofs.Program.Build
import Pneumatic.Run.Machine

/-!
# Admission

A compiler and a run each take in a source by themselves.  Both refuse the same sources, for the
same reasons and in the same order: a text that cannot be read, then a pressure, then a start by a
retraction.  What is refused for none of these reasons has a program with automatic names, and it
is taken in by every device that is available.
-/

namespace Pneumatic

/-- Why a source is refused, by a compiler and by a run alike. -/
inductive Sequence.Refusal where
  | unreadable (diagnostics : Diagnostics)
  | pressure (token : Token)
  | openingRetraction (label : Char)
  deriving DecidableEq, Repr

namespace Sequence

namespace Refusal

/-- A refusal as a compiler reports it. -/
def compileError : Refusal → CompileError
  | .unreadable diagnostics => .invalid diagnostics
  | .pressure token => .unsupportedToken token
  | .openingRetraction label => .unsupportedStart label

/-- A refusal as a run reports it. -/
def runError : Refusal → Run.Error
  | .unreadable diagnostics => .sequence diagnostics
  | .pressure token => .unsupported (.pressure token)
  | .openingRetraction label => .unsupported (.openingRetraction label)

theorem compileError_injective {left right : Refusal}
    (equal : left.compileError = right.compileError) : left = right := by
  cases left <;> cases right <;> simp_all [compileError]

theorem runError_injective {left right : Refusal} (equal : left.runError = right.runError) :
    left = right := by
  cases left <;> cases right <;> simp_all [runError]

end Refusal

/-- Why a source is refused.  A pressure anywhere comes before a start by a retraction. -/
def refusal? (source : String) : Option Refusal :=
  match parse source with
  | .error diagnostics => some (.unreadable diagnostics)
  | .ok sequence =>
      match sequence.firstPressure?, sequence.openingRetraction? with
      | some token, _ => some (.pressure token)
      | none, some label => some (.openingRetraction label)
      | none, none => none

end Sequence

variable {source address : String} {refusal : Sequence.Refusal} {registry : Device.Registry}
  {record : Device.Record} {now : Nat}

namespace Sequence

theorem refusal?_eq_none_iff :
    refusal? source = none ↔ ∃ sequence, parse source = .ok sequence ∧
      sequence.firstPressure? = none ∧ sequence.openingRetraction? = none := by
  unfold refusal?
  cases parse source with
  | error diagnostics => simp
  | ok sequence =>
      cases pressure : sequence.firstPressure? <;>
        cases retraction : sequence.openingRetraction? <;> simp [pressure, retraction]

theorem cases_of_refusal (refused : refusal? source = some refusal) :
    (∃ diagnostics, parse source = .error diagnostics ∧ refusal = .unreadable diagnostics) ∨
    (∃ sequence token, parse source = .ok sequence ∧ sequence.firstPressure? = some token ∧
      refusal = .pressure token) ∨
    ∃ sequence label, parse source = .ok sequence ∧ sequence.firstPressure? = none ∧
      sequence.openingRetraction? = some label ∧ refusal = .openingRetraction label := by
  unfold refusal? at refused
  split at refused
  · next diagnostics parsed => exact .inl ⟨diagnostics, parsed, (Option.some.inj refused).symm⟩
  · next sequence parsed =>
      split at refused
      · next token pressure =>
          exact .inr (.inl ⟨sequence, token, parsed, pressure, (Option.some.inj refused).symm⟩)
      · next label noPressure retraction =>
          exact .inr (.inr ⟨sequence, label, parsed, noPressure, retraction,
            (Option.some.inj refused).symm⟩)
      · contradiction

end Sequence

namespace Program

theorem compileSource_of_refusal (refused : Sequence.refusal? source = some refusal) :
    compileSource source none = .error refusal.compileError := by
  rcases Sequence.cases_of_refusal refused with ⟨diagnostics, parsed, rfl⟩ |
    ⟨sequence, token, parsed, pressure, rfl⟩ |
    ⟨sequence, label, parsed, noPressure, retraction, rfl⟩
  · simp only [compileSource, parsed, Sequence.Refusal.compileError]
  · simp only [compileSource, parsed, compile, pressure, Sequence.Refusal.compileError]
  · simp only [compileSource, parsed, compile, noPressure, retraction,
      Sequence.Refusal.compileError]

theorem exists_compileSource (accepted : Sequence.refusal? source = none) :
    ∃ program, compileSource source none = .ok program := by
  obtain ⟨sequence, parsed, noPressure, noRetraction⟩ :=
    Sequence.refusal?_eq_none_iff.mp accepted
  obtain ⟨program, compiled⟩ := exists_compile noPressure noRetraction
  refine ⟨program, ?_⟩
  rw [compileSource, parsed]
  exact compiled

end Program

namespace Run

/-- Taking in a sequence that was read. -/
theorem prepare_of_parse {sequence : Sequence} (parsed : Sequence.parse source = .ok sequence) :
    prepare registry source address now =
      match sequence.firstPressure?, sequence.openingRetraction? with
      | some token, _ => .error (.unsupported (.pressure token))
      | none, some label => .error (.unsupported (.openingRetraction label))
      | none, none =>
          ((registry.acquire address now).mapError .device).map fun (lease, registry) =>
            (sequence, lease, registry) := by
  rw [prepare, parsed]
  rfl

/-- A run is refused for its sequence whatever becomes of the device. -/
theorem prepare_of_refusal (refused : Sequence.refusal? source = some refusal) :
    prepare registry source address now = .error refusal.runError := by
  rcases Sequence.cases_of_refusal refused with ⟨diagnostics, parsed, rfl⟩ |
    ⟨sequence, token, parsed, pressure, rfl⟩ |
    ⟨sequence, label, parsed, noPressure, retraction, rfl⟩
  · rw [prepare, parsed]
    rfl
  · simp only [prepare_of_parse parsed, pressure, Sequence.Refusal.runError]
  · simp only [prepare_of_parse parsed, noPressure, retraction, Sequence.Refusal.runError]

theorem exists_prepare (accepted : Sequence.refusal? source = none)
    (known : registry.find? address = some record) (available : record.available = true) :
    ∃ held, prepare registry source address now = .ok held := by
  obtain ⟨sequence, parsed, noPressure, noRetraction⟩ :=
    Sequence.refusal?_eq_none_iff.mp accepted
  have acquires : registry.acquire address now = .ok (⟨address, registry.runs⟩,
      { registry.update address (·.hold registry.runs now) with runs := registry.runs + 1 }) := by
    simp only [Device.Registry.acquire, known, available, if_true]
  simp only [prepare_of_parse parsed, noPressure, noRetraction, acquires]
  exact ⟨_, rfl⟩

end Run

/-- The compiler with automatic names and a run on a device that is available accept the same
sources.  What one of them refuses the other refuses for the same reason, and there is no other
reason; the builder never fails on a sequence without a pressure that does not start by a
retraction. -/
theorem compiles_iff_prepares (known : registry.find? address = some record)
    (available : record.available = true) :
    ((∃ program, Program.compileSource source none = .ok program) ↔
      ∃ held, Run.prepare registry source address now = .ok held) ∧
    (∀ refusal : Sequence.Refusal,
      Program.compileSource source none = .error refusal.compileError ↔
        Run.prepare registry source address now = .error refusal.runError) ∧
    (∀ error, Program.compileSource source none = .error error →
      ∃ refusal : Sequence.Refusal, error = refusal.compileError) ∧
    (∀ error, Run.prepare registry source address now = .error error →
      ∃ refusal : Sequence.Refusal, error = refusal.runError) ∧
    ∀ sequence, Sequence.parse source = .ok sequence → sequence.firstPressure? = none →
      sequence.openingRetraction? = none →
        ∃ program, Program.build .automatic sequence = .ok program := by
  have builds (sequence : Sequence) (noPressure : sequence.firstPressure? = none) :
      ∃ program, Program.build .automatic sequence = .ok program := by
    obtain ⟨program, -, -, built, -⟩ :=
      Program.build_automatic (Sequence.runs_parts noPressure)
    exact ⟨program, built⟩
  cases refused : Sequence.refusal? source with
  | none =>
      obtain ⟨program, compiled⟩ := Program.exists_compileSource refused
      obtain ⟨held, prepared⟩ : ∃ held, Run.prepare registry source address now = .ok held :=
        Run.exists_prepare refused known available
      simp only [compiled, prepared]
      exact ⟨by simp, by simp, nofun, nofun, fun sequence _ noPressure _ =>
        builds sequence noPressure⟩
  | some found =>
      have compiled := Program.compileSource_of_refusal refused
      have prepared : Run.prepare registry source address now = _ :=
        Run.prepare_of_refusal refused
      simp only [compiled, prepared, Except.error.injEq]
      refine ⟨by simp, ?_, ?_, ?_, fun sequence _ noPressure _ => builds sequence noPressure⟩
      · intro refusal
        constructor
        · intro equal
          rw [Sequence.Refusal.compileError_injective equal]
        · intro equal
          rw [Sequence.Refusal.runError_injective equal]
      · rintro error rfl
        exact ⟨found, rfl⟩
      · rintro error rfl
        exact ⟨found, rfl⟩

/-- A sequence that starts by a retraction and has a pressure later is refused for the pressure. -/
theorem compiles_iff_prepares_pressure :
    ∃ registry : Device.Registry, ∃ record token,
      registry.find? "plc" = some record ∧ record.available = true ∧
      Program.compileSource "A-,(B+,4BAR)" none = .error (.unsupportedToken token) ∧
      Run.prepare registry "A-,(B+,4BAR)" "plc" 0 = .error (.unsupported (.pressure token)) := by
  let registry : Device.Registry := .ofDevices [("press", "plc")]
  have known : registry.find? "plc" = some (.new "press" "plc") := by decide
  have refused : (match Program.compileSource "A-,(B+,4BAR)" none with
      | .error (.unsupportedToken _) => true
      | _ => false) = true := by
    decide +kernel
  split at refused
  · next token compiled =>
      have same (refusal : Sequence.Refusal) :
          Program.compileSource "A-,(B+,4BAR)" none = .error refusal.compileError ↔
            Run.prepare registry "A-,(B+,4BAR)" "plc" 0 = .error refusal.runError :=
        (compiles_iff_prepares known rfl).2.1 refusal
      exact ⟨registry, _, token, known, rfl, compiled, (same (.pressure token)).mp compiled⟩
  · contradiction

end Pneumatic
