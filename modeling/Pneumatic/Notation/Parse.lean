import Pneumatic.Notation.Brackets
import Pneumatic.Notation.Sequence

/-!
# Reading a sequence

All problems of a text are collected before it is refused, so the diagnostics of
`Sequence.parse` are the complete answer to what is wrong with it.
-/

namespace Pneumatic.Sequence

/-- Whether what follows the core of a fragment is wrong: a bound that cannot be
read, or text after the last bracket. -/
def hasBadEnd (fragment : Fragment) : Bool :=
  (fragment.closes.any fun close => (Bound.read? close.spec).isNone) || !fragment.trailing.isEmpty

/-- Texts for a fragment by itself. -/
def fragmentTexts (fragment : Fragment) : List String :=
  (if fragment.core.isEmpty then Diagnostics.violation .missingValue [fragment]
    else if (Token.read? fragment.core).isNone then [fragment.text]
    else []) ++
  (if hasBadEnd fragment then [fragment.text] else [])

/-- Texts found before the tree is built. -/
def surfaceTexts (fragments : List Fragment) : List String :=
  fragments.flatMap fragmentTexts ++ Brackets.texts fragments

/-- Build the tree. -/
def build (fragments : List Fragment) : Except Misfit (List Node × List (Nat × Nat)) := do
  let builder ← fragments.foldlM Builder.add .start
  return (← builder.finish, builder.short)

/-- A single endless region around everything is the wrap of a sequence, unless it
holds another region. -/
def unwrap : List Node → List Node × Bool
  | [.region .unbounded body] =>
      if body.any Node.isRegion then ([.region .unbounded body], false) else (body, true)
  | nodes => (nodes, false)

/-- Read a sequence, or say everything that is wrong with it. -/
def parse (source : String) : Except Diagnostics Sequence :=
  let normal := Fragment.normalize source
  if normal.isEmpty then .error (.ofList [Violation.emptySequence.message])
  else
    let fragments := Fragment.split normal
    match surfaceTexts fragments with
    | text :: more => .error (.ofList (text :: more))
    | [] =>
        match build fragments with
        | .error _ => .error (.ofList [Violation.crossing.message])
        | .ok (nodes, short) =>
            match short.flatMap fun (opened, closed) =>
                Diagnostics.violation .shortRegion (Brackets.pick fragments [opened, closed]) with
            | text :: more => .error (.ofList (text :: more))
            | [] =>
                let (nodes, wrapped) := unwrap nodes
                .ok ⟨normal, nodes, wrapped⟩

/-- Everything that is wrong with a sequence; nothing when it can be read. -/
def validate (source : String) : List String :=
  match parse source with
  | .ok _ => []
  | .error diagnostics => diagnostics.messages

end Pneumatic.Sequence
