import Pneumatic.Notation.Sequence

/-!
# Walking through a sequence

The index of the next step, after a step was carried out.  Regions that end at the
step are left innermost first: one with passes left goes back to its first step, one
without an end always does, and one that is through starts counting anew.  The
number of passes of a region is settled when its end is reached for the first time
and kept for the rest of the run.
-/

namespace Pneumatic.Run

/-- The progress of a walk. -/
structure Walk where
  /-- For each region the number of passes once it is settled; none inside for a
  region without an end. -/
  bounds : List (Option (Option Nat))
  /-- For each region the passes finished in the current round. -/
  completed : List Nat
  /-- The combined writes of actuations so far. -/
  actuationWrites : Nat
  /-- The passes through the whole sequence so far. -/
  passes : Nat
  deriving DecidableEq, Repr

namespace Walk

/-- A walk that has not begun. -/
def start (sequence : Sequence) : Walk :=
  let count := sequence.regions.length
  ⟨List.replicate count none, List.replicate count 0, 0, 0⟩

/-- Settle the passes of a region. -/
def settle (walk : Walk) (region : Nat) (passes : Option Nat) : Walk :=
  { walk with bounds := walk.bounds.set region (some passes) }

/-- The passes of a region, if they are settled or need no variable. -/
def passes? (walk : Walk) (regions : List Region) (region : Nat) : Option (Option Nat) :=
  match walk.bounds[region]?.join with
  | some passes => some passes
  | none =>
      match regions[region]? with
      | some found => if found.bound.usesVariable then none else some (found.bound.passes 0)
      | none => some none

/-- Note one more finished pass of a region. -/
def count (walk : Walk) (region : Nat) : Walk :=
  { walk with completed := walk.completed.set region (walk.completed[region]?.getD 0 + 1) }

/-- Let a region count its passes anew. -/
def reset (walk : Walk) (region : Nat) : Walk :=
  { walk with completed := walk.completed.set region 0 }

/-- How a walk goes on after a step. -/
inductive Leave where
  /-- The repeat variable is needed to settle a region; then the regions from this
  one on are still to be left. -/
  | ask (walk : Walk) (region : Nat) (rest : List Nat)
  /-- The index of the next step; none at the end of the sequence. -/
  | go (walk : Walk) (next : Option Nat)

/-- The step after the last region that ends at a step. -/
def beyond (sequence : Sequence) (index : Nat) (walk : Walk) : Leave :=
  if index + 1 < sequence.length then .go walk (some (index + 1))
  else if sequence.wrapped then .go { walk with passes := walk.passes + 1 } (some 0)
  else .go walk none

/-- Leave regions that end at a step, innermost first. -/
def leave (sequence : Sequence) (index : Nat) (walk : Walk) : List Nat → Leave
  | [] => beyond sequence index walk
  | region :: rest =>
      let first := (sequence.regions[region]?.map (·.first)).getD 0
      match walk.passes? sequence.regions region with
      | none => .ask walk region rest
      | some none => .go (walk.settle region none) (some first)
      | some (some total) =>
          let walk := (walk.settle region (some total)).count region
          if walk.completed[region]?.getD 0 < total then .go walk (some first)
          else leave sequence index (walk.reset region) rest

/-- Settle the region that was asked for, now that the repeat variable is known, and
leave it and the rest. -/
def answer (sequence : Sequence) (index : Nat) (walk : Walk) (region : Nat) (rest : List Nat)
    (value : Int) : Leave :=
  let passes := (sequence.regions[region]?.map (·.bound)).bind (·.passes value)
  leave sequence index (walk.settle region passes) (region :: rest)

/-- Go on from a step. -/
def advance (sequence : Sequence) (index : Nat) (walk : Walk) : Leave :=
  leave sequence index walk (Sequence.regionsEndingAt sequence.regions index)

end Walk

end Pneumatic.Run
