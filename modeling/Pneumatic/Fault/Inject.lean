import Pneumatic.Fault.Operators
import Pneumatic.Fault.Random
import Pneumatic.Fault.Tier

/-!
# Damaging a program

Lines are visited over and over; each visit damages the program three times in ten,
in a way drawn at random, until the tier has its number of faults.  Damage that
finds nothing to change does not count.
-/

namespace Pneumatic.Fault

/-- Damage that was done: its kind and the line reported at the time. -/
structure Applied where
  kind : Kind
  line : Nat
  deriving DecidableEq, Repr

/-- Damaged lines and what was done to them, in order. -/
structure Damaged where
  lines : List String
  faults : List Applied
  deriving DecidableEq, Repr

/-- Note damage that was not declined. -/
def Damaged.record (done : Damaged) (kind : Kind) : Option Change → Damaged
  | none => done
  | some (lines, line) => ⟨lines, done.faults ++ [⟨kind, line⟩]⟩

/-- What was drawn within the attempts allowed. -/
def drawn {α : Type} : Option α → Except Failure α
  | none => .error .outOfFuel
  | some result => .ok result

variable {σ : Type}

/-- Point the next mention of an actuator to another one, drawn from the labels.
Nothing is drawn before a mention is found. -/
def swapActuator (source : Source σ) (fuel : Nat) (labels : List Char) (lines : List String)
    (index : Nat) (state : σ) : Except Failure (Option Change × σ) :=
  if labels.length < 2 then .ok (none, state)
  else do
    let found ← findMention labels lines index
    match found with
    | none => .ok (none, state)
    | some (place, label) =>
        let others := labels.filter (· ≠ label)
        if others.isEmpty then .ok (none, state)
        else do
          let (choice, state) ← drawn (source.below32? others.length fuel state)
          let other ← fetch others choice
          let change ← redirect lines place label other
          return (some change, state)

/-- Damage of one kind at a line; the inner option is none when it declines. -/
def damage (source : Source σ) (fuel : Nat) (kind : Kind) (labels : List Char)
    (lines : List String) (index : Nat) (state : σ) : Except Failure (Option Change × σ) :=
  match kind with
  | .transpose => (transpose lines index).map (·, state)
  | .truncate => do
      let (extra, state) ← drawn (source.below64? 3 fuel state)
      (truncate (extra + 1) lines index).map (·, state)
  | .delete => (delete lines index).map (·, state)
  | .flipBoolean => (flipBoolean lines index).map (·, state)
  | .stripCondition => (stripCondition lines index).map (·, state)
  | .swapActuator => swapActuator source fuel labels lines index state

/-- Visit one line. -/
def visit (source : Source σ) (fuel : Nat) (labels : List Char) (done : Damaged) (index : Nat)
    (state : σ) : Except Failure (Damaged × σ) :=
  match source.threeInTen state with
  | (false, state) => .ok (done, state)
  | (true, state) => do
      let (choice, state) ← drawn (source.below64? Kind.all.length fuel state)
      let kind ← fetch Kind.all choice
      let (change, state) ← damage source fuel kind labels done.lines index state
      return (done.record kind change, state)

/-- Visit lines from `index` on, and from the first again after the last, until
there are `target` faults or no lines.  No more than `fuel` visits are made, each with
fewer attempts to draw than visits are left. -/
def visitLines (source : Source σ) (labels : List Char) (target : Nat) :
    Nat → Damaged → Nat → σ → Except Failure (Damaged × σ)
  | 0, _, _, _ => .error .outOfFuel
  | fuel + 1, done, index, state =>
      if target ≤ done.faults.length || done.lines.isEmpty then .ok (done, state)
      else if index < done.lines.length then do
        let (done, state) ← visit source fuel labels done index state
        visitLines source labels target fuel done (index + 1) state
      else visitLines source labels target fuel done 0 state

/-- Damage lines as a tier asks, or say what fails. -/
def attempt (source : Source σ) (fuel : Nat) (lines : List String) (tier : Tier)
    (labels : List Char) (state : σ) : Except Failure (Damaged × σ) :=
  visitLines source labels (tier.target lines.length) fuel ⟨lines, []⟩ 0 state

/-- Damage lines as a tier asks.  None when `fuel` did not do. -/
def inject (source : Source σ) (fuel : Nat) (lines : List String) (tier : Tier)
    (labels : List Char) (state : σ) : Option (Damaged × σ) :=
  (attempt source fuel lines tier labels state).toOption

/-- The visits allowed for one program. -/
def visitLimit : Nat := 100000000

/-- Damage lines as a tier asks, with the random choices that a seed determines. -/
def injectSeeded (seed : UInt64) (lines : List String) (tier : Tier) (labels : List Char) :
    Option Damaged :=
  (inject KeyStream.source visitLimit lines tier labels (.ofSeed seed)).map (·.1)

end Pneumatic.Fault
