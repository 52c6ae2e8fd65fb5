import Pneumatic.Text.Numeral
import Pneumatic.Text.Pieces

/-!
# Durations

A span of time in whole nanoseconds, below `2^64` seconds.  Its canonical text is
decimal seconds without trailing zeros; its exact text shows all nine places.
-/

namespace Pneumatic

/-- A span of time. -/
structure Duration where
  nanos : Nat
  nanos_lt : nanos < UInt64.size * 1_000_000_000
  deriving DecidableEq, Repr

namespace Duration

/-- The empty span. -/
def zero : Duration := ⟨0, by decide⟩

instance : Inhabited Duration := ⟨zero⟩

/-- The span of so many nanoseconds, if it is not too long. -/
def ofNanos? (nanos : Nat) : Option Duration :=
  if bounded : nanos < UInt64.size * 1_000_000_000 then some ⟨nanos, bounded⟩ else none

/-- The span of so many whole seconds, if it is not too long. -/
def ofSeconds? (seconds : Nat) : Option Duration :=
  ofNanos? (seconds * 1_000_000_000)

/-- The span of so many milliseconds. -/
def ofMillis (millis : UInt64) : Duration where
  nanos := millis.toNat * 1_000_000
  nanos_lt := by have := millis.toNat_lt; simp only [UInt64.size]; omega

/-- Whole seconds. -/
def seconds (span : Duration) : Nat := span.nanos / 1_000_000_000

/-- Nanoseconds beyond the whole seconds. -/
def subsecond (span : Duration) : Nat := span.nanos % 1_000_000_000

/-- Whole milliseconds, rounded down. -/
def millis (span : Duration) : Nat := span.nanos / 1_000_000

/-- Whole milliseconds, rounded up. -/
def millisUp (span : Duration) : Nat := (span.nanos + 999_999) / 1_000_000

/-- Whether the span is empty. -/
def isZero (span : Duration) : Bool := span.nanos == 0

/-- The sum of two spans, if it is not too long. -/
def add? (left right : Duration) : Option Duration :=
  ofNanos? (left.nanos + right.nanos)

instance : Max Duration where
  max left right := if left.nanos ≤ right.nanos then right else left

/-- Decimal seconds without trailing zeros, and without a point for whole seconds. -/
def text (span : Duration) : List Char :=
  if span.subsecond = 0 then Text.digits span.seconds
  else
    Text.digits span.seconds ++
      '.' :: Text.trimZeros (Text.padStart 9 (Text.digits span.subsecond))

/-- Decimal seconds with nine places. -/
def exactText (span : Duration) : List Char :=
  Text.digits span.seconds ++ '.' :: Text.padStart 9 (Text.digits span.subsecond)

/-- Read decimal seconds.  Of the places after the point the first nine count, and
missing places count as zeros; a plus sign may stand in front of either part. -/
def read? (text : List Char) : Option Duration := do
  let (whole, fraction) := Text.cut '.' text
  let seconds ← Text.natBelow? UInt64.size whole
  let nanos ← Text.natBelow? 1_000_000_000 (Text.padEnd 9 ((fraction.getD []).take 9))
  ofNanos? (seconds * 1_000_000_000 + nanos)

end Duration

end Pneumatic
