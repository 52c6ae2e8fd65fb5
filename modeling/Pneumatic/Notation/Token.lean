import Pneumatic.Decimal.Binary64
import Pneumatic.Duration

/-!
# Tokens of the sequence notation

A token moves an actuator (`A+`, `B-`), waits (`2S`, `TS`, `T+0.5S`) or names a
pressure to be reached (`4.2BAR`).  A repeat bound (`3`, `N`, `N+2`) says how often
a region runs.  Both are read from the whole of a text or not at all.
-/

namespace Pneumatic

/-- The two end positions an actuator can be sent to. -/
inductive Direction where
  | extend
  | retract
  deriving DecidableEq, Repr

namespace Direction

/-- The sign that stands for a direction. -/
def symbol : Direction → Char
  | .extend => '+'
  | .retract => '-'

/-- The other direction. -/
def opposite : Direction → Direction
  | .extend => .retract
  | .retract => .extend

end Direction

/-- A command to send one actuator to an end position. -/
structure Actuation where
  label : Char
  direction : Direction
  deriving DecidableEq, Repr

/-- How long a timer waits: a fixed span, or the run's timer variable in seconds
plus an optional span. -/
inductive Delay where
  | fixed (span : Duration)
  | relative (offset : Option Duration)
  deriving DecidableEq, Repr

namespace Delay

/-- Whether the delay depends on the timer variable. -/
def usesVariable : Delay → Bool
  | .fixed _ => false
  | .relative _ => true

/-- The span to wait when the timer variable is `seconds`; a negative variable
counts as zero.  None when the sum is too long for a span. -/
def resolve (delay : Delay) (seconds : Int) : Option Duration :=
  match delay with
  | .fixed span => some span
  | .relative offset => do
      (← Duration.ofSeconds? seconds.toNat).add? (offset.getD .zero)

end Delay

/-- A pressure to be reached. -/
structure Pressure where
  bars : Binary64
  deriving DecidableEq, Repr

/-- One element of a sequence. -/
inductive Token where
  | actuation (actuation : Actuation)
  | timer (delay : Delay)
  | pressure (pressure : Pressure)
  deriving DecidableEq, Repr

namespace Token

/-- The actuation of a token, if it is one. -/
def actuation? : Token → Option Actuation
  | .actuation found => some found
  | _ => none

/-- The delay of a token, if it is a timer. -/
def delay? : Token → Option Delay
  | .timer delay => some delay
  | _ => none

/-- Whether a token is a pressure. -/
def isPressure : Token → Bool
  | .pressure _ => true
  | _ => false

/-- The canonical characters of a token. -/
def chars : Token → List Char
  | .actuation ⟨label, direction⟩ => [label, direction.symbol]
  | .timer (.fixed span) => span.text ++ ['S']
  | .timer (.relative none) => ['T', 'S']
  | .timer (.relative (some offset)) => 'T' :: '+' :: (offset.text ++ ['S'])
  | .pressure ⟨bars⟩ => bars.text ++ ['B', 'A', 'R']

/-- The canonical text of a token. -/
def text (token : Token) : String :=
  String.ofList token.chars

/-- Digits that do not start with zero. -/
def isCount : List Char → Bool
  | [] => false
  | c :: rest => c.isDigit && c != '0' && rest.all Char.isDigit

/-- A number of the notation: a count, with or without places, or a single digit
with places. -/
def isNumber (text : List Char) : Bool :=
  match Text.cut '.' text with
  | (whole, none) => isCount whole
  | (whole, some places) =>
      (isCount whole || (whole.length == 1 && Text.isNumeral whole)) && Text.isNumeral places

/-- An actuator label and a sign. -/
def readActuation? : List Char → Option Actuation
  | [label, sign] =>
      if 'A' ≤ label ∧ label ≤ 'Z' then
        if sign = '+' then some ⟨label, .extend⟩
        else if sign = '-' then some ⟨label, .retract⟩
        else none
      else none
  | _ => none

/-- The part of a timer before its unit: the variable, the variable and a number,
or a number. -/
inductive TimerForm where
  | variable
  | offset (number : List Char)
  | literal (number : List Char)

/-- The form of a timer, whatever the size of its number. -/
def timerForm? (text : List Char) : Option TimerForm := do
  let body ← Text.dropTail? ['S'] text
  if body = ['T'] then some .variable
  else match Text.dropLead? ['T', '+'] body with
    | some number => if isNumber number then some (.offset number) else none
    | none => if isNumber body then some (.literal body) else none

/-- The delay of a timer; none when its number is too large for a span. -/
def TimerForm.delay? : TimerForm → Option Delay
  | .variable => some (.relative none)
  | .offset number => (Duration.read? number).map fun span => .relative (some span)
  | .literal number => (Duration.read? number).map .fixed

/-- A number and the unit of pressure. -/
def readPressure? (text : List Char) : Option Pressure := do
  let number ← Text.dropTail? ['B', 'A', 'R'] text
  if isNumber number then
    let (whole, places) := Text.cut '.' number
    let places := places.getD []
    some ⟨.ofDecimal (Text.ofDigits (whole ++ places)) places.length⟩
  else none

/-- The token that characters spell as a whole. -/
def ofChars? (text : List Char) : Option Token :=
  match readActuation? text with
  | some found => some (.actuation found)
  | none =>
      match timerForm? text with
      | some form => form.delay?.map .timer
      | none => (readPressure? text).map .pressure

/-- The token that a text spells as a whole. -/
def read? (text : String) : Option Token :=
  ofChars? text.toList

end Token

/-- How many times a repeat region runs. -/
inductive Bound where
  | fixed (count : UInt32)
  | relative (offset : UInt32)
  | unbounded
  deriving DecidableEq, Repr

namespace Bound

/-- The number of passes when the repeat variable is `value`, at least one and at
most the largest signed word of 64 bits for a relative bound; none without end. -/
def passes (bound : Bound) (value : Int) : Option Nat :=
  match bound with
  | .fixed count => some (max count.toNat 1)
  | .relative offset => some (max (min (value + offset.toNat) 9_223_372_036_854_775_807) 1).toNat
  | .unbounded => none

/-- Whether the bound depends on the repeat variable. -/
def usesVariable : Bound → Bool
  | .relative _ => true
  | _ => false

/-- Whether a region with this bound needs a counter. -/
def isCounted : Bound → Bool
  | .unbounded => false
  | _ => true

/-- A count below `2^32`. -/
def readCount? (text : List Char) : Option UInt32 :=
  if Token.isCount text && Text.ofDigits text < UInt32.size then
    some (UInt32.ofNat (Text.ofDigits text))
  else none

/-- The bound that the text after a caret spells as a whole. -/
def ofChars? : List Char → Option Bound
  | ['N'] => some (.relative 0)
  | 'N' :: '+' :: text => (readCount? text).map .relative
  | text => (readCount? text).map .fixed

/-- The bound of a region; a region without a caret has no end. -/
def read? : Option String → Option Bound
  | none => some .unbounded
  | some text => ofChars? text.toList

end Bound

end Pneumatic
