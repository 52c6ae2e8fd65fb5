import Pneumatic.Json.Basic

/-!
# Reading JSON text

`Json.read?` accepts exactly one JSON value with nothing but spaces around it.
A value whose text is well-formed but names nothing, such as `"\ud800"` or
`1e999`, is read as `Json.unreadable`, so that the reader of a record may skip
it where the member is of no concern.
-/

namespace Pneumatic.Json

/-- The characters that may stand between the parts of a document. -/
def isSpace (c : Char) : Bool :=
  c == ' ' || c == '\n' || c == '\t' || c == '\r'

/-- Drop the space in front. -/
def skipSpace (text : List Char) : List Char :=
  text.dropWhile isSpace

/-- The value of a hexadecimal digit. -/
def hexDigit? (c : Char) : Option Nat :=
  if '0' ≤ c ∧ c ≤ '9' then some (c.toNat - '0'.toNat)
  else if 'a' ≤ c ∧ c ≤ 'f' then some (c.toNat - 'a'.toNat + 10)
  else if 'A' ≤ c ∧ c ≤ 'F' then some (c.toNat - 'A'.toNat + 10)
  else none

/-- The character of a one-letter escape. -/
def shortEscape? : Char → Option Char
  | '"' => some '"'
  | '\\' => some '\\'
  | '/' => some '/'
  | 'b' => some '\x08'
  | 'f' => some '\x0c'
  | 'n' => some '\n'
  | 'r' => some '\r'
  | 't' => some '\t'
  | _ => none

/-- The code units of a string up to its closing quote, and what follows it.
An escape by number gives a unit of sixteen bits, every other character its code
point. -/
def readUnits : List Char → Option (List Nat × List Char)
  | [] => none
  | '"' :: rest => some ([], rest)
  | '\\' :: 'u' :: a :: b :: c :: d :: rest => do
      let unit := (← hexDigit? a) * 4096 + (← hexDigit? b) * 256 + (← hexDigit? c) * 16 +
        (← hexDigit? d)
      let (units, rest) ← readUnits rest
      some (unit :: units, rest)
  | '\\' :: escape :: rest => do
      let char ← shortEscape? escape
      let (units, rest) ← readUnits rest
      some (char.toNat :: units, rest)
  | char :: rest =>
      if char.toNat < 0x20 then none
      else do
        let (units, rest) ← readUnits rest
        some (char.toNat :: units, rest)

/-- Whether a unit is the first half of a surrogate pair. -/
def isHighSurrogate (unit : Nat) : Bool :=
  0xD800 ≤ unit && unit < 0xDC00

/-- Whether a unit is the second half of a surrogate pair. -/
def isLowSurrogate (unit : Nat) : Bool :=
  0xDC00 ≤ unit && unit < 0xE000

/-- Join surrogate pairs; none if a half stands alone. -/
def joinSurrogates : List Nat → Option (List Char)
  | [] => some []
  | high :: low :: rest =>
      if isHighSurrogate high then
        if isLowSurrogate low then do
          let chars ← joinSurrogates rest
          some (Char.ofNat (0x10000 + (high - 0xD800) * 0x400 + (low - 0xDC00)) :: chars)
        else none
      else if isLowSurrogate high then none
      else do
        let chars ← joinSurrogates (low :: rest)
        some (Char.ofNat high :: chars)
  | [unit] =>
      if isHighSurrogate unit || isLowSurrogate unit then none
      else some [Char.ofNat unit]

/-- A string after its opening quote; none in the first place marks one with
half of a surrogate pair. -/
def readString (text : List Char) : Option (Option String × List Char) := do
  let (units, rest) ← readUnits text
  some ((joinSurrogates units).map String.ofList, rest)

/-- One or more digits and what follows them. -/
def readDigits (text : List Char) : Option (List Char × List Char) :=
  match text.takeWhile Char.isDigit with
  | [] => none
  | digits => some (digits, text.dropWhile Char.isDigit)

/-- The whole part of a number: a zero alone, or digits that start otherwise. -/
def readWhole : List Char → Option (List Char × List Char)
  | '0' :: rest => some (['0'], rest)
  | text => readDigits text

/-- The parts of a number as written. -/
structure Number where
  negative : Bool
  whole : List Char
  fraction : Option (List Char)
  /-- Whether the exponent is negative, and its digits. -/
  exponent : Option (Bool × List Char)

namespace Number

/-- The digits that a number takes in before it would reach `2^64`, and how many are
left over. -/
def takeDigits (value : Nat) : List Char → Nat × Nat
  | [] => (value, 0)
  | digit :: rest =>
      let next := Nat.ofDigitChars 10 [digit] value
      if next < UInt64.size then takeDigits next rest else (value, rest.length + 1)

/-- The places that the exponent moves the point by. -/
def shift (number : Number) : Int :=
  match number.exponent with
  | none => 0
  | some (negative, digits) =>
      let places := Int.ofNat (Nat.ofDigitChars 10 digits 0)
      if negative then -places else places

/-- The magnitude of a number in double precision, if it is not too large.  The first
digits make a whole number, whose point is then moved; each digit of the whole part that
is left over moves it by one, and places that are left over do not count. -/
def magnitude? (number : Number) : Option Binary64 :=
  let fraction := number.fraction.getD []
  let (lead, more) := takeDigits 0 number.whole
  let (value, rest) := takeDigits lead fraction
  let power := number.shift + more - (fraction.length - rest)
  if 0 ≤ power then (Binary64.ofNat value).shiftUp? power.toNat
  else some ((Binary64.ofNat value).shiftDown (-power).toNat)

/-- The whole number that was written, if it is one that is kept as such. -/
def whole? (number : Number) : Option Int :=
  let value := Nat.ofDigitChars 10 number.whole 0
  if number.fraction.isSome || number.exponent.isSome then none
  else if !number.negative then if value < UInt64.size then some (Int.ofNat value) else none
  else if 0 < value ∧ value ≤ 9_223_372_036_854_775_808 then some (-Int.ofNat value)
  else none

/-- The value of a number. -/
def toJson (number : Number) : Json :=
  match number.whole? with
  | some value => .int value
  | none =>
      match number.magnitude? with
      | some magnitude => .real number.negative magnitude
      | none => .unreadable

end Number

/-- A number and what follows it. -/
def readNumber (text : List Char) : Option (Number × List Char) := do
  let (negative, text) := match text with
    | '-' :: rest => (true, rest)
    | _ => (false, text)
  let (whole, text) ← readWhole text
  let (fraction, text) ← match text with
    | '.' :: rest => (readDigits rest).map fun (digits, rest) => (some digits, rest)
    | _ => some (none, text)
  let (exponent, text) ← match text with
    | letter :: rest =>
        if letter == 'e' || letter == 'E' then
          let (negative, rest) := match rest with
            | '+' :: rest => (false, rest)
            | '-' :: rest => (true, rest)
            | _ => (false, rest)
          (readDigits rest).map fun (digits, rest) => (some (negative, digits), rest)
        else some (none, text)
    | [] => some (none, text)
  some (⟨negative, whole, fraction, exponent⟩, text)

/-- The object of the members read, unless a name is unreadable. -/
def ofMembers (members : List (Option String × Json)) : Json :=
  match members.mapM fun (name, value) => name.map (·, value) with
  | some members => .obj members
  | none => .unreadable

mutual

/-- A value and what follows it.  Every call reads at least one character, so
fuel beyond the length of the text is never used up. -/
def readValue : Nat → List Char → Option (Json × List Char)
  | 0, _ => none
  | fuel + 1, text =>
      match skipSpace text with
      | 'n' :: 'u' :: 'l' :: 'l' :: rest => some (.null, rest)
      | 't' :: 'r' :: 'u' :: 'e' :: rest => some (.bool true, rest)
      | 'f' :: 'a' :: 'l' :: 's' :: 'e' :: rest => some (.bool false, rest)
      | '"' :: rest => do
          let (text, rest) ← readString rest
          some ((text.map Json.str).getD .unreadable, rest)
      | '[' :: rest =>
          match skipSpace rest with
          | ']' :: rest => some (.arr [], rest)
          | rest => do
              let (items, rest) ← readItems fuel rest
              some (.arr items, rest)
      | '{' :: rest =>
          match skipSpace rest with
          | '}' :: rest => some (.obj [], rest)
          | rest => do
              let (members, rest) ← readMembers fuel rest
              some (ofMembers members, rest)
      | text => do
          let (number, rest) ← readNumber text
          some (number.toJson, rest)

/-- The items of an array up to its closing bracket. -/
def readItems : Nat → List Char → Option (List Json × List Char)
  | 0, _ => none
  | fuel + 1, text => do
      let (item, rest) ← readValue fuel text
      match skipSpace rest with
      | ',' :: rest => do
          let (items, rest) ← readItems fuel rest
          some (item :: items, rest)
      | ']' :: rest => some ([item], rest)
      | _ => none

/-- The members of an object up to its closing brace. -/
def readMembers : Nat → List Char → Option (List (Option String × Json) × List Char)
  | 0, _ => none
  | fuel + 1, text =>
      match skipSpace text with
      | '"' :: rest => do
          let (name, rest) ← readString rest
          match skipSpace rest with
          | ':' :: rest => do
              let (value, rest) ← readValue fuel rest
              match skipSpace rest with
              | ',' :: rest => do
                  let (members, rest) ← readMembers fuel rest
                  some ((name, value) :: members, rest)
              | '}' :: rest => some ([(name, value)], rest)
              | _ => none
          | _ => none
      | _ => none

end

/-- The value of a whole document. -/
def read? (text : String) : Option Json := do
  let (value, rest) ← readValue (2 * text.length + 2) text.toList
  if (skipSpace rest).isEmpty then some value else none

end Pneumatic.Json
