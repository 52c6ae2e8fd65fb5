import Pneumatic.Json.Basic

/-!
# Writing JSON text

Two layouts: the compact one puts no space anywhere, the indented one gives each
item and member a line of its own, two spaces deeper than its container.
-/

namespace Pneumatic.Json

/-- A hexadecimal digit in lower case. -/
def hexDigit (value : Nat) : Char :=
  Nat.digitChar (value % 16)

/-- A character inside a string.  Quotes, backslashes and control characters are
escaped and all else is written as it is. -/
def escapeChar (c : Char) : List Char :=
  if c == '"' then ['\\', '"']
  else if c == '\\' then ['\\', '\\']
  else if c == '\x08' then ['\\', 'b']
  else if c == '\x0c' then ['\\', 'f']
  else if c == '\n' then ['\\', 'n']
  else if c == '\r' then ['\\', 'r']
  else if c == '\t' then ['\\', 't']
  else if c.toNat < 0x20 then
    ['\\', 'u', '0', '0', hexDigit (c.toNat / 16), hexDigit c.toNat]
  else [c]

/-- A string with its quotes. -/
def quote (text : String) : List Char :=
  '"' :: (text.toList.flatMap escapeChar ++ ['"'])

/-- A whole number in decimal. -/
def printInt : Int → List Char
  | .ofNat value => Nat.toDigits 10 value
  | .negSucc value => '-' :: Nat.toDigits 10 (value + 1)

/-- A decimal with a point, or with an exponent when it is very large or very small. -/
def printDigits (decimal : Binary64.Digits) : List Char :=
  let written := Text.digits decimal.value
  let point : Int := written.length + decimal.power
  if -5 < point ∧ point ≤ 16 then
    if 0 ≤ decimal.power then decimal.positional ++ ['.', '0'] else decimal.positional
  else
    let places := written.drop 1
    written.take 1 ++ (if places.isEmpty then [] else '.' :: places) ++ 'e' :: printInt (point - 1)

/-- A number in double precision by the fewest digits that read back, so that it
cannot be taken for a whole one. -/
def printReal (negative : Bool) (magnitude : Binary64) : List Char :=
  (if negative then ['-'] else []) ++ match magnitude with
    | .finite 0 _ => ['0', '.', '0']
    | .finite mantissa exponent => printDigits (Binary64.shortest mantissa exponent)
    | .infinite => ['n', 'u', 'l', 'l']

mutual

/-- The compact text of a value. -/
def printCompact : Json → List Char
  | .null | .unreadable => ['n', 'u', 'l', 'l']
  | .bool true => ['t', 'r', 'u', 'e']
  | .bool false => ['f', 'a', 'l', 's', 'e']
  | .int value => printInt value
  | .real negative magnitude => printReal negative magnitude
  | .str text => quote text
  | .arr items => '[' :: printItems items
  | .obj members => '{' :: printMembers members

/-- The items of an array and its closing bracket. -/
def printItems : List Json → List Char
  | [] => [']']
  | [item] => printCompact item ++ [']']
  | item :: rest => printCompact item ++ ',' :: printItems rest

/-- The members of an object and its closing brace. -/
def printMembers : List (String × Json) → List Char
  | [] => ['}']
  | [(name, value)] => quote name ++ ':' :: (printCompact value ++ ['}'])
  | (name, value) :: rest => quote name ++ ':' :: (printCompact value ++ ',' :: printMembers rest)

end

/-- A new line indented to `depth`. -/
def newLine (depth : Nat) : List Char :=
  '\n' :: List.replicate (2 * depth) ' '

mutual

/-- The indented text of a value that stands at `depth`. -/
def printIndented (depth : Nat) : Json → List Char
  | .null | .unreadable => ['n', 'u', 'l', 'l']
  | .bool true => ['t', 'r', 'u', 'e']
  | .bool false => ['f', 'a', 'l', 's', 'e']
  | .int value => printInt value
  | .real negative magnitude => printReal negative magnitude
  | .str text => quote text
  | .arr [] => ['[', ']']
  | .arr items => '[' :: printLines depth items
  | .obj [] => ['{', '}']
  | .obj members => '{' :: printMemberLines depth members

/-- The items of an array that stands at `depth`, a line for each, and its closing
bracket. -/
def printLines (depth : Nat) : List Json → List Char
  | [] => newLine depth ++ [']']
  | [item] => newLine (depth + 1) ++ printIndented (depth + 1) item ++ newLine depth ++ [']']
  | item :: rest =>
      newLine (depth + 1) ++ printIndented (depth + 1) item ++ ',' :: printLines depth rest

/-- The members of an object that stands at `depth`, a line for each, and its
closing brace. -/
def printMemberLines (depth : Nat) : List (String × Json) → List Char
  | [] => newLine depth ++ ['}']
  | [(name, value)] =>
      newLine (depth + 1) ++ quote name ++ ':' :: ' ' ::
        (printIndented (depth + 1) value ++ newLine depth ++ ['}'])
  | (name, value) :: rest =>
      newLine (depth + 1) ++ quote name ++ ':' :: ' ' ::
        (printIndented (depth + 1) value ++ ',' :: printMemberLines depth rest)

end

/-- The compact text of a value. -/
def compact (json : Json) : String :=
  String.ofList json.printCompact

/-- The indented text of a value. -/
def indented (json : Json) : String :=
  String.ofList (json.printIndented 0)

end Pneumatic.Json
