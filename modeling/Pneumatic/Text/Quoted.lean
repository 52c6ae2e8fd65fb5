import Pneumatic.Text.QuotedTable

/-!
# Quoted text

Text between double quotes for messages, with everything escaped that would not be
seen as it is: quotes and backslashes by a backslash, and each character without a
glyph of its own by its code point.
-/

namespace Pneumatic.Text

namespace Quoted

/-- Whether a code point lies in a range. -/
def Range.covers (range : Range) (code : Nat) : Bool :=
  range.first ≤ code && code ≤ range.last

/-- Whether a character has no glyph of its own. -/
def isHidden (c : Char) : Bool :=
  hidden.any (·.covers c.toNat)

/-- A character inside quotes. -/
def escape (c : Char) : List Char :=
  if c == '\x00' then ['\\', '0']
  else if c == '\t' then ['\\', 't']
  else if c == '\r' then ['\\', 'r']
  else if c == '\n' then ['\\', 'n']
  else if c == '"' || c == '\\' then ['\\', c]
  else if isHidden c then '\\' :: 'u' :: '{' :: (Nat.toDigits 16 c.toNat ++ ['}'])
  else [c]

end Quoted

/-- A text between quotes. -/
def quoted (text : String) : String :=
  String.ofList ('"' :: (text.toList.flatMap Quoted.escape ++ ['"']))

end Pneumatic.Text
