import Pneumatic.Tag.Role

/-!
# Tag tables

Every signal of a program gets an address in the bit memory of the controller, in
order of first mention.  Bits are packed eight to a byte; words and times share one
counter and lie a hundred bytes apart.
-/

namespace Pneumatic.Tag

/-- An address: a single bit by its number, or the first byte of a word of 16 bits
or of a double word of 32 bits. -/
inductive Address where
  | bit (number : Nat)
  | word (byte : Nat)
  | double (byte : Nat)
  deriving DecidableEq, Repr

namespace Address

/-- The written form of an address. -/
def text : Address → String
  | .bit number =>
      String.ofList ('%' :: 'M' :: (Text.digits (number / 8) ++ '.' :: Text.digits (number % 8)))
  | .word byte => String.ofList ('%' :: 'M' :: 'W' :: Text.digits byte)
  | .double byte => String.ofList ('%' :: 'M' :: 'D' :: Text.digits byte)

/-- The bits of memory that an address occupies. -/
def bits : Address → List Nat
  | .bit number => [number]
  | .word byte => (List.range 16).map (8 * byte + ·)
  | .double byte => (List.range 32).map (8 * byte + ·)

end Address

/-- A signal with its address. -/
structure Entry where
  name : String
  kind : Kind
  address : Address
  deriving DecidableEq, Repr

/-- Signals in order of first mention, and how many bits and words are in use. -/
structure Table where
  entries : List Entry
  bits : Nat
  words : Nat
  deriving DecidableEq, Repr

namespace Table

/-- The distance in bytes from one word to the next. -/
def stride : Nat := 100

/-- A table without entries. -/
def empty : Table := ⟨[], 0, 0⟩

/-- The entry of a signal. -/
def find? (table : Table) (name : String) : Option Entry :=
  table.entries.find? (·.name == name)

/-- The next free address for a type. -/
def next (table : Table) : Kind → Address
  | .bool => .bit table.bits
  | .int => .word ((table.words + 1) * stride)
  | .time => .double ((table.words + 1) * stride)

/-- Append a signal at the next free address. -/
def append (table : Table) (name : String) (kind : Kind) : Table :=
  { entries := table.entries ++ [⟨name, kind, table.next kind⟩]
    bits := if kind = .bool then table.bits + 1 else table.bits
    words := if kind = .bool then table.words else table.words + 1 }

/-- Add a signal unless it is known. -/
def push (table : Table) (name : String) (kind : Kind) : Table :=
  if (table.find? name).isSome then table else table.append name kind

/-- The address of a signal that is added unless it is known. -/
def addressOf (table : Table) (name : String) (kind : Kind) : Address :=
  match table.find? name with
  | some entry => entry.address
  | none => table.next kind

/-- Add signals in order. -/
def extend (table : Table) (bindings : List Binding) : Table :=
  bindings.foldl (fun table binding => table.push binding.name binding.role.kind) table

end Table

end Pneumatic.Tag
