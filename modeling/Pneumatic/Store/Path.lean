import Pneumatic.Text.Pieces
import Pneumatic.Text.Search

/-!
# Paths

A path is a text that slashes cut into pieces.  An empty piece in front begins at the
top, and an empty piece at the end demands a folder.  `.` stays in a folder and `..`
leads to the folder around it; every other piece is the name of something in it.
-/

namespace Pneumatic.Store

/-- The most bytes that a name may have. -/
def nameLimit : Nat := 255

/-- Whether a file or a folder can have a name. -/
def isName (name : String) : Bool :=
  name.utf8ByteSize ≤ nameLimit

/-- Whether a piece of a path leads to a folder that has a name already. -/
def isDots (piece : String) : Bool :=
  piece == "." || piece == ".."

/-- The part of a file name before its extension, and the extension; a dot in front
begins no extension. -/
def splitExtension (name : String) : String × Option String :=
  match Text.splitLast? ['.'] name.toList with
  | some (stem, extension) =>
      if stem.isEmpty then (name, none)
      else (String.ofList stem, some (String.ofList extension))
  | none => (name, none)

/-- The pieces of a path between its slashes. -/
structure Path where
  pieces : List String
  deriving DecidableEq, Repr

namespace Path

/-- The most bytes that the text of a path may have. -/
def byteLimit : Nat := 4095

/-- The path that a text spells. -/
def ofText (text : String) : Path :=
  ⟨(Text.pieces '/' text.toList).map String.ofList⟩

/-- The text of a path. -/
def text (path : Path) : String :=
  "/".intercalate path.pieces

/-- Whether a path can be looked up. -/
def isUsable (path : Path) : Bool :=
  path.text.utf8ByteSize ≤ byteLimit && !path.text.contains '\x00'

/-- Whether a path spells nothing. -/
def isBlank (path : Path) : Bool :=
  match path.pieces with
  | [] | [""] => true
  | _ => false

/-- Whether a path begins at the top. -/
def isAbsolute (path : Path) : Bool :=
  match path.pieces with
  | "" :: _ :: _ => true
  | _ => false

/-- Whether a path ends with a slash. -/
def endsOpen (path : Path) : Bool :=
  path.pieces.getLast? == some ""

/-- The pieces that are not empty. -/
def names (path : Path) : List String :=
  path.pieces.filter (!·.isEmpty)

/-- The pieces that another path can be put behind. -/
def base (path : Path) : List String :=
  if path.endsOpen then path.pieces.dropLast else path.pieces

/-- The path to a name in a folder. -/
def child (folder : Path) (name : String) : Path :=
  ⟨folder.base ++ [name]⟩

/-- Another path is put behind all names of the first. -/
theorem filter_base (path : Path) : path.base.filter (!·.isEmpty) = path.names := by
  unfold base names
  split
  · next opens =>
      have last : path.pieces.getLast? = some "" := by simpa [endsOpen] using opens
      obtain ⟨front, split⟩ := List.getLast?_eq_some_iff.1 last
      simp [split]
  · rfl

/-- The names on the way to a name in a folder are those on the way to the folder, and
that name. -/
theorem names_child (folder : Path) {name : String} (spelled : name.isEmpty = false) :
    (folder.child name).names = folder.names ++ [name] := by
  rw [← filter_base folder]
  simp [child, names, spelled]

/-- The path from a folder on. -/
def join (folder path : Path) : Path :=
  if path.isAbsolute then path else ⟨folder.base ++ path.pieces⟩

/-- The pieces that lead somewhere: single dots do not, except for one in front. -/
def steps (path : Path) : List String :=
  match path.pieces with
  | "." :: rest => "." :: rest.filter fun piece => !piece.isEmpty && piece != "."
  | pieces => pieces.filter fun piece => !piece.isEmpty && piece != "."

/-- A path and the folders that it names on the way, the nearest first. -/
def chain (path : Path) : List Path :=
  if path.isBlank then []
  else
    let lead := if path.isAbsolute then [""] else []
    let counts := ((List.range path.steps.length).drop 1).reverse
    path :: counts.map fun count => ⟨lead ++ path.steps.take count⟩

/-- The path without slashes and single dots at its end. -/
def trimmed (path : Path) : List String :=
  (path.pieces.reverse.dropWhile fun piece => piece.isEmpty || piece == ".").reverse

/-- The path with another extension in its last name.  The extension that is there is
taken out first: when two dots are all that is left, they lead to the folder around and
no name can get an extension. -/
def withExtension (extension : String) (path : Path) : Path :=
  match path.trimmed.getLast? with
  | none | some ".." => path
  | some name =>
      let stem := (splitExtension name).1
      let last := if stem == "." && path.trimmed == path.pieces then ".."
        else stem ++ "." ++ extension
      ⟨path.trimmed.dropLast ++ [last]⟩

end Path

end Pneumatic.Store
