import Pneumatic.Store.Path

/-!
# A tree of files

Files hold text and lie in folders.  The tree lists what is at each place; the folder
at the top is always there and is not listed.
-/

namespace Pneumatic.Store

/-- What is at a path. -/
inductive Entry where
  | folder
  | file (text : String)
  deriving DecidableEq, Repr

/-- Why a path leads nowhere. -/
inductive Obstacle where
  /-- A name on the way is not there. -/
  | missing
  /-- A name on the way cannot be, or is no folder. -/
  | blocked
  deriving DecidableEq, Repr

/-- The names on the way from the top to a place in a tree. -/
abbrev Place := List String

/-- Files and folders by place. -/
structure Tree where
  /-- The folder that a path begins in unless it begins at the top. -/
  home : Place
  entries : List (Place × Entry)
  deriving DecidableEq, Repr

namespace Tree

/-- A tree without files. -/
def empty : Tree := ⟨[], []⟩

/-- What is listed at a place. -/
def at? (tree : Tree) (place : Place) : Option Entry :=
  tree.entries.lookup place

/-- List something at a place, instead of what was there. -/
def put (place : Place) (entry : Entry) (tree : Tree) : Tree :=
  { tree with entries := tree.entries.filter (·.1 != place) ++ [(place, entry)] }

/-- List nothing at a place. -/
def erase (place : Place) (tree : Tree) : Tree :=
  { tree with entries := tree.entries.filter (·.1 != place) }

/-- A tree without files, in which paths begin in some folder. -/
def within (home : Place) : Tree :=
  (List.range home.length).foldl (fun tree count => tree.put (home.take (count + 1)) .folder)
    { empty with home }

/-- Leaving a place out of a list changes what is at no other place. -/
theorem lookup_filter_ne {place other : Place} (differ : other ≠ place)
    (entries : List (Place × Entry)) :
    (entries.filter (·.1 != place)).lookup other = entries.lookup other := by
  induction entries with
  | nil => rfl
  | cons head rest ih =>
      obtain ⟨listed, entry⟩ := head
      by_cases same : listed = place
      · subst same
        simp [List.lookup_cons, ih, beq_false_of_ne differ]
      · simp [List.lookup_cons, ih, same]

/-- Leaving a place out of a list leaves nothing there. -/
theorem lookup_filter_self (place : Place) (entries : List (Place × Entry)) :
    (entries.filter (·.1 != place)).lookup place = none := by
  induction entries with
  | nil => rfl
  | cons head rest ih =>
      obtain ⟨listed, entry⟩ := head
      by_cases same : listed = place
      · subst same
        simp [ih]
      · simp [List.lookup_cons, ih, same, beq_false_of_ne (Ne.symm same)]

@[simp] theorem at?_put_self (tree : Tree) (place : Place) (entry : Entry) :
    (tree.put place entry).at? place = some entry := by
  simp [at?, put, List.lookup_append, lookup_filter_self]

theorem at?_put_of_ne (tree : Tree) {place other : Place} (entry : Entry) (differ : other ≠ place) :
    (tree.put place entry).at? other = tree.at? other := by
  simp [at?, put, List.lookup_append, lookup_filter_ne differ, List.lookup_cons,
    beq_false_of_ne differ]

@[simp] theorem at?_erase_self (tree : Tree) (place : Place) :
    (tree.erase place).at? place = none :=
  lookup_filter_self place tree.entries

theorem at?_erase_of_ne (tree : Tree) {place other : Place} (differ : other ≠ place) :
    (tree.erase place).at? other = tree.at? other :=
  lookup_filter_ne differ tree.entries

/-- What is at a place; the folder at the top is always there. -/
def entry? (tree : Tree) : Place → Option Entry
  | [] => some .folder
  | place => tree.at? place

/-- Follow the pieces of a path from a place. -/
def follow (tree : Tree) (place : Place) : List String → Except Obstacle Place
  | [] => .ok place
  | name :: names =>
      match tree.entry? place with
      | some .folder =>
          if name == "." then tree.follow place names
          else if name == ".." then tree.follow place.dropLast names
          else if !isName name then .error .blocked
          else if (tree.at? (place ++ [name])).isSome then tree.follow (place ++ [name]) names
          else .error .missing
      | some (.file _) => .error .blocked
      | none => .error .missing

/-- Where a path begins. -/
def start (tree : Tree) (path : Path) : Place :=
  if path.isAbsolute then [] else tree.home

/-- The place that a path leads to. -/
def find (tree : Tree) (path : Path) : Except Obstacle Place :=
  if path.isBlank then .error .missing
  else if !path.isUsable then .error .blocked
  else tree.follow (tree.start path) (path.names ++ if path.endsOpen then ["."] else [])

/-- Whether a path leads to something. -/
def exists? (tree : Tree) (path : Path) : Bool :=
  (tree.find path).isOk

/-- Whether a path leads to a folder. -/
def isFolder (tree : Tree) (path : Path) : Bool :=
  match tree.find path with
  | .ok place => tree.entry? place == some .folder
  | .error _ => false

/-- The text of the file at a place. -/
def textAt (tree : Tree) (place : Place) : Except Obstacle String :=
  match tree.entry? place with
  | some (.file text) => .ok text
  | some .folder => .error .blocked
  | none => .error .missing

/-- The text of a file. -/
def read (tree : Tree) (path : Path) : Except Obstacle String :=
  (tree.find path).bind tree.textAt

/-- The names in a folder. -/
def names (tree : Tree) (folder : Place) : List String :=
  tree.entries.filterMap fun (place, _) =>
    if place.dropLast = folder then place.getLast? else none

/-- The place for something new at a path: its last piece names it, and the others lead
to a folder. -/
def room (tree : Tree) (path : Path) : Except Obstacle Place :=
  if !path.isUsable then .error .blocked
  else (tree.follow (tree.start path) path.names.dropLast).bind fun folder =>
    match tree.entry? folder, path.names.getLast? with
    | some .folder, some name =>
        if isDots name || !isName name then .error .blocked else .ok (folder ++ [name])
    | _, _ => .error .blocked

/-- Make a folder where nothing is. -/
def makeFolder (path : Path) (tree : Tree) : Except Obstacle Tree :=
  (tree.room path).bind fun place =>
    if (tree.at? place).isSome then .error .blocked else .ok (tree.put place .folder)

/-- Make the first of some folders, and before it the next of them when that is
missing.  Says whether the first is there now. -/
def makeFolders : List Path → Tree → Bool × Tree
  | [], tree => (true, tree)
  | path :: around, tree =>
      match tree.makeFolder path with
      | .ok tree => (true, tree)
      | .error .blocked => (tree.isFolder path, tree)
      | .error .missing =>
          match makeFolders around tree with
          | (false, tree) => (false, tree)
          | (true, tree) =>
              match tree.makeFolder path with
              | .ok tree => (true, tree)
              | .error _ => (tree.isFolder path, tree)

/-- Write a file into a folder that is there. -/
def write (path : Path) (text : String) (tree : Tree) : Option Tree :=
  match tree.room path with
  | .ok place =>
      if path.endsOpen || tree.at? place == some .folder then none
      else some (tree.put place (.file text))
  | .error _ => none

/-- Move a file, in place of the file that was there. -/
def move (source target : Path) (tree : Tree) : Option Tree :=
  match tree.find source with
  | .ok place =>
      match tree.textAt place with
      | .ok text => (tree.erase place).write target text
      | .error _ => none
  | .error _ => none

end Tree

end Pneumatic.Store
