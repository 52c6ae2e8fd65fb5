import Pneumatic.Json.Printer
import Pneumatic.Run.Settings
import Pneumatic.Store.Tree
import Pneumatic.Tag.Document
import Pneumatic.Text.Quoted

/-!
# The store

A folder of a tree of files with the settings and one document for each project.
A file is replaced as a whole: its new text is written under another name first,
which then takes the place of the file.
-/

namespace Pneumatic.Store

/-- Why the store could not do what it was asked. -/
inductive Error where
  /-- A text that names no project. -/
  | projectId (id : String)
  /-- A file or folder that could not be read or written. -/
  | access
  /-- A document that could not be understood. -/
  | document
  deriving DecidableEq, Repr

/-- The message of an error. -/
def Error.message : Error → String
  | .projectId id => "invalid project id: " ++ Text.quoted id
  | .access => "cannot access the store"
  | .document => "cannot read the document"

/-- The name of the file with the settings. -/
def settingsName : String := "config.json"

/-- The name of the folder with the projects. -/
def projectsName : String := "projects"

/-- The file with the settings of the store in a folder. -/
def settingsPath (root : Path) : Path := root.child settingsName

/-- The folder with the projects of the store in a folder. -/
def projectsPath (root : Path) : Path := root.child projectsName

/-- Whether a character may stand in the name of a project. -/
def isIdChar (c : Char) : Bool :=
  c.isAlphanum || c == '-' || c == '_'

/-- The file with a project. -/
def projectPath (root : Path) (id : String) : Except Error Path :=
  if id.toList.isEmpty || !id.toList.all isIdChar then .error (.projectId id)
  else .ok ((projectsPath root).child (id ++ ".json"))

/-- Make a folder and those it lies in. -/
def makeFolder (path : Path) (tree : Tree) : Except Error Unit × Tree :=
  let (made, tree) := tree.makeFolders path.chain
  (if made then .ok () else .error .access, tree)

/-- Make the folders of a store. -/
def initialise (root : Path) (tree : Tree) : Except Error Unit × Tree :=
  match makeFolder root tree with
  | (.ok (), tree) => makeFolder (projectsPath root) tree
  | (.error error, tree) => (.error error, tree)

/-- Replace a file as a whole. -/
def replace (path : Path) (text : String) (tree : Tree) : Except Error Unit × Tree :=
  let draft := path.withExtension "tmp"
  match tree.write draft text with
  | none => (.error .access, tree)
  | some drafted =>
      match drafted.move draft path with
      | none => (.error .access, drafted)
      | some replaced => (.ok (), replaced)

/-- The text of a file. -/
def readText (path : Path) (tree : Tree) : Except Error String :=
  (tree.read path).mapError fun _ => .access

/-- Read a document. -/
def readDocument {α : Type} (read : String → Option α) (path : Path) (tree : Tree) :
    Except Error α :=
  (readText path tree).bind fun text =>
    match read text with
    | some value => .ok value
    | none => .error .document

/-- Keep settings in the store that they name. -/
def saveSettings (settings : Run.Settings) (tree : Tree) : Except Error Unit × Tree :=
  replace (settingsPath (.ofText settings.root)) settings.toJson.indented tree

/-- The settings in a store. -/
def loadSettings (root : Path) (tree : Tree) : Except Error Run.Settings :=
  readDocument Run.Settings.read? (settingsPath root) tree

/-- The settings in a store, or the defaults with that root when there are none. -/
def settingsOrDefault (root : String) (tree : Tree) : Except Error Run.Settings :=
  if tree.exists? (settingsPath (.ofText root)) then loadSettings (.ofText root) tree
  else .ok { Run.Settings.default with root }

/-- Read a project from any file. -/
def readProject (path : Path) (tree : Tree) : Except Error Project :=
  readDocument Project.read? path tree

/-- The project with an id, if there is one. -/
def loadProject (root : Path) (id : String) (tree : Tree) : Except Error (Option Project) :=
  match projectPath root id with
  | .error error => .error error
  | .ok path =>
      match tree.read path with
      | .error .missing => .ok none
      | .error .blocked => .error .access
      | .ok text =>
          match Project.read? text with
          | some project => .ok (some project)
          | none => .error .document

/-- Keep a project under an id. -/
def saveProject (root : Path) (id : String) (project : Project) (tree : Tree) :
    Except Error Unit × Tree :=
  match projectPath root id with
  | .error error => (.error error, tree)
  | .ok path =>
      match makeFolder (projectsPath root) tree with
      | (.error error, tree) => (.error error, tree)
      | (.ok (), tree) => replace path project.toJson.indented tree

/-- The project id that a file name belongs to. -/
def idOfName? (name : String) : Option String :=
  match splitExtension name with
  | (stem, some "json") => some stem
  | _ => none

/-- The ids of the projects in a store, in order. -/
def projectIds (root : Path) (tree : Tree) : Except Error (List String) :=
  match tree.find (projectsPath root) with
  | .ok place =>
      if tree.entry? place = some .folder then
        let ids := (tree.names place).filterMap idOfName?
        .ok (ids.mergeSort fun left right => decide (left ≤ right))
      else .error .access
  | .error _ => .ok []

end Pneumatic.Store
