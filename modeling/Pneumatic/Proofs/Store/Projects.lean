import Pneumatic.Proofs.Store.Tree
import Pneumatic.Proofs.Tag.Document
import Pneumatic.Proofs.Text.Bytes
import Mathlib.Data.List.Sort

/-!
# The projects in a store

Whatever has been saved, loaded and listed before, the store answers like a map from ids to
projects: an id that is none is refused, a project loads as it was last saved, and the ids listed
are those saved, in order.  The tree changes only by the files of the projects, one for each id.
-/

namespace Pneumatic.Store

/-! ## Ids -/

/-- A text that can name a project: one or more ASCII letters, digits, hyphens and underscores. -/
def IsId (id : String) : Prop :=
  id ≠ "" ∧ ∀ c ∈ id.toList, c.isAlphanum = true ∨ c = '-' ∨ c = '_'

theorem isId_iff {id : String} :
    IsId id ↔ (id.toList.isEmpty || !id.toList.all isIdChar) = false := by
  simp [IsId, isIdChar, or_assoc]

instance : DecidablePred IsId := fun _ => decidable_of_iff _ isId_iff.symm

/-- The name of the file with a project. -/
def fileName (id : String) : String := id ++ ".json"

/-- The name under which the file with a project is written first. -/
def draftName (id : String) : String := id ++ ".tmp"

theorem fileName_eq (id : String) : fileName id = id ++ "." ++ "json" := by
  rw [fileName, String.append_assoc]
  rfl

theorem draftName_eq (id : String) : draftName id = id ++ "." ++ "tmp" := by
  rw [draftName, String.append_assoc]
  rfl

section

variable {id name : String}

theorem projectPath_eq (root : Path) (id : String) :
    projectPath root id =
      if IsId id then .ok ((projectsPath root).child (fileName id))
      else .error (.projectId id) := by
  by_cases named : IsId id
  · rw [projectPath, isId_iff.mp named, if_pos named]
    rfl
  · have bad : (id.toList.isEmpty || !id.toList.all isIdChar) = true := by
      simpa only [isId_iff, Bool.not_eq_false] using named
    rw [projectPath, bad, if_neg named]
    rfl

theorem IsId.not_mem (named : IsId id) {c : Char} (other : c.isAlphanum = false)
    (noHyphen : c ≠ '-') (noLine : c ≠ '_') : c ∉ id.toList := by
  intro inside
  rcases named.2 c inside with letter | hyphen | line
  · exact absurd (letter.symm.trans other) (by decide)
  · exact noHyphen hyphen
  · exact noLine line

theorem IsId.ne_dot (named : IsId id) : id ≠ "." := by
  rintro rfl
  exact absurd named (by decide)

theorem idOfName?_fileName (named : IsId id) : idOfName? (fileName id) = some id := by
  rw [idOfName?, fileName_eq, splitExtension_append named.1 (by decide)]
  rfl

theorem idOfName?_draftName (named : IsId id) : idOfName? (draftName id) = none := by
  rw [idOfName?, draftName_eq, splitExtension_append named.1 (by decide)]
  simp

theorem eq_fileName_of_idOfName? (isFile : idOfName? name = some id) : name = fileName id := by
  unfold idOfName? at isFile
  split at isFile
  · next cut =>
      obtain rfl := Option.some.inj isFile
      rw [fileName_eq]
      exact eq_of_splitExtension cut
  · contradiction

theorem isOrdinary_append (id : String) {extension : String} (long : 2 < extension.length) :
    id ++ extension ≠ "" ∧ isDots (id ++ extension) = false := by
  have apart (short : String) (within : short.length ≤ 2) : id ++ extension ≠ short := by
    rintro rfl
    rw [String.length_append] at within
    omega
  exact ⟨apart "" (by decide), by simp [isDots, apart "." (by decide), apart ".." (by decide)]⟩

theorem isOrdinary_fileName (id : String) : fileName id ≠ "" ∧ isDots (fileName id) = false :=
  isOrdinary_append id (by decide)

theorem isOrdinary_draftName (id : String) : draftName id ≠ "" ∧ isDots (draftName id) = false :=
  isOrdinary_append id (by decide)

/-- Whether the file with a project stays within the limits on names and paths. -/
def Fits (root : Path) (id : String) : Prop :=
  isName (fileName id) = true ∧ ((projectsPath root).child (fileName id)).isUsable = true

theorem Fits.draft {root : Path} (fits : Fits root id) (named : IsId id) :
    isName (draftName id) = true ∧ ((projectsPath root).child (draftName id)).isUsable = true := by
  have shorter : (draftName id).utf8ByteSize ≤ (fileName id).utf8ByteSize := by
    have sizes : ".tmp".utf8ByteSize = 4 ∧ ".json".utf8ByteSize = 5 := by decide
    simp only [draftName, fileName, String.utf8ByteSize_append]
    omega
  refine ⟨?_, Path.isUsable_child_of_le fits.2 shorter ?_⟩
  · have short := fits.1
    simp only [isName, decide_eq_true_eq] at short ⊢
    omega
  · have clean := named.not_mem (c := '\x00') (by decide) (by decide) (by decide)
    simpa [draftName] using clean

theorem withExtension_fileName (named : IsId id) (root : Path) :
    ((projectsPath root).child (fileName id)).withExtension "tmp" =
      (projectsPath root).child (draftName id) := by
  rw [fileName_eq, draftName_eq]
  exact Path.withExtension_child named.1 named.ne_dot (by decide) (by decide) "tmp"

end

/-! ## Calls -/

/-- What is asked of the projects in a store. -/
inductive Call where
  | save (id : String) (project : Project)
  | load (id : String)
  | list

/-- The tree after a call. -/
def Call.perform (root : Path) (tree : Tree) : Call → Tree
  | .save id project => (saveProject root id project tree).2
  | .load _ | .list => tree

/-- The tree after some calls. -/
def after (root : Path) (tree : Tree) (calls : List Call) : Tree :=
  calls.foldl (Call.perform root) tree

/-- What a call saves under an id. -/
def Call.saved? (id : String) : Call → Option Project
  | .save other project => if other = id then some project else none
  | .load _ | .list => none

/-- What was saved last under an id. -/
def lastSaved (id : String) (calls : List Call) : Option Project :=
  calls.reverse.findSome? (Call.saved? id)

theorem lastSaved_concat (id : String) (calls : List Call) (call : Call) :
    lastSaved id (calls ++ [call]) = (call.saved? id).or (lastSaved id calls) := by
  cases saved : call.saved? id <;> simp [lastSaved, saved]

/-- What the folder with the projects lists after some calls. -/
def shelved (calls : List Call) : List String → Option Entry
  | [name] => ((idOfName? name).filter fun id => IsId id).bind fun id =>
      (lastSaved id calls).map fun project => .file project.toJson.indented
  | _ => none

section

variable {id : String} {calls : List Call}

theorem shelved_fileName (named : IsId id) (calls : List Call) :
    shelved calls [fileName id] =
      (lastSaved id calls).map fun project => .file project.toJson.indented := by
  simp [shelved, idOfName?_fileName named, named, Option.filter_some]

theorem shelved_draftName (named : IsId id) (calls : List Call) :
    shelved calls [draftName id] = none := by
  simp [shelved, idOfName?_draftName named]

/-- The folder lists the files of the projects that were saved, and nothing else. -/
theorem shelved_eq_some_iff {names : List String} {entry : Entry} :
    shelved calls names = some entry ↔ ∃ id project, names = [fileName id] ∧ IsId id ∧
      lastSaved id calls = some project ∧ entry = .file project.toJson.indented := by
  constructor
  · intro listed
    unfold shelved at listed
    split at listed
    · next name =>
        obtain ⟨id, valid, saved⟩ := Option.bind_eq_some_iff.mp listed
        obtain ⟨isFile, named⟩ := Option.filter_eq_some_iff.mp valid
        obtain ⟨project, last, isEntry⟩ := Option.map_eq_some_iff.mp saved
        exact ⟨id, project, by rw [eq_fileName_of_idOfName? isFile], by simpa using named, last,
          isEntry.symm⟩
    · contradiction
  · rintro ⟨id, project, rfl, named, last, rfl⟩
    simp [shelved_fileName named, last]

theorem shelved_ne_folder (calls : List Call) (names : List String) :
    shelved calls names ≠ some .folder := by
  intro listed
  obtain ⟨_, _, -, -, -, isFile⟩ := shelved_eq_some_iff.mp listed
  contradiction

/-- A call that saves nothing under a valid id leaves the folder as it is. -/
theorem shelved_concat_of_none {call : Call} (savesNothing : ∀ id, IsId id → call.saved? id = .none)
    (names : List String) : shelved (calls ++ [call]) names = shelved calls names := by
  unfold shelved
  split
  · next name =>
      cases isFile : idOfName? name with
      | none => rfl
      | some id =>
          by_cases named : IsId id
          · simp [named, Option.filter_some, lastSaved_concat, savesNothing id named]
          · simp [named, Option.filter_some]
  · rfl

theorem shelved_concat_of_ne {project : Project} {names : List String}
    (other : names ≠ [fileName id]) :
    shelved (calls ++ [.save id project]) names = shelved calls names := by
  unfold shelved
  split
  · next name =>
      cases isFile : idOfName? name with
      | none => rfl
      | some own =>
          have differ : ¬ id = own := by
            rintro rfl
            exact other (by rw [eq_fileName_of_idOfName? isFile])
          by_cases named : IsId own
          · simp [named, Option.filter_some, lastSaved_concat, Call.saved?, differ]
          · simp [named, Option.filter_some]
  · rfl

end

/-! ## The folder of the projects -/

/-- A store that can work in a tree: the folder for its projects can be made, and is empty then. -/
structure Ready (root : Path) (tree : Tree) : Prop where
  made : (makeFolder (projectsPath root) tree).1 = .ok ()
  vacant : ∀ place, (makeFolder (projectsPath root) tree).2.find (projectsPath root) = .ok place →
    ∀ names ≠ [], (makeFolder (projectsPath root) tree).2.at? (place ++ names) = none

/-- The tree in which nothing has been saved yet, and its folder for projects. -/
structure Ground (root : Path) (place : Place) (ground : Tree) : Prop where
  opens : ground.Opens (projectsPath root) place
  vacant : ∀ names ≠ [], ground.at? (place ++ names) = none

/-- A tree in which some projects have been saved. -/
structure Stocked (ground : Tree) (place : Place) (calls : List Call) (tree : Tree) : Prop where
  home : tree.home = ground.home
  inside : ∀ names ≠ [], tree.at? (place ++ names) = shelved calls names
  outside : ∀ other, (∀ names ≠ [], other ≠ place ++ names) → tree.at? other = ground.at? other
  once : (tree.names place).Nodup

section

variable {root : Path} {place : Place} {ground tree : Tree} {calls : List Call} {id : String}
  {project : Project}

theorem projectsPath_eq (root : Path) : projectsPath root = root.child projectsName :=
  rfl

/-- The folder of the projects is the first of those to make. -/
theorem exists_around (root : Path) :
    ∃ around, (projectsPath root).chain = projectsPath root :: around :=
  Path.exists_around (by decide)

theorem Stocked.within (on : Ground root place ground) (stocked : Stocked ground place calls tree) :
    ground.Within tree := by
  refine ⟨stocked.home, fun {other entry} there => ?_⟩
  have apart : ∀ names ≠ [], other ≠ place ++ names := by
    rintro names nonempty rfl
    exact absurd ((on.vacant names nonempty).symm.trans there) (by simp)
  exact (stocked.outside other apart).trans there

theorem Stocked.opens (on : Ground root place ground) (stocked : Stocked ground place calls tree) :
    tree.Opens (projectsPath root) place :=
  (stocked.within on).opens on.opens

theorem makeFolder_of_opens (opens : tree.Opens (projectsPath root) place) :
    makeFolder (projectsPath root) tree = (.ok (), tree) := by
  obtain ⟨around, chain⟩ := exists_around root
  have kept := Tree.makeFolders_of_opens (by decide) opens (by decide) around
  rw [← projectsPath_eq] at kept
  rw [makeFolder, chain, kept]
  rfl

/-- The tree after a text was written as a draft, which then took the place of a file. -/
def shelve (place : Place) (id text : String) (tree : Tree) : Tree :=
  ((tree.put (place ++ [draftName id]) (.file text)).erase (place ++ [draftName id])).put
    (place ++ [fileName id]) (.file text)

@[simp] theorem at?_shelve_self (place : Place) (id text : String) (tree : Tree) :
    (shelve place id text tree).at? (place ++ [fileName id]) = some (.file text) :=
  Tree.at?_put_self ..

/-- Nothing is left of the draft. -/
theorem at?_shelve_of_ne (free : tree.at? (place ++ [draftName id]) = none) (text : String)
    {other : Place} (apart : other ≠ place ++ [fileName id]) :
    (shelve place id text tree).at? other = tree.at? other := by
  rw [shelve, Tree.at?_put_of_ne _ _ apart, Tree.at?_erase_put free]

theorem nodup_names_shelve (once : (tree.names place).Nodup) (text : String) :
    ((shelve place id text tree).names place).Nodup := by
  have again {names : List String} (once : names.Nodup) (name : String) :
      (names.filter (· != name) ++ [name]).Nodup := by
    exact List.nodup_append.mpr ⟨once.filter _, List.nodup_singleton name, by simp⟩
  rw [shelve, Tree.names_put, Tree.names_erase, Tree.names_put]
  exact again ((again once _).filter _) _

/-- One file is written in place of another as a whole. -/
theorem replace_eq (on : tree.Opens (projectsPath root) place) (named : IsId id)
    (fits : Fits root id) (free : tree.at? (place ++ [draftName id]) = none)
    (noFolder : tree.at? (place ++ [fileName id]) ≠ some .folder) (text : String) :
    replace ((projectsPath root).child (fileName id)) text tree =
      (.ok (), shelve place id text tree) := by
  have fitsDraft := fits.draft named
  have drafted := Tree.write_in on fitsDraft.2 (isOrdinary_draftName id) fitsDraft.1
    (by simp [free]) text
  have drafting : tree.Within (tree.put (place ++ [draftName id]) (.file text)) :=
    .put_of_none free _
  have found := Tree.find_in (drafting.opens on) fitsDraft.2 (isOrdinary_draftName id)
    fitsDraft.1
  simp only [Tree.at?_put_self, Option.isSome_some, ↓reduceIte] at found
  have listed : (tree.put (place ++ [draftName id]) (.file text)).textAt
      (place ++ [draftName id]) = .ok text := by
    rw [Tree.textAt, Tree.entry?_of_ne_nil (by simp), Tree.at?_put_self]
  have erased := Tree.at?_erase_put free (.file text)
  have moving : tree.Within ((tree.put (place ++ [draftName id]) (.file text)).erase
      (place ++ [draftName id])) :=
    ⟨rfl, fun there => (erased _).trans there⟩
  have moved := Tree.write_in (moving.opens on) fits.2 (isOrdinary_fileName id)
    fits.1 (by rwa [erased]) text
  simp only [replace, withExtension_fileName named, drafted, Tree.move, found, listed, moved,
    shelve]

/-- Saving a project adds its file to the folder, or replaces it. -/
theorem Stocked.save (on : Ground root place ground) (stocked : Stocked ground place calls tree)
    (named : IsId id) (fits : Fits root id) (project : Project) :
    saveProject root id project tree = (.ok (), shelve place id project.toJson.indented tree) ∧
      Stocked ground place (calls ++ [.save id project])
        (shelve place id project.toJson.indented tree) := by
  have free : tree.at? (place ++ [draftName id]) = none := by
    rw [stocked.inside _ (by simp), shelved_draftName named]
  have noFolder : tree.at? (place ++ [fileName id]) ≠ some .folder := by
    rw [stocked.inside _ (by simp)]
    exact shelved_ne_folder calls _
  constructor
  · rw [saveProject, projectPath_eq, if_pos named]
    simp only [makeFolder_of_opens (stocked.opens on)]
    exact replace_eq (stocked.opens on) named fits free noFolder _
  · refine ⟨stocked.home, fun names nonempty => ?_, fun other apart => ?_,
      nodup_names_shelve stocked.once _⟩
    · by_cases same : names = [fileName id]
      · simp [same, shelved_fileName named, lastSaved_concat, Call.saved?]
      · rw [at?_shelve_of_ne free _ (by simpa using same), stocked.inside names nonempty,
          shelved_concat_of_ne same]
    · rw [at?_shelve_of_ne free _ (apart _ (by simp)), stocked.outside other apart]

/-! ### The answers of a tree with some projects -/

/-- The file of a project is read. -/
theorem loadProject_of_at? (opens : tree.Opens (projectsPath root) place) (named : IsId id)
    (fits : Fits root id)
    (kept : tree.at? (place ++ [fileName id]) = some (.file project.toJson.indented)) :
    loadProject root id tree = .ok (some project) := by
  have read := Tree.read_in opens fits.2 (isOrdinary_fileName id) fits.1
  simp only [kept] at read
  rw [loadProject, projectPath_eq, if_pos named]
  simp only [read, Project.read?_indented]

theorem Stocked.load (on : Ground root place ground) (stocked : Stocked ground place calls tree)
    (named : IsId id) (fits : Fits root id) :
    loadProject root id tree = .ok (lastSaved id calls) := by
  have kept := stocked.inside [fileName id] (by simp)
  rw [shelved_fileName named] at kept
  cases last : lastSaved id calls with
  | some project =>
      exact loadProject_of_at? (stocked.opens on) named fits (by simpa [last] using kept)
  | none =>
      have read := Tree.read_in (stocked.opens on) fits.2 (isOrdinary_fileName id) fits.1
      simp only [kept, last, Option.map_none] at read
      rw [loadProject, projectPath_eq, if_pos named]
      simp only [read]

/-- The ids that some names of files stand for. -/
def idsOf (names : List String) : List String :=
  (names.filterMap idOfName?).mergeSort fun left right => decide (left ≤ right)

theorem mem_idsOf {names : List String} :
    id ∈ idsOf names ↔ ∃ name ∈ names, idOfName? name = some id := by
  simp [idsOf]

/-- Different files stand for different ids, and these are listed in order. -/
theorem pairwise_idsOf {names : List String} (once : names.Nodup) :
    (idsOf names).Pairwise (· < ·) := by
  have distinct : (idsOf names).Nodup := by
    refine List.nodup_mergeSort.mpr (List.Nodup.filterMap (fun name other id isFile isFile' => ?_)
      once)
    rw [eq_fileName_of_idOfName? isFile, eq_fileName_of_idOfName? isFile']
  have sorted : (idsOf names).Pairwise fun left right => decide (left ≤ right) = true :=
    List.pairwise_mergeSort (fun _ _ _ => by simpa using String.le_trans)
      (fun left right => by simpa using String.le_total left right) _
  exact (sorted.and distinct).imp fun ⟨notAfter, differ⟩ =>
    Std.lt_of_le_of_ne (of_decide_eq_true notAfter) differ

theorem Stocked.mem_idsOf_iff (stocked : Stocked ground place calls tree) :
    id ∈ idsOf (tree.names place) ↔ IsId id ∧ (lastSaved id calls).isSome = true := by
  rw [mem_idsOf]
  constructor
  · rintro ⟨name, listed, isFile⟩
    rw [Tree.mem_names_iff, stocked.inside _ (by simp)] at listed
    obtain ⟨entry, there⟩ := Option.isSome_iff_exists.mp listed
    obtain ⟨own, project, same, named, last, -⟩ := shelved_eq_some_iff.mp there
    obtain rfl := (List.cons.inj same).1
    rw [idOfName?_fileName named] at isFile
    obtain rfl := Option.some.inj isFile
    exact ⟨named, by simp [last]⟩
  · rintro ⟨named, last⟩
    refine ⟨fileName id, ?_, idOfName?_fileName named⟩
    rw [Tree.mem_names_iff, stocked.inside _ (by simp), shelved_fileName named]
    simpa using last

theorem Stocked.list (on : Ground root place ground) (stocked : Stocked ground place calls tree) :
    projectIds root tree = .ok (idsOf (tree.names place)) := by
  have opens := stocked.opens on
  rw [projectIds, opens.leads]
  simp [opens.isFolder, idsOf]

/-! ### A tree in which nothing has been saved

Until the first project is saved the folder need not be there.  It is compared with the tree in
which it has been made.
-/

theorem Ready.exists_ground (ready : Ready root tree) :
    ∃ place ground, makeFolder (projectsPath root) tree = (.ok (), ground) ∧
      tree.Grows ground ∧ Ground root place ground := by
  obtain ⟨around, chain⟩ := exists_around root
  have made := ready.made
  have vacant := ready.vacant
  have grows := Tree.grows_makeFolders (projectsPath root :: around) tree
  have opens : (tree.makeFolders (projectsPath root :: around)).1 = true →
      ∃ place, (tree.makeFolders (projectsPath root :: around)).2.Opens (projectsPath root) place :=
    Tree.opens_of_makeFolders (by decide)
  simp only [makeFolder, chain] at made vacant ⊢
  cases ended : tree.makeFolders (projectsPath root :: around) with
  | mk there ground =>
      simp only [ended] at made vacant grows opens ⊢
      cases there with
      | false => contradiction
      | true =>
          obtain ⟨place, opens⟩ := opens rfl
          exact ⟨place, ground, rfl, grows, opens, vacant place opens.leads⟩

/-- A store can work in a folder with nothing in it. -/
theorem Ready.of_folder (opens : tree.Opens root place)
    (empty : ∀ names ≠ [], tree.at? (place ++ names) = none)
    (usable : (projectsPath root).isUsable = true) : Ready root tree := by
  have made : tree.makeFolder (projectsPath root) =
      .ok (tree.put (place ++ [projectsName]) .folder) :=
    Tree.makeFolder_in opens usable (by decide) (by decide) (empty _ (by simp))
  obtain ⟨around, chain⟩ := exists_around root
  have grown : makeFolder (projectsPath root) tree =
      (.ok (), tree.put (place ++ [projectsName]) .folder) := by
    rw [makeFolder, chain, Tree.makeFolders, made]
    rfl
  have within : tree.Within (tree.put (place ++ [projectsName]) .folder) :=
    .put_of_none (empty _ (by simp)) _
  have found := Tree.find_in (within.opens opens) usable (by decide) (by decide)
  simp only [Tree.at?_put_self, Option.isSome_some, ↓reduceIte] at found
  refine ⟨by rw [grown], fun reached leads names nonempty => ?_⟩
  rw [grown] at leads ⊢
  obtain rfl := Except.ok.inj (found.symm.trans leads)
  rw [Tree.at?_put_of_ne _ _ (by simpa using nonempty), List.append_assoc]
  exact empty _ (by simp)

theorem Ground.stocked (on : Ground root place ground) : Stocked ground place [] ground := by
  have bare (names : List String) : shelved [] names = none := by
    rw [Option.eq_none_iff_forall_ne_some]
    intro entry listed
    obtain ⟨id, project, -, -, last, -⟩ := shelved_eq_some_iff.mp listed
    contradiction
  refine ⟨rfl, fun names nonempty => by rw [on.vacant names nonempty, bare], fun _ _ => rfl, ?_⟩
  rw [Tree.names_eq_nil fun name => on.vacant [name] (by simp)]
  exact List.nodup_nil

theorem Ground.load (on : Ground root place ground) (grows : tree.Grows ground) (named : IsId id)
    (fits : Fits root id) : loadProject root id tree = .ok none := by
  have found := Tree.find_in on.opens fits.2 (isOrdinary_fileName id) fits.1
  rw [on.vacant _ (by simp)] at found
  have missing := grows.find_missing found
  rw [loadProject, projectPath_eq, if_pos named]
  simp only [Tree.read, missing, Except.bind]

theorem Ground.list (on : Ground root place ground) (grows : tree.Grows ground) :
    projectIds root tree = .ok [] := by
  cases found : tree.find (projectsPath root) with
  | error obstacle => rw [projectIds, found]
  | ok reached =>
      have leads := (grows.find_eq (by simp [found])).trans found
      obtain rfl := on.opens.eq_of_find leads
      obtain ⟨folder, -, -, -, rfl, listed⟩ :=
        Tree.exists_of_find_child (by decide) (by decide) (projectsPath_eq root ▸ found)
      obtain ⟨entry, there⟩ := Option.isSome_iff_exists.mp listed
      have same := grows.kept there
      rw [← Tree.entry?_of_ne_nil (by simp), on.opens.isFolder] at same
      have isFolder : tree.entry? (folder ++ [projectsName]) = some .folder := by
        rw [Tree.entry?_of_ne_nil (by simp), there, ← same]
      have empty : tree.names (folder ++ [projectsName]) = [] :=
        Tree.names_eq_nil fun name => grows.at?_none (on.vacant [name] (by simp))
      rw [projectIds, found]
      simp [isFolder, empty]

end

/-! ## Histories -/

section

variable {root : Path} {place : Place} {ground tree state : Tree} {calls : List Call}

theorem Stocked.congr {calls' : List Call} (stocked : Stocked ground place calls state)
    (same : ∀ names, shelved calls' names = shelved calls names) :
    Stocked ground place calls' state :=
  { stocked with
    inside := fun names nonempty => (stocked.inside names nonempty).trans (same names).symm }

/-- A call that saves nothing under a valid id changes nothing. -/
theorem perform_of_none {call : Call} (savesNothing : ∀ id, IsId id → call.saved? id = .none) :
    call.perform root tree = tree := by
  cases call with
  | save id project =>
      have refused : ¬ IsId id := fun named => by simpa [Call.saved?] using savesNothing id named
      simp [Call.perform, saveProject, projectPath_eq, refused]
  | load id => rfl
  | list => rfl

/-- A project is saved alike in the tree in which nothing has been saved, whether or not the folder
has been made. -/
theorem Stocked.save_either {id : String} {reached : Tree}
    (made : makeFolder (projectsPath root) tree = (.ok (), ground)) (on : Ground root place ground)
    (stocked : Stocked ground place calls state)
    (either : reached = state ∨ reached = tree ∧ state = ground) (named : IsId id)
    (fits : Fits root id) (project : Project) :
    saveProject root id project reached =
      (.ok (), shelve place id project.toJson.indented state) := by
  have saved := (stocked.save on named fits project).1
  rcases either with rfl | ⟨rfl, rfl⟩
  · exact saved
  · have again := makeFolder_of_opens on.opens
    have alike : saveProject root id project reached = saveProject root id project state := by
      simp only [saveProject, projectPath_eq, if_pos named, made, again]
    rw [alike, saved]

/-- The tree after some calls is stocked with the projects that they saved.  Until there is one it
may be the tree in which they began. -/
theorem exists_stocked (made : makeFolder (projectsPath root) tree = (.ok (), ground))
    (on : Ground root place ground)
    (fits : ∀ id project, .save id project ∈ calls → IsId id → Fits root id) :
    ∃ state, Stocked ground place calls state ∧
      (after root tree calls = state ∨ after root tree calls = tree ∧ state = ground) := by
  induction calls using List.reverseRecOn with
  | nil => exact ⟨ground, on.stocked, .inr ⟨rfl, rfl⟩⟩
  | append_singleton calls call ih =>
      obtain ⟨state, stocked, either⟩ := ih fun id project inside =>
        fits id project (List.mem_append_left _ inside)
      rw [after, List.foldl_concat, ← after]
      by_cases savesNothing : ∀ id, IsId id → call.saved? id = .none
      · rw [perform_of_none savesNothing]
        exact ⟨state, stocked.congr (shelved_concat_of_none savesNothing), either⟩
      · cases call with
        | load _ | list => simp [Call.saved?] at savesNothing
        | save id project =>
            have named : IsId id := by
              by_contra refused
              refine savesNothing fun other named => if_neg ?_
              rintro rfl
              exact refused named
            have fits := fits id project (by simp) named
            refine ⟨_, (stocked.save on named fits project).2, .inl ?_⟩
            rw [Call.perform, stocked.save_either made on either named fits project]

/-- What a store owes after some calls: it answers like a map from ids to the projects saved last,
and the only files that it made are those of the projects. -/
structure ActsAsMap (root : Path) (tree : Tree) (calls : List Call) : Prop where
  /-- A text that is no id is refused, and nothing changes. -/
  refuses : ∀ id, ¬ IsId id →
    loadProject root id (after root tree calls) = .error (.projectId id) ∧
    ∀ project, saveProject root id project (after root tree calls) =
      (.error (.projectId id), after root tree calls)
  /-- Under an id stands what was saved last under it. -/
  loads : ∀ id, IsId id → Fits root id →
    loadProject root id (after root tree calls) = .ok (lastSaved id calls)
  /-- Every project can be saved. -/
  saves : ∀ id, IsId id → Fits root id → ∀ project,
    (saveProject root id project (after root tree calls)).1 = .ok ()
  /-- The ids are listed once each, in the order of their bytes. -/
  lists : ∃ ids, projectIds root (after root tree calls) = .ok ids ∧
    ids.Pairwise (fun left right => Text.bytes left.toList < Text.bytes right.toList) ∧
    ∀ id, id ∈ ids ↔ IsId id ∧ (lastSaved id calls).isSome = true
  /-- There are the files from before, and one for each project, right in the folder of the
  projects. -/
  files : ∀ place text, (after root tree calls).at? place = some (.file text) ↔
    tree.at? place = some (.file text) ∨
    ∃ folder id project, (after root tree calls).find (projectsPath root) = .ok folder ∧
      place = folder ++ [fileName id] ∧ IsId id ∧ lastSaved id calls = some project ∧
      text = project.toJson.indented
  /-- The draft of a project is written into the same folder. -/
  drafts : ∀ id path, projectPath root id = .ok path →
    path = (projectsPath root).child (fileName id) ∧
    path.withExtension "tmp" = (projectsPath root).child (draftName id)
  /-- What is written for a project reads as the project. -/
  reads : ∀ project : Project, Project.read? project.toJson.indented = some project

theorem IsId.ascii {id : String} (named : IsId id) : ∀ c ∈ id.toList, c.toNat < 128 := by
  intro c inside
  have upTo (last : Char) (within : c.val ≤ last.val) (small : last.toNat < 128) :
      c.toNat < 128 :=
    Nat.lt_of_le_of_lt (UInt32.le_iff_toNat_le.mp within) small
  rcases named.2 c inside with letter | rfl | rfl
  · unfold Char.isAlphanum Char.isAlpha Char.isUpper Char.isLower Char.isDigit at letter
    simp only [Bool.or_eq_true, Bool.and_eq_true, decide_eq_true_eq] at letter
    rcases letter with (⟨-, upper⟩ | ⟨-, lower⟩) | ⟨-, digit⟩
    · exact upTo 'Z' upper (by decide)
    · exact upTo 'z' lower (by decide)
    · exact upTo '9' digit (by decide)
  · decide
  · decide

/-- The files of a tree with some projects. -/
theorem Stocked.at?_file_iff (on : Ground root place ground) (grows : tree.Grows ground)
    (stocked : Stocked ground place calls state) (other : Place) (text : String) :
    state.at? other = some (.file text) ↔ tree.at? other = some (.file text) ∨
      ∃ id project, other = place ++ [fileName id] ∧ IsId id ∧ lastSaved id calls = some project ∧
        text = project.toJson.indented := by
  by_cases below : ∃ names, names ≠ [] ∧ other = place ++ names
  · obtain ⟨names, nonempty, rfl⟩ := below
    rw [stocked.inside names nonempty, grows.at?_none (on.vacant names nonempty),
      shelved_eq_some_iff]
    simp
  · have apart : ∀ names ≠ [], other ≠ place ++ names := fun names nonempty same =>
      below ⟨names, nonempty, same⟩
    rw [stocked.outside other apart, grows.at?_file_iff]
    refine ⟨.inl, fun there => there.resolve_right ?_⟩
    rintro ⟨id, project, same, -⟩
    exact apart _ (by simp) same

/-- Nothing has been saved while the folder is as it was made. -/
theorem Stocked.lastSaved_eq_none {id : String} (on : Ground root place ground)
    (stocked : Stocked ground place calls ground) (named : IsId id) :
    lastSaved id calls = none := by
  have nothing := stocked.inside [fileName id] (by simp)
  rw [on.vacant _ (by simp), shelved_fileName named] at nothing
  simpa using nothing.symm

section

variable {reached : Tree} (on : Ground root place ground) (grows : tree.Grows ground)
  (stocked : Stocked ground place calls state)
  (either : reached = state ∨ reached = tree ∧ state = ground)

include on grows stocked either

theorem load_reached {id : String} (named : IsId id) (fits : Fits root id) :
    loadProject root id reached = .ok (lastSaved id calls) := by
  rcases either with rfl | ⟨rfl, rfl⟩
  · exact stocked.load on named fits
  · rw [on.load grows named fits, stocked.lastSaved_eq_none on named]

theorem list_reached : ∃ ids, projectIds root reached = .ok ids ∧ ids.Pairwise (· < ·) ∧
    ∀ id, id ∈ ids ↔ IsId id ∧ (lastSaved id calls).isSome = true := by
  rcases either with rfl | ⟨rfl, rfl⟩
  · exact ⟨_, stocked.list on, pairwise_idsOf stocked.once, fun _ => stocked.mem_idsOf_iff⟩
  · refine ⟨[], on.list grows, List.Pairwise.nil, fun id => ?_⟩
    constructor
    · intro inside
      contradiction
    · rintro ⟨named, last⟩
      rw [stocked.lastSaved_eq_none on named] at last
      contradiction

theorem file_reached_iff (other : Place) (text : String) :
    reached.at? other = some (.file text) ↔ tree.at? other = some (.file text) ∨
      ∃ folder id project, reached.find (projectsPath root) = .ok folder ∧
        other = folder ++ [fileName id] ∧ IsId id ∧ lastSaved id calls = some project ∧
        text = project.toJson.indented := by
  rcases either with rfl | ⟨rfl, rfl⟩
  · rw [stocked.at?_file_iff on grows]
    refine or_congr_right ⟨?_, ?_⟩
    · rintro ⟨id, project, isFile⟩
      exact ⟨place, id, project, (stocked.opens on).leads, isFile⟩
    · rintro ⟨folder, id, project, leads, isFile⟩
      obtain rfl := (stocked.opens on).eq_of_find leads
      exact ⟨id, project, isFile⟩
  · refine ⟨.inl, fun there => there.resolve_right ?_⟩
    rintro ⟨folder, id, project, -, -, named, last, -⟩
    rw [stocked.lastSaved_eq_none on named] at last
    contradiction

end

/-- **A store acts as a map from ids to projects**, whatever is asked of it, as long as the folder
for its projects can be made and is empty, and the names of their files stay within the limits. -/
theorem actsAsMap (ready : Ready root tree)
    (fits : ∀ id project, .save id project ∈ calls → IsId id → Fits root id) :
    ActsAsMap root tree calls := by
  obtain ⟨place, ground, made, grows, on⟩ := ready.exists_ground
  obtain ⟨state, stocked, either⟩ := exists_stocked made on fits
  refine
    { refuses := fun id refused => ?_
      loads := fun id named fits => load_reached on grows stocked either named fits
      saves := fun id named fits project => ?_
      lists := ?_
      files := file_reached_iff on grows stocked either
      drafts := fun id path found => ?_
      reads := Project.read?_indented }
  · simp [loadProject, saveProject, projectPath_eq, refused]
  · rw [stocked.save_either made on either named fits project]
  · obtain ⟨ids, listed, ordered, members⟩ := list_reached on grows stocked either
    refine ⟨ids, listed, ordered.imp_of_mem fun {left right} insideLeft insideRight before => ?_,
      members⟩
    exact Text.bytes_lt (String.lt_iff.mp before) ((members left).mp insideLeft).1.ascii
      ((members right).mp insideRight).1.ascii
  · rw [projectPath_eq] at found
    split_ifs at found with named
    obtain rfl := Except.ok.inj found
    exact ⟨rfl, withExtension_fileName named root⟩

/-- A store that keeps a project, refuses another, keeps one more and then replaces the first. -/
theorem actsAsMap_replaced :
    ActsAsMap (.ofText "/srv") (.within ["srv"])
      [.save "line-1" ⟨"press", []⟩, .save "../line-1" ⟨"", []⟩, .list, .save "B" ⟨"\"", []⟩,
        .load "B", .save "line-1" ⟨"", []⟩] := by
  have opens : (Tree.within ["srv"]).Opens (.ofText "/srv") ["srv"] := by
    refine ⟨?_, rfl⟩
    have short : (Path.ofText "/srv").isUsable = true := by
      rw [Path.isUsable_eq]
      decide
    rw [Tree.find, short]
    decide
  have empty : ∀ names ≠ [], (Tree.within ["srv"]).at? (["srv"] ++ names) = none := by
    intro names nonempty
    have apart : ["srv"] ++ names ≠ ["srv"] := by simpa using nonempty
    exact Tree.at?_put_of_ne .empty .folder apart
  refine actsAsMap (.of_folder opens empty ?_) fun id project saved named => ?_
  · rw [Path.isUsable_eq]
    decide
  · simp only [List.mem_cons, Call.save.injEq, reduceCtorEq, List.not_mem_nil, or_false,
      false_or] at saved
    rcases saved with ⟨rfl, -⟩ | ⟨rfl, -⟩ | ⟨rfl, -⟩ | ⟨rfl, -⟩
    · exact ⟨by decide, by rw [Path.isUsable_eq]; decide⟩
    · exact absurd named (by decide)
    · exact ⟨by decide, by rw [Path.isUsable_eq]; decide⟩
    · exact ⟨by decide, by rw [Path.isUsable_eq]; decide⟩

end

end Pneumatic.Store
