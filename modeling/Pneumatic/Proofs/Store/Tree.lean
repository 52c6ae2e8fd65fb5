import Pneumatic.Proofs.Except
import Pneumatic.Proofs.Store.Path
import Pneumatic.Store.Basic

/-!
# Places in a tree

Making folders takes nothing out of a tree, so a path that led somewhere still leads there and one
that was blocked still is.  What a folder lists is what is at the places right below it.
-/

namespace Pneumatic.Store.Tree

variable {tree grown : Tree} {place folder : Place} {path : Path} {name : String}

/-! ## The way to a place -/

theorem follow_append (tree : Tree) (place : Place) (names more : List String) :
    tree.follow place (names ++ more) =
      (tree.follow place names).bind fun reached => tree.follow reached more := by
  induction names generalizing place with
  | nil => rfl
  | cons name names ih =>
      rw [List.cons_append, follow, follow]
      split
      · split_ifs
        · exact ih place
        · exact ih place.dropLast
        · rfl
        · exact ih (place ++ [name])
        · rfl
      · rfl
      · rfl

/-- The last step to a name in a folder. -/
theorem follow_name (isFolder : tree.entry? folder = some .folder) (named : isDots name = false)
    (short : isName name = true) :
    tree.follow folder [name] =
      if (tree.at? (folder ++ [name])).isSome then .ok (folder ++ [name]) else .error .missing := by
  simp only [isDots, Bool.or_eq_false_iff] at named
  simp [follow, isFolder, named, short]

/-- Beyond the first step something is at the place that a path leads to. -/
theorem exists_of_follow {names : List String} (nonempty : names ≠ [])
    (leads : tree.follow place names = .ok folder) :
    ∃ entry, tree.entry? place = Option.some entry := by
  cases names with
  | nil => contradiction
  | cons name names =>
      rw [follow] at leads
      split at leads
      · next isFolder => exact ⟨_, isFolder⟩
      · contradiction
      · contradiction

/-- What is put where nothing was, and taken away again, leaves no trace. -/
theorem at?_erase_put (vacant : tree.at? place = none) (entry : Entry) (other : Place) :
    ((tree.put place entry).erase place).at? other = tree.at? other := by
  by_cases same : other = place
  · rw [same, at?_erase_self, vacant]
  · rw [at?_erase_of_ne _ same, at?_put_of_ne _ _ same]

theorem entry?_of_ne_nil (nonempty : place ≠ []) : tree.entry? place = tree.at? place := by
  cases place with
  | nil => contradiction
  | cons name rest => rfl

/-! ## Growth -/

/-- Everything in a tree is still there in another one. -/
structure Within (tree grown : Tree) : Prop where
  home : grown.home = tree.home
  kept : ∀ {place entry}, tree.at? place = some entry → grown.at? place = some entry

namespace Within

theorem put_of_none (vacant : tree.at? place = none) (entry : Entry) :
    Within tree (tree.put place entry) := by
  refine ⟨rfl, fun {other _} there => ?_⟩
  have differ : other ≠ place := by
    rintro rfl
    exact absurd (vacant.symm.trans there) (by simp)
  exact (at?_put_of_ne tree entry differ).trans there

theorem at?_none (within : Within tree grown) (vacant : grown.at? place = none) :
    tree.at? place = none := by
  cases there : tree.at? place with
  | none => rfl
  | some entry => exact absurd (vacant.symm.trans (within.kept there)) (by simp)

theorem entry?_eq (within : Within tree grown) {entry : Entry}
    (there : tree.entry? place = some entry) : grown.entry? place = some entry := by
  cases place with
  | nil => exact there
  | cons name rest => exact within.kept there

theorem start_eq (within : Within tree grown) (path : Path) :
    grown.start path = tree.start path := by
  rw [start, start, within.home]

/-- Where a path does not miss anything it leads to the same place, or is blocked in the same way:
a name that cannot be, or a file on the way, stays in the way. -/
theorem follow_eq (within : Within tree grown) {names : List String}
    (settled : tree.follow place names ≠ .error .missing) :
    grown.follow place names = tree.follow place names := by
  induction names generalizing place with
  | nil => rfl
  | cons name names ih =>
      rw [follow] at settled
      rw [follow, follow]
      cases there : tree.entry? place with
      | none => simp [there] at settled
      | some entry =>
          rw [within.entry?_eq there]
          cases entry with
          | file text => rfl
          | folder =>
              simp only [there] at settled ⊢
              split_ifs at settled ⊢ with dot dots long listed before before
              · exact ih settled
              · exact ih settled
              · rfl
              · exact ih settled
              · contradiction
              · obtain ⟨entry, found⟩ := Option.isSome_iff_exists.mp before
                simp [within.kept found] at listed
              · rfl

theorem find_eq (within : Within tree grown) (settled : tree.find path ≠ .error .missing) :
    grown.find path = tree.find path := by
  rw [find] at settled
  rw [find, find, within.start_eq]
  split_ifs at settled ⊢ with blank unusable opens
  · rfl
  · rfl
  · exact within.follow_eq settled
  · exact within.follow_eq settled

theorem find_missing (within : Within tree grown) (missing : grown.find path = .error .missing) :
    tree.find path = .error .missing := by
  by_contra settled
  exact settled ((within.find_eq settled).symm.trans missing)

end Within

/-- A tree with further folders. -/
structure Grows (tree grown : Tree) : Prop extends Within tree grown where
  added : ∀ {place entry}, grown.at? place = some entry →
    tree.at? place = some entry ∨ entry = .folder

namespace Grows

theorem refl (tree : Tree) : Grows tree tree :=
  ⟨⟨rfl, fun there => there⟩, fun there => .inl there⟩

theorem trans {taller : Tree} (first : Grows tree grown) (second : Grows grown taller) :
    Grows tree taller := by
  refine ⟨⟨second.home.trans first.home, fun there => second.kept (first.kept there)⟩,
    fun there => ?_⟩
  rcases second.added there with before | made
  · exact first.added before
  · exact .inr made

theorem put_folder (vacant : tree.at? place = none) : Grows tree (tree.put place .folder) := by
  refine ⟨.put_of_none vacant .folder, fun {other entry} there => ?_⟩
  by_cases same : other = place
  · subst same
    rw [at?_put_self] at there
    exact .inr (Option.some.inj there).symm
  · rw [at?_put_of_ne tree .folder same] at there
    exact .inl there

theorem at?_file_iff (grows : Grows tree grown) {text : String} :
    grown.at? place = some (.file text) ↔ tree.at? place = some (.file text) :=
  ⟨fun there => (grows.added there).resolve_right (by simp), grows.kept⟩

end Grows

/-! ## Names in a folder that a path leads to -/

/-- A path leads to a folder at some place. -/
structure Opens (tree : Tree) (path : Path) (place : Place) : Prop where
  leads : tree.find path = .ok place
  isFolder : tree.entry? place = some .folder

theorem isFolder_iff : tree.isFolder path = true ↔ ∃ place, Opens tree path place := by
  rw [isFolder]
  constructor
  · intro isFolder
    split at isFolder
    · next place leads => exact ⟨place, leads, beq_iff_eq.mp isFolder⟩
    · contradiction
  · rintro ⟨place, leads, isFolder⟩
    simp [leads, isFolder]

theorem Opens.eq_of_find {reached : Place} (opens : Opens tree path place)
    (leads : tree.find path = .ok reached) : place = reached :=
  Except.ok.inj (opens.leads.symm.trans leads)

/-- A path that leads somewhere can be looked up, name by name. -/
theorem follow_of_find (leads : tree.find path = .ok place) :
    path.isBlank = false ∧ path.isUsable = true ∧
      tree.follow (tree.start path) path.names = .ok place := by
  rw [find] at leads
  split_ifs at leads with blank unusable opens
  · refine ⟨by simpa using blank, by simpa using unusable, ?_⟩
    rw [follow_append] at leads
    obtain ⟨reached, outer, stays⟩ := exists_of_bind_eq_ok leads
    obtain ⟨entry, there⟩ := exists_of_follow (by simp) stays
    cases entry with
    | file text => simp [follow, there] at stays
    | folder =>
        simp only [follow, there, beq_self_eq_true, ↓reduceIte] at stays
        rw [outer, stays]
  · refine ⟨by simpa using blank, by simpa using unusable, ?_⟩
    rwa [List.append_nil] at leads

theorem Within.opens (within : Within tree grown) (opens : Opens tree path place) :
    Opens grown path place :=
  ⟨(within.find_eq (by simp [opens.leads])).trans opens.leads, within.entry?_eq opens.isFolder⟩

section

variable {root : Path}

theorem find_child (named : name ≠ "") (usable : (root.child name).isUsable = true) :
    tree.find (root.child name) =
      tree.follow (tree.start (root.child name)) (root.names ++ [name]) := by
  simp [find, Path.isBlank_child named, usable, Path.endsOpen_child named,
    Path.names_child_of_ne named]

theorem start_child (spelled : root.isBlank = false) (name : String) :
    tree.start (root.child name) = tree.start root := by
  rw [start, start, Path.isAbsolute_child spelled]

variable (opens : Opens tree root place) (usable : (root.child name).isUsable = true)
  (named : name ≠ "" ∧ isDots name = false) (short : isName name = true)

include opens usable named short

theorem find_in : tree.find (root.child name) =
    if (tree.at? (place ++ [name])).isSome then .ok (place ++ [name]) else .error .missing := by
  obtain ⟨spelled, -, outer⟩ := follow_of_find opens.leads
  rw [find_child named.1 usable, start_child spelled, follow_append, outer]
  exact follow_name opens.isFolder named.2 short

theorem room_in : tree.room (root.child name) = .ok (place ++ [name]) := by
  obtain ⟨spelled, -, outer⟩ := follow_of_find opens.leads
  simp [room, usable, start_child spelled, Path.names_child_of_ne named.1, outer, Except.bind,
    opens.isFolder, named.2, short]

theorem read_in : tree.read (root.child name) =
    match tree.at? (place ++ [name]) with
    | none => .error .missing
    | some .folder => .error .blocked
    | some (.file text) => .ok text := by
  have listed : tree.entry? (place ++ [name]) = tree.at? (place ++ [name]) :=
    entry?_of_ne_nil (by simp)
  rw [read, find_in opens usable named short]
  cases there : tree.at? (place ++ [name]) with
  | none => rfl
  | some entry => cases entry <;> simp [Except.bind, textAt, listed, there]

theorem write_in (noFolder : tree.at? (place ++ [name]) ≠ some .folder) (text : String) :
    tree.write (root.child name) text = some (tree.put (place ++ [name]) (.file text)) := by
  simp [write, room_in opens usable named short, Path.endsOpen_child named.1, noFolder]

theorem makeFolder_in (vacant : tree.at? (place ++ [name]) = none) :
    tree.makeFolder (root.child name) = .ok (tree.put (place ++ [name]) .folder) := by
  simp [makeFolder, room_in opens usable named short, Except.bind, vacant]

end

/-! ## Making folders -/

theorem grows_makeFolder (made : tree.makeFolder path = .ok grown) : Grows tree grown := by
  obtain ⟨place, -, put⟩ := exists_of_bind_eq_ok made
  split_ifs at put with there
  obtain rfl := Except.ok.inj put
  exact .put_folder (by simpa using there)

theorem grows_makeFolders (paths : List Path) (tree : Tree) :
    Grows tree (tree.makeFolders paths).2 := by
  induction paths generalizing tree with
  | nil => exact .refl tree
  | cons path around ih =>
      rw [makeFolders]
      split
      · next grown made => exact grows_makeFolder made
      · exact .refl tree
      · have first := ih tree
        split
        · next ended => rwa [ended] at first
        · next between ended =>
            rw [ended] at first
            split
            · next grown made => exact first.trans (grows_makeFolder made)
            · exact first

section

variable {root : Path} {inner : String} (nonempty : inner ≠ "")

include nonempty

theorem opens_of_makeFolder (made : tree.makeFolder (root.child inner) = .ok grown) :
    ∃ place, Opens grown (root.child inner) place := by
  have grows := grows_makeFolder made
  obtain ⟨place, found, put⟩ := exists_of_bind_eq_ok made
  split_ifs at put
  obtain rfl := Except.ok.inj put
  rw [room] at found
  split_ifs at found with unusable
  have usable : (root.child inner).isUsable = true := by simpa using unusable
  obtain ⟨folder, leads, rest⟩ := exists_of_bind_eq_ok found
  rw [Path.names_child_of_ne nonempty, List.dropLast_concat, List.getLast?_concat] at *
  split at rest
  · next name isFolder isLast =>
      obtain rfl := Option.some.inj isLast
      split_ifs at rest with bad
      obtain rfl := Except.ok.inj rest
      simp only [Bool.or_eq_true, Bool.not_eq_true', not_or, Bool.not_eq_true,
        Bool.not_eq_false] at bad
      refine ⟨folder ++ [inner], ?_, ?_⟩
      · rw [find_child nonempty usable, follow_append, grows.start_eq,
          grows.follow_eq (by simp [leads]), leads]
        refine (follow_name (grows.entry?_eq isFolder) bad.1 bad.2).trans ?_
        simp
      · rw [entry?_of_ne_nil (by simp), at?_put_self]
  · contradiction

/-- Folders that were made are there. -/
theorem opens_of_makeFolders {around : List Path}
    (made : (tree.makeFolders (root.child inner :: around)).1 = true) :
    ∃ place, Opens (tree.makeFolders (root.child inner :: around)).2 (root.child inner) place := by
  rw [makeFolders] at made ⊢
  split at made
  · next grown first => exact opens_of_makeFolder nonempty first
  · next blocked => exact isFolder_iff.mp made
  · next missing =>
      split at made
      · contradiction
      · next between ended =>
          split at made
          · next grown second => exact opens_of_makeFolder nonempty second
          · next obstacle refused => exact isFolder_iff.mp made

/-- A name that a path ends in is listed in the folder before it. -/
theorem exists_of_find_child (dots : isDots inner = false)
    (leads : tree.find (root.child inner) = .ok place) :
    ∃ folder, tree.follow (tree.start (root.child inner)) root.names = .ok folder ∧
      tree.entry? folder = Option.some .folder ∧ isName inner = true ∧
      place = folder ++ [inner] ∧ (tree.at? place).isSome = true := by
  obtain ⟨-, -, whole⟩ := follow_of_find leads
  rw [Path.names_child_of_ne nonempty, follow_append] at whole
  obtain ⟨folder, outer, last⟩ := exists_of_bind_eq_ok whole
  obtain ⟨entry, there⟩ := exists_of_follow (by simp) last
  cases entry with
  | file text => simp [follow, there] at last
  | folder =>
      by_cases short : isName inner = true
      · rw [follow_name there dots short] at last
        split_ifs at last with listed
        obtain rfl := Except.ok.inj last
        exact ⟨folder, outer, there, short, rfl, listed⟩
      · simp only [isDots, Bool.or_eq_false_iff] at dots
        simp [follow, there, dots, short] at last

/-- A folder that is there is not made again. -/
theorem makeFolders_of_opens (opens : Opens tree (root.child inner) place)
    (dots : isDots inner = false) (around : List Path) :
    tree.makeFolders (root.child inner :: around) = (true, tree) := by
  obtain ⟨folder, outer, isFolder, short, rfl, there⟩ :=
    exists_of_find_child nonempty dots opens.leads
  have refused : tree.makeFolder (root.child inner) = .error .blocked := by
    simp [makeFolder, room, (follow_of_find opens.leads).2.1,
      Path.names_child_of_ne nonempty, outer, Except.bind, isFolder, dots, short, there]
  rw [makeFolders, refused]
  simp [isFolder_iff.mpr ⟨_, opens⟩]

end

/-! ## What a folder lists -/

/-- A place has a name in the folder around it only. -/
theorem nameIn_eq_some_iff :
    (if place.dropLast = folder then place.getLast? else none) = some name ↔
      place = folder ++ [name] := by
  constructor
  · intro listed
    split_ifs at listed with inside
    obtain ⟨front, rfl⟩ := List.getLast?_eq_some_iff.mp listed
    rw [← inside, List.dropLast_concat]
  · rintro rfl
    simp

theorem isSome_at?_iff : (tree.at? place).isSome = true ↔ place ∈ tree.entries.map (·.1) := by
  rw [at?, List.lookup_isSome_iff]
  simp

theorem mem_names_iff : name ∈ tree.names folder ↔ (tree.at? (folder ++ [name])).isSome = true := by
  simp only [names, List.mem_filterMap, nameIn_eq_some_iff, isSome_at?_iff, List.mem_map]

theorem names_eq_nil (vacant : ∀ name, tree.at? (folder ++ [name]) = none) :
    tree.names folder = [] := by
  rw [List.eq_nil_iff_forall_not_mem]
  intro name listed
  rw [mem_names_iff, vacant] at listed
  contradiction

theorem names_erase (tree : Tree) (folder : Place) (name : String) :
    (tree.erase (folder ++ [name])).names folder = (tree.names folder).filter (· != name) := by
  rw [names, names, erase, List.filterMap_filter, List.filter_filterMap]
  refine List.filterMap_congr fun listed _ => ?_
  cases inside : (if listed.1.dropLast = folder then listed.1.getLast? else none) with
  | none => simp [inside]
  | some other =>
      obtain isThere := nameIn_eq_some_iff.mp inside
      by_cases same : other = name
      · simp [isThere, same, Option.filter_some]
      · simp [isThere, same, Option.filter_some]

theorem names_put (tree : Tree) (folder : Place) (name : String) (entry : Entry) :
    (tree.put (folder ++ [name]) entry).names folder =
      (tree.names folder).filter (· != name) ++ [name] := by
  rw [← names_erase]
  simp [names, put, erase, List.filterMap_append]

end Pneumatic.Store.Tree
