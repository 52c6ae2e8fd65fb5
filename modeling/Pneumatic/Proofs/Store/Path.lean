import Pneumatic.Proofs.Text.Search
import Pneumatic.Store.Path

/-!
# Names in folders

What the path to a name in a folder takes over from the folder, and how a file name is cut at the
dot before its extension.
-/

namespace Pneumatic.Store

/-- The last dot of a name is the one in front of an extension without dots. -/
theorem splitLast?_append {stem extension : List Char} (undotted : '.' ∉ extension) :
    Text.splitLast? ['.'] (stem ++ '.' :: extension) = some (stem, extension) := by
  refine Text.splitLast?_eq_some_iff.mpr ⟨rfl, fun front back equal => ?_⟩
  rcases List.append_eq_append_iff.mp equal with ⟨between, frontEq, rest⟩ | ⟨between, stemEq, -⟩
  · cases between with
    | nil => simp [frontEq]
    | cons dot between =>
        have inside : '.' ∈ extension := by simp [(List.cons.inj rest).2]
        contradiction
  · simp [stemEq]

theorem splitExtension_append {stem extension : String} (named : stem ≠ "")
    (undotted : '.' ∉ extension.toList) :
    splitExtension (stem ++ "." ++ extension) = (stem, some extension) := by
  have letters : (stem ++ "." ++ extension).toList = stem.toList ++ '.' :: extension.toList := by
    simp
  have nonempty : stem.toList.isEmpty = false := by simpa using named
  simp [splitExtension, letters, splitLast?_append undotted, nonempty]

/-- A name is cut into its part before the extension and the extension. -/
theorem eq_of_splitExtension {name stem extension : String}
    (cut : splitExtension name = (stem, some extension)) : name = stem ++ "." ++ extension := by
  unfold splitExtension at cut
  split at cut
  · next front back found =>
      split at cut
      · simp at cut
      · obtain ⟨rfl, back⟩ := Prod.mk.inj cut
        obtain rfl := Option.some.inj back
        rw [← String.toList_inj, Text.eq_of_splitLast? found]
        simp
  · simp at cut

namespace Path

variable {folder : Path} {name : String}

theorem pieces_child (folder : Path) (name : String) :
    (folder.child name).pieces = folder.base ++ [name] :=
  rfl

theorem endsOpen_child (named : name ≠ "") : (folder.child name).endsOpen = false := by
  simp [endsOpen, child, named]

theorem isBlank_child (named : name ≠ "") : (folder.child name).isBlank = false := by
  unfold isBlank
  split
  · next pieces => simp [child] at pieces
  · next pieces =>
      have last := congrArg List.getLast? pieces
      simp [child, named] at last
  · rfl

/-- A name in a folder does not make the path of the folder begin elsewhere. -/
theorem isAbsolute_child (spelled : folder.isBlank = false) (name : String) :
    (folder.child name).isAbsolute = folder.isAbsolute := by
  have absolute_iff (lead next : String) (rest : List String) :
      (⟨lead :: next :: rest⟩ : Path).isAbsolute = (lead == "") := by
    by_cases top : lead = "" <;> simp [isAbsolute, top]
  obtain ⟨pieces⟩ := folder
  match pieces with
  | [] => contradiction
  | [only] =>
      have named : only ≠ "" := by
        rintro rfl
        contradiction
      simp [isAbsolute, child, base, endsOpen, named]
  | lead :: next :: rest =>
      have begins : ∃ more, (⟨lead :: next :: rest⟩ : Path).base = lead :: more := by
        unfold base
        split
        · exact ⟨_, List.dropLast_cons_cons⟩
        · exact ⟨_, rfl⟩
      obtain ⟨more, begins⟩ := begins
      rw [absolute_iff, child, begins]
      cases more with
      | nil => exact absolute_iff lead name []
      | cons other more => exact absolute_iff lead other (more ++ [name])

theorem exists_around (named : name ≠ "") :
    ∃ around, (folder.child name).chain = folder.child name :: around := by
  rw [chain, isBlank_child named]
  exact ⟨_, rfl⟩

theorem names_child_of_ne (named : name ≠ "") :
    (folder.child name).names = folder.names ++ [name] :=
  names_child folder (by simpa using named)

/-! ## The limits -/

theorem isUsable_eq (path : Path) :
    path.isUsable = (decide (path.text.utf8ByteSize ≤ byteLimit) &&
      decide ('\x00' ∉ path.text.toList)) := by
  rw [isUsable, String.contains_char_eq, decide_not]

/-- The text in front of a name in a folder does not depend on the name. -/
theorem exists_lead (folder : Path) :
    ∃ lead : String, ∀ name, (folder.child name).text = lead ++ name := by
  by_cases empty : folder.base = []
  · exact ⟨"", fun name => by simp [text, pieces_child, empty]⟩
  · refine ⟨"/".intercalate folder.base ++ "/", fun name => ?_⟩
    rw [text, pieces_child, String.intercalate_append_of_ne_nil empty (by simp),
      String.intercalate_singleton]

/-- A path stays usable with a shorter last name. -/
theorem isUsable_child_of_le {other : String} (usable : (folder.child name).isUsable = true)
    (shorter : other.utf8ByteSize ≤ name.utf8ByteSize) (clean : '\x00' ∉ other.toList) :
    (folder.child other).isUsable = true := by
  obtain ⟨lead, text⟩ := exists_lead folder
  simp only [isUsable_eq, text, String.utf8ByteSize_append, String.toList_append,
    List.mem_append, Bool.and_eq_true, decide_eq_true_eq, not_or] at usable ⊢
  exact ⟨by omega, usable.2.1, clean⟩

/-- A name in a folder with another extension. -/
theorem withExtension_child {stem old : String} (named : stem ≠ "") (dots : stem ≠ ".")
    (undotted : '.' ∉ old.toList) (nonempty : old ≠ "") (extension : String) :
    (folder.child (stem ++ "." ++ old)).withExtension extension =
      folder.child (stem ++ "." ++ extension) := by
  have long : 2 < (stem ++ "." ++ old).length := by
    have one : stem.length ≠ 0 := by simpa using named
    have other : old.length ≠ 0 := by simpa using nonempty
    have dot : ".".length = 1 := rfl
    simp only [String.length_append, dot]
    omega
  have apart (short : String) (within : short.length ≤ 2) : stem ++ "." ++ old ≠ short := by
    rintro rfl
    omega
  have trimmed : (folder.child (stem ++ "." ++ old)).trimmed =
      folder.base ++ [stem ++ "." ++ old] := by
    have begins : ((stem ++ "." ++ old).isEmpty || stem ++ "." ++ old == ".") = false := by
      simp [apart "" (by decide), apart "." (by decide)]
    rw [Path.trimmed, pieces_child, List.reverse_concat,
      List.dropWhile_cons_of_neg (by simp [begins]), List.reverse_cons, List.reverse_reverse]
  unfold withExtension
  split
  · next empty => simp [trimmed] at empty
  · next same =>
      rw [trimmed, List.getLast?_concat] at same
      exact absurd (Option.some.inj same) (apart _ (by decide))
  · next name _ found =>
      rw [trimmed, List.getLast?_concat] at found
      obtain rfl := Option.some.inj found
      rw [trimmed, splitExtension_append named undotted]
      simp [dots, child]

end Path

end Pneumatic.Store
