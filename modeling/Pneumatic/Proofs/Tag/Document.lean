import Pneumatic.Proofs.Json.Indented
import Pneumatic.Tag.Document

/-!
# Project documents read back

The document of a project is plain JSON without depth to speak of, and names every field of its
components once, so that reading it gives the project again: whatever its texts are, for every kind
of component and wiring, with and without a tag for retraction.
-/

namespace Pneumatic.Project

namespace Wiring

theorem ofJson?_name (wiring : Wiring) : ofJson? (.str wiring.name) = some wiring := by
  cases wiring <;> rfl

end Wiring

/-! ## Records

A record read from the members that its own fields make.
-/

namespace Actuator

theorem ofJson?_fields (entry : Actuator) : ofJson? (.obj entry.fields) = some entry := by
  obtain ⟨label, wiring, extension, retraction, extended, retracted⟩ := entry
  cases retraction with
  | none => simp [ofJson?, fields, Json.fields?, Json.Fields.required, Json.Fields.withDefault,
      List.lookup_cons, Json.text?, Wiring.ofJson?_name]
  | some tag => simp [ofJson?, fields, Json.fields?, Json.Fields.required,
      Json.Fields.withDefault, List.lookup_cons, Json.text?, Json.optional?, Wiring.ofJson?_name]

end Actuator

namespace Timer

theorem ofJson?_fields (entry : Timer) : ofJson? (.obj entry.fields) = some entry := by
  simp [ofJson?, fields, Json.fields?, Json.Fields.required, List.lookup_cons, Json.text?]

end Timer

namespace Counter

theorem ofJson?_fields (entry : Counter) : ofJson? (.obj entry.fields) = some entry := by
  simp [ofJson?, fields, Json.fields?, Json.Fields.required, List.lookup_cons, Json.text?]

end Counter

/-! ## Components -/

namespace Entry

/-- The fields of a component but its type. -/
def fields : Entry → List (String × Json)
  | .actuator entry => entry.fields
  | .timer entry => entry.fields
  | .counter entry => entry.fields

/-- The type of a component in a document. -/
def type : Entry → String
  | .actuator _ => "actuator"
  | .timer _ => "timer"
  | .counter _ => "counter"

theorem toJson_eq (entry : Entry) :
    entry.toJson = .obj (("type", .str entry.type) :: entry.fields) := by
  cases entry <;> rfl

/-- Every field of a component is a text, and none is called its type. -/
theorem fields_texts (entry : Entry) :
    ∀ member ∈ entry.fields, member.1 ≠ "type" ∧ ∃ text, member.2 = .str text := by
  cases entry with
  | actuator entry =>
      obtain ⟨label, wiring, extension, retraction, extended, retracted⟩ := entry
      cases retraction <;> simp [fields, Actuator.fields]
  | timer entry => simp [fields, Timer.fields]
  | counter entry => simp [fields, Counter.fields]

theorem readableMembers_of_texts {members : List (String × Json)} (limit : Nat)
    (texts : ∀ member ∈ members, ∃ text, member.2 = .str text) :
    Json.readableMembers limit members = true := by
  induction members with
  | nil => rfl
  | cons member rest ih =>
      obtain ⟨text, isText⟩ := texts member (List.mem_cons_self ..)
      have readable : (Json.str text).readable limit = true := by simp [Json.readable]
      rw [Json.readableMembers, isText, readable,
        ih fun other inside => texts other (List.mem_cons_of_mem _ inside)]
      rfl

theorem arePlainMembers_of_texts {members : List (String × Json)}
    (texts : ∀ member ∈ members, ∃ text, member.2 = .str text) :
    Json.arePlainMembers members = true := by
  induction members with
  | nil => rfl
  | cons member rest ih =>
      obtain ⟨text, isText⟩ := texts member (List.mem_cons_self ..)
      rw [Json.arePlainMembers, isText, Json.isPlain,
        ih fun other inside => texts other (List.mem_cons_of_mem _ inside)]
      rfl

theorem isPlain_toJson (entry : Entry) : entry.toJson.isPlain = true := by
  rw [toJson_eq, Json.isPlain, Json.arePlainMembers, Json.isPlain, Bool.true_and]
  exact arePlainMembers_of_texts fun member inside => (entry.fields_texts member inside).2

/-- A component says what it is, and the rest of it are its fields. -/
theorem tagged?_toJson (entry : Entry) :
    entry.toJson.tagged? "type" nestingLimit = some (entry.type, .obj entry.fields) := by
  have readable : entry.toJson.readable nestingLimit = true := by
    rw [toJson_eq]
    exact readableMembers_of_texts 124 fun member inside => by
      rcases List.mem_cons.mp inside with rfl | inside
      · exact ⟨_, rfl⟩
      · exact (entry.fields_texts member inside).2
  have others : ∀ member ∈ entry.fields, (member.1 == "type") = false := fun member inside =>
    beq_false_of_ne (entry.fields_texts member inside).1
  have untagged : entry.fields.filter (fun member => member.1 == "type") = [] :=
    List.filter_eq_nil_iff.mpr (by simpa using others)
  have all : entry.fields.filter (fun member => !(member.1 == "type")) = entry.fields :=
    List.filter_eq_self.mpr (by simpa using others)
  rw [toJson_eq] at readable ⊢
  simp only [Json.tagged?, readable, List.partition_eq_filter_filter, List.filter_cons,
    Function.comp_def, untagged, all]
  rfl

theorem ofJson?_toJson (entry : Entry) : ofJson? entry.toJson = some entry := by
  rw [ofJson?, tagged?_toJson]
  cases entry with
  | actuator entry => exact congrArg (Option.map Entry.actuator) entry.ofJson?_fields
  | timer entry => exact congrArg (Option.map Entry.timer) entry.ofJson?_fields
  | counter entry => exact congrArg (Option.map Entry.counter) entry.ofJson?_fields

end Entry

/-! ## Documents -/

theorem ofJson?_toJson (project : Project) : ofJson? project.toJson = some project := by
  have components : (project.components.map Entry.toJson).mapM Entry.ofJson? =
      some project.components := by
    simp [mapM_eq_some_iff, Entry.ofJson?_toJson]
  simp [ofJson?, toJson, Json.fields?, Json.Fields.withDefault, List.lookup_cons, Json.text?,
    Json.listOf?, Json.items?, components]

/-- **The document of a project reads as the project.** -/
theorem read?_indented (project : Project) : read? project.toJson.indented = some project := by
  have components : Json.arePlain (project.components.map Entry.toJson) = true := by
    rw [Json.arePlain_iff]
    exact List.forall_mem_map.mpr fun entry _ => entry.isPlain_toJson
  have plain : project.toJson.isPlain = true := by
    simp [toJson, Json.isPlain, Json.arePlainMembers, components]
  rw [read?, Json.read?_indented plain, Option.bind_some, ofJson?_toJson]

end Pneumatic.Project
