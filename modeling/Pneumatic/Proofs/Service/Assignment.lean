import Pneumatic.Proofs.Program.Mentions
import Pneumatic.Proofs.Service.Conversation
import Pneumatic.Proofs.Store.Projects

/-!
# Assigned components

The service tells apart which components of a sequence a project takes care of.  A component
stands on one of two lists by its label, which is its own.  Pressures stand with what is assigned,
since a project cannot configure them.
-/

namespace Pneumatic

/-- Components are told apart by their labels. -/
theorem ComponentId.label_injective : Function.Injective label := by
  intro left right same
  have chars := congrArg String.toList same
  cases left <;> cases right <;>
    simp only [label, String.toList_append, String.toList_singleton, String.toList_ofList,
      String.reduceToList, List.cons_append, List.nil_append, List.cons.injEq, List.cons_ne_nil,
      reduceCtorEq, and_false, false_and, and_true, true_and, Char.reduceEq] at chars
  · rw [chars]
  · rw [Tag.digits_injective chars]
  · rw [Tag.digits_injective chars]
  · rw [Tag.digits_injective chars]

/-- What a project leaves out is what it does not bind and could bind. -/
theorem Project.mem_missing_iff {project : Project} {required : List Component}
    {component : Component} (among : component ∈ required) :
    component.id ∈ project.missing required ↔
      component.id.kind ≠ .pressure ∧ project.binds component.id = false := by
  simp only [missing, List.mem_map, List.mem_filter, Bool.and_eq_true, bne_iff_ne, ne_eq,
    Bool.not_eq_true']
  constructor
  · rintro ⟨other, ⟨-, left⟩, same⟩
    rwa [← same]
  · intro left
    exact ⟨component, ⟨among, left⟩, rfl⟩

/-- Whether a component need not be assigned any more: a project binds it, or none could. -/
def Project.settles (project : Project) (id : ComponentId) : Bool :=
  id.kind == .pressure || project.binds id

theorem Project.contains_missing {project : Project} {required : List Component}
    {component : Component} (among : component ∈ required) :
    (project.missing required).contains component.id = !project.settles component.id := by
  rw [Bool.eq_iff_iff, List.contains_iff_mem, mem_missing_iff among]
  simp [settles]

theorem Sequence.nodup_labels (sequence : Sequence) :
    (sequence.inventory.map (·.id.label)).Nodup := by
  have ids : (sequence.inventory.map (·.id)).Nodup := by
    rw [map_id_inventory]
    exact nodup_eraseDups _
  have labels := ids.map ComponentId.label_injective
  rwa [List.map_map] at labels

namespace Service

variable {σ : Type} {site : Site σ} {request : Request} {connection : Connection σ}
  {source id : String} {root : Store.Path} {tree : Store.Tree} {project : Project}
  {sequence : Sequence}

theorem Request.project_of_load (named : request.text? "project_id" = some id)
    (stored : site.store = some (root, tree)) {found : Option Project}
    (loads : Store.loadProject root id tree = .ok found) : request.project site = .ok found := by
  rw [project, named, stored]
  exact congrArg (Except.mapError Refusal.store) loads

/-- The labels of the components with a property, in order. -/
def labelsOf (sequence : Sequence) (test : ComponentId → Bool) : List String :=
  (sequence.inventory.filter fun component => test component.id).map (·.id.label)

theorem labelsOf_sublist (sequence : Sequence) (test : ComponentId → Bool) :
    (labelsOf sequence test).Sublist (sequence.inventory.map (·.id.label)) :=
  List.filter_sublist.map _

theorem mem_labelsOf_iff {component : Component} (among : component ∈ sequence.inventory)
    (test : ComponentId → Bool) :
    component.id.label ∈ labelsOf sequence test ↔ test component.id = true := by
  simp only [labelsOf, List.mem_map, List.mem_filter]
  constructor
  · rintro ⟨other, ⟨-, holds⟩, same⟩
    rwa [← ComponentId.label_injective same]
  · intro holds
    exact ⟨component, ⟨among, holds⟩, rfl⟩

/-- The labels of components follow from what identifies them. -/
theorem labelsOf_eq {ids : List ComponentId} (needs : sequence.inventory.map (·.id) = ids)
    (test : ComponentId → Bool) : labelsOf sequence test = (ids.filter test).map (·.label) := by
  rw [← needs, List.filter_map, List.map_map]
  rfl

/-- The answer on the components of a sequence that a project settles, and on the others. -/
def assignment (project : Project) (sequence : Sequence) : Json :=
  .obj [("status", .str "OK"), ("components", .list Component.toJson sequence.inventory),
    ("assigned", .list .str (labelsOf sequence project.settles)),
    ("unassigned", .list .str (labelsOf sequence (!project.settles ·)))]

theorem Command.components_eq (asked : request.text? "sequence" = some source)
    (chosen : request.project site = .ok (some project))
    (accepted : Sequence.parse source = .ok sequence) :
    components site request = .ok (assignment project sequence) := by
  have source : request.text "sequence" = .ok source := by rw [Request.text, asked]
  have lacking : (sequence.inventory.filter fun component =>
      (project.missing sequence.inventory).contains component.id) =
        sequence.inventory.filter fun component => !project.settles component.id :=
    List.filter_congr fun component among => Project.contains_missing among
  have bound : (sequence.inventory.filter fun component =>
      !(project.missing sequence.inventory).contains component.id) =
        sequence.inventory.filter fun component => project.settles component.id :=
    List.filter_congr fun component among => by rw [Project.contains_missing among, Bool.not_not]
  simp only [components, source, chosen, accepted, unassigned, bind, Except.bind, pure,
    Except.pure, List.partition_eq_filter_filter, Function.comp_def, lacking, bound, assignment,
    labelsOf, Json.list, List.map_map]

/-- The answer after a handshake, with a project from the store. -/
theorem Connection.perform_components (greeted : connection.greeted = true)
    (command : request.command = "components") (asked : request.text? "sequence" = some source)
    (named : request.text? "project_id" = some id) (stored : site.store = some (root, tree))
    (loads : Store.loadProject root id tree = .ok (some project))
    (accepted : Sequence.parse source = .ok sequence) :
    (connection.perform site request).1 = .ok (assignment project sequence) := by
  rw [Connection.perform_command (by simp [command]) greeted, Connection.command, command]
  exact Command.components_eq asked (Request.project_of_load named stored loads) accepted

/-- After a handshake, the components of a sequence are listed with a stored project as follows.
Each component stands on one of two lists, by its label, which no other component has, and both
lists are in the order of the inventory.  It is assigned if the project binds it, or if it is a
pressure, which no project can bind. -/
theorem components_assigned (greeted : connection.greeted = true)
    (command : request.command = "components") (asked : request.text? "sequence" = some source)
    (named : request.text? "project_id" = some id) (stored : site.store = some (root, tree))
    (loads : Store.loadProject root id tree = .ok (some project))
    (accepted : Sequence.parse source = .ok sequence) :
    ∃ assigned unassigned : List String,
      (connection.perform site request).1 = .ok (.obj [("status", .str "OK"),
        ("components", .list Component.toJson sequence.inventory),
        ("assigned", .list .str assigned), ("unassigned", .list .str unassigned)]) ∧
      (sequence.inventory.map (·.id.label)).Nodup ∧
      assigned.Sublist (sequence.inventory.map (·.id.label)) ∧
      unassigned.Sublist (sequence.inventory.map (·.id.label)) ∧
      ∀ component ∈ sequence.inventory,
        (component.id.label ∈ assigned ↔
          project.binds component.id = true ∨ component.id.kind = .pressure) ∧
        (component.id.label ∈ unassigned ↔ component.id.label ∉ assigned) := by
  refine ⟨_, _, connection.perform_components greeted command asked named stored loads accepted,
    sequence.nodup_labels, labelsOf_sublist .., labelsOf_sublist .., fun component among => ?_⟩
  rw [mem_labelsOf_iff among, mem_labelsOf_iff among]
  simp [Project.settles, or_comm]

/-- A tree with a store that keeps one project, under the id `press`. -/
def treeOf (project : Project) : Store.Tree :=
  ⟨[], [(["srv"], .folder), (["srv", "projects"], .folder),
    (["srv", "projects", "press.json"], .file project.toJson.indented)]⟩

/-- A place with such a store. -/
def Site.ofProject (project : Project) : Site Run.Plant :=
  { CommandLine.site .default 0 .empty with store := some (.ofText "/srv", treeOf project) }

theorem loadProject_treeOf (project : Project) :
    Store.loadProject (.ofText "/srv") "press" (treeOf project) = .ok (some project) := by
  have usable : (Store.projectsPath (.ofText "/srv")).isUsable = true := by
    rw [Store.Path.isUsable_eq]
    decide
  have opens : (treeOf project).Opens (Store.projectsPath (.ofText "/srv"))
      ["srv", "projects"] := by
    refine ⟨?_, rfl⟩
    rw [Store.Tree.find, usable]
    rfl
  refine Store.loadProject_of_at? opens (by decide) ⟨by decide, ?_⟩ rfl
  rw [Store.Path.isUsable_eq]
  decide

/-- A request for the components of a sequence with the project `press`. -/
def Request.ofSequence (source : String) : Request :=
  ⟨.null, "components", .obj [("sequence", .str source), ("project_id", .str "press")]⟩

/-- A counter that is bound stands beside an actuator without its tag for retraction, a timer that
the project does not mention, and a pressure. -/
theorem components_assigned_mixed :
    let project : Project :=
      ⟨"", [.counter ⟨"Counter_1", "C"⟩, .actuator ⟨"A", .doubleActing, "Q", none, "I1", "I0"⟩]⟩
    let connection : Connection Run.Plant := ⟨true, CommandLine.freshSchedule .default⟩
    ∃ (sequence : Sequence) (assigned unassigned : List String),
      Sequence.parse "[A+,1S,A-]^2,4BAR" = .ok sequence ∧
      (connection.perform (.ofProject project) (.ofSequence "[A+,1S,A-]^2,4BAR")).1 =
        .ok (.obj [("status", .str "OK"),
          ("components", .list Component.toJson sequence.inventory),
          ("assigned", .list .str assigned), ("unassigned", .list .str unassigned)]) ∧
      "Counter_1" ∈ assigned ∧ "Pressure_1" ∈ assigned ∧ "A" ∈ unassigned ∧
        "Timer_1" ∈ unassigned := by
  intro project connection
  have needs : ((Sequence.parse "[A+,1S,A-]^2,4BAR").toOption.any fun sequence =>
      sequence.inventory.map (·.id) == [.counter 1, .actuator 'A', .timer 1, .pressure 1]) =
        true := by
    decide +kernel
  obtain ⟨sequence, parsed, needs⟩ := any_toOption_iff.mp needs
  have greeted : connection.greeted = true := rfl
  have asked : (Request.ofSequence "[A+,1S,A-]^2,4BAR").text? "sequence" =
      some "[A+,1S,A-]^2,4BAR" := rfl
  have stored : (Site.ofProject project).store = some (.ofText "/srv", treeOf project) := rfl
  obtain ⟨assigned, unassigned, answered, -, -, -, split⟩ :=
    components_assigned greeted rfl asked rfl stored (loadProject_treeOf project) parsed
  have splits (id : ComponentId)
      (among : id ∈ [.counter 1, .actuator 'A', .timer 1, .pressure 1]) :
      (id.label ∈ assigned ↔ project.binds id = true ∨ id.kind = .pressure) ∧
        (id.label ∈ unassigned ↔ id.label ∉ assigned) := by
    rw [← beq_iff_eq.mp needs, List.mem_map] at among
    obtain ⟨component, inside, rfl⟩ := among
    exact split component inside
  have counter := splits (.counter 1) (by decide)
  have actuator := splits (.actuator 'A') (by decide)
  have timer := splits (.timer 1) (by decide)
  have pressure := splits (.pressure 1) (by decide)
  refine ⟨sequence, assigned, unassigned, parsed, answered, counter.1.mpr (.inl (by decide)),
    pressure.1.mpr (.inr rfl), actuator.2.mpr (mt actuator.1.mp (by decide)),
    timer.2.mpr (mt timer.1.mp (by decide))⟩

/-- A pressure is not bound and yet listed as assigned. -/
theorem pressure_assigned_unbound :
    let project : Project := ⟨"", []⟩
    let connection : Connection Run.Plant := ⟨true, CommandLine.freshSchedule .default⟩
    project.binds (.pressure 1) = false ∧
    ∃ sequence : Sequence, Sequence.parse "A+,4BAR" = .ok sequence ∧
      (connection.perform (.ofProject project) (.ofSequence "A+,4BAR")).1 =
        .ok (.obj [("status", .str "OK"),
          ("components", .list Component.toJson sequence.inventory),
          ("assigned", .list .str ["Pressure_1"]), ("unassigned", .list .str ["A"])]) := by
  intro project connection
  have needs : ((Sequence.parse "A+,4BAR").toOption.any fun sequence =>
      sequence.inventory.map (·.id) == [.actuator 'A', .pressure 1]) = true := by
    decide +kernel
  obtain ⟨sequence, parsed, needs⟩ := any_toOption_iff.mp needs
  refine ⟨rfl, sequence, parsed, ?_⟩
  rw [Connection.perform_components rfl rfl rfl rfl rfl (loadProject_treeOf project) parsed,
    assignment, labelsOf_eq (beq_iff_eq.mp needs), labelsOf_eq (beq_iff_eq.mp needs)]
  rfl

end Service

end Pneumatic
