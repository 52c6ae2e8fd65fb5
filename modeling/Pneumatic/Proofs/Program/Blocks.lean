import Pneumatic.Proofs.Program.Lines
import Mathlib.Data.List.Forall2

/-!
# Blocks of structured text

The lines of a program are read as text: by their indentation and their key words.  Every line
that opens a branch is closed by a line of its own at the same indentation, branches nest like
brackets, and whatever stands inside one is indented deeper, but for the one line that divides
the branch of a counter.  So the lines of a case show the branches of the case and its jumps, in
the order in which the case has them.
-/

namespace Pneumatic

/-! ## Reading lines -/

namespace Line

/-- The blanks in front of a written line. -/
def indentation (written : String) : Nat :=
  (written.toList.takeWhile (· == ' ')).length

/-- A written line behind its indentation. -/
def words (written : String) : List Char :=
  written.toList.dropWhile (· == ' ')

/-- Whether a written line opens a branch. -/
def opens (written : String) : Bool :=
  (Text.dropLead? "IF ".toList (words written)).isSome

/-- Whether a written line divides a branch. -/
def divides (written : String) : Bool :=
  words written == "ELSE".toList

/-- Whether a written line closes a branch. -/
def closes (written : String) : Bool :=
  words written == "END_IF;".toList

/-- The number of the case that a written line jumps to. -/
def jump? (written : String) : Option Nat := do
  let target ← Text.dropLead? "#NEXT := ".toList (words written)
  Text.number? (← Text.dropTail? [';'] target)

variable {depth : Nat} {text : String} {c : Char} {rest : List Char}

theorem words_render (line : Line) :
    words line.render = line.text.toList.dropWhile (· == ' ') := by
  rw [words, render, String.toList_append, String.toList_ofList,
    List.dropWhile_append_of_pos fun c among => by rw [List.eq_of_mem_replicate among]; rfl]

theorem indentation_render (line : Line) :
    indentation line.render =
      4 * line.depth + (line.text.toList.takeWhile (· == ' ')).length := by
  rw [indentation, render, String.toList_append, String.toList_ofList,
    List.takeWhile_append_of_pos fun c among => by rw [List.eq_of_mem_replicate among]; rfl,
    List.length_append, List.length_replicate]

theorem render_zero (text : String) : render ⟨0, text⟩ = text := by
  rw [← String.toList_inj]
  simp [render]

theorem le_indentation_render (line : Line) : 4 * line.depth ≤ indentation line.render := by
  rw [indentation_render]
  exact Nat.le_add_right _ _

/-- A text that does not begin with a blank is what its line says. -/
theorem words_of_head (depth : Nat) (chars : text.toList = c :: rest) (solid : c ≠ ' ') :
    words (render ⟨depth, text⟩) = c :: rest := by
  rw [words_render, chars, List.dropWhile_cons_of_neg (by simpa using solid)]

/-- A text that does not begin with a blank stands exactly at the depth of its line. -/
theorem indentation_of_head (depth : Nat) (chars : text.toList = c :: rest) (solid : c ≠ ' ') :
    indentation (render ⟨depth, text⟩) = 4 * depth := by
  rw [indentation_render, chars, List.takeWhile_cons_of_neg (by simpa using solid)]
  rfl

/-- What is no blank and stands in a line stands behind its indentation. -/
theorem mem_words (line : Line) (among : c ∈ line.text.toList) (solid : c ≠ ' ') :
    c ∈ words line.render := by
  rw [words_render]
  rw [← List.takeWhile_append_dropWhile (p := (· == ' ')) (l := line.text.toList),
    List.mem_append] at among
  rcases among with blank | behind
  · exact absurd (by simpa using List.mem_takeWhile_imp blank) solid
  · exact behind

/-- A line that neither opens nor closes a branch. -/
structure Plain (written : String) : Prop where
  opens : opens written = false
  closes : closes written = false

theorem plain_of_head (chars : text.toList = c :: rest) (solid : c ≠ ' ') (noBranch : c ≠ 'I')
    (noEnd : rest ≠ "ND_IF;".toList) : Plain (render ⟨depth, text⟩) := by
  have wordsEq := words_of_head depth chars solid
  constructor
  · simp [Line.opens, wordsEq, Text.dropLead?, Ne.symm noBranch]
  · have other : c :: rest ≠ "END_IF;".toList := fun same => noEnd (List.cons.inj same).2
    rw [Line.closes, wordsEq, beq_false_of_ne other]

theorem jump?_of_head (chars : text.toList = c :: rest) (solid : c ≠ ' ') (noJump : c ≠ '#') :
    jump? (render ⟨depth, text⟩) = none := by
  have wordsEq := words_of_head depth chars solid
  simp [jump?, wordsEq, Text.dropLead?, Ne.symm noJump]

theorem jump?_next (depth target : Nat) :
    jump? (render ⟨depth, "#NEXT := " ++ decimal target ++ ";"⟩) = some target := by
  have lead : "#NEXT := ".toList = '#' :: "NEXT := ".toList := rfl
  have chars : ("#NEXT := " ++ decimal target ++ ";").toList =
      '#' :: ("NEXT := ".toList ++ (Text.digits target ++ [';'])) := by
    simp [decimal]
  have wordsEq := words_of_head depth chars (by decide)
  rw [← List.cons_append, ← lead] at wordsEq
  have behind := Text.dropLead?_eq_some_iff.mpr wordsEq
  have number : Text.dropTail? [';'] (Text.digits target ++ [';']) = some (Text.digits target) :=
    Text.dropTail?_eq_some_iff.mpr rfl
  rw [jump?, behind, Option.bind_eq_bind, Option.bind_some, number, Option.bind_some,
    Text.number?_digits]

end Line

/-! ## Names -/

/-- A name without any ASCII character but letters, digits and underscores that is not the key
word of a branch. -/
def Identifier (name : String) : Prop :=
  (∀ c ∈ name.toList, c.isAlphanum = true ∨ c = '_' ∨ 128 ≤ c.toNat) ∧ name ≠ "IF"

instance (name : String) : Decidable (Identifier name) :=
  -- The characters of the name are to be gone through, not all characters that there are.
  @instDecidableAnd _ _ (List.decidableBAll _ _) inferInstance

namespace Identifier

variable {name : String} {c : Char}

theorem ne_of_mem (identifier : Identifier name) (among : c ∈ name.toList) :
    c ≠ ' ' ∧ c ≠ '#' := by
  have proper := identifier.1 c among
  constructor <;> rintro rfl <;> exact absurd proper (by decide)

end Identifier

namespace Line

/-- How a statement goes on behind the name that it begins with. -/
def GoesOn (more : List Char) : Prop :=
  " := ".toList <+: more ∨ "(IN := ".toList <+: more

/-- A blank behind a key word ends the name in front of it. -/
theorem GoesOn.eq_of_append_eq {rest more behind : List Char} (goesOn : GoesOn more)
    (dense : ' ' ∉ rest) (first : rest ++ more = 'F' :: ' ' :: behind) : rest = ['F'] := by
  cases rest with
  | nil => rcases goesOn with ⟨tail, rfl⟩ | ⟨tail, rfl⟩ <;> cases first
  | cons c rest =>
      obtain ⟨rfl, later⟩ := List.cons.inj first
      cases rest with
      | nil => rfl
      | cons d rest =>
          obtain ⟨rfl, -⟩ := List.cons.inj later
          simp at dense

variable {name text : String} {more : List Char}

/-- A statement about a name is neither the begin nor the end of a branch, nor a jump. -/
theorem plain_of_identifier (depth : Nat) (identifier : Identifier name) (goesOn : GoesOn more)
    (chars : text.toList = name.toList ++ more) :
    Plain (render ⟨depth, text⟩) ∧ jump? (render ⟨depth, text⟩) = none := by
  have colon : ':' ∈ text.toList := by
    rw [chars, List.mem_append]
    rcases goesOn with ⟨rest, rfl⟩ | ⟨rest, rfl⟩ <;> exact .inr (by simp)
  have noEnd : closes (render ⟨depth, text⟩) = false := by
    have inside := mem_words ⟨depth, text⟩ colon (by decide)
    refine beq_false_of_ne fun same => ?_
    rw [same] at inside
    exact absurd inside (by decide)
  cases nameEq : name.toList with
  | nil =>
      rw [nameEq, List.nil_append] at chars
      have wordsEq : ∃ rest, words (render ⟨depth, text⟩) = ':' :: rest ∨
          words (render ⟨depth, text⟩) = '(' :: rest := by
        rw [words_render, chars]
        rcases goesOn with ⟨rest, rfl⟩ | ⟨rest, rfl⟩
        · exact ⟨_, .inl rfl⟩
        · exact ⟨_, .inr rfl⟩
      obtain ⟨rest, wordsEq | wordsEq⟩ := wordsEq <;>
        exact ⟨⟨by simp [opens, wordsEq, Text.dropLead?], noEnd⟩,
          by simp [jump?, wordsEq, Text.dropLead?]⟩
  | cons c rest =>
      have proper : ∀ d ∈ c :: rest, d ≠ ' ' ∧ d ≠ '#' :=
        fun d among => identifier.ne_of_mem (nameEq ▸ among)
      rw [List.forall_mem_cons] at proper
      obtain ⟨⟨solid, noJump⟩, dense⟩ := proper
      rw [nameEq, List.cons_append] at chars
      have wordsEq := words_of_head depth chars solid
      refine ⟨⟨?_, noEnd⟩, jump?_of_head chars solid noJump⟩
      rw [← Bool.not_eq_true, opens, wordsEq, Option.isSome_iff_exists]
      rintro ⟨behind, leads⟩
      have first : c :: (rest ++ more) = 'I' :: 'F' :: ' ' :: behind :=
        Text.dropLead?_eq_some_iff.mp leads
      obtain ⟨rfl, later⟩ := List.cons.inj first
      have restEq := goesOn.eq_of_append_eq (fun among => (dense ' ' among).1 rfl) later
      exact identifier.2 (String.toList_inj.mp (by rw [nameEq, restEq]; rfl))

end Line

namespace Instruction

/-- The name that a statement begins with. -/
def subject : Instruction → String
  | .setBool tag _ => tag
  | .setInt tag _ => tag
  | .callTimer name _ _ _ _ => name

theorem exists_toList_render (instruction : Instruction) :
    ∃ more, Line.GoesOn more ∧ instruction.render.toList = instruction.subject.toList ++ more := by
  cases instruction with
  | setBool tag value =>
      refine ⟨" := ".toList ++ ((if value then "TRUE" else "FALSE").toList ++ [';']),
        .inl (List.prefix_append _ _), ?_⟩
      simp [render, subject]
  | setInt tag value =>
      refine ⟨" := ".toList ++ ((signedDecimal value).toList ++ [';']),
        .inl (List.prefix_append _ _), ?_⟩
      simp [render, subject]
  | callTimer name power done elapsed preset =>
      refine ⟨"(IN := ".toList ++ (power.toList ++ (", PT := ".toList ++ (preset.render.toList ++
        (", Q => ".toList ++ (done.toList ++ (", ET => ".toList ++ (elapsed.toList ++
          ");".toList))))))), .inr (List.prefix_append _ _), ?_⟩
      simp [render, subject]

end Instruction

/-! ## Branches -/

/-- A branch of a program: one that waits for a condition, or one that counts a pass. -/
inductive Branch where
  | guard (condition : Condition)
  | count (counter : String) (limit : Limit)
  deriving DecidableEq, Repr

namespace Branch

/-- The text that opens a branch. -/
def text : Branch → String
  | .guard condition => "IF " ++ condition.render ++ " THEN"
  | .count counter limit => "IF " ++ counter ++ " < " ++ limit.render ++ " THEN"

/-- The lines that divide a branch: a counter goes one way below its limit and another at it. -/
def dividers : Branch → Nat
  | .guard _ => 0
  | .count _ _ => 1

end Branch

/-- The branches of a transition, in the order in which their lines begin. -/
def Transition.branches : Transition → List Branch
  | .jump _ => []
  | .loop _ => []
  | .count counter limit _ otherwise => .count counter limit :: otherwise.branches

/-- The branches of a case, in the order in which their lines begin. -/
def Case.branches (case : Case) : List Branch :=
  case.guard.toList.map Branch.guard ++ case.next.branches

namespace Line

/-- Lines in which branches nest like brackets. -/
inductive Nested : List String → Prop where
  | nil : Nested []
  | line {written : String} {rest : List String} :
      Plain written → Nested rest → Nested (written :: rest)
  | branch {head last : String} {body rest : List String} :
      opens head = true → Nested body → closes last = true → Nested rest →
      Nested (head :: (body ++ last :: rest))

/-- The lines that open a branch, each with the lines behind it. -/
def openings : List String → List (String × List String)
  | [] => []
  | written :: behind =>
      if opens written then (written, behind) :: openings behind else openings behind

/-- Whether a line divides a branch that is opened at an indentation. -/
def dividesAt (level : Nat) (written : String) : Bool :=
  divides written && indentation written == level

/-- What a branch has: the line that opens it, a line of its own that closes it at the same
indentation, and its dividers; all other lines between are indented deeper, and the branches among
them are closed before it is. -/
structure Owns (branch : Branch) (head : String) (behind : List String) : Prop where
  text : words head = branch.text.toList
  closed : ∃ body last rest, behind = body ++ last :: rest ∧ Nested body ∧
    closes last = true ∧ indentation last = indentation head ∧
    (∀ written ∈ body, indentation head < indentation written ∨
      dividesAt (indentation head) written = true) ∧
    body.countP (dividesAt (indentation head)) = branch.dividers

/-- Branches are owned one by one by the lines that open them. -/
def OwnsAll (branches : List Branch) (lines : List String) : Prop :=
  List.Forall₂ (fun branch opening => Owns branch opening.1 opening.2) branches (openings lines)

variable {branch : Branch} {branches branches' : List Branch} {head last written : String}
  {front back body block : List String} {level : Nat}

theorem Nested.append (nested : Nested front) (nested' : Nested back) : Nested (front ++ back) := by
  induction nested with
  | nil => exact nested'
  | line plain _ ih => exact .line plain ih
  | branch opens inner closes _ _ ih =>
      rw [List.cons_append, List.append_assoc, List.cons_append]
      exact .branch opens inner closes ih

theorem openings_append (front back : List String) :
    openings (front ++ back) =
      (openings front).map (fun opening => (opening.1, opening.2 ++ back)) ++ openings back := by
  induction front with
  | nil => rfl
  | cons written rest ih =>
      rw [List.cons_append, openings, openings, ih]
      split <;> rfl

theorem Owns.append (owns : Owns branch head front) (back : List String) :
    Owns branch head (front ++ back) := by
  obtain ⟨text, body, last, rest, rfl, closed⟩ := owns
  exact ⟨text, body, last, rest ++ back, by rw [List.append_assoc, List.cons_append], closed⟩

theorem OwnsAll.append (owns : OwnsAll branches front) (owns' : OwnsAll branches' back) :
    OwnsAll (branches ++ branches') (front ++ back) := by
  rw [OwnsAll, openings_append]
  refine List.rel_append ?_ owns'
  rw [List.forall₂_map_right_iff]
  exact owns.imp fun _ _ owned => owned.append back

/-- Lines from an indentation on that hold branches one after the other or one in another. -/
structure Laid (level : Nat) (lines : List String) (branches : List Branch) : Prop where
  nested : Nested lines
  owned : OwnsAll branches lines
  deep : ∀ written ∈ lines, level ≤ indentation written

namespace Laid

theorem nil : Laid level [] [] :=
  ⟨.nil, .nil, nofun⟩

theorem append (laid : Laid level front branches) (laid' : Laid level back branches') :
    Laid level (front ++ back) (branches ++ branches') where
  nested := laid.nested.append laid'.nested
  owned := laid.owned.append laid'.owned
  deep := List.forall_mem_append.mpr ⟨laid.deep, laid'.deep⟩

theorem mono (laid : Laid level block branches) {outer : Nat} (within : outer ≤ level) :
    Laid outer block branches :=
  ⟨laid.nested, laid.owned, fun written among => Nat.le_trans within (laid.deep written among)⟩

theorem plain (plain : Plain written) (deep : level ≤ indentation written) :
    Laid level [written] [] where
  nested := .line plain .nil
  owned := by
    rw [OwnsAll, openings, plain.opens]
    exact .nil
  deep := by simpa using deep

theorem statements (plain : ∀ written ∈ block, Plain written)
    (deep : ∀ written ∈ block, level ≤ indentation written) : Laid level block [] := by
  induction block with
  | nil => exact nil
  | cons written rest ih =>
      rw [List.forall_mem_cons] at plain deep
      exact (Laid.plain plain.1 deep.1).append (ih plain.2 deep.2)

/-- Lines in front of which a branch is opened and behind which it is closed. -/
theorem enclose (inner : Laid level body branches) (opens : opens head = true)
    (text : words head = branch.text.toList) (closes : closes last = true)
    (indented : indentation last = indentation head)
    (inside : ∀ written ∈ body, indentation head < indentation written ∨
      dividesAt (indentation head) written = true)
    (divided : body.countP (dividesAt (indentation head)) = branch.dividers) :
    Laid (indentation head) (head :: (body ++ [last])) (branch :: branches) where
  nested := .branch opens inner.nested closes .nil
  owned := by
    have noOpening : Line.opens last = false := by
      rw [Line.closes, beq_iff_eq] at closes
      rw [Line.opens, closes]
      decide
    have inBody : openings [last] = [] := by simp [openings, noOpening]
    rw [OwnsAll, openings, if_pos opens, openings_append, inBody, List.append_nil]
    refine .cons ⟨text, body, last, [], rfl, inner.nested, closes, indented, inside, divided⟩ ?_
    rw [List.forall₂_map_right_iff]
    exact inner.owned.imp fun _ _ owned => owned.append [last]
  deep := by
    intro written among
    rw [List.mem_cons, List.mem_append, List.mem_singleton] at among
    rcases among with rfl | inBody | rfl
    · exact Nat.le_refl _
    · rcases inside written inBody with deeper | dividing
      · exact Nat.le_of_lt deeper
      · rw [dividesAt, Bool.and_eq_true, beq_iff_eq] at dividing
        exact Nat.le_of_eq dividing.2.symm
    · exact Nat.le_of_eq indented.symm

/-- No line that is indented deeper divides a branch. -/
theorem countP_dividesAt (laid : Laid (level + 1) body branches) :
    body.countP (dividesAt level) = 0 := by
  rw [List.countP_eq_zero]
  intro written among divides
  have deep := laid.deep written among
  rw [dividesAt, Bool.and_eq_true, beq_iff_eq] at divides
  omega

end Laid

end Line

/-! ## Programs -/

/-- The counters of a transition. -/
def Transition.counters : Transition → List String
  | .jump _ => []
  | .loop _ => []
  | .count counter _ _ otherwise => counter :: otherwise.counters

/-- The names that statements of a case begin with. -/
def Case.subjects (case : Case) : List String :=
  case.body.map Instruction.subject ++ case.onExit.map Instruction.subject ++ case.next.counters

/-- The names that statements of a program begin with. -/
def Program.subjects (program : Program) : List String :=
  program.cases.flatMap Case.subjects ++ program.calls.map Instruction.subject

open Line (Laid Nested OwnsAll indentation jump?)

namespace Instruction

variable {instruction : Instruction} {instructions : List Instruction} {depth : Nat}

theorem plain_render (identifier : Identifier instruction.subject) :
    Line.Plain (Line.render ⟨depth, instruction.render⟩) ∧
      jump? (Line.render ⟨depth, instruction.render⟩) = none := by
  obtain ⟨more, goesOn, chars⟩ := instruction.exists_toList_render
  exact Line.plain_of_identifier depth identifier goesOn chars

theorem laid_lines (named : ∀ name ∈ instructions.map subject, Identifier name) (depth : Nat) :
    Laid (4 * depth) ((lines depth instructions).map Line.render) [] := by
  rw [List.forall_mem_map] at named
  refine .statements ?_ ?_
  · rw [lines, List.map_map, List.forall_mem_map]
    exact fun instruction among => (plain_render (named instruction among)).1
  · rw [lines, List.map_map, List.forall_mem_map]
    exact fun instruction _ => Line.le_indentation_render ⟨depth, instruction.render⟩

theorem jumps_lines (named : ∀ name ∈ instructions.map subject, Identifier name) (depth : Nat) :
    ((lines depth instructions).map Line.render).filterMap jump? = [] := by
  rw [List.forall_mem_map] at named
  rw [lines, List.map_map, List.filterMap_map, List.filterMap_eq_nil_iff]
  exact fun instruction among => (plain_render (named instruction among)).2

end Instruction

namespace Branch

variable {branch : Branch} {depth : Nat}

theorem exists_text (branch : Branch) : ∃ rest, branch.text.toList = 'I' :: 'F' :: ' ' :: rest := by
  cases branch with
  | guard condition => exact ⟨condition.render.toList ++ " THEN".toList, by simp [text]⟩
  | count counter limit =>
      exact ⟨counter.toList ++ (" < ".toList ++ (limit.render.toList ++ " THEN".toList)),
        by simp [text]⟩

theorem words_render (depth : Nat) (branch : Branch) :
    Line.words (Line.render ⟨depth, branch.text⟩) = branch.text.toList := by
  obtain ⟨rest, chars⟩ := branch.exists_text
  rw [Line.words_of_head depth chars (by decide), chars]

theorem opens_render (depth : Nat) (branch : Branch) :
    Line.opens (Line.render ⟨depth, branch.text⟩) = true := by
  obtain ⟨rest, chars⟩ := branch.exists_text
  rw [Line.opens, words_render, chars]
  rfl

theorem indentation_render (depth : Nat) (branch : Branch) :
    indentation (Line.render ⟨depth, branch.text⟩) = 4 * depth := by
  obtain ⟨rest, chars⟩ := branch.exists_text
  exact Line.indentation_of_head depth chars (by decide)

theorem jump?_render (depth : Nat) (branch : Branch) :
    jump? (Line.render ⟨depth, branch.text⟩) = none := by
  obtain ⟨rest, chars⟩ := branch.exists_text
  exact Line.jump?_of_head chars (by decide) (by decide)

end Branch

namespace Line

variable {branches branches' : List Branch} {front back : List String} (depth : Nat)

/-- The line that closes a branch. -/
theorem closing :
    closes (render ⟨depth, "END_IF;"⟩) = true ∧
      indentation (render ⟨depth, "END_IF;"⟩) = 4 * depth ∧
      jump? (render ⟨depth, "END_IF;"⟩) = none := by
  have chars : "END_IF;".toList = 'E' :: "ND_IF;".toList := rfl
  refine ⟨?_, indentation_of_head depth chars (by decide),
    jump?_of_head chars (by decide) (by decide)⟩
  rw [closes, words_of_head depth chars (by decide)]
  rfl

/-- The line that divides a branch. -/
theorem dividing :
    Plain (render ⟨depth, "ELSE"⟩) ∧ dividesAt (4 * depth) (render ⟨depth, "ELSE"⟩) = true ∧
      indentation (render ⟨depth, "ELSE"⟩) = 4 * depth ∧ jump? (render ⟨depth, "ELSE"⟩) = none := by
  have chars : "ELSE".toList = 'E' :: "LSE".toList := rfl
  have indented := indentation_of_head depth chars (by decide)
  refine ⟨plain_of_head chars (by decide) (by decide) (by decide), ?_, indented,
    jump?_of_head chars (by decide) (by decide)⟩
  rw [dividesAt, indented, divides, words_of_head depth chars (by decide), beq_self_eq_true,
    Bool.and_true]
  rfl

/-- A jump is neither the begin nor the end of a branch. -/
theorem plain_next (target : Nat) :
    Plain (render ⟨depth, "#NEXT := " ++ decimal target ++ ";"⟩) := by
  have chars : ("#NEXT := " ++ decimal target ++ ";").toList =
      '#' :: ("NEXT := ".toList ++ (Text.digits target ++ [';'])) := by
    simp [decimal]
  refine plain_of_head chars (by decide) (by decide) ?_
  intro same
  cases (List.cons.inj same).2

variable {depth}

/-- A guard with what it guards. -/
theorem Laid.guard (inner : Laid (4 * (depth + 1)) front branches) (condition : Condition) :
    Laid (4 * depth)
      (render ⟨depth, (Branch.guard condition).text⟩ :: (front ++ [render ⟨depth, "END_IF;"⟩]))
      (.guard condition :: branches) := by
  obtain ⟨closes, indented, -⟩ := closing depth
  have level := (Branch.guard condition).indentation_render depth
  have deeper : Laid (4 * depth + 1) front branches := inner.mono (by omega)
  rw [← level] at indented deeper ⊢
  refine inner.enclose (Branch.opens_render _ _) (Branch.words_render _ _) closes indented ?_ ?_
  · exact fun written among => .inl (deeper.deep written among)
  · exact deeper.countP_dividesAt

/-- A count with what is done below its limit and at it. -/
theorem Laid.count (below : Laid (4 * (depth + 1)) front branches)
    (otherwise : Laid (4 * (depth + 1)) back branches') (counter : String) (limit : Limit) :
    Laid (4 * depth)
      (render ⟨depth, (Branch.count counter limit).text⟩ ::
        (front ++ render ⟨depth, "ELSE"⟩ :: back ++ [render ⟨depth, "END_IF;"⟩]))
      (.count counter limit :: (branches ++ branches')) := by
  obtain ⟨closes, indented, -⟩ := closing depth
  obtain ⟨plain, divides, middle, -⟩ := dividing depth
  have level := (Branch.count counter limit).indentation_render depth
  have deeper : Laid (4 * depth + 1) front branches := below.mono (by omega)
  have deeper' : Laid (4 * depth + 1) back branches' := otherwise.mono (by omega)
  have inner : Laid (4 * depth) (front ++ render ⟨depth, "ELSE"⟩ :: back) (branches ++ branches') :=
    (deeper.mono (by omega)).append
      ((Laid.plain plain (Nat.le_of_eq middle.symm)).append (deeper'.mono (by omega)))
  rw [← level] at indented deeper deeper' divides ⊢
  refine inner.enclose (Branch.opens_render _ _) (Branch.words_render _ _) closes indented ?_ ?_
  · intro written among
    rcases List.mem_append.mp among with inFront | inRest
    · exact .inl (deeper.deep written inFront)
    · rcases List.mem_cons.mp inRest with rfl | inBack
      · exact .inr divides
      · exact .inl (deeper'.deep written inBack)
  · rw [List.countP_append, List.countP_cons, deeper.countP_dividesAt, deeper'.countP_dividesAt,
      if_pos divides]
    rfl

end Line

namespace Transition

/-- The lines of a transition hold its branches, however deep they are nested, and its jumps. -/
theorem laid_lines {transition : Transition} (named : ∀ name ∈ transition.counters, Identifier name)
    (depth : Nat) :
    Laid (4 * depth) ((transition.lines depth).map Line.render) transition.branches ∧
      ((transition.lines depth).map Line.render).filterMap jump? = transition.targets := by
  induction transition generalizing depth with
  | jump target | loop target =>
      refine ⟨.plain (Line.plain_next depth target) (Line.le_indentation_render ⟨depth, _⟩), ?_⟩
      rw [lines, List.map_singleton, List.filterMap_cons_some (Line.jump?_next depth target)]
      rfl
  | count counter limit start otherwise ih =>
      rw [counters, List.forall_mem_cons] at named
      obtain ⟨identifier, named⟩ := named
      obtain ⟨laid, jumps⟩ := ih named (depth + 1)
      have increments : (counter ++ " := " ++ counter ++ " + 1;").toList =
          counter.toList ++ (" := ".toList ++ (counter.toList ++ " + 1;".toList)) := by simp
      have resets : (counter ++ " := 0;").toList =
          counter.toList ++ (" := ".toList ++ ['0', ';']) := by simp
      obtain ⟨plain, noJump⟩ := Line.plain_of_identifier depth identifier
        (.inl (List.prefix_append _ _)) increments
      obtain ⟨plain', noJump'⟩ := Line.plain_of_identifier (depth + 1) identifier
        (.inl (List.prefix_append _ _)) resets
      have below : Laid (4 * (depth + 1))
          [Line.render ⟨depth + 1, "#NEXT := " ++ decimal start ++ ";"⟩] [] :=
        .plain (Line.plain_next _ _) (Line.le_indentation_render ⟨depth + 1, _⟩)
      have above : Laid (4 * (depth + 1)) (Line.render ⟨depth + 1, counter ++ " := 0;"⟩ ::
          (otherwise.lines (depth + 1)).map Line.render) otherwise.branches :=
        (Laid.plain plain' (Line.le_indentation_render ⟨depth + 1, _⟩)).append laid
      have first : Laid (4 * depth)
          [Line.render ⟨depth, counter ++ " := " ++ counter ++ " + 1;"⟩] [] :=
        .plain plain (Line.le_indentation_render ⟨depth, _⟩)
      have whole := first.append (below.count above counter limit)
      simp only [lines, List.map_append, List.map_cons, List.map_nil]
      refine ⟨?_, ?_⟩
      · simpa [branches, Branch.text] using whole
      · have opening := (Branch.count counter limit).jump?_render depth
        rw [Branch.text] at opening
        simp [List.filterMap_append, noJump, noJump', opening,
          Line.jump?_next, (Line.dividing depth).2.2.2, (Line.closing depth).2.2, jumps, targets]

end Transition

namespace Case

variable {case : Case}

/-- What the lines of a case show: its number at the depth of cases and all else indented deeper,
its branches, none of which reaches into another case, and its jumps. -/
structure ShownBy (case : Case) (block : List String) : Prop where
  label : block.head? = some ("    " ++ decimal case.number ++ ":")
  deep : ∀ written ∈ block.tail, 8 ≤ indentation written
  nested : Nested block
  owned : OwnsAll case.branches block
  jumps : block.filterMap jump? = case.next.targets

theorem laid_leaving (named : ∀ name ∈ case.subjects, Identifier name) (depth : Nat) :
    Laid (4 * (depth + 1)) ((case.leaving depth).map Line.render) case.branches ∧
      ((case.leaving depth).map Line.render).filterMap jump? = case.next.targets := by
  rw [subjects, List.forall_mem_append, List.forall_mem_append] at named
  obtain ⟨⟨-, exit⟩, next⟩ := named
  cases guarded : case.guard with
  | none =>
      obtain ⟨laid, jumps⟩ := case.next.laid_lines next (depth + 1)
      rw [leaving, guarded, branches, guarded]
      simp only [List.map_append, List.filterMap_append]
      refine ⟨(Instruction.laid_lines exit (depth + 1)).append laid, ?_⟩
      rw [Instruction.jumps_lines exit, jumps, List.nil_append]
  | some guard =>
      obtain ⟨laid, jumps⟩ := case.next.laid_lines next (depth + 2)
      have inner := (Instruction.laid_lines exit (depth + 2)).append laid
      have opening := (Branch.guard guard).jump?_render (depth + 1)
      rw [Branch.text] at opening
      rw [leaving, guarded, branches, guarded]
      simp only [List.map_append, List.map_cons, List.map_nil, List.filterMap_append]
      refine ⟨?_, ?_⟩
      · simpa [Branch.text] using inner.guard guard
      · simp [opening, Instruction.jumps_lines exit, jumps, (Line.closing (depth + 1)).2.2]

theorem exists_label (number : Nat) :
    ∃ c rest, (decimal number ++ ":").toList = c :: rest ∧ c.isDigit = true := by
  obtain ⟨c, rest, digits⟩ := List.exists_cons_of_ne_nil (Text.digits_ne_nil number)
  have isDigit := Text.isDigit_of_mem_digits (digits ▸ List.mem_cons_self : c ∈ _)
  exact ⟨c, rest ++ [':'], by simp [decimal, digits], isDigit⟩

theorem plain_label (depth number : Nat) :
    Line.Plain (Line.render ⟨depth, decimal number ++ ":"⟩) ∧
      jump? (Line.render ⟨depth, decimal number ++ ":"⟩) = none := by
  obtain ⟨c, rest, chars, isDigit⟩ := exists_label number
  have other {d : Char} (noDigit : d.isDigit = false) : c ≠ d := by
    rintro rfl
    rw [isDigit] at noDigit
    contradiction
  have ends : rest ≠ "ND_IF;".toList := by
    rintro rfl
    have last := congrArg List.getLast? chars
    simp at last
  exact ⟨Line.plain_of_head chars (other rfl) (other rfl) ends,
    Line.jump?_of_head chars (other rfl) (other rfl)⟩

theorem shownBy_lines (named : ∀ name ∈ case.subjects, Identifier name) :
    case.ShownBy ((case.lines 1).map Line.render) := by
  obtain ⟨plain, noJump⟩ := plain_label 1 case.number
  have body : ∀ name ∈ case.body.map Instruction.subject, Identifier name := by
    rw [subjects, List.forall_mem_append, List.forall_mem_append] at named
    exact named.1.1
  obtain ⟨laid, jumps⟩ := laid_leaving named 1
  have rest := (Instruction.laid_lines body 2).append laid
  have whole := (Laid.plain plain (Nat.zero_le _)).append (rest.mono (Nat.zero_le _))
  rw [lines_eq, List.map_cons, List.map_append]
  refine ⟨?_, rest.deep, whole.nested, whole.owned, ?_⟩
  · rw [List.head?_cons, Option.some.injEq, String.append_assoc]
    rfl
  · rw [List.filterMap_cons_none noJump, List.filterMap_append, Instruction.jumps_lines body, jumps,
      List.nil_append]

end Case

namespace Program

theorem forall₂_shownBy {cases : List Case}
    (named : ∀ case ∈ cases, ∀ name ∈ case.subjects, Identifier name) :
    List.Forall₂ Case.ShownBy cases (cases.map fun case => (case.lines 1).map Line.render) := by
  rw [List.forall₂_map_right_iff, List.forall₂_same]
  exact fun case among => Case.shownBy_lines (named case among)

theorem laid_cases {cases : List Case}
    (named : ∀ case ∈ cases, ∀ name ∈ case.subjects, Identifier name) :
    Laid 0 (cases.map fun case => (case.lines 1).map Line.render).flatten
      (cases.flatMap Case.branches) := by
  induction cases with
  | nil => exact .nil
  | cons case rest ih =>
      rw [List.forall_mem_cons] at named
      have shown := Case.shownBy_lines named.1
      have here : Laid 0 ((case.lines 1).map Line.render) case.branches :=
        ⟨shown.nested, shown.owned, fun _ _ => Nat.zero_le _⟩
      exact here.append (ih named.2)

theorem bodyLines_eq (program : Program) :
    program.bodyLines = "CASE #NEXT OF" ::
      ((program.cases.map fun case => (case.lines 1).map Line.render).flatten ++ "END_CASE;" ::
        if program.calls.isEmpty then [] else "" :: program.calls.map Instruction.render) := by
  have calls : (Instruction.lines 0 program.calls).map Line.render =
      program.calls.map Instruction.render := by
    rw [Instruction.lines, List.map_map]
    exact List.map_congr_left fun instruction _ => Line.render_zero _
  have cases : (program.cases.flatMap (Case.lines 1)).map Line.render =
      (program.cases.map fun case => (case.lines 1).map Line.render).flatten := by
    rw [List.map_flatMap, List.flatMap_def]
  rw [bodyLines, lines]
  split <;> simp only [List.map_append, List.map_cons, List.map_nil, Line.render_zero, calls, cases,
    List.cons_append, List.nil_append, List.append_assoc]

/-- The blocks of a program whose names are identifiers.  Over the whole text, branches nest like
brackets, and the lines that open a branch own the branches of the cases, each with its divider if
it counts and without one if it is a guard.  The lines between the first one and the end of the
cases are those of the cases, one after the other: each begins with its number at the depth of
cases, has its own branches and jumps to its own targets, in order. -/
theorem blocks_of_program {program : Program}
    (named : ∀ name ∈ program.subjects, Identifier name) :
    Nested program.bodyLines ∧ OwnsAll (program.cases.flatMap Case.branches) program.bodyLines ∧
    ∃ blocks, List.Forall₂ Case.ShownBy program.cases blocks ∧
      program.bodyLines = "CASE #NEXT OF" :: (blocks.flatten ++ "END_CASE;" ::
        if program.calls.isEmpty then [] else "" :: program.calls.map Instruction.render) := by
  rw [subjects, List.forall_mem_append, List.forall_mem_flatMap] at named
  obtain ⟨cases, calls⟩ := named
  have first : Laid 0 ["CASE #NEXT OF"] [] := .plain ⟨by decide, by decide⟩ (Nat.zero_le _)
  have last : Laid 0 ["END_CASE;"] [] := .plain ⟨by decide, by decide⟩ (Nat.zero_le _)
  have tail : Laid 0 (if program.calls.isEmpty then [] else
      "" :: program.calls.map Instruction.render) [] := by
    split
    · exact .nil
    · have blank : Laid 0 [""] [] := .plain ⟨by decide, by decide⟩ (Nat.zero_le _)
      refine blank.append (.statements ?_ fun _ _ => Nat.zero_le _)
      rw [List.forall_mem_map] at calls ⊢
      intro instruction among
      rw [← Line.render_zero instruction.render]
      exact (Instruction.plain_render (calls instruction among)).1
  have whole := first.append ((laid_cases cases).append (last.append tail))
  rw [List.nil_append, List.nil_append, List.append_nil] at whole
  have text := program.bodyLines_eq
  refine ⟨?_, ?_, _, forall₂_shownBy cases, text⟩
  · rw [text]
    exact whole.nested
  · rw [text]
    exact whole.owned

/-- A program with a guard, and with one counter inside another. -/
def nestedCounts : Program where
  setup := []
  cases := [{
    number := 10
    guard := some ⟨["Sensor_A", "Sensor_B"]⟩
    body := [.setBool "Coil_A" true]
    onExit := [.setBool "Power" false]
    next := .count "Inner" (.literal 3) 10 (.count "Outer" (.variable "N" 2) 0 (.loop 20)) }]
  calls := [.callTimer "Timer" "Power" "Done" "Elapsed" (.variable "T" none)]
  tags := []
  configured := false

/-- The lines of a guard own no divider, those of the two counters inside it one each. -/
theorem blocks_of_program_nested :
    (∀ name ∈ nestedCounts.subjects, Identifier name) ∧ Nested nestedCounts.bodyLines ∧
    OwnsAll [.guard ⟨["Sensor_A", "Sensor_B"]⟩, .count "Inner" (.literal 3),
      .count "Outer" (.variable "N" 2)] nestedCounts.bodyLines ∧
    ∃ block, block.filterMap jump? = [10, 0, 20] ∧
      nestedCounts.bodyLines = "CASE #NEXT OF" :: (block ++ ["END_CASE;", "",
        "Timer(IN := Power, PT := DINT_TO_TIME(T * 1000), Q => Done, ET => Elapsed);"]) := by
  have named : ∀ name ∈ nestedCounts.subjects, Identifier name := by decide +kernel
  have calls : nestedCounts.calls.map Instruction.render =
      ["Timer(IN := Power, PT := DINT_TO_TIME(T * 1000), Q => Done, ET => Elapsed);"] := by
    decide +kernel
  obtain ⟨nested, owned, blocks, shown, text⟩ := blocks_of_program named
  refine ⟨named, nested, owned, ?_⟩
  obtain ⟨block, rest, here, others, rfl⟩ := List.forall₂_cons_left_iff.mp shown
  obtain rfl := List.forall₂_nil_left_iff.mp others
  refine ⟨block, here.jumps, ?_⟩
  rw [text, calls, List.flatten_cons, List.flatten_nil, List.append_nil]
  rfl

end Program

end Pneumatic
