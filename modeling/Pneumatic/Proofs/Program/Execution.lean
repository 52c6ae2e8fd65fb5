import Pneumatic.Program.Basic
import Mathlib.Logic.Function.Basic

/-!
# Executing a program

The memory of a controller, what an instruction changes in it, and where a transition
leads.  Timer calls belong to the plant and change nothing here.
-/

namespace Pneumatic

/-- The memory of a controller: the assignments made to bits, the latest first, and the
values of words. -/
structure Memory where
  bits : List (String × Bool)
  words : String → Int

namespace Memory

/-- Assign to a bit. -/
def setBit (memory : Memory) (tag : String) (value : Bool) : Memory :=
  { memory with bits := (tag, value) :: memory.bits }

/-- Assign to a word. -/
def setWord (memory : Memory) (tag : String) (value : Int) : Memory :=
  { memory with words := Function.update memory.words tag value }

/-- The value of a bit; a bit is off until it is set. -/
def bit (memory : Memory) (tag : String) : Bool :=
  (memory.bits.lookup tag).getD false

theorem words_setWord (memory : Memory) (tag : String) (value : Int) :
    (memory.setWord tag value).words = Function.update memory.words tag value := rfl

/-- The values of words when assignments were made to them, one after the other. -/
def wordsAfter (words : String → Int) (assignments : List (String × Int)) : String → Int :=
  assignments.foldl (fun words assignment => Function.update words assignment.1 assignment.2) words

section

variable {words : String → Int} {assignments : List (String × Int)} {tag : String}

theorem wordsAfter_of_not_mem (untouched : tag ∉ assignments.map Prod.fst) :
    wordsAfter words assignments tag = words tag := by
  induction assignments generalizing words with
  | nil => rfl
  | cons assignment rest ih =>
      rw [List.map_cons, List.mem_cons, not_or] at untouched
      rw [wordsAfter, List.foldl_cons]
      refine (ih untouched.2).trans ?_
      rw [Function.update_of_ne untouched.1]

/-- A word that is assigned the same value every time has that value. -/
theorem wordsAfter_of_forall_eq {value : Int} (assigned : tag ∈ assignments.map Prod.fst)
    (same : ∀ assignment ∈ assignments, assignment.2 = value) :
    wordsAfter words assignments tag = value := by
  induction assignments generalizing words with
  | nil => contradiction
  | cons assignment rest ih =>
      rw [List.forall_mem_cons] at same
      rw [wordsAfter, List.foldl_cons]
      by_cases later : tag ∈ rest.map Prod.fst
      · exact ih later same.2
      · refine (wordsAfter_of_not_mem later).trans ?_
        rw [List.map_cons, List.mem_cons, or_iff_left later] at assigned
        rw [assigned, Function.update_self, same.1]

end

end Memory

namespace Instruction

/-- What an instruction changes. -/
def run (memory : Memory) : Instruction → Memory
  | .setBool tag value => memory.setBit tag value
  | .setInt tag value => memory.setWord tag value
  | .callTimer _ _ _ _ _ => memory

/-- What instructions change, one after the other. -/
def runAll (instructions : List Instruction) (memory : Memory) : Memory :=
  instructions.foldl run memory

/-- The bits that instructions assign, in order. -/
def bits (instructions : List Instruction) : List (String × Bool) :=
  instructions.filterMap fun
    | .setBool tag value => some (tag, value)
    | _ => none

/-- Whether an instruction assigns to no word. -/
def KeepsWords : Instruction → Prop
  | .setInt _ _ => False
  | _ => True

theorem bits_append (left right : List Instruction) :
    bits (left ++ right) = bits left ++ bits right := by
  rw [bits, List.filterMap_append]
  rfl

/-- Instructions leave their assignments in front of the earlier ones. -/
theorem bits_runAll (instructions : List Instruction) (memory : Memory) :
    (runAll instructions memory).bits = (bits instructions).reverse ++ memory.bits := by
  induction instructions generalizing memory with
  | nil => rfl
  | cons instruction rest ih =>
      rw [runAll, List.foldl_cons]
      refine (ih _).trans ?_
      cases instruction <;> simp [run, bits, Memory.setBit, Memory.setWord]

theorem words_runAll {instructions : List Instruction}
    (keeps : ∀ instruction ∈ instructions, instruction.KeepsWords) (memory : Memory) :
    (runAll instructions memory).words = memory.words := by
  induction instructions generalizing memory with
  | nil => rfl
  | cons instruction rest ih =>
      rw [List.forall_mem_cons] at keeps
      rw [runAll, List.foldl_cons]
      refine (ih keeps.2 _).trans ?_
      cases instruction with
      | setBool tag value => rfl
      | setInt tag value => exact keeps.1.elim
      | callTimer name power done elapsed preset => rfl

/-- The words that instructions assign, in order. -/
def words (instructions : List Instruction) : List (String × Int) :=
  instructions.filterMap fun
    | .setInt tag value => some (tag, value)
    | _ => none

theorem mem_words {instructions : List Instruction} {tag : String} {number : Int} :
    (tag, number) ∈ words instructions ↔ .setInt tag number ∈ instructions := by
  rw [words, List.mem_filterMap]
  constructor
  · rintro ⟨instruction, among, assigns⟩
    cases instruction with
    | setInt other found =>
        obtain ⟨rfl, rfl⟩ := Prod.mk.inj (Option.some.inj assigns)
        exact among
    | setBool other found => contradiction
    | callTimer name power done elapsed preset => contradiction
  · intro among
    exact ⟨_, among, rfl⟩

theorem words_eq_nil {instructions : List Instruction}
    (keeps : ∀ instruction ∈ instructions, instruction.KeepsWords) : words instructions = [] := by
  rw [words, List.filterMap_eq_nil_iff]
  intro instruction among
  have kept := keeps instruction among
  cases instruction with
  | setInt tag value => exact kept.elim
  | setBool tag value => rfl
  | callTimer name power done elapsed preset => rfl

theorem words_runAll_eq (instructions : List Instruction) (memory : Memory) :
    (runAll instructions memory).words = Memory.wordsAfter memory.words (words instructions) := by
  induction instructions generalizing memory with
  | nil => rfl
  | cons instruction rest ih =>
      rw [runAll, List.foldl_cons]
      refine (ih _).trans ?_
      cases instruction <;> rfl

end Instruction

/-- The number of passes that a limit asks for. -/
def Limit.value (memory : Memory) : Limit → Int
  | .literal count => count.toNat
  | .variable tag offset => memory.words tag + offset.toNat

/-- The case that a transition leads to, and the memory behind it: a counter counts one
pass more, and starts anew when its limit is reached. -/
def Transition.take (memory : Memory) : Transition → Nat × Memory
  | .jump target => (target, memory)
  | .loop start => (start, memory)
  | .count counter limit start otherwise =>
      let passes := memory.words counter + 1
      if passes < limit.value memory then (start, memory.setWord counter passes)
      else otherwise.take (memory.setWord counter 0)

namespace Case

/-- The signals a case waits for. -/
def waits (case : Case) : List String :=
  (case.guard.map (·.terms)).getD []

/-- Run a case to its end, its guard being met. -/
def perform (case : Case) (memory : Memory) : Nat × Memory :=
  case.next.take (Instruction.runAll (case.body ++ case.onExit) memory)

end Case

/-- Run the active case to its end; without such a case the program rests. -/
def Program.advance (program : Program) : Nat × Memory → Nat × Memory
  | (active, memory) =>
      match program.case? active with
      | some case => case.perform memory
      | none => (active, memory)

/-! ## What is assigned to words -/

/-- What a transition assigns to its counters, in order. -/
def Transition.assigned (memory : Memory) : Transition → List (String × Int)
  | .jump _ => []
  | .loop _ => []
  | .count counter limit _ otherwise =>
      let passes := memory.words counter + 1
      (counter, passes) ::
        if passes < limit.value memory then []
        else (counter, 0) :: otherwise.assigned (memory.setWord counter 0)

/-- The words that a case assigns on its way to the next one, in order. -/
def Case.assigned (case : Case) (memory : Memory) : List (String × Int) :=
  Instruction.words (case.body ++ case.onExit) ++
    case.next.assigned (Instruction.runAll (case.body ++ case.onExit) memory)

/-- The words that the active case assigns; none without such a case. -/
def Program.assigned (program : Program) : Nat × Memory → List (String × Int)
  | (active, memory) =>
      match program.case? active with
      | some case => case.assigned memory
      | none => []

end Pneumatic
