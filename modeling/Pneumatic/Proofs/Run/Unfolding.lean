import Pneumatic.Notation.Sequence

/-!
# Unfolding a sequence

The steps of a sequence in the order they come when every region is written out as
often as it runs.  A course of steps ends, or it reaches a round that repeats for ever,
and then nothing behind it is reached.
-/

namespace Pneumatic

/-- Elements one after the other, finitely many, or some and then a round without end. -/
inductive Course (Element : Type) where
  | ends (elements : List Element)
  | cycles (lead round : List Element)

namespace Course

variable {Element : Type}

/-- The first elements of a course. -/
def take (count : Nat) : Course Element → List Element
  | .ends elements => elements.take count
  | .cycles lead round => (lead ++ (List.replicate count round).flatten).take count

/-- One course and then another, if the first one ends. -/
def append : Course Element → Course Element → Course Element
  | .ends elements, .ends more => .ends (elements ++ more)
  | .ends elements, .cycles lead round => .cycles (elements ++ lead) round
  | .cycles lead round, _ => .cycles lead round

/-- A course several times over. -/
def times (course : Course Element) : Nat → Course Element
  | 0 => .ends []
  | count + 1 => course.append (course.times count)

/-- A course over and over. -/
def forever : Course Element → Course Element
  | .ends elements => .cycles [] elements
  | .cycles lead round => .cycles lead round

/-- Whether a course has an end. -/
def isEnding : Course Element → Bool
  | .ends _ => true
  | .cycles _ _ => false

end Course

/-- How often a region runs when the repeat variable reads as `value`: at least once;
none without end. -/
def Bound.rounds (value : Int16) : Bound → Option Nat
  | .fixed count => some (max 1 count.toNat)
  | .relative offset => some (max 1 (value.toInt + offset.toNat)).toNat
  | .unbounded => none

namespace Node

variable (choice : Region → Int16)

mutual

/-- The steps of a node with their indices, in the order they are carried out.  What the
repeat variable reads as is chosen for each region. -/
def unfold (depth first : Nat) : Node → Course (Nat × Step)
  | .step found => .ends [(first, found)]
  | .region bound body =>
      let region := ⟨first, first + (stepsOf body).length - 1, bound, depth⟩
      match bound.rounds (choice region) with
      | some count => (unfoldAll (depth + 1) first body).times count
      | none => (unfoldAll (depth + 1) first body).forever

/-- The steps of nodes with their indices, in the order they are carried out. -/
def unfoldAll (depth first : Nat) : List Node → Course (Nat × Step)
  | [] => .ends []
  | node :: rest =>
      (node.unfold depth first).append (unfoldAll depth (first + node.steps.length) rest)

end

end Node

/-- The steps of a sequence in the order they are carried out; a wrapped sequence starts
over and over. -/
def Sequence.unfolding (choice : Region → Int16) (sequence : Sequence) : Course (Nat × Step) :=
  let pass := Node.unfoldAll choice 0 0 sequence.nodes
  if sequence.wrapped then pass.forever else pass

/-! ## Courses -/

namespace Course

variable {Element : Type}

/-- A course of which something comes, again and again if it has no end. -/
def Full : Course Element → Prop
  | .ends elements => elements ≠ []
  | .cycles _ round => round ≠ []

/-- The first elements of a course, and what comes behind it if it ends before. -/
def takeThen (count : Nat) (behind : Nat → List Element) : Course Element → List Element
  | .ends elements => elements.take count ++ behind (count - elements.length)
  | .cycles lead round => (cycles lead round).take count

@[simp] theorem append_nil (course : Course Element) : course.append (.ends []) = course := by
  cases course with
  | ends elements => simp [append]
  | cycles lead round => rfl

theorem takeThen_nil (count : Nat) (course : Course Element) :
    course.takeThen count (fun _ => []) = course.take count := by
  cases course with
  | ends elements => simp [takeThen, take]
  | cycles lead round => rfl

theorem length_flatten_replicate_ge {round : List Element} (nonempty : round ≠ []) (count : Nat) :
    count ≤ (List.replicate count round).flatten.length := by
  have one : 1 ≤ round.length := List.length_pos_iff.mpr nonempty
  simp only [List.length_flatten, List.map_replicate, List.sum_replicate_nat]
  exact Nat.le_mul_of_pos_right count one

/-- As many copies of a round as elements are taken are enough. -/
theorem take_flatten_replicate (round : List Element) {count copies : Nat}
    (enough : count ≤ copies) :
    (List.replicate copies round).flatten.take count =
      (List.replicate count round).flatten.take count := by
  by_cases empty : round = []
  · simp [empty]
  · obtain ⟨more, rfl⟩ := Nat.exists_eq_add_of_le enough
    rw [← List.replicate_append_replicate, List.flatten_append, List.take_append_of_le_length]
    exact length_flatten_replicate_ge empty count

theorem takeThen_append (count : Nat) (behind : Nat → List Element)
    (course more : Course Element) :
    (course.append more).takeThen count behind =
      course.takeThen count fun left => more.takeThen left behind := by
  cases course with
  | cycles lead round => rfl
  | ends elements =>
      cases more with
      | ends others =>
          simp only [append, takeThen, List.take_append, List.length_append, List.append_assoc]
          rw [Nat.sub_add_eq]
      | cycles lead round =>
          simp only [append, takeThen, take, List.append_assoc, List.take_append]
          rw [take_flatten_replicate round (Nat.le_trans (Nat.sub_le _ _) (Nat.sub_le _ _)),
            take_flatten_replicate round (Nat.sub_le _ _)]

theorem full_append {course more : Course Element} (full : course.Full)
    (moreFull : more.Full ∨ more = .ends []) : (course.append more).Full := by
  cases course with
  | cycles lead round => exact full
  | ends elements =>
      cases more with
      | ends others => simpa [append, Full] using fun empty => absurd empty full
      | cycles lead round =>
          rcases moreFull with moreFull | isEmpty
          · exact moreFull
          · contradiction

theorem full_times {course : Course Element} (full : course.Full) (count : Nat) :
    (course.times (count + 1)).Full := by
  cases count with
  | zero => exact full_append full (.inr rfl)
  | succ count => exact full_append full (.inl (full_times full count))

theorem full_forever {course : Course Element} (full : course.Full) : course.forever.Full := by
  cases course with
  | ends elements => exact full
  | cycles lead round => exact full

/-- A full course without an end gives as many elements as are taken. -/
theorem length_take_of_full {course : Course Element} (full : course.Full)
    (endless : course.isEnding = false) (count : Nat) : (course.take count).length = count := by
  cases course with
  | ends elements => contradiction
  | cycles lead round =>
      have enough := length_flatten_replicate_ge full count
      rw [take, List.length_take, List.length_append]
      omega

theorem isEnding_append (course more : Course Element) :
    (course.append more).isEnding = (course.isEnding && more.isEnding) := by
  cases course with
  | cycles lead round => rfl
  | ends elements => cases more <;> rfl

theorem isEnding_times (course : Course Element) (count : Nat) :
    (course.times (count + 1)).isEnding = course.isEnding := by
  induction count with
  | zero => rw [times, isEnding_append, times, isEnding, Bool.and_true]
  | succ count ih => rw [times, isEnding_append, ih, Bool.and_self]

theorem isEnding_forever (course : Course Element) : course.forever.isEnding = false := by
  cases course <;> rfl

theorem append_eq_ends_iff {course more : Course Element} {elements : List Element} :
    course.append more = .ends elements ↔
      ∃ left right, course = .ends left ∧ more = .ends right ∧ elements = left ++ right := by
  cases course with
  | cycles lead round => simp [append]
  | ends left =>
      cases more with
      | ends right => simp [append, eq_comm]
      | cycles lead round => simp [append]

/-- What comes of a course that ends comes first when it is repeated. -/
theorem of_times_eq_ends {course : Course Element} {count : Nat} {elements : List Element}
    (ends : course.times (count + 1) = .ends elements) :
    ∃ left right, course = .ends left ∧ elements = left ++ right := by
  obtain ⟨left, right, courseEq, -, split⟩ := append_eq_ends_iff.mp ends
  exact ⟨left, right, courseEq, split⟩

end Course

/-! ## Rounds -/

namespace Bound

theorem rounds_pos {bound : Bound} {value : Int16} {count : Nat}
    (counted : bound.rounds value = some count) : ∃ less, count = less + 1 := by
  cases bound with
  | fixed limit =>
      simp only [rounds, Option.some.injEq] at counted
      exact ⟨count - 1, by omega⟩
  | relative offset =>
      simp only [rounds, Option.some.injEq] at counted
      exact ⟨count - 1, by omega⟩
  | unbounded => contradiction

/-- A repeat variable of sixteen bits never comes near the largest number of passes. -/
theorem passes_eq_rounds (bound : Bound) (value : Int16) :
    bound.passes value.toInt = bound.rounds value := by
  cases bound with
  | fixed limit =>
      simp only [passes, rounds, Option.some.injEq]
      omega
  | relative offset =>
      have small := Int16.toInt_lt value
      have offsetSmall := offset.toNat_lt
      simp only [passes, rounds, Option.some.injEq]
      omega
  | unbounded => rfl

/-- A bound without the variable has as many rounds whatever the variable is. -/
theorem rounds_of_not_usesVariable {bound : Bound} (constant : bound.usesVariable = false)
    (value : Int16) : bound.passes 0 = bound.rounds value := by
  cases bound with
  | fixed limit =>
      simp only [passes, rounds, Option.some.injEq]
      omega
  | relative offset => contradiction
  | unbounded => rfl

theorem rounds_eq_none_iff (bound : Bound) (value : Int16) :
    bound.rounds value = none ↔ bound = .unbounded := by
  cases bound <;> simp [rounds]

end Bound

end Pneumatic
