import Pneumatic.Proofs.Run.Alone
import Mathlib.Data.Nat.Find
import Mathlib.Order.Bounds.Basic

/-!
# Waiting for sensors

A run that waits for sensors looks at them, pauses, and looks again.  It goes on at the first
look that finds all of them on, and fails at the first look at which the limit has passed, if
none before and not that one finds all on.  Which of both it is depends on nothing but what the
sensors show at the looks.
-/

namespace Pneumatic.Run

/-! ## Sensors with a history -/

/-- A field whose sensors go on and off as in a history.  Nothing fails there, and no one asks a
run to stop. -/
def Field.showing (history : Nat → String → Bool) : Field Unit where
  registry _ := .empty
  setRegistry _ _ := ()
  perform
    | .read tag, _, _, now, _ => (Except.ok (.bool (history now tag)), ())
    | .checkStop, _, _, _, _ => (false, ())
    | .connect, _, _, _, _ => (Except.ok (), ())
    | .openSession, _, _, _, _ => (Except.ok (), ())
    | .write _, _, _, _, _ => (Except.ok (), ())
    | .closeSession, _, _, _, _ => (Except.ok (), ())
    | .disconnect, _, _, _, _ => (Except.ok (), ())

/-- The watch that a run keeps. -/
def Phase.watch? : Phase → Option Watch
  | .polling watch | .looking watch _ _ | .pausing watch | .paused watch => some watch
  | _ => none

namespace Solo

variable {σ : Type} {field : Field σ} {watch : Watch} {solo mid later later' : Solo σ}

theorem clock_le_step (field : Field σ) (solo : Solo σ) : solo.clock ≤ (solo.step field).clock := by
  cases move : solo.run.move with
  | ask request resume => rw [step_of_ask move]
  | sleep span resume =>
      by_cases stops : solo.stopRequested field = true
      · rw [step_of_stopped move stops]
      · rw [step_of_sleep move stops]
        exact Nat.le_add_right _ _
  | yield resume => rw [step_of_yield move]
  | halt result => rw [step_of_result? (by rw [result?, move])]

/-- A run alone comes this far without leaving its watch before. -/
inductive Stays (field : Field σ) (watch : Watch) : Solo σ → Solo σ → Prop where
  | refl (solo : Solo σ) : Stays field watch solo solo
  | step {solo later : Solo σ} : solo.run.phase.watch? = some watch →
      Stays field watch (solo.step field) later → Stays field watch solo later

/-- What a run alone has become when it leaves its watch. -/
def Leaves (field : Field σ) (watch : Watch) (solo later : Solo σ) : Prop :=
  Stays field watch solo later ∧ later.run.phase.watch? ≠ some watch

theorem Stays.trans (first : Stays field watch solo mid) (second : Stays field watch mid later) :
    Stays field watch solo later := by
  induction first with
  | refl solo => exact second
  | step watches _ ih => exact .step watches (ih second)

theorem Stays.clock_le (stays : Stays field watch solo later) : solo.clock ≤ later.clock := by
  induction stays with
  | refl solo => exact Nat.le_refl _
  | step _ _ ih => exact (clock_le_step field _).trans ih

/-- A watch that is left is left from everywhere on the way. -/
theorem Leaves.resume (leaves : Leaves field watch solo later)
    (stays : Stays field watch solo mid) : Leaves field watch mid later := by
  induction stays with
  | refl solo => exact leaves
  | step watches _ ih =>
      obtain ⟨reached, left⟩ := leaves
      cases reached with
      | refl => exact absurd watches left
      | step _ reached => exact ih ⟨reached, left⟩

theorem Leaves.unique (leaves : Leaves field watch solo later)
    (leaves' : Leaves field watch solo later') : later = later' := by
  obtain ⟨reached, -⟩ := leaves'.resume leaves.1
  cases reached with
  | refl => rfl
  | step watches _ => exact absurd watches leaves.2

end Solo

/-! ## What follows a watch -/

variable {run : Run} {watch : Watch} {goal : Option Nat} {now : Nat}

/-- A phase in which a run goes on for a goal: it does not fail for a sensor, and does not watch
sensors for the same goal again. -/
def Phase.Pursues (goal : Option Nat) (phase : Phase) : Prop :=
  (∀ watch, phase.watch? = some watch → watch.goal ≠ goal) ∧
    ∀ sensor waited, phase ≠ .closing (.error (.sensorTimeout sensor waited))

namespace Phase.Pursues

variable {phase : Phase}

theorem of_none (unwatched : phase.watch? = none)
    (other : ∀ sensor waited, phase ≠ .closing (.error (.sensorTimeout sensor waited))) :
    phase.Pursues goal := by
  refine ⟨fun watch watches => ?_, other⟩
  rw [unwatched] at watches
  contradiction

theorem of_watch (watches : phase.watch? = some watch) (other : watch.goal ≠ goal) :
    phase.Pursues goal := by
  refine ⟨fun watch' watches' => ?_, fun sensor waited fails => ?_⟩
  · obtain rfl : watch = watch' := Option.some.inj (watches.symm.trans watches')
    exact other
  · rw [fails] at watches
    contradiction

end Phase.Pursues

theorem pursues_follow (run : Run) (index now : Nat) (leave : Walk.Leave) :
    (run.follow index now leave).phase.Pursues (some index) := by
  cases leave with
  | ask walk region rest => exact .of_none rfl (by simp [follow])
  | go walk next =>
      cases next with
      | none => exact .of_watch rfl (by simp)
      | some next =>
          simp only [follow]
          split
          · exact .of_none rfl (by simp [enter])
          · next onward => exact .of_watch rfl (by simp; omega)

theorem pursues_carryOut (run : Run) (now index : Nat) (writes : List Field.Write)
    (delay : Duration) (tokens : List Token) :
    (run.carryOut now index writes delay tokens).phase.Pursues (some index) := by
  induction tokens generalizing writes delay with
  | nil =>
      rw [carryOut, beginDelay]
      split
      · split
        · exact pursues_follow run index now _
        · exact .of_none rfl (by simp [enter])
      · exact .of_none rfl (by simp [enter])
  | cons token rest ih =>
      match token with
      | .actuation actuation => exact ih _ _
      | .timer (.fixed span) => exact ih _ _
      | .timer (.relative offset) => exact .of_none rfl (by simp [carryOut, enter])
      | .pressure pressure => exact .of_none rfl (by simp [carryOut, fail, enter])

theorem pursues_beginStep (run : Run) (now : Nat) (goal : Option Nat) :
    (run.beginStep now goal).phase.Pursues goal := by
  cases goal with
  | none => exact .of_none rfl (by simp [beginStep, complete, enter])
  | some index => exact pursues_carryOut run now index _ _ _

theorem enter_follow (run : Run) (phase : Phase) (index now : Nat) (leave : Walk.Leave) :
    (run.enter phase).follow index now leave = run.follow index now leave := by
  cases leave with
  | ask walk region rest => rfl
  | go walk next =>
      cases next with
      | none => rfl
      | some next => rfl

/-- How a step begins does not depend on the phase before. -/
theorem enter_carryOut (run : Run) (phase : Phase) (now index : Nat) (writes : List Field.Write)
    (delay : Duration) (tokens : List Token) :
    (run.enter phase).carryOut now index writes delay tokens =
      run.carryOut now index writes delay tokens := by
  induction tokens generalizing writes delay with
  | nil =>
      rw [carryOut, carryOut, beginDelay, beginDelay, leaveStep, leaveStep, enter_follow]
      rfl
  | cons token rest ih =>
      match token with
      | .actuation actuation => exact ih _ _
      | .timer (.fixed span) => exact ih _ _
      | .timer (.relative offset) => rfl
      | .pressure pressure => rfl

theorem enter_beginStep (run : Run) (phase : Phase) (now : Nat) (goal : Option Nat) :
    (run.enter phase).beginStep now goal = run.beginStep now goal := by
  cases goal with
  | none => rfl
  | some index => exact enter_carryOut run phase now index _ _ _

/-! ## Looks and pauses -/

/-- The milliseconds between two looks. -/
def Settings.pause (settings : Settings) : Nat :=
  min settings.pollInterval.toNat longestWait

theorem Settings.pause_pos {settings : Settings} (polls : settings.pollInterval ≠ 0) :
    0 < settings.pause := by
  have positive : 0 < settings.pollInterval.toNat := by
    rw [Nat.pos_iff_ne_zero]
    exact fun zero => polls (UInt64.toNat_inj.mp zero)
  exact Nat.lt_min.mpr ⟨positive, by decide⟩

theorem deadline_pollInterval (settings : Settings) (now : Nat) :
    deadline now (.ofMillis settings.pollInterval) = now + settings.pause := by
  have whole : (Duration.ofMillis settings.pollInterval).millisUp =
      settings.pollInterval.toNat := by
    simp only [Duration.millisUp, Duration.ofMillis]
    omega
  rw [deadline, waitEnd, whole, Settings.pause]

namespace Solo

variable {history : Nat → String → Bool}

/-- A look goes on with the first sensor that is off, or with the step if all are on. -/
theorem stays_look (history : Nat → String → Bool) (run : Run) (watch : Watch) (now : Nat)
    (sensors : List String) :
    Stays (.showing history) watch ⟨(), now, run.look watch now sensors⟩ ⟨(), now,
      match sensors.find? (!history now ·) with
      | none => run.beginStep now watch.goal
      | some sensor => run.wait watch sensor now⟩ := by
  induction sensors generalizing run with
  | nil => exact .refl _
  | cons sensor rest ih =>
      have looked : Solo.step (.showing history) ⟨(), now, run.enter (.looking watch sensor rest)⟩ =
          ⟨(), now,
            if history now sensor then (run.enter (.looking watch sensor rest)).look watch now rest
            else (run.enter (.looking watch sensor rest)).wait watch sensor now⟩ :=
        rfl
      refine .step rfl ?_
      rw [look, looked, List.find?_cons]
      cases history now sensor with
      | false => exact .refl _
      | true =>
          have goesOn := ih (run.enter (.looking watch sensor rest))
          simp only [enter_beginStep] at goesOn
          exact goesOn

/-- A look at all sensors of a watch. -/
theorem stays_polling (history : Nat → String → Bool) (run : Run) (watch : Watch) (now : Nat) :
    Stays (.showing history) watch ⟨(), now, run.enter (.polling watch)⟩ ⟨(), now,
      match (watch.pending.map sensor).find? (!history now ·) with
      | none => run.beginStep now watch.goal
      | some sensor => run.wait watch sensor now⟩ := by
  have begun := stays_look history (run.enter (.polling watch)) watch now (watch.pending.map sensor)
  simp only [enter_beginStep] at begun
  exact .step rfl begun

/-- A pause between two looks. -/
theorem stays_pausing (history : Nat → String → Bool) (polls : run.settings.pollInterval ≠ 0)
    (watch : Watch) (now : Nat) :
    Stays (.showing history) watch ⟨(), now, run.enter (.pausing watch)⟩
      ⟨(), now + run.settings.pause, run.enter (.polling watch)⟩ := by
  have asked : Solo.step (.showing history) ⟨(), now, run.enter (.pausing watch)⟩ = ⟨(), now,
      run.enter (if run.settings.pollInterval = 0 then .polling watch else .paused watch)⟩ :=
    rfl
  have slept : Solo.step (.showing history) ⟨(), now, run.enter (.paused watch)⟩ =
      ⟨(), deadline now (.ofMillis run.settings.pollInterval), run.enter (.polling watch)⟩ :=
    rfl
  refine .step rfl ?_
  rw [asked, if_neg polls]
  refine .step rfl ?_
  rw [slept, deadline_pollInterval]
  exact .refl _

end Solo

/-! ## From look to look -/

/-- All sensors of actuations are on at a time. -/
def AllOn (history : Nat → String → Bool) (pending : List Actuation) (time : Nat) : Prop :=
  ∀ actuation ∈ pending, history time (sensor actuation) = true

instance (history : Nat → String → Bool) (pending : List Actuation) (time : Nat) :
    Decidable (AllOn history pending time) :=
  inferInstanceAs (Decidable (∀ actuation ∈ pending, history time (sensor actuation) = true))

/-- The first look at which the limit has passed. -/
def Settings.LastLook (settings : Settings) (last : Nat) : Prop :=
  ∃ limit, settings.sensorTimeout = some limit ∧
    IsLeast {look | limit.toNat ≤ look * settings.pause} last

variable {history : Nat → String → Bool} {pending : List Actuation} {since time look last : Nat}
  {limit : UInt64}

theorem find?_eq_none_iff_allOn :
    (pending.map sensor).find? (!history time ·) = none ↔ AllOn history pending time := by
  simp [AllOn]

theorem Settings.LastLook.unique {settings : Settings} {last last' : Nat}
    (isLast : settings.LastLook last) (isLast' : settings.LastLook last') : last = last' := by
  obtain ⟨limit, timeout, least⟩ := isLast
  obtain ⟨limit', timeout', least'⟩ := isLast'
  obtain rfl : limit = limit' := Option.some.inj (timeout.symm.trans timeout')
  exact IsLeast.unique least least'

theorem Settings.LastLook.lt_limit {settings : Settings} (isLast : settings.LastLook last)
    (timeout : settings.sensorTimeout = some limit) (before : look < last) :
    look * settings.pause < limit.toNat := by
  obtain ⟨limit', timeout', least⟩ := isLast
  obtain rfl : limit = limit' := Option.some.inj (timeout.symm.trans timeout')
  by_contra passed
  exact Nat.not_le.mpr before (least.2 (Nat.not_lt.mp passed))

theorem Settings.exists_lastLook {settings : Settings} (polls : settings.pollInterval ≠ 0)
    (timeout : settings.sensorTimeout = some limit) : ∃ last, settings.LastLook last := by
  have passes : ∃ look, limit.toNat ≤ look * settings.pause :=
    ⟨limit.toNat, Nat.le_mul_of_pos_right _ (pause_pos polls)⟩
  exact ⟨Nat.find passes, limit, timeout, Nat.find_spec passes, fun _ => Nat.find_min' passes⟩

namespace Solo

theorem wait_of_lt (within : ∀ limit, run.settings.sensorTimeout = some limit →
      now - watch.since < limit.toNat) (sensor : String) :
    run.wait watch sensor now = run.enter (.pausing watch) := by
  rw [wait]
  split
  · next limit timeout => rw [if_neg (Nat.not_le.mpr (within limit timeout))]
  · rfl

theorem wait_of_le (timeout : run.settings.sensorTimeout = some limit)
    (passed : limit.toNat ≤ now - watch.since) (sensor : String) :
    run.wait watch sensor now =
      run.fail (.sensorTimeout sensor ((now - watch.since) % UInt64.size)) := by
  rw [wait, timeout]
  exact if_pos passed

/-- As long as some sensor is off and the limit has not passed, there is another look. -/
theorem stays_await (goal : Option Nat) (look : Nat) (polls : run.settings.pollInterval ≠ 0)
    (off : ∀ earlier < look, ¬ AllOn history pending (since + earlier * run.settings.pause))
    (within : ∀ last, run.settings.LastLook last → look ≤ last) :
    Stays (.showing history) ⟨pending, since, goal⟩ ⟨(), since, run.await pending goal since⟩
      ⟨(), since + look * run.settings.pause, run.enter (.polling ⟨pending, since, goal⟩)⟩ := by
  induction look with
  | zero =>
      rw [Nat.zero_mul]
      exact .refl _
  | succ look ih =>
      have before := ih (fun earlier lt => off earlier (Nat.lt_succ_of_lt lt))
        fun last isLast => Nat.le_of_succ_le (within last isLast)
      have looked := stays_polling history run ⟨pending, since, goal⟩
        (since + look * run.settings.pause)
      have early : ∀ limit, run.settings.sensorTimeout = some limit →
          since + look * run.settings.pause - since < limit.toNat := by
        intro limit timeout
        obtain ⟨last, isLast⟩ := Settings.exists_lastLook polls timeout
        have notPassed := isLast.lt_limit timeout (within last isLast)
        omega
      have again := stays_pausing history polls ⟨pending, since, goal⟩
        (since + look * run.settings.pause)
      cases found : (pending.map sensor).find?
          (!history (since + look * run.settings.pause) ·) with
      | none => exact absurd (find?_eq_none_iff_allOn.mp found) (off look (Nat.lt_succ_self look))
      | some tag =>
          have waits : run.wait ⟨pending, since, goal⟩ tag (since + look * run.settings.pause) =
              run.enter (.pausing ⟨pending, since, goal⟩) := wait_of_lt early tag
          simp only [found, waits] at looked
          rw [Nat.succ_mul, ← Nat.add_assoc]
          exact (before.trans looked).trans again

/-- At the first look that finds all sensors on, if it comes in time, the run goes on. -/
theorem leaves_of_allOn (goal : Option Nat) (polls : run.settings.pollInterval ≠ 0)
    (least : IsLeast {look | AllOn history pending (since + look * run.settings.pause)} look)
    (within : ∀ last, run.settings.LastLook last → look ≤ last) :
    Leaves (.showing history) ⟨pending, since, goal⟩ ⟨(), since, run.await pending goal since⟩
      ⟨(), since + look * run.settings.pause,
        run.beginStep (since + look * run.settings.pause) goal⟩ := by
  have reached := stays_await goal look polls
    (fun earlier lt on => Nat.not_le.mpr lt (least.2 on)) within
  have looked := stays_polling history run ⟨pending, since, goal⟩
    (since + look * run.settings.pause)
  simp only [find?_eq_none_iff_allOn.mpr least.1] at looked
  refine ⟨reached.trans looked, fun watches => ?_⟩
  exact (pursues_beginStep run (since + look * run.settings.pause) goal).1 _ watches rfl

/-- If no look up to the last one finds all sensors on, the run fails for the first sensor that is
off then. -/
theorem leaves_of_not_allOn (goal : Option Nat) (polls : run.settings.pollInterval ≠ 0)
    (isLast : run.settings.LastLook last)
    (off : ∀ look ≤ last, ¬ AllOn history pending (since + look * run.settings.pause)) :
    ∃ tag, (pending.map sensor).find? (!history (since + last * run.settings.pause) ·) = some tag ∧
      Leaves (.showing history) ⟨pending, since, goal⟩ ⟨(), since, run.await pending goal since⟩
        ⟨(), since + last * run.settings.pause,
          run.fail (.sensorTimeout tag (last * run.settings.pause % UInt64.size))⟩ := by
  have reached := stays_await goal last polls (fun earlier lt => off earlier (Nat.le_of_lt lt))
    fun _ isLast' => Nat.le_of_eq (isLast.unique isLast')
  have looked := stays_polling history run ⟨pending, since, goal⟩
    (since + last * run.settings.pause)
  cases found : (pending.map sensor).find? (!history (since + last * run.settings.pause) ·) with
  | none => exact absurd (find?_eq_none_iff_allOn.mp found) (off last (Nat.le_refl last))
  | some tag =>
      obtain ⟨limit, timeout, passed, -⟩ := isLast
      have elapsed : since + last * run.settings.pause - since = last * run.settings.pause :=
        Nat.add_sub_cancel_left _ _
      have fails : run.wait ⟨pending, since, goal⟩ tag (since + last * run.settings.pause) =
          run.fail (.sensorTimeout tag (last * run.settings.pause % UInt64.size)) := by
        rw [wait_of_le timeout (elapsed.symm ▸ passed), elapsed]
      simp only [found, fails] at looked
      exact ⟨tag, rfl, reached.trans looked, by simp [fail, enter, Phase.watch?]⟩

/-- A run that waits for sensors without end does not leave its watch. -/
theorem not_leaves (polls : run.settings.pollInterval ≠ 0)
    (timeless : ∀ last, ¬ run.settings.LastLook last)
    (off : ∀ look, ¬ AllOn history pending (since + look * run.settings.pause))
    (later : Solo Unit) :
    ¬ Leaves (.showing history) ⟨pending, since, goal⟩ ⟨(), since, run.await pending goal since⟩
      later := by
  intro leaves
  have reached := stays_await goal (later.clock + 1) polls (fun earlier _ => off earlier)
    fun last isLast => absurd isLast (timeless last)
  have clock := (leaves.resume reached).1.clock_le
  have pause := Settings.pause_pos polls
  have grows := Nat.le_mul_of_pos_right (later.clock + 1) pause
  simp only at clock
  omega

/-- A watch ends in one of two ways, or never. -/
theorem leaves_cases (history : Nat → String → Bool) (polls : run.settings.pollInterval ≠ 0)
    (pending : List Actuation) (goal : Option Nat) (since : Nat) :
    (∃ last tag, run.settings.LastLook last ∧
      (∀ look ≤ last, ¬ AllOn history pending (since + look * run.settings.pause)) ∧
      (pending.map sensor).find? (!history (since + last * run.settings.pause) ·) = some tag ∧
      Leaves (.showing history) ⟨pending, since, goal⟩ ⟨(), since, run.await pending goal since⟩
        ⟨(), since + last * run.settings.pause,
          run.fail (.sensorTimeout tag (last * run.settings.pause % UInt64.size))⟩) ∨
    (∃ look, IsLeast {look | AllOn history pending (since + look * run.settings.pause)} look ∧
      (∀ last, run.settings.LastLook last → look ≤ last) ∧
      Leaves (.showing history) ⟨pending, since, goal⟩ ⟨(), since, run.await pending goal since⟩
        ⟨(), since + look * run.settings.pause,
          run.beginStep (since + look * run.settings.pause) goal⟩) ∨
    ∀ later, ¬ Leaves (.showing history) ⟨pending, since, goal⟩
      ⟨(), since, run.await pending goal since⟩ later := by
  classical
  by_cases ever : ∃ look, AllOn history pending (since + look * run.settings.pause)
  · have least : IsLeast {look | AllOn history pending (since + look * run.settings.pause)}
        (Nat.find ever) := ⟨Nat.find_spec ever, fun _ => Nat.find_min' ever⟩
    by_cases within : ∀ last, run.settings.LastLook last → Nat.find ever ≤ last
    · exact .inr (.inl ⟨_, least, within, leaves_of_allOn goal polls least within⟩)
    · simp only [not_forall, Nat.not_le] at within
      obtain ⟨last, isLast, late⟩ := within
      have off : ∀ look ≤ last, ¬ AllOn history pending (since + look * run.settings.pause) :=
        fun look le => Nat.find_min ever (Nat.lt_of_le_of_lt le late)
      obtain ⟨tag, found, leaves⟩ := leaves_of_not_allOn goal polls isLast off
      exact .inl ⟨last, tag, isLast, off, found, leaves⟩
  · have off := not_exists.mp ever
    by_cases timeless : ∃ last, run.settings.LastLook last
    · obtain ⟨last, isLast⟩ := timeless
      obtain ⟨tag, found, leaves⟩ := leaves_of_not_allOn goal polls isLast fun look _ => off look
      exact .inl ⟨last, tag, isLast, fun look _ => off look, found, leaves⟩
    · exact .inr (.inr fun later => not_leaves polls (not_exists.mp timeless) off later)

theorem beginStep_ne_fail (run : Run) (now : Nat) (goal : Option Nat) (tag : String)
    (waited : Nat) : run.beginStep now goal ≠ run.fail (.sensorTimeout tag waited) := by
  intro same
  exact (pursues_beginStep run now goal).2 tag waited (congrArg Run.phase same)

theorem sensorTimeout_inj {later later' waited waited' : Nat} {tag tag' : String}
    (same : (⟨(), later, run.fail (.sensorTimeout tag waited)⟩ : Solo Unit) =
      ⟨(), later', run.fail (.sensorTimeout tag' waited')⟩) :
    later = later' ∧ tag = tag' ∧ waited = waited' := by
  simpa only [Solo.mk.injEq, fail, enter, Run.mk.injEq, Phase.closing.injEq, Except.error.injEq,
    Error.sensorTimeout.injEq, true_and] using same

/-- A run that waits for sensors fails for one exactly if none of the looks up to the last finds
all of them on, and goes on exactly at the first look that does. -/
theorem leaves_await_iff (history : Nat → String → Bool) {run : Run}
    (polls : run.settings.pollInterval ≠ 0) (pending : List Actuation) (goal : Option Nat)
    (since : Nat) :
    let start : Solo Unit := ⟨(), since, run.await pending goal since⟩
    let time (look : Nat) : Nat := since + look * run.settings.pause
    (∀ later tag waited,
      Leaves (.showing history) ⟨pending, since, goal⟩ start
          ⟨(), later, run.fail (.sensorTimeout tag waited)⟩ ↔
        ∃ last, run.settings.LastLook last ∧
          (∀ look ≤ last, ¬ AllOn history pending (time look)) ∧ later = time last ∧
          waited = last * run.settings.pause % UInt64.size ∧
          (pending.map sensor).find? (!history later ·) = some tag) ∧
      ∀ later,
        Leaves (.showing history) ⟨pending, since, goal⟩ start
            ⟨(), later, run.beginStep later goal⟩ ↔
          ∃ look, IsLeast {look | AllOn history pending (time look)} look ∧ later = time look ∧
            ∀ last, run.settings.LastLook last → look ≤ last := by
  intro start time
  have ends := leaves_cases history polls pending goal since
  refine ⟨fun later tag waited => ⟨fun leaves => ?_, ?_⟩, fun later => ⟨fun leaves => ?_, ?_⟩⟩
  · rcases ends with ⟨last, tag', isLast, off, found, fails⟩ | ⟨look, -, -, goesOn⟩ | never
    · obtain ⟨rfl, rfl, rfl⟩ := sensorTimeout_inj (leaves.unique fails)
      exact ⟨last, isLast, off, rfl, rfl, found⟩
    · have same := congrArg Solo.run (goesOn.unique leaves)
      exact absurd same (beginStep_ne_fail run _ goal tag waited)
    · exact absurd leaves (never _)
  · rintro ⟨last, isLast, off, rfl, rfl, found⟩
    obtain ⟨tag', found', fails⟩ := leaves_of_not_allOn goal polls isLast off
    obtain rfl : tag = tag' := Option.some.inj (found.symm.trans found')
    exact fails
  · rcases ends with ⟨last, tag, -, -, -, fails⟩ | ⟨look, least, within, goesOn⟩ | never
    · have same := congrArg Solo.run (leaves.unique fails)
      exact absurd same (beginStep_ne_fail run later goal tag _)
    · have clock : later = time look := congrArg Solo.clock (leaves.unique goesOn)
      exact ⟨look, least, clock, within⟩
    · exact absurd leaves (never _)
  · rintro ⟨look, least, rfl, within⟩
    exact leaves_of_allOn goal polls least within

theorem leaves_await_flicker :
    let settings : Settings :=
      { Settings.default with pollInterval := 20, sensorTimeout := some 50 }
    let run : Run := .start ⟨"", [], false⟩ settings ⟨"plc", 0⟩ 1 1
    let pending : List Actuation := [⟨'A', .extend⟩, ⟨'B', .extend⟩]
    let history (time : Nat) (tag : String) : Bool :=
      if tag = "Sensor_A_Extended" then time < 30 else 20 < time
    run.settings.pollInterval ≠ 0 ∧
      Leaves (.showing history) ⟨pending, 0, none⟩ ⟨(), 0, run.await pending none 0⟩
        ⟨(), 60, run.fail (.sensorTimeout "Sensor_A_Extended" 60)⟩ := by
  intro settings run pending history
  have polls : run.settings.pollInterval ≠ 0 := by decide
  have pause : run.settings.pause = 20 := by decide
  have isLast : run.settings.LastLook 3 := by
    refine ⟨50, rfl, by decide, fun look passed => ?_⟩
    change 50 ≤ look * run.settings.pause at passed
    rw [pause] at passed
    omega
  have off : ∀ look ≤ 3, ¬ AllOn history pending (0 + look * run.settings.pause) := by decide
  refine ⟨polls, ((leaves_await_iff history polls pending none 0).1 60 _ 60).mpr ?_⟩
  exact ⟨3, isLast, off, by decide, by decide, by decide⟩

/-- A pause is never longer than the longest wait, and a time waited is cut to a word of 64 bits,
however long the pause or the limit that was asked for. -/
theorem leaves_await_longestWait :
    let waiting (pause limit : UInt64) : Run := .start ⟨"", [], false⟩
      { Settings.default with pollInterval := pause, sensorTimeout := some limit } ⟨"plc", 0⟩ 1 1
    let off (_ : Nat) (_ : String) : Bool := false
    let pending : List Actuation := [⟨'A', .extend⟩]
    let watch : Watch := ⟨pending, 0, some 1⟩
    let fails (run : Run) (later waited : Nat) : Prop :=
      Leaves (.showing off) watch ⟨(), 0, run.await pending (some 1) 0⟩
        ⟨(), later, run.fail (.sensorTimeout "Sensor_A_Extended" waited)⟩
    (fails (waiting 2000000000000 1) 946080000000 946080000000 ∧
        ¬ fails (waiting 2000000000000 1) 2000000000000 2000000000000) ∧
      fails (waiting 900000000000 18446744073709551615) 18446744700000000000 626290448384 ∧
        ¬ fails (waiting 900000000000 18446744073709551615) 18446744700000000000
          18446744700000000000 := by
  intro waiting off pending watch fails
  have never : ∀ (run : Run) (last : Nat), run.settings.pollInterval ≠ 0 →
      run.settings.LastLook last →
        fails run (last * run.settings.pause) (last * run.settings.pause % UInt64.size) := by
    intro run last polls isLast
    have dark : ∀ look ≤ last, ¬ AllOn off pending (0 + look * run.settings.pause) := by
      simp [AllOn, off, pending]
    obtain ⟨tag, found, leaves⟩ := leaves_of_not_allOn (some 1) polls isLast dark
    obtain rfl : "Sensor_A_Extended" = tag := Option.some.inj found
    rwa [Nat.zero_add] at leaves
  have long : fails (waiting 2000000000000 1) 946080000000 946080000000 := by
    have pause : (waiting 2000000000000 1).settings.pause = 946080000000 := by decide
    have isLast : (waiting 2000000000000 1).settings.LastLook 1 := by
      refine ⟨1, rfl, ?_, fun look passed => ?_⟩
      · change 1 ≤ 1 * (waiting 2000000000000 1).settings.pause
        omega
      · change 1 ≤ look * (waiting 2000000000000 1).settings.pause at passed
        exact Nat.pos_of_ne_zero fun zero => by simp [zero] at passed
    have reached := never _ 1 (by decide) isLast
    rwa [pause, Nat.one_mul, show 946080000000 % UInt64.size = 946080000000 by decide] at reached
  have cut : fails (waiting 900000000000 18446744073709551615) 18446744700000000000
      626290448384 := by
    have pause : (waiting 900000000000 18446744073709551615).settings.pause = 900000000000 := by
      decide
    have isLast : (waiting 900000000000 18446744073709551615).settings.LastLook 20496383 := by
      refine ⟨18446744073709551615, rfl, ?_, fun look passed => ?_⟩
      · change 18446744073709551615 ≤
          20496383 * (waiting 900000000000 18446744073709551615).settings.pause
        omega
      · change 18446744073709551615 ≤
          look * (waiting 900000000000 18446744073709551615).settings.pause at passed
        rw [pause] at passed
        omega
    have reached := never _ 20496383 (by decide) isLast
    rwa [pause, show 20496383 * 900000000000 % UInt64.size = 626290448384 by decide,
      show 20496383 * 900000000000 = 18446744700000000000 by decide] at reached
  refine ⟨⟨long, fun wrong => ?_⟩, cut, fun wrong => ?_⟩
  · exact absurd (sensorTimeout_inj (long.unique wrong)).2.2 (by decide)
  · exact absurd (sensorTimeout_inj (cut.unique wrong)).2.2 (by decide)

end Solo

end Pneumatic.Run
