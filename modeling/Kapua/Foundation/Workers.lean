import Mathlib.Data.List.Basic

/-!
# Worker threads under a running flag

A `Crew` is a flag and the threads spawned to work while it is raised. One owner thread makes the
calls that start and stop the work. The flag is raised by the threads themselves, not by the call
that spawns them, so what a call to stop achieves depends on where it falls between their steps.

A crew is `Sound` if at most one thread is at work and no thread has raised the flag again behind
the back of a call to stop. `Crew.Timely` is a condition on the owner's calls alone, and `Guarded`
is the invariant that such calls maintain: a `Discipline` says which threads exclude each other for
either value of the flag, and the lemmas `Guarded.advance` to `Guarded.stopCalled` say what each
operation on a crew needs to keep it.
-/

set_option autoImplicit false
set_option relaxedAutoImplicit false

namespace Kapua

/-- Whose step is next: the owner calls start or stop, or goes on with the call it is in, or one of
the threads takes a step, with the outcome of what it asks of the system in it. -/
inductive Turn (Outcome : Type)
  | start
  | stop
  | owner
  | thread (index : ℕ) (outcome : Outcome)

variable {Outcome : Type}

/-- Whether there has been a call to stop since the last call to start, given whether there had been
one before. -/
def Turn.stopped (before : Bool) : Turn Outcome → Bool
  | .start => false
  | .stop => true
  | .owner | .thread _ _ => before

/-- A flag and the places of the threads under it, in the order they were spawned.

The last two fields are a record of the run that no thread reads: `stopped` says that there has been
a call to stop since the last call to start, and `revived` that a thread has turned the flag from
false to true while that was so. -/
structure Crew (Pc : Type) where
  running : Bool
  threads : List Pc
  stopped : Bool
  revived : Bool
deriving DecidableEq

namespace Crew

variable {Pc : Type}

/-- The crew before any call. -/
def initial : Crew Pc where
  running := false
  threads := []
  stopped := false
  revived := false

/-- A thread moves and leaves the flag alone. -/
def advance (crew : Crew Pc) (index : ℕ) (next : Pc) : Crew Pc :=
  { crew with threads := crew.threads.set index next }

/-- A thread moves and sets the flag. -/
def raise (crew : Crew Pc) (index : ℕ) (next : Pc) : Crew Pc :=
  { crew with
    running := true
    threads := crew.threads.set index next
    revived := crew.revived || (crew.stopped && !crew.running) }

/-- The flag is cleared. -/
def lower (crew : Crew Pc) : Crew Pc := { crew with running := false }

/-- A new thread. -/
def spawn (crew : Crew Pc) (first : Pc) : Crew Pc :=
  { crew with threads := crew.threads ++ [first] }

/-- The owner calls start. -/
def startCalled (crew : Crew Pc) : Crew Pc := { crew with stopped := false }

/-- The owner calls stop. -/
def stopCalled (crew : Crew Pc) : Crew Pc := { crew with stopped := true }

/-- At most one thread is active, and no call to stop has been lost. -/
def Sound (active : Pc → Bool) (crew : Crew Pc) : Prop :=
  crew.threads.countP active ≤ 1 ∧ crew.revived = false

/-- What a step has to do to the record of the run. -/
structure Records (turn : Turn Outcome) (crew next : Crew Pc) : Prop where
  stopped : next.stopped = turn.stopped crew.stopped
  revived : next.revived = (crew.revived || (crew.stopped && !crew.running && next.running))

/-- The owner's call comes at a time at which it is safe: start while the flag is raised or no
thread lives, stop while no thread has yet to raise the flag. -/
def Timely (live raises : Pc → Bool) (crew : Crew Pc) : Turn Outcome → Prop
  | .start => crew.running = true ∨ ∀ pc ∈ crew.threads, live pc = false
  | .stop => ∀ pc ∈ crew.threads, raises pc = false
  | .owner | .thread _ _ => True

instance (live raises : Pc → Bool) (crew : Crew Pc) (turn : Turn Outcome) :
    Decidable (crew.Timely live raises turn) :=
  match turn with
  | .start => inferInstanceAs (Decidable (_ ∨ _))
  | .stop => inferInstanceAs (Decidable (∀ pc ∈ crew.threads, raises pc = false))
  | .owner | .thread _ _ => inferInstanceAs (Decidable True)

variable {live raises active : Pc → Bool} {crew : Crew Pc} {index : ℕ} {pc next : Pc}

/-- A call to start that finds the flag down and a living thread. -/
theorem not_timely_start_iff : ¬ crew.Timely live raises (.start : Turn Outcome) ↔
    crew.running = false ∧ ∃ pc ∈ crew.threads, live pc = true := by
  simp [Timely]

/-- A call to stop that finds a thread which has yet to raise the flag. -/
theorem not_timely_stop_iff : ¬ crew.Timely live raises (.stop : Turn Outcome) ↔
    ∃ pc ∈ crew.threads, raises pc = true := by
  simp [Timely]

/-- A step that does not raise the flag has nothing to record but the call. -/
theorem records_of_flag {turn : Turn Outcome} {after : Crew Pc}
    (hstopped : after.stopped = turn.stopped crew.stopped) (hrevived : after.revived = crew.revived)
    (hrunning : after.running = crew.running ∨ after.running = false) :
    Records turn crew after where
  stopped := hstopped
  revived := by
    obtain hrunning | hrunning := hrunning
    · cases hflag : crew.running <;> simp [hrevived, hrunning, hflag]
    · simp [hrevived, hrunning]

/-- A thread that raises the flag is recorded. -/
theorem records_raise (index : ℕ) (outcome : Outcome) :
    Records (.thread index outcome) crew (crew.raise index next) where
  stopped := rfl
  revived := by simp [raise]

/-- A thread that moves does not increase a count. Assumes: it was counted before if it is counted
afterwards. -/
theorem countP_advance_le {p : Pc → Bool} (hat : crew.threads[index]? = some pc)
    (hp : p next = true → p pc = true) :
    (crew.advance index next).threads.countP p ≤ crew.threads.countP p := by
  obtain ⟨hlt, rfl⟩ := List.getElem?_eq_some_iff.mp hat
  have hmember : (if p crew.threads[index] = true then 1 else 0) ≤ crew.threads.countP p :=
    List.boole_getElem_le_countP hlt
  show (crew.threads.set index next).countP p ≤ crew.threads.countP p
  rw [List.countP_set hlt]
  by_cases hnext : p next = true
  · simp only [hnext, hp hnext, if_true] at hmember ⊢
    omega
  · simp only [hnext, Bool.false_eq_true, if_false]
    omega

/-- A second active thread. -/
theorem not_sound_of_second (hmem : pc ∈ crew.threads) (hpc : active pc = true)
    (hnext : active next = true) :
    ¬ Sound active { crew with threads := crew.threads ++ [next] } := by
  rintro ⟨hcount, -⟩
  have hfirst : 0 < crew.threads.countP active := List.countP_pos_iff.mpr ⟨pc, hmem, hpc⟩
  rw [List.countP_append, List.countP_singleton, if_pos hnext] at hcount
  omega

/-- The newest thread moves. -/
theorem advance_spawn (crew : Crew Pc) (first next : Pc) :
    (crew.spawn first).advance crew.threads.length next =
      { crew with threads := crew.threads ++ [next] } := by
  simp [advance, spawn]

/-- A flag that is raised after a call to stop. -/
theorem not_sound_of_raise (crew : Crew Pc) (hstopped : crew.stopped = true)
    (hrunning : crew.running = false) (index : ℕ) : ¬ Sound active (crew.raise index next) := by
  rintro ⟨-, hkept⟩
  simp [raise, hstopped, hrunning] at hkept

end Crew

/-- How the threads of a crew make way for each other. At most one thread may hold the place that
`holds` names, which can be wider while the flag is down, and `raises` are the threads that have
yet to raise the flag. -/
structure Discipline (Pc : Type) where
  holds : Bool → Pc → Bool
  raises : Pc → Bool
  holds_false {pc : Pc} (hholds : holds true pc = true) : holds false pc = true

/-- What holds the place while the flag is up holds it for either value. -/
theorem Discipline.holds_of_true {Pc : Type} (discipline : Discipline Pc) {running : Bool} {pc : Pc}
    (hholds : discipline.holds true pc = true) : discipline.holds running pc = true := by
  cases running with
  | true => exact hholds
  | false => exact discipline.holds_false hholds

/-- What timely calls maintain: at most one thread holds the place, no thread is left that would
raise the flag after a call to stop, and none has. -/
structure Guarded {Pc : Type} (discipline : Discipline Pc) (crew : Crew Pc) : Prop where
  single : crew.threads.countP (discipline.holds crew.running) ≤ 1
  obeyed : ∀ pc ∈ crew.threads, discipline.raises pc = true → crew.stopped = false
  kept : crew.revived = false

namespace Guarded

variable {Pc : Type} {discipline : Discipline Pc} {crew : Crew Pc} {index : ℕ} {pc next : Pc}

/-- No thread lives in a crew before any call. -/
theorem initial : Guarded discipline Crew.initial where
  single := Nat.zero_le 1
  obeyed := by simp [Crew.initial]
  kept := rfl

/-- A thread that moves keeps the invariant. Assumes: it holds the place, and has yet to raise the
flag, only if it did before. -/
theorem advance (h : Guarded discipline crew) (hat : crew.threads[index]? = some pc)
    (hholds : discipline.holds crew.running next = true → discipline.holds crew.running pc = true)
    (hraises : discipline.raises next = true → discipline.raises pc = true) :
    Guarded discipline (crew.advance index next) where
  single := Nat.le_trans (Crew.countP_advance_le hat hholds) h.single
  obeyed := by
    intro other hmem hother
    obtain hmem | rfl := List.mem_or_eq_of_mem_set hmem
    · exact h.obeyed other hmem hother
    · exact h.obeyed pc (List.mem_of_getElem? hat) (hraises hother)
  kept := h.kept

/-- A thread that raises the flag keeps the invariant. Assumes: the thread held the place, and was
one of those that had yet to raise the flag. -/
theorem raise (h : Guarded discipline crew) (hat : crew.threads[index]? = some pc)
    (hholds : discipline.holds crew.running pc = true) (hraises : discipline.raises pc = true) :
    Guarded discipline (crew.raise index next) := by
  have hstopped : crew.stopped = false := h.obeyed pc (List.mem_of_getElem? hat) hraises
  constructor
  · calc (crew.advance index next).threads.countP (discipline.holds true)
        ≤ (crew.advance index next).threads.countP (discipline.holds crew.running) :=
          List.countP_mono_left fun _ _ hother ↦ discipline.holds_of_true hother
      _ ≤ crew.threads.countP (discipline.holds crew.running) :=
          Crew.countP_advance_le hat fun _ ↦ hholds
      _ ≤ 1 := h.single
  · intro _ _ _
    exact hstopped
  · show (crew.revived || (crew.stopped && !crew.running)) = false
    rw [h.kept, hstopped]
    rfl

/-- Clearing the flag keeps the invariant. Assumes: no further thread holds the place once the flag
is down. -/
theorem lower (h : Guarded discipline crew) (hholds : ∀ pc ∈ crew.threads,
      discipline.holds false pc = true → discipline.holds crew.running pc = true) :
    Guarded discipline crew.lower where
  single := Nat.le_trans (List.countP_mono_left hholds) h.single
  obeyed := h.obeyed
  kept := h.kept

/-- A new thread keeps the invariant. Assumes: it finds the place free if it holds it from the
start, and there has been no call to stop since the last call to start. -/
theorem spawn (h : Guarded discipline crew) (hstopped : crew.stopped = false)
    (hfree : discipline.holds crew.running next = true →
      ∀ pc ∈ crew.threads, discipline.holds crew.running pc = false) :
    Guarded discipline (crew.spawn next) where
  single := by
    show (crew.threads ++ [next]).countP (discipline.holds crew.running) ≤ 1
    rw [List.countP_append, List.countP_singleton]
    by_cases hnext : discipline.holds crew.running next = true
    · have hnone : crew.threads.countP (discipline.holds crew.running) = 0 :=
        List.countP_eq_zero.mpr fun pc hpc ↦ by simp [hfree hnext pc hpc]
      simp [hnone, hnext]
    · simpa [hnext] using h.single
  obeyed := fun _ _ _ ↦ hstopped
  kept := h.kept

/-- A call to start keeps the invariant. -/
theorem startCalled (h : Guarded discipline crew) : Guarded discipline crew.startCalled where
  single := h.single
  obeyed := fun _ _ _ ↦ rfl
  kept := h.kept

/-- A call to stop keeps the invariant. Assumes: no thread has yet to raise the flag. -/
theorem stopCalled (h : Guarded discipline crew)
    (hraises : ∀ pc ∈ crew.threads, discipline.raises pc = false) :
    Guarded discipline crew.stopCalled where
  single := h.single
  obeyed := by
    intro pc hpc hpc'
    rw [hraises pc hpc] at hpc'
    contradiction
  kept := h.kept

/-- The invariant is enough. Assumes: every active thread holds the place. -/
theorem sound {active : Pc → Bool} (h : Guarded discipline crew)
    (hactive : ∀ pc, active pc = true → discipline.holds crew.running pc = true) :
    crew.Sound active :=
  ⟨Nat.le_trans (List.countP_mono_left fun pc _ ↦ hactive pc) h.single, h.kept⟩

end Guarded

end Kapua
