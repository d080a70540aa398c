import Kapua.Foundation.Transition
import Kapua.Foundation.Workers

/-!
# Starting and stopping

`start`, `stop` and `_main_loop` of `class UDPNetwork` and `class Core`, as the interleavings of an
owner thread with the threads it spawns. The owner makes the calls in any order, and a step of a run
is one access to what the threads share: a read or a write of the atomic flag `_running`, the
creation of a thread, or the `join` of one. A call is made together with its first such access. What
else the threads do is left out, but for `_listen`, which may fail, and `_shutdown`.

In both classes it is the new thread that sets `_running`, so a `stop` that comes before this is
overwritten, and a `start` that comes before this, or before an old thread has noticed a `stop`,
adds a second thread. `calls_sound` is what holds when the calls avoid these moments. No more can be
said: a call made at any of them can still end badly, whatever the state (`untimely_start_unsound`,
`untimely_stop_unsound`).
-/

set_option autoImplicit false
set_option relaxedAutoImplicit false

namespace Kapua

/-! ### The network -/

namespace UDPNetwork

/-- The statements of `UDPNetwork::_main_loop` that a thread can be about to execute.
* `listen`: the call of `_listen`.
* `setRunning`: `_running = true`.
* `whileRunning`: the test of the loop.
* `shutdown`: `_shutdown`, after the loop or after `_listen` has failed. -/
inductive MainLoop
  | listen
  | setRunning
  | whileRunning
  | shutdown
  | exited
deriving DecidableEq

/-- Between its first step and its exit. -/
def MainLoop.active : MainLoop → Bool
  | .listen | .exited => false
  | .setRunning | .whileRunning | .shutdown => true

/-- Not yet exited. -/
def MainLoop.live : MainLoop → Bool
  | .exited => false
  | .listen | .setRunning | .whileRunning | .shutdown => true

/-- Before `_running = true`. -/
def MainLoop.raises : MainLoop → Bool
  | .listen | .setRunning => true
  | .whileRunning | .shutdown | .exited => false

/-- Where the owner is: outside both functions, in `start` before `new std::thread`, or in `stop`
before `_running = false` or before `join`. -/
inductive Owner
  | idle
  | spawning
  | lowering
  | joining
deriving DecidableEq

/-- The threads, the owner and `_main_thread`, with `none` for a null pointer. -/
structure Threading where
  crew : Crew MainLoop
  owner : Owner
  mainThread : Option ℕ
deriving DecidableEq

/-- After the constructor, which sets `_running` to false. -/
def initial : Threading where
  crew := .initial
  owner := .idle
  mainThread := none

/-- `UDPNetwork::start` as far as its test of `_running`: it returns if the flag is set. -/
def start (s : Threading) : Option Threading :=
  if s.owner = .idle then
    some { s with
      crew := s.crew.startCalled
      owner := if s.crew.running then .idle else .spawning }
  else none

/-- `UDPNetwork::stop` as far as its test of `_running`: it returns if the flag is not set. -/
def stop (s : Threading) : Option Threading :=
  if s.owner = .idle then
    some { s with
      crew := s.crew.stopCalled
      owner := if s.crew.running then .lowering else .idle }
  else none

/-- The rest of `start` and `stop`. The `join` waits until the thread it is for has exited; there is
no step for a `join` through a null pointer. -/
def resume (s : Threading) : Option Threading :=
  match s.owner with
  | .idle => none
  | .spawning => some {
      crew := s.crew.spawn .listen
      owner := .idle
      mainThread := some s.crew.threads.length }
  | .lowering => some { s with crew := s.crew.lower, owner := .joining }
  | .joining =>
    if s.mainThread.bind (s.crew.threads[·]?) = some .exited then
      some { s with owner := .idle, mainThread := none }
    else none

/-- The next step of the thread `index`, which is at `pc` in `UDPNetwork::_main_loop`. `listens` is
the result of `_listen`. -/
def mainLoop (listens : Bool) (crew : Crew MainLoop) (index : ℕ) (pc : MainLoop) :
    Option (Crew MainLoop) :=
  match pc with
  | .listen => some (crew.advance index (if listens then .setRunning else .shutdown))
  | .setRunning => some (crew.raise index .whileRunning)
  | .whileRunning => some (crew.advance index (if crew.running then .whileRunning else .shutdown))
  | .shutdown => some (crew.advance index .exited)
  | .exited => none

/-- One step of the owner or of a thread. -/
def step (s : Threading) : Turn Bool → Option Threading
  | .start => start s
  | .stop => stop s
  | .owner => resume s
  | .thread index listens => do
    let pc ← s.crew.threads[index]?
    let crew ← mainLoop listens s.crew index pc
    return { s with crew }

/-- The calls come at times at which they are safe. -/
def Timely (s : Threading) (turn : Turn Bool) : Prop :=
  s.crew.Timely MainLoop.live MainLoop.raises turn

instance (s : Threading) (turn : Turn Bool) : Decidable (Timely s turn) :=
  inferInstanceAs (Decidable (s.crew.Timely ..))

/-- At most one thread lives. -/
def discipline : Discipline MainLoop where
  holds := fun _ pc ↦ pc.live
  raises := MainLoop.raises
  holds_false := id

/-- What the steps of a run with timely calls maintain: an owner that is about to spawn a thread
finds none. -/
structure Orderly (s : Threading) : Prop where
  guarded : Guarded discipline s.crew
  spawning : s.owner = .spawning → s.crew.stopped = false ∧ ∀ pc ∈ s.crew.threads, pc.live = false

variable {listens : Bool} {s t : Threading} {turn : Turn Bool}

/-- What a call of `start` does. -/
theorem start_eq_some_iff : start s = some t ↔ s.owner = .idle ∧ { s with
    crew := s.crew.startCalled
    owner := if s.crew.running then .idle else .spawning } = t := by
  simp [start]

/-- What a call of `stop` does. -/
theorem stop_eq_some_iff : stop s = some t ↔ s.owner = .idle ∧ { s with
    crew := s.crew.stopCalled
    owner := if s.crew.running then .lowering else .idle } = t := by
  simp [stop]

/-- What the rest of a call does: it spawns a thread, clears the flag, or has joined a thread. -/
theorem resume_cases (hstep : resume s = some t) :
    (s.owner = .spawning ∧ ⟨s.crew.spawn .listen, .idle, some s.crew.threads.length⟩ = t) ∨
      (s.owner = .lowering ∧ { s with crew := s.crew.lower, owner := .joining } = t) ∨
      s.owner = .joining ∧ { s with owner := .idle, mainThread := none } = t := by
  cases howner : s.owner with
  | idle => simp [resume, howner] at hstep
  | spawning => exact .inl ⟨rfl, by simpa only [resume, howner, Option.some.injEq] using hstep⟩
  | lowering =>
    exact .inr (.inl ⟨rfl, by simpa only [resume, howner, Option.some.injEq] using hstep⟩)
  | joining =>
    simp only [resume, howner] at hstep
    obtain ⟨-, hstep⟩ := Option.ite_none_right_eq_some.mp hstep
    exact .inr (.inr ⟨rfl, Option.some.inj hstep⟩)

/-- What a step of a thread does. -/
theorem step_thread_eq_some_iff {index : ℕ} : step s (.thread index listens) = some t ↔
    ∃ pc crew, s.crew.threads[index]? = some pc ∧ mainLoop listens s.crew index pc = some crew ∧
      { s with crew } = t := by
  simp [step, Option.bind_eq_some_iff]

/-- A thread takes the step that `_main_loop` has for it. -/
theorem step_thread {crew : Crew MainLoop} {index : ℕ} {pc : MainLoop}
    (hat : s.crew.threads[index]? = some pc)
    (hcrew : mainLoop listens s.crew index pc = some crew) :
    step s (.thread index listens) = some { s with crew } :=
  step_thread_eq_some_iff.mpr ⟨pc, crew, hat, hcrew, rfl⟩

/-- The guard is all that matters while the owner is not about to spawn a thread. -/
theorem orderly_of_ne (h : Guarded discipline s.crew) (howner : s.owner ≠ .spawning) :
    Orderly s where
  guarded := h
  spawning := fun hspawning ↦ absurd hspawning howner

/-- A timely `start` keeps the invariant. -/
theorem orderly_start (h : Orderly s) (htimely : Timely s .start) (hstep : start s = some t) :
    Orderly t := by
  obtain ⟨-, rfl⟩ := start_eq_some_iff.mp hstep
  refine ⟨h.guarded.startCalled, fun howner ↦ ⟨rfl, ?_⟩⟩
  obtain hrunning | hnone := htimely
  · simp [hrunning] at howner
  · exact hnone

/-- A timely `stop` keeps the invariant. -/
theorem orderly_stop (h : Orderly s) (htimely : Timely s .stop) (hstep : stop s = some t) :
    Orderly t := by
  obtain ⟨-, rfl⟩ := stop_eq_some_iff.mp hstep
  refine orderly_of_ne (h.guarded.stopCalled htimely) ?_
  cases hrunning : s.crew.running <;> simp

/-- The rest of a call keeps the invariant. -/
theorem orderly_resume (h : Orderly s) (hstep : resume s = some t) : Orderly t := by
  obtain ⟨howner, rfl⟩ | ⟨-, rfl⟩ | ⟨-, rfl⟩ := resume_cases hstep
  · obtain ⟨hstarted, hnone⟩ := h.spawning howner
    exact orderly_of_ne (h.guarded.spawn hstarted fun _ ↦ hnone) (by simp)
  · exact orderly_of_ne (h.guarded.lower fun _ _ ↦ id) (by simp)
  · exact orderly_of_ne h.guarded (by simp)

/-- A step of a thread keeps the guard. -/
theorem guarded_mainLoop {crew next : Crew MainLoop} {index : ℕ} {pc : MainLoop}
    (h : Guarded discipline crew) (hat : crew.threads[index]? = some pc)
    (hstep : mainLoop listens crew index pc = some next) : Guarded discipline next := by
  cases pc with
  | listen =>
    obtain rfl := Option.some.inj hstep
    exact h.advance hat (fun _ ↦ rfl) fun _ ↦ rfl
  | setRunning =>
    obtain rfl := Option.some.inj hstep
    exact h.raise hat rfl rfl
  | whileRunning =>
    obtain rfl := Option.some.inj hstep
    refine h.advance hat (fun _ ↦ rfl) fun hraises ↦ ?_
    split at hraises <;> exact hraises
  | shutdown =>
    obtain rfl := Option.some.inj hstep
    exact h.advance hat (fun _ ↦ rfl) id
  | exited => contradiction

/-- A thread that takes a step is alive. -/
theorem live_of_mainLoop {crew next : Crew MainLoop} {index : ℕ} {pc : MainLoop}
    (hstep : mainLoop listens crew index pc = some next) : pc.live = true := by
  cases pc with
  | exited => contradiction
  | listen | setRunning | whileRunning | shutdown => rfl

/-- A step keeps the invariant. Assumes: it is not an untimely call. -/
theorem orderly_step (h : Orderly s) (hstep : step s turn = some t)
    (htimely : Timely s turn) : Orderly t := by
  cases turn with
  | start => exact orderly_start h htimely hstep
  | stop => exact orderly_stop h htimely hstep
  | owner => exact orderly_resume h hstep
  | thread index listens =>
    obtain ⟨pc, crew, hat, hcrew, rfl⟩ := step_thread_eq_some_iff.mp hstep
    refine orderly_of_ne (guarded_mainLoop h.guarded hat hcrew) fun howner ↦ ?_
    -- a thread that can step is one that an owner about to spawn does not find
    have hdead : pc.live = false := (h.spawning howner).2 pc (List.mem_of_getElem? hat)
    rw [live_of_mainLoop hcrew] at hdead
    contradiction

/-- What a run with timely calls reaches is sound. -/
theorem sound_of_timely {turns : List (Turn Bool)}
    (hrun : Run (fun s turn t ↦ step s turn = some t ∧ Timely s turn) initial turns s) :
    s.crew.Sound MainLoop.active := by
  have horderly : Orderly s := hrun.invariant Orderly (fun h hnext ↦ orderly_step h hnext.1 hnext.2)
    (orderly_of_ne .initial (by simp [initial]))
  refine horderly.guarded.sound fun pc hactive ↦ ?_
  cases pc with
  | listen | setRunning | whileRunning | shutdown => rfl
  | exited => exact hactive

/-- Every step keeps the record of the run. -/
theorem step_records (hstep : step s turn = some t) :
    Crew.Records turn s.crew t.crew := by
  cases turn with
  | start =>
    obtain ⟨-, rfl⟩ := start_eq_some_iff.mp hstep
    exact Crew.records_of_flag rfl rfl (.inl rfl)
  | stop =>
    obtain ⟨-, rfl⟩ := stop_eq_some_iff.mp hstep
    exact Crew.records_of_flag rfl rfl (.inl rfl)
  | owner =>
    obtain ⟨-, rfl⟩ | ⟨-, rfl⟩ | ⟨-, rfl⟩ := resume_cases hstep
    · exact Crew.records_of_flag rfl rfl (.inl rfl)
    · exact Crew.records_of_flag rfl rfl (.inr rfl)
    · exact Crew.records_of_flag rfl rfl (.inl rfl)
  | thread index listens =>
    obtain ⟨pc, crew, hat, hcrew, rfl⟩ := step_thread_eq_some_iff.mp hstep
    cases pc with
    | listen | whileRunning | shutdown =>
      obtain rfl := Option.some.inj hcrew
      exact Crew.records_of_flag rfl rfl (.inl rfl)
    | setRunning =>
      obtain rfl := Option.some.inj hcrew
      exact Crew.records_raise index listens
    | exited => contradiction

/-- A living thread becomes active, if it is not, without touching the flag. -/
theorem exists_active (s : Threading) {pc : MainLoop}
    (hmem : pc ∈ s.crew.threads) (hlive : pc.live = true) :
    ∃ turns threads, Run (fun s turn t ↦ step s turn = some t) s turns
        { s with crew := { s.crew with threads } } ∧
      ∃ other ∈ threads, MainLoop.active other = true := by
  cases pc with
  | listen =>
    obtain ⟨index, hat⟩ := List.getElem?_of_mem hmem
    have hlt : index < s.crew.threads.length := (List.getElem?_eq_some_iff.mp hat).1
    have hlisten : mainLoop true s.crew index .listen = some (s.crew.advance index .setRunning) :=
      rfl
    exact ⟨[.thread index true], _, .cons (step_thread hat hlisten) (.nil _), _,
      List.mem_set hlt _, rfl⟩
  | setRunning => exact ⟨[], s.crew.threads, .nil s, _, hmem, rfl⟩
  | whileRunning => exact ⟨[], s.crew.threads, .nil s, _, hmem, rfl⟩
  | shutdown => exact ⟨[], s.crew.threads, .nil s, _, hmem, rfl⟩
  | exited => contradiction

/-- An untimely `start` can end with two active threads. -/
theorem untimely_start_unsound (howner : s.owner = .idle) (huntimely : ¬ Timely s .start) :
    ∃ turns t, Run (fun s turn t ↦ step s turn = some t) s (.start :: turns) t ∧
      ¬ t.crew.Sound MainLoop.active := by
  obtain ⟨hrunning, pc, hmem, hlive⟩ := Crew.not_timely_start_iff.mp huntimely
  have hstart : step s .start = some { s with
      crew := s.crew.startCalled
      owner := .spawning } := by
    simp [step, start, howner, hrunning]
  obtain ⟨turns, threads, hfirst, other, hother, hactive⟩ :=
    exists_active { s with crew := s.crew.startCalled, owner := .spawning } hmem hlive
  -- the new thread takes its first step beside the one that is active
  let crew : Crew MainLoop := { s.crew.startCalled with threads }
  have hlast : mainLoop true (crew.spawn .listen) threads.length .listen =
      some { crew with threads := threads ++ [.setRunning] } := by
    rw [← crew.advance_spawn .listen]
    rfl
  have hthread := step_thread (s := ⟨crew.spawn .listen, .idle, some threads.length⟩)
    (by simp [crew, Crew.spawn]) hlast
  exact ⟨turns ++ [.owner, .thread threads.length true], _,
    .cons hstart (hfirst.append (.cons rfl (.cons hthread (.nil _)))),
    crew.not_sound_of_second hother hactive rfl⟩

/-- A thread that has yet to raise the flag can do so after a call to stop. -/
theorem exists_lost_stop {pc : MainLoop}
    (hstopped : s.crew.stopped = true) (hrunning : s.crew.running = false)
    (hmem : pc ∈ s.crew.threads) (hraises : pc.raises = true) :
    ∃ turns t, Run (fun s turn t ↦ step s turn = some t) s turns t ∧
      ¬ t.crew.Sound MainLoop.active := by
  obtain ⟨index, hat⟩ := List.getElem?_of_mem hmem
  cases pc with
  | listen =>
    have hlt : index < s.crew.threads.length := (List.getElem?_eq_some_iff.mp hat).1
    have hlisten : mainLoop true s.crew index .listen = some (s.crew.advance index .setRunning) :=
      rfl
    have hset : (s.crew.advance index .setRunning).threads[index]? = some .setRunning := by
      simp [Crew.advance, hlt]
    exact ⟨[.thread index true, .thread index true], _,
      .cons (step_thread hat hlisten) (.cons (step_thread hset rfl) (.nil _)),
      (s.crew.advance index .setRunning).not_sound_of_raise hstopped hrunning index⟩
  | setRunning =>
    exact ⟨[.thread index true], _, .cons (step_thread hat rfl) (.nil _),
      s.crew.not_sound_of_raise hstopped hrunning index⟩
  | whileRunning | shutdown | exited => contradiction

/-- An untimely `stop` can be lost. -/
theorem untimely_stop_unsound (howner : s.owner = .idle) (huntimely : ¬ Timely s .stop) :
    ∃ turns t, Run (fun s turn t ↦ step s turn = some t) s (.stop :: turns) t ∧
      ¬ t.crew.Sound MainLoop.active := by
  obtain ⟨pc, hmem, hraises⟩ := Crew.not_timely_stop_iff.mp huntimely
  let called : Threading := { s with
    crew := s.crew.stopCalled
    owner := if s.crew.running then .lowering else .idle }
  have hstop : step s .stop = some called := stop_eq_some_iff.mpr ⟨howner, rfl⟩
  cases hrunning : s.crew.running with
  | false =>
    obtain ⟨turns, t, hrun, hlost⟩ := exists_lost_stop (s := called) rfl hrunning hmem
      hraises
    exact ⟨turns, t, .cons hstop hrun, hlost⟩
  | true =>
    let lowered : Threading := { called with crew := called.crew.lower, owner := .joining }
    have hlower : step called .owner = some lowered := by
      simp [step, resume, called, lowered, hrunning]
    obtain ⟨turns, t, hrun, hlost⟩ := exists_lost_stop (s := lowered) rfl rfl hmem hraises
    exact ⟨.owner :: turns, t, .cons hstop (.cons hlower hrun), hlost⟩

end UDPNetwork

/-! ### The core -/

namespace Core

/-- The statements of `Core::_main_loop` that a thread can be about to execute.
* `testRunning`: the test before `_running = true`.
* `setRunning`: `_running = true`.
* `whileRunning`: the test of the loop. -/
inductive MainLoop
  | testRunning
  | setRunning
  | whileRunning
  | exited
deriving DecidableEq

/-- Between its first step and its exit. -/
def MainLoop.active : MainLoop → Bool
  | .testRunning | .exited => false
  | .setRunning | .whileRunning => true

/-- Not yet exited. -/
def MainLoop.live : MainLoop → Bool
  | .exited => false
  | .testRunning | .setRunning | .whileRunning => true

/-- Before `_running = true`. -/
def MainLoop.raises : MainLoop → Bool
  | .testRunning | .setRunning => true
  | .whileRunning | .exited => false

/-- Where the owner is: outside both functions, or in `stop` before `join`. -/
inductive Owner
  | idle
  | joining
deriving DecidableEq

/-- The threads, the owner and `_thread`, with `none` for a handle that is not of a thread. -/
structure Threading where
  crew : Crew MainLoop
  owner : Owner
  thread : Option ℕ
deriving DecidableEq

/-- After the constructor, which sets `_running` to false. -/
def initial : Threading where
  crew := .initial
  owner := .idle
  thread := none

/-- `Core::start`, which does not test `_running`. The thread that `_thread` was the handle of
before is detached. -/
def start (s : Threading) : Option Threading :=
  if s.owner = .idle then
    some { s with
      crew := s.crew.startCalled.spawn .testRunning
      thread := some s.crew.threads.length }
  else none

/-- `Core::stop` as far as `_running = false`. -/
def stop (s : Threading) : Option Threading :=
  if s.owner = .idle then some { s with crew := s.crew.stopCalled.lower, owner := .joining }
  else none

/-- The rest of `stop`. The `join` waits until the thread it is for has exited, and returns at once
if there is none. -/
def resume (s : Threading) : Option Threading :=
  match s.owner with
  | .idle => none
  | .joining =>
    if s.thread.bind (s.crew.threads[·]?) = some .exited ∨ s.thread = none then
      some { s with owner := .idle, thread := none }
    else none

/-- The next step of the thread `index`, which is at `pc` in `Core::_main_loop`. -/
def mainLoop (crew : Crew MainLoop) (index : ℕ) (pc : MainLoop) : Option (Crew MainLoop) :=
  match pc with
  | .testRunning => some (crew.advance index (if crew.running then .exited else .setRunning))
  | .setRunning => some (crew.raise index .whileRunning)
  | .whileRunning => some (crew.advance index (if crew.running then .whileRunning else .exited))
  | .exited => none

/-- One step of the owner or of a thread. -/
def step (s : Threading) : Turn Unit → Option Threading
  | .start => start s
  | .stop => stop s
  | .owner => resume s
  | .thread index () => do
    let pc ← s.crew.threads[index]?
    let crew ← mainLoop s.crew index pc
    return { s with crew }

/-- The calls come at times at which they are safe. -/
def Timely (s : Threading) (turn : Turn Unit) : Prop :=
  s.crew.Timely MainLoop.live MainLoop.raises turn

instance (s : Threading) (turn : Turn Unit) : Decidable (Timely s turn) :=
  inferInstanceAs (Decidable (s.crew.Timely ..))

/-- At most one thread lives, not counting those that are going to find the flag set. -/
def discipline : Discipline MainLoop where
  holds := fun running pc ↦ match pc with
    | .testRunning => !running
    | .setRunning | .whileRunning => true
    | .exited => false
  raises := MainLoop.raises
  holds_false := by
    intro pc hholds
    cases pc with
    | testRunning => rfl
    | setRunning | whileRunning | exited => exact hholds

variable {s t : Threading} {turn : Turn Unit}

/-- What a call of `start` does. -/
theorem start_eq_some_iff : start s = some t ↔ s.owner = .idle ∧ { s with
    crew := s.crew.startCalled.spawn .testRunning
    thread := some s.crew.threads.length } = t := by
  simp [start]

/-- What a call of `stop` does. -/
theorem stop_eq_some_iff : stop s = some t ↔
    s.owner = .idle ∧ { s with crew := s.crew.stopCalled.lower, owner := .joining } = t := by
  simp [stop]

/-- What the rest of a call does: it has joined a thread. -/
theorem eq_of_resume (hstep : resume s = some t) :
    { s with owner := .idle, thread := none } = t := by
  cases howner : s.owner with
  | idle => simp [resume, howner] at hstep
  | joining =>
    simp only [resume, howner] at hstep
    obtain ⟨-, hstep⟩ := Option.ite_none_right_eq_some.mp hstep
    exact Option.some.inj hstep

/-- What a step of a thread does. -/
theorem step_thread_eq_some_iff {index : ℕ} : step s (.thread index ()) = some t ↔
    ∃ pc crew, s.crew.threads[index]? = some pc ∧ mainLoop s.crew index pc = some crew ∧
      { s with crew } = t := by
  simp [step, Option.bind_eq_some_iff]

/-- A thread takes the step that `_main_loop` has for it. -/
theorem step_thread {crew : Crew MainLoop} {index : ℕ} {pc : MainLoop}
    (hat : s.crew.threads[index]? = some pc) (hcrew : mainLoop s.crew index pc = some crew) :
    step s (.thread index ()) = some { s with crew } :=
  step_thread_eq_some_iff.mpr ⟨pc, crew, hat, hcrew, rfl⟩

/-- A timely `start` keeps the guard. -/
theorem guarded_start (h : Guarded discipline s.crew) (htimely : Timely s .start)
    (hstep : start s = some t) : Guarded discipline t.crew := by
  obtain ⟨-, rfl⟩ := start_eq_some_iff.mp hstep
  refine h.startCalled.spawn rfl fun hholds pc hpc ↦ ?_
  obtain hrunning | hnone := htimely
  · -- the new thread finds the flag set
    have hdown : (!s.crew.running) = true := hholds
    simp [hrunning] at hdown
  · have hdead : pc.live = false := hnone pc hpc
    cases pc with
    | exited => rfl
    | testRunning | setRunning | whileRunning => contradiction

/-- A timely `stop` keeps the guard. -/
theorem guarded_stop (h : Guarded discipline s.crew) (htimely : Timely s .stop)
    (hstep : stop s = some t) : Guarded discipline t.crew := by
  obtain ⟨-, rfl⟩ := stop_eq_some_iff.mp hstep
  refine (h.stopCalled htimely).lower fun pc hpc hholds ↦ ?_
  have hraised : pc.raises = false := htimely pc hpc
  cases pc with
  | testRunning => contradiction
  | setRunning | whileRunning | exited => exact hholds

/-- The `join` keeps the guard. -/
theorem guarded_resume (h : Guarded discipline s.crew) (hstep : resume s = some t) :
    Guarded discipline t.crew := by
  obtain rfl := eq_of_resume hstep
  exact h

/-- A step of a thread keeps the guard. -/
theorem guarded_mainLoop {crew next : Crew MainLoop} {index : ℕ} {pc : MainLoop}
    (h : Guarded discipline crew) (hat : crew.threads[index]? = some pc)
    (hstep : mainLoop crew index pc = some next) : Guarded discipline next := by
  cases pc with
  | testRunning =>
    obtain rfl := Option.some.inj hstep
    refine h.advance hat (fun hholds ↦ ?_) fun _ ↦ rfl
    cases hrunning : crew.running with
    | true => simp [hrunning, discipline] at hholds
    | false => rfl
  | setRunning =>
    obtain rfl := Option.some.inj hstep
    exact h.raise hat rfl rfl
  | whileRunning =>
    obtain rfl := Option.some.inj hstep
    refine h.advance hat (fun _ ↦ rfl) fun hraises ↦ ?_
    split at hraises <;> exact hraises
  | exited => contradiction

/-- A step keeps the guard. Assumes: it is not an untimely call. -/
theorem guarded_step (h : Guarded discipline s.crew) (hstep : step s turn = some t)
    (htimely : Timely s turn) : Guarded discipline t.crew := by
  cases turn with
  | start => exact guarded_start h htimely hstep
  | stop => exact guarded_stop h htimely hstep
  | owner => exact guarded_resume h hstep
  | thread index outcome =>
    obtain ⟨pc, crew, hat, hcrew, rfl⟩ := step_thread_eq_some_iff.mp hstep
    exact guarded_mainLoop h hat hcrew

/-- What a run with timely calls reaches is sound. -/
theorem sound_of_timely {turns : List (Turn Unit)}
    (hrun : Run (fun s turn t ↦ step s turn = some t ∧ Timely s turn) initial turns s) :
    s.crew.Sound MainLoop.active := by
  have hguarded : Guarded discipline s.crew :=
    hrun.invariant (fun s ↦ Guarded discipline s.crew)
      (fun h hnext ↦ guarded_step h hnext.1 hnext.2) .initial
  refine hguarded.sound fun pc hactive ↦ ?_
  cases pc with
  | setRunning | whileRunning => rfl
  | testRunning | exited => contradiction

/-- Every step keeps the record of the run. -/
theorem step_records (hstep : step s turn = some t) : Crew.Records turn s.crew t.crew := by
  cases turn with
  | start =>
    obtain ⟨-, rfl⟩ := start_eq_some_iff.mp hstep
    exact Crew.records_of_flag rfl rfl (.inl rfl)
  | stop =>
    obtain ⟨-, rfl⟩ := stop_eq_some_iff.mp hstep
    exact Crew.records_of_flag rfl rfl (.inr rfl)
  | owner =>
    obtain rfl := eq_of_resume hstep
    exact Crew.records_of_flag rfl rfl (.inl rfl)
  | thread index outcome =>
    obtain ⟨pc, crew, hat, hcrew, rfl⟩ := step_thread_eq_some_iff.mp hstep
    cases pc with
    | testRunning | whileRunning =>
      obtain rfl := Option.some.inj hcrew
      exact Crew.records_of_flag rfl rfl (.inl rfl)
    | setRunning =>
      obtain rfl := Option.some.inj hcrew
      exact Crew.records_raise index outcome
    | exited => contradiction

/-- A thread that finds the flag down passes the test. -/
theorem mainLoop_testRunning {crew : Crew MainLoop} {index : ℕ} (hrunning : crew.running = false) :
    mainLoop crew index .testRunning = some (crew.advance index .setRunning) := by
  simp [mainLoop, hrunning]

/-- A living thread becomes active beside the newest one, if it is not, without touching the flag.
Assumes: the flag is down. -/
theorem exists_active (handle : Option ℕ) {crew : Crew MainLoop} {pc : MainLoop}
    (hrunning : crew.running = false) (hmem : pc ∈ crew.threads) (hlive : pc.live = true) :
    ∃ turns threads, Run (fun s turn t ↦ step s turn = some t)
        ⟨crew.spawn .testRunning, .idle, handle⟩ turns
        ⟨Crew.spawn { crew with threads } .testRunning, .idle, handle⟩ ∧
      ∃ other ∈ threads, MainLoop.active other = true := by
  cases pc with
  | testRunning =>
    obtain ⟨index, hat⟩ := List.getElem?_of_mem hmem
    have hlt : index < crew.threads.length := (List.getElem?_eq_some_iff.mp hat).1
    have hspawned : (crew.spawn .testRunning).threads[index]? = some .testRunning := by
      rw [← hat]
      exact List.getElem?_append_left hlt
    have htest : mainLoop (crew.spawn .testRunning) index .testRunning =
        some (Crew.spawn { crew with threads := crew.threads.set index .setRunning }
          .testRunning) := by
      simp [mainLoop, hrunning, Crew.spawn, Crew.advance, List.set_append_left index _ hlt]
    exact ⟨[.thread index ()], _, .cons (step_thread hspawned htest) (.nil _), _,
      List.mem_set hlt _, rfl⟩
  | setRunning => exact ⟨[], crew.threads, .nil _, _, hmem, rfl⟩
  | whileRunning => exact ⟨[], crew.threads, .nil _, _, hmem, rfl⟩
  | exited => contradiction

/-- An untimely `start` can end with two active threads. -/
theorem untimely_start_unsound (howner : s.owner = .idle) (huntimely : ¬ Timely s .start) :
    ∃ turns t, Run (fun s turn t ↦ step s turn = some t) s (.start :: turns) t ∧
      ¬ t.crew.Sound MainLoop.active := by
  obtain ⟨hrunning, pc, hmem, hlive⟩ := Crew.not_timely_start_iff.mp huntimely
  have hstart : step s .start = some ⟨s.crew.startCalled.spawn .testRunning, .idle,
      some s.crew.threads.length⟩ := by
    rw [← howner]
    exact start_eq_some_iff.mpr ⟨howner, rfl⟩
  obtain ⟨turns, threads, hfirst, other, hother, hactive⟩ :=
    exists_active (some s.crew.threads.length) (show s.crew.startCalled.running = false from
      hrunning) hmem hlive
  -- the new thread passes the test beside the one that is active
  let crew : Crew MainLoop := { s.crew.startCalled with threads }
  have htest : mainLoop (crew.spawn .testRunning) threads.length .testRunning =
      some { crew with threads := threads ++ [.setRunning] } := by
    rw [← crew.advance_spawn .testRunning]
    exact mainLoop_testRunning hrunning
  have hthread := step_thread (s := ⟨crew.spawn .testRunning, .idle, some s.crew.threads.length⟩)
    (by simp [crew, Crew.spawn]) htest
  exact ⟨turns ++ [.thread threads.length ()], _,
    .cons hstart (hfirst.append (.cons hthread (.nil _))),
    crew.not_sound_of_second hother hactive rfl⟩

/-- An untimely `stop` can be lost. -/
theorem untimely_stop_unsound (howner : s.owner = .idle) (huntimely : ¬ Timely s .stop) :
    ∃ turns t, Run (fun s turn t ↦ step s turn = some t) s (.stop :: turns) t ∧
      ¬ t.crew.Sound MainLoop.active := by
  obtain ⟨pc, hmem, hraises⟩ := Crew.not_timely_stop_iff.mp huntimely
  obtain ⟨index, hat⟩ := List.getElem?_of_mem hmem
  let called : Threading := { s with crew := s.crew.stopCalled.lower, owner := .joining }
  have hstop : step s .stop = some called := stop_eq_some_iff.mpr ⟨howner, rfl⟩
  cases pc with
  | testRunning =>
    have hlt : index < s.crew.threads.length := (List.getElem?_eq_some_iff.mp hat).1
    let tested : Threading := { called with crew := called.crew.advance index .setRunning }
    have htest : step called (.thread index ()) = some tested :=
      step_thread hat (mainLoop_testRunning rfl)
    have hset : tested.crew.threads[index]? = some .setRunning := by
      simp [tested, called, Crew.advance, Crew.stopCalled, Crew.lower, hlt]
    exact ⟨[.thread index (), .thread index ()], _,
      .cons hstop (.cons htest (.cons (step_thread hset rfl) (.nil _))),
      tested.crew.not_sound_of_raise rfl rfl index⟩
  | setRunning =>
    have hset : called.crew.threads[index]? = some .setRunning := hat
    exact ⟨[.thread index ()], _, .cons hstop (.cons (step_thread hset rfl) (.nil _)),
      called.crew.not_sound_of_raise rfl rfl index⟩
  | whileRunning | exited => contradiction

end Core

/-! ### Both -/

/-- At most one thread is between its first step and its exit and no call of `stop` has been lost,
in every state of every run in which each `start` is called while `_running` is set or no thread
lives, and each `stop` while every thread has passed its `_running = true` or has exited. -/
theorem calls_sound {turns : List (Turn Bool)} {network : UDPNetwork.Threading}
    {turns' : List (Turn Unit)} {core : Core.Threading}
    (hnetwork : Run (fun s turn t ↦ UDPNetwork.step s turn = some t ∧ UDPNetwork.Timely s turn)
      UDPNetwork.initial turns network)
    (hcore : Run (fun s turn t ↦ Core.step s turn = some t ∧ Core.Timely s turn) Core.initial turns'
      core) :
    network.crew.Sound UDPNetwork.MainLoop.active ∧ core.crew.Sound Core.MainLoop.active :=
  ⟨UDPNetwork.sound_of_timely hnetwork, Core.sound_of_timely hcore⟩

/-- `calls_sound` after two rounds of `start` and `stop`, of which the second is still joining. -/
theorem calls_sound_two_rounds :
    Crew.Sound UDPNetwork.MainLoop.active ⟨false, [.exited, .shutdown], true, false⟩ ∧
      Crew.Sound Core.MainLoop.active ⟨false, [.exited, .exited, .whileRunning], true, false⟩ := by
  have hnetwork : [.start, .owner, .thread 0 true, .thread 0 true, .thread 0 true, .stop, .owner,
      .thread 0 true, .thread 0 true, .owner, .start, .owner, .thread 1 true, .thread 1 true,
      .start, .stop, .owner, .thread 1 true].foldlM
        (fun s turn ↦ if UDPNetwork.Timely s turn then UDPNetwork.step s turn else none)
        UDPNetwork.initial =
      some ⟨⟨false, [.exited, .shutdown], true, false⟩, .joining, some 1⟩ := by
    decide +kernel
  have hcore : [.start, .thread 0 (), .thread 0 (), .start, .thread 1 (), .stop, .thread 0 (),
      .owner, .start, .thread 2 (), .thread 2 (), .stop].foldlM
        (fun s turn ↦ if Core.Timely s turn then Core.step s turn else none) Core.initial =
      some ⟨⟨false, [.exited, .exited, .whileRunning], true, false⟩, .joining, some 2⟩ := by
    decide +kernel
  exact calls_sound
    ((Run.of_foldlM hnetwork).mono fun hstep ↦ (Option.ite_none_right_eq_some.mp hstep).symm)
    ((Run.of_foldlM hcore).mono fun hstep ↦ (Option.ite_none_right_eq_some.mp hstep).symm)

/-- In both classes a call of `stop` right after `start` is lost: the new thread sets `_running`
after it. -/
theorem not_calls_sound :
    (¬ ∀ (turns : List (Turn Bool)) (s : UDPNetwork.Threading),
      Run (fun s turn t ↦ UDPNetwork.step s turn = some t) UDPNetwork.initial turns s →
        s.crew.Sound UDPNetwork.MainLoop.active) ∧
    ¬ ∀ (turns : List (Turn Unit)) (s : Core.Threading),
      Run (fun s turn t ↦ Core.step s turn = some t) Core.initial turns s →
        s.crew.Sound Core.MainLoop.active := by
  constructor
  · intro h
    have hlost : [.start, .owner, .stop, .thread 0 true, .thread 0 true].foldlM
        UDPNetwork.step UDPNetwork.initial =
        some ⟨⟨true, [.whileRunning], true, true⟩, .idle, some 0⟩ := by
      decide +kernel
    exact Bool.noConfusion (h _ _ (Run.of_foldlM hlost)).2
  · intro h
    have hlost : [.start, .stop, .thread 0 (), .thread 0 ()].foldlM Core.step Core.initial =
        some ⟨⟨true, [.whileRunning], true, true⟩, .joining, some 0⟩ := by
      decide +kernel
    exact Bool.noConfusion (h _ _ (Run.of_foldlM hlost)).2

end Kapua
