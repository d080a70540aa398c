import Kapua.Foundation.Transition

/-!
# Threads under a mutex with a condition variable

The code of the threads of a program is given by the statement that stands at each of its places:
`Stmt` has the operations on one mutex and one condition variable, the accesses to what the mutex
protects, and everything else a thread does. `Code` is such a program together with the places at
which a thread holds the mutex. `step` is one statement of one thread, or one of the things that
happen to the threads from outside. A thread that waits may wake up at any time, and only one that
has been notified must.

There are four rules about every run. At most one thread is at a place that holds the mutex
(`exclusive_step`). An `Outline` annotates the threads with assertions, of which the one about the
free mutex may be assumed whenever the mutex is locked, and all of them hold throughout
(`Outline.valid_of_run`). The assertions of a `History` are about one thread and what it has been
called with (`History.kept_of_run`). `Duties` are what makes sure that no thread sleeps through the
condition it waits for (`Duties.awake_of_run`).
-/

set_option autoImplicit false
set_option relaxedAutoImplicit false

namespace Kapua

namespace Monitor

/-- A statement, with the place that comes after it.
* `lock`, `unlock`: of the mutex.
* `access`: what a thread with the given number does to what the mutex protects.
* `other`: what a thread does without the mutex, from which there may be several ways on.
* `notifyOne`: of the condition variable.
* `wait`: unlock the mutex, sleep, and lock it again. The place that comes after it depends on
  whether the time was up. -/
inductive Stmt (Place Shared World Choice : Type)
  | lock (next : Place)
  | unlock (next : Place)
  | access (f : ℕ → Shared → Place × Shared)
  | other (f : Choice → World → Option (Place × World))
  | notifyOne (next : Place)
  | wait (next : Bool → Place)
  | exit

variable {Place Shared World Choice : Type}

/-- The statement at a place locks and unlocks the mutex as `holds` says. -/
def Stmt.Keeps (holds : Place → Bool) (place : Place) : Stmt Place Shared World Choice → Prop
  | .lock next => holds place = false ∧ holds next = true
  | .unlock next => holds place = true ∧ holds next = false
  | .access f => holds place = true ∧ ∀ index shared, holds (f index shared).1 = true
  | .other f => holds place = false ∧
      ∀ choice world, ∀ next ∈ f choice world, holds next.1 = false
  | .notifyOne next => holds next = holds place
  | .wait next => holds place = true ∧ ∀ timedOut, holds (next timedOut) = true
  | .exit => holds place = false

/-- A program for threads that share a mutex and a condition variable. -/
structure Code (Place Shared World Choice : Type) where
  stmt : Place → Stmt Place Shared World Choice
  holds : Place → Bool
  keeps (place : Place) : (stmt place).Keeps holds place

/-- What `Code.keeps` says about a known statement. -/
theorem Code.keeps_of (code : Code Place Shared World Choice) {place : Place}
    {stmt : Stmt Place Shared World Choice} (hstmt : code.stmt place = stmt) :
    stmt.Keeps code.holds place := hstmt ▸ code.keeps place

/-- A thread is about to execute a statement, or it waits at one: it sleeps, or it is to lock the
mutex again. -/
inductive Thread (Place : Type)
  | runs (place : Place)
  | sleeps (place : Place)
  | wakes (place : Place) (timedOut : Bool)
deriving DecidableEq

/-- The threads, the one that holds the mutex, what the mutex protects, and what else the threads
share. -/
structure State (Place Shared World : Type) where
  threads : List (Thread Place)
  holder : Option ℕ
  shared : Shared
  world : World
deriving DecidableEq

/-- What happens next.
* `step`: the thread `index` executes its statement.
* `choose`: the same for a statement with several ways on.
* `notify`: the same for `notifyOne`, with the thread that it wakes up.
* `wake`: the thread `index` wakes up without having been notified.
* `world`: another part of the program changes what the mutex does not protect. -/
inductive Event (World Choice : Type)
  | step (index : ℕ)
  | choose (index : ℕ) (choice : Choice)
  | notify (index : ℕ) (woken : Option ℕ)
  | wake (index : ℕ) (timedOut : Bool)
  | world (world : World)

/-- The thread that takes the step. -/
def Event.index? : Event World Choice → Option ℕ
  | .step index | .choose index _ | .notify index _ | .wake index _ => some index
  | .world _ => none

/-- Whether a thread sleeps. -/
def Thread.asleep : Thread Place → Bool
  | .sleeps _ => true
  | .runs _ | .wakes _ _ => false

namespace State

/-- The thread `index` moves. -/
def move (s : State Place Shared World) (index : ℕ) (thread : Thread Place) :
    State Place Shared World :=
  { s with threads := s.threads.set index thread }

/-- The thread `woken` is notified, if it sleeps; there is none to be notified if no thread does. -/
def notify (s : State Place Shared World) : Option ℕ → Option (State Place Shared World)
  | none => if s.threads.all (!·.asleep) then some s else none
  | some woken =>
    match s.threads[woken]? with
    | some (.sleeps place) => some (s.move woken (.wakes place false))
    | _ => none

end State

/-- The thread `index` executes a statement that has one way on. -/
def stepThread (code : Code Place Shared World Choice) (s : State Place Shared World) (index : ℕ) :
    Thread Place → Option (State Place Shared World)
  | .runs place =>
    match code.stmt place with
    | .lock next =>
      if s.holder = none then some { s.move index (.runs next) with holder := some index }
      else none
    | .unlock next => some { s.move index (.runs next) with holder := none }
    | .access f =>
      let result := f index s.shared
      some { s.move index (.runs result.1) with shared := result.2 }
    | .wait _ => some { s.move index (.sleeps place) with holder := none }
    | .other _ | .notifyOne _ | .exit => none
  | .sleeps _ => none
  | .wakes place timedOut =>
    match code.stmt place with
    | .wait next =>
      if s.holder = none then
        some { s.move index (.runs (next timedOut)) with holder := some index }
      else none
    | _ => none

/-- What an event does, `none` if it is not possible. -/
def step (code : Code Place Shared World Choice) (s : State Place Shared World) :
    Event World Choice → Option (State Place Shared World)
  | .step index => do stepThread code s index (← s.threads[index]?)
  | .choose index choice =>
    match s.threads[index]? with
    | some (.runs place) =>
      match code.stmt place with
      | .other f => (f choice s.world).map fun result ↦
          { s.move index (.runs result.1) with world := result.2 }
      | _ => none
    | _ => none
  | .notify index woken =>
    match s.threads[index]? with
    | some (.runs place) =>
      match code.stmt place with
      | .notifyOne next => (s.move index (.runs next)).notify woken
      | _ => none
    | _ => none
  | .wake index timedOut =>
    match s.threads[index]? with
    | some (.sleeps place) => some (s.move index (.wakes place timedOut))
    | _ => none
  | .world world => some { s with world }

/-! ### What a step can do -/

/-- What a step can do. -/
inductive Stepping (code : Code Place Shared World Choice) (s : State Place Shared World) :
    Event World Choice → State Place Shared World → Prop
  | lock {index : ℕ} {place next : Place} (hat : s.threads[index]? = some (.runs place))
      (hstmt : code.stmt place = .lock next) (hfree : s.holder = none) :
      Stepping code s (.step index) { s.move index (.runs next) with holder := some index }
  | relock {index : ℕ} {place : Place} {timedOut : Bool} {next : Bool → Place}
      (hat : s.threads[index]? = some (.wakes place timedOut))
      (hstmt : code.stmt place = .wait next) (hfree : s.holder = none) :
      Stepping code s (.step index)
        { s.move index (.runs (next timedOut)) with holder := some index }
  | unlock {index : ℕ} {place next : Place} (hat : s.threads[index]? = some (.runs place))
      (hstmt : code.stmt place = .unlock next) :
      Stepping code s (.step index) { s.move index (.runs next) with holder := none }
  | wait {index : ℕ} {place : Place} {next : Bool → Place}
      (hat : s.threads[index]? = some (.runs place)) (hstmt : code.stmt place = .wait next) :
      Stepping code s (.step index) { s.move index (.sleeps place) with holder := none }
  | access {index : ℕ} {place : Place} {f : ℕ → Shared → Place × Shared}
      (hat : s.threads[index]? = some (.runs place)) (hstmt : code.stmt place = .access f) :
      Stepping code s (.step index)
        { s.move index (.runs (f index s.shared).1) with shared := (f index s.shared).2 }
  | other {index : ℕ} {place : Place} {f : Choice → World → Option (Place × World)}
      {choice : Choice} {next : Place × World} (hat : s.threads[index]? = some (.runs place))
      (hstmt : code.stmt place = .other f) (hnext : f choice s.world = some next) :
      Stepping code s (.choose index choice) { s.move index (.runs next.1) with world := next.2 }
  | notifyNone {index : ℕ} {place next : Place} (hat : s.threads[index]? = some (.runs place))
      (hstmt : code.stmt place = .notifyOne next)
      (hnone : ∀ thread ∈ (s.move index (.runs next)).threads, thread.asleep = false) :
      Stepping code s (.notify index none) (s.move index (.runs next))
  | notifyOne {index woken : ℕ} {place next sleeping : Place}
      (hat : s.threads[index]? = some (.runs place)) (hstmt : code.stmt place = .notifyOne next)
      (hwoken : (s.move index (.runs next)).threads[woken]? = some (.sleeps sleeping)) :
      Stepping code s (.notify index (some woken))
        ((s.move index (.runs next)).move woken (.wakes sleeping false))
  | wake {index : ℕ} {place : Place} {timedOut : Bool}
      (hat : s.threads[index]? = some (.sleeps place)) :
      Stepping code s (.wake index timedOut) (s.move index (.wakes place timedOut))
  | world (world : World) : Stepping code s (.world world) { s with world }

variable {code : Code Place Shared World Choice} {s t : State Place Shared World}
  {event : Event World Choice}

/-- A notification wakes up a sleeping thread, or there is none. -/
theorem State.notify_cases {woken : Option ℕ} (h : s.notify woken = some t) :
    (woken = none ∧ t = s ∧ ∀ thread ∈ s.threads, thread.asleep = false) ∨
      ∃ (index : ℕ) (place : Place), woken = some index ∧
        s.threads[index]? = some (.sleeps place) ∧ t = s.move index (.wakes place false) := by
  cases woken with
  | none =>
    obtain ⟨hnone, h⟩ := Option.ite_none_right_eq_some.mp h
    obtain rfl := Option.some.inj h
    exact .inl ⟨rfl, rfl, by simpa using hnone⟩
  | some index =>
    simp only [State.notify] at h
    split at h
    · rename_i place hat
      obtain rfl := Option.some.inj h
      exact .inr ⟨index, place, rfl, hat, rfl⟩
    · contradiction

/-- Every statement that has one way on does one of the things `Stepping` lists. -/
theorem stepping_of_stepThread {index : ℕ} {thread : Thread Place}
    (hat : s.threads[index]? = some thread) (h : stepThread code s index thread = some t) :
    Stepping code s (.step index) t := by
  cases thread with
  | runs place =>
    simp only [stepThread] at h
    split at h
    · rename_i next hstmt
      obtain ⟨hfree, h⟩ := Option.ite_none_right_eq_some.mp h
      obtain rfl := Option.some.inj h
      exact .lock hat hstmt hfree
    · rename_i next hstmt
      obtain rfl := Option.some.inj h
      exact .unlock hat hstmt
    · rename_i f hstmt
      obtain rfl := Option.some.inj h
      exact .access hat hstmt
    · rename_i next hstmt
      obtain rfl := Option.some.inj h
      exact .wait hat hstmt
    · contradiction
    · contradiction
    · contradiction
  | sleeps place => contradiction
  | wakes place timedOut =>
    simp only [stepThread] at h
    split at h
    · rename_i next hstmt
      obtain ⟨hfree, h⟩ := Option.ite_none_right_eq_some.mp h
      obtain rfl := Option.some.inj h
      exact .relock hat hstmt hfree
    · contradiction

/-- Every step does one of the things `Stepping` lists. -/
theorem stepping_of_step (h : step code s event = some t) :
    Stepping code s event t := by
  cases event with
  | step index =>
    obtain ⟨thread, hat, h⟩ := Option.bind_eq_some_iff.mp h
    exact stepping_of_stepThread hat h
  | choose index choice =>
    simp only [step] at h
    split at h
    · rename_i place hat
      split at h
      · rename_i f hstmt
        obtain ⟨next, hnext, rfl⟩ := Option.map_eq_some_iff.mp h
        exact .other hat hstmt hnext
      · contradiction
    · contradiction
  | notify index woken =>
    simp only [step] at h
    split at h
    · rename_i place hat
      split at h
      · rename_i next hstmt
        obtain ⟨rfl, rfl, hnone⟩ | ⟨woken, sleeping, rfl, hwoken, rfl⟩ := State.notify_cases h
        · exact .notifyNone hat hstmt hnone
        · exact .notifyOne hat hstmt hwoken
      · contradiction
    · contradiction
  | wake index timedOut =>
    simp only [step] at h
    split at h
    · rename_i place hat
      obtain rfl := Option.some.inj h
      exact .wake hat
    · contradiction
  | world world =>
    obtain rfl := Option.some.inj h
    exact .world world

/-! ### Mutual exclusion -/

@[simp] theorem State.holder_move (s : State Place Shared World) (index : ℕ)
    (thread : Thread Place) : (s.move index thread).holder = s.holder := rfl

@[simp] theorem State.shared_move (s : State Place Shared World) (index : ℕ)
    (thread : Thread Place) : (s.move index thread).shared = s.shared := rfl

/-- The threads after one of them has moved. -/
theorem State.getElem?_move {index : ℕ} {old : Thread Place} (hat : s.threads[index]? = some old)
    (thread : Thread Place) (other : ℕ) : (s.move index thread).threads[other]? =
      if other = index then some thread else s.threads[other]? := by
  obtain ⟨hlt, -⟩ := List.getElem?_eq_some_iff.mp hat
  by_cases hother : other = index
  · subst hother
    simp [State.move, hlt]
  · simp [State.move, hother, Ne.symm hother]

/-- Whether a thread is at a place that holds the mutex. -/
def Code.holding (code : Code Place Shared World Choice) : Thread Place → Bool
  | .runs place => code.holds place
  | .sleeps _ | .wakes _ _ => false

/-- A thread that notifies keeps the mutex if it has it. -/
theorem Code.holding_notifyOne (code : Code Place Shared World Choice) {place next : Place}
    (hstmt : code.stmt place = .notifyOne next) :
    code.holding (.runs next) = code.holding (.runs place) := code.keeps_of hstmt

/-- The thread that holds the mutex is the one at a place that does. -/
def Exclusive (code : Code Place Shared World Choice) (s : State Place Shared World) : Prop :=
  ∀ index, s.holder = some index ↔ s.threads[index]?.any code.holding = true

/-- A thread at a place that holds the mutex holds it. -/
theorem Exclusive.holder_eq (h : Exclusive code s) {index : ℕ} {place : Place}
    (hat : s.threads[index]? = some (.runs place)) (hholds : code.holds place = true) :
    s.holder = some index := by
  refine (h index).mpr ?_
  rw [hat]
  exact hholds

/-- The thread that holds the mutex is at a place that does. -/
theorem Exclusive.exists_place (h : Exclusive code s) {index : ℕ}
    (hholder : s.holder = some index) :
    ∃ place, s.threads[index]? = some (.runs place) ∧ code.holds place = true := by
  obtain ⟨thread, hat, hholding⟩ := (Option.any_eq_true _ _).mp ((h index).mp hholder)
  cases thread with
  | runs place => exact ⟨place, hat, hholding⟩
  | sleeps place => contradiction
  | wakes place timedOut => contradiction

/-- Two threads at places that hold the mutex are one. -/
theorem Exclusive.eq (h : Exclusive code s) {index other : ℕ} {place place' : Place}
    (hat : s.threads[index]? = some (.runs place)) (hholds : code.holds place = true)
    (hat' : s.threads[other]? = some (.runs place')) (hholds' : code.holds place' = true) :
    index = other :=
  Option.some.inj ((h.holder_eq hat hholds).symm.trans (h.holder_eq hat' hholds'))

/-- No thread holds the mutex at the start. -/
theorem exclusive_of_outside (hholder : s.holder = none)
    (hthreads : ∀ thread ∈ s.threads, code.holding thread = false) : Exclusive code s := by
  intro index
  rw [hholder]
  cases hat : s.threads[index]? with
  | none => simp
  | some thread => simp [hthreads thread (List.mem_of_getElem? hat)]

/-- A thread that moves without taking or giving back the mutex keeps the exclusion. -/
theorem Exclusive.move (h : Exclusive code s) {index : ℕ} {old thread : Thread Place}
    (hat : s.threads[index]? = some old) (hsame : code.holding thread = code.holding old) :
    Exclusive code (s.move index thread) := by
  intro other
  rw [State.getElem?_move hat]
  split
  · rename_i hother
    subst hother
    rw [Option.any_some, hsame]
    simpa [hat] using h other
  · exact h other

/-- A thread that takes the free mutex keeps the exclusion. -/
theorem Exclusive.take (h : Exclusive code s) {index : ℕ} {old thread : Thread Place}
    (hat : s.threads[index]? = some old) (hfree : s.holder = none)
    (hholding : code.holding thread = true) :
    Exclusive code { s.move index thread with holder := some index } := by
  intro other
  show some index = some other ↔ (s.move index thread).threads[other]?.any code.holding = true
  rw [State.getElem?_move hat]
  split
  · rename_i hother
    simp [hother, hholding]
  · rename_i hother
    have hnot := (h other).not
    rw [hfree] at hnot
    simp [Ne.symm hother, hnot.mp (by simp)]

/-- A thread that gives back the mutex keeps the exclusion. -/
theorem Exclusive.give (h : Exclusive code s) {index : ℕ} {old thread : Thread Place}
    (hat : s.threads[index]? = some old) (hold : code.holding old = true)
    (hholding : code.holding thread = false) :
    Exclusive code { s.move index thread with holder := none } := by
  intro other
  show none = some other ↔ (s.move index thread).threads[other]?.any code.holding = true
  have hholder : s.holder = some index := (h index).mpr (by simp [hat, hold])
  rw [State.getElem?_move hat]
  split
  · simp [hholding]
  · rename_i hother
    have hnot := (h other).not
    rw [hholder] at hnot
    simp [hnot.mp (by simpa using Ne.symm hother)]

/-- Every step keeps the exclusion. -/
theorem exclusive_step (h : Exclusive code s) (hstep : Stepping code s event t) :
    Exclusive code t := by
  cases hstep with
  | @lock index place next hat hstmt hfree =>
    have hkeeps := code.keeps_of hstmt
    exact h.take hat hfree hkeeps.2
  | @relock index place timedOut next hat hstmt hfree =>
    have hkeeps := code.keeps_of hstmt
    exact h.take hat hfree (hkeeps.2 timedOut)
  | @unlock index place next hat hstmt =>
    have hkeeps := code.keeps_of hstmt
    exact h.give hat hkeeps.1 hkeeps.2
  | @wait index place next hat hstmt =>
    have hkeeps := code.keeps_of hstmt
    exact h.give hat hkeeps.1 rfl
  | @access index place f hat hstmt =>
    have hkeeps := code.keeps_of hstmt
    exact h.move hat ((hkeeps.2 index s.shared).trans hkeeps.1.symm)
  | @other index place f choice next hat hstmt hnext =>
    have hkeeps := code.keeps_of hstmt
    exact h.move hat ((hkeeps.2 choice s.world next hnext).trans hkeeps.1.symm)
  | @notifyNone index place next hat hstmt hnone =>
    exact h.move hat (code.holding_notifyOne hstmt)
  | @notifyOne index woken place next sleeping hat hstmt hwoken =>
    exact (h.move hat (code.holding_notifyOne hstmt)).move hwoken rfl
  | wake hat => exact h.move hat rfl
  | world world => exact h

/-! ### Assertions -/

/-- Assertions about the threads and about the free mutex, with what each statement needs of them.
A thread may assume `free` when it has locked the mutex, and has to bring it about before it unlocks
it. An access to what the mutex protects leaves the assertions about all threads that do not hold
it. -/
structure Outline (code : Code Place Shared World Choice) where
  free : Shared → Prop
  assertion : ℕ → Thread Place → Shared → Prop
  lock {index : ℕ} {place next : Place} {shared : Shared} (hstmt : code.stmt place = .lock next)
    (h : assertion index (.runs place) shared) (hfree : free shared) :
    assertion index (.runs next) shared
  relock {index : ℕ} {place : Place} {next : Bool → Place} {shared : Shared} (timedOut : Bool)
    (hstmt : code.stmt place = .wait next) (h : assertion index (.wakes place timedOut) shared)
    (hfree : free shared) : assertion index (.runs (next timedOut)) shared
  unlock {index : ℕ} {place next : Place} {shared : Shared} (hstmt : code.stmt place = .unlock next)
    (h : assertion index (.runs place) shared) :
    free shared ∧ assertion index (.runs next) shared
  wait {index : ℕ} {place : Place} {next : Bool → Place} {shared : Shared}
    (hstmt : code.stmt place = .wait next) (h : assertion index (.runs place) shared) :
    free shared ∧ assertion index (.sleeps place) shared
  wake {index : ℕ} {place : Place} {timedOut : Bool} {shared : Shared}
    (h : assertion index (.sleeps place) shared) : assertion index (.wakes place timedOut) shared
  access {index : ℕ} {place : Place} {f : ℕ → Shared → Place × Shared} {shared : Shared}
    (hstmt : code.stmt place = .access f) (h : assertion index (.runs place) shared) :
    assertion index (.runs (f index shared).1) (f index shared).2
  frame {index other : ℕ} {place : Place} {thread : Thread Place}
    {f : ℕ → Shared → Place × Shared} {shared : Shared} (hstmt : code.stmt place = .access f)
    (h : assertion index (.runs place) shared) (hother : other ≠ index)
    (hthread : code.holding thread = false) (h' : assertion other thread shared) :
    assertion other thread (f index shared).2
  other {index : ℕ} {place : Place} {f : Choice → World → Option (Place × World)} {choice : Choice}
    {world : World} {next : Place × World} {shared : Shared} (hstmt : code.stmt place = .other f)
    (hnext : f choice world = some next) (h : assertion index (.runs place) shared) :
    assertion index (.runs next.1) shared
  notifyOne {index : ℕ} {place next : Place} {shared : Shared}
    (hstmt : code.stmt place = .notifyOne next) (h : assertion index (.runs place) shared) :
    assertion index (.runs next) shared

namespace Outline

/-- The assertions hold. -/
structure Valid (outline : Outline code) (s : State Place Shared World) : Prop where
  exclusive : Exclusive code s
  free : s.holder = none → outline.free s.shared
  threads : ∀ index thread, s.threads[index]? = some thread →
    outline.assertion index thread s.shared

variable {outline : Outline code}

/-- The assertions about the threads after one of them has moved. -/
theorem Valid.threads_move (h : outline.Valid s) {index : ℕ} {old thread : Thread Place}
    (hat : s.threads[index]? = some old) (hthread : outline.assertion index thread s.shared)
    (other : ℕ) (thread' : Thread Place)
    (hat' : (s.move index thread).threads[other]? = some thread') :
    outline.assertion other thread' s.shared := by
  rw [State.getElem?_move hat] at hat'
  split at hat'
  · rename_i hother
    obtain rfl := Option.some.inj hat'
    rw [hother]
    exact hthread
  · exact h.threads other thread' hat'

/-- Every step keeps the assertions. -/
theorem valid_step (h : outline.Valid s) (hstep : Stepping code s event t) : outline.Valid t := by
  have hexclusive : Exclusive code t := exclusive_step h.exclusive hstep
  cases hstep with
  | lock hat hstmt hfree =>
    refine ⟨hexclusive, fun hnone ↦ absurd hnone (by simp), h.threads_move hat ?_⟩
    exact outline.lock hstmt (h.threads _ _ hat) (h.free hfree)
  | relock hat hstmt hfree =>
    refine ⟨hexclusive, fun hnone ↦ absurd hnone (by simp), h.threads_move hat ?_⟩
    exact outline.relock _ hstmt (h.threads _ _ hat) (h.free hfree)
  | unlock hat hstmt =>
    obtain ⟨hfree, hnext⟩ := outline.unlock hstmt (h.threads _ _ hat)
    exact ⟨hexclusive, fun _ ↦ hfree, h.threads_move hat hnext⟩
  | wait hat hstmt =>
    obtain ⟨hfree, hnext⟩ := outline.wait hstmt (h.threads _ _ hat)
    exact ⟨hexclusive, fun _ ↦ hfree, h.threads_move hat hnext⟩
  | @access index place f hat hstmt =>
    have hkeeps := code.keeps_of hstmt
    have hholder : s.holder = some index := h.exclusive.holder_eq hat hkeeps.1
    refine ⟨hexclusive, fun hnone ↦ absurd (hholder.symm.trans hnone) (by simp), ?_⟩
    intro other thread hat'
    rw [State.getElem?_move hat] at hat'
    split at hat'
    · rename_i hother
      obtain rfl := Option.some.inj hat'
      rw [hother]
      exact outline.access hstmt (h.threads _ _ hat)
    · rename_i hother
      -- a thread other than the one with access does not hold the mutex
      have hthread : code.holding thread = false := by
        have hnot := (h.exclusive other).not.mp (by simpa [hholder] using Ne.symm hother)
        simpa [hat'] using hnot
      exact outline.frame hstmt (h.threads _ _ hat) hother hthread (h.threads _ _ hat')
  | other hat hstmt hnext =>
    exact ⟨hexclusive, h.free, h.threads_move hat (outline.other hstmt hnext (h.threads _ _ hat))⟩
  | notifyNone hat hstmt hnone =>
    exact ⟨hexclusive, h.free, h.threads_move hat (outline.notifyOne hstmt (h.threads _ _ hat))⟩
  | @notifyOne index woken place next sleeping hat hstmt hwoken =>
    have hmoved := h.threads_move hat (outline.notifyOne hstmt (h.threads _ _ hat))
    refine ⟨hexclusive, h.free, fun other thread hat' ↦ ?_⟩
    rw [State.getElem?_move hwoken] at hat'
    split at hat'
    · rename_i hother
      obtain rfl := Option.some.inj hat'
      rw [hother]
      exact outline.wake (hmoved woken _ hwoken)
    · exact hmoved other thread hat'
  | wake hat => exact ⟨hexclusive, h.free, h.threads_move hat (outline.wake (h.threads _ _ hat))⟩
  | world world => exact ⟨hexclusive, h.free, h.threads⟩

/-- The assertions hold in every state of every run. Assumes: they hold at the start. -/
theorem valid_of_run {events : List (Event World Choice)}
    (hrun : Run (fun s event t ↦ step code s event = some t) s events t) (h : outline.Valid s) :
    outline.Valid t :=
  hrun.invariant outline.Valid (fun hs hstep ↦ valid_step hs (stepping_of_step hstep)) h

end Outline

/-! ### The calls of a thread -/

/-- How a thread can move on without an access and without a choice. -/
inductive Moves (code : Code Place Shared World Choice) : Thread Place → Thread Place → Prop
  | lock {place next : Place} (hstmt : code.stmt place = .lock next) :
      Moves code (.runs place) (.runs next)
  | relock {place : Place} {timedOut : Bool} {next : Bool → Place}
      (hstmt : code.stmt place = .wait next) :
      Moves code (.wakes place timedOut) (.runs (next timedOut))
  | unlock {place next : Place} (hstmt : code.stmt place = .unlock next) :
      Moves code (.runs place) (.runs next)
  | wait {place : Place} {next : Bool → Place} (hstmt : code.stmt place = .wait next) :
      Moves code (.runs place) (.sleeps place)
  | notifyOne {place next : Place} (hstmt : code.stmt place = .notifyOne next) :
      Moves code (.runs place) (.runs next)
  | wake {place : Place} {timedOut : Bool} : Moves code (.sleeps place) (.wakes place timedOut)

section History

variable {Call : Type}

/-- What the thread `index` has been called with. -/
def called (index : ℕ) (events : List (Event World (Option Call))) : List Call :=
  events.filterMap fun
    | .choose caller call => if caller = index then call else none
    | .step _ | .notify _ _ | .wake _ _ | .world _ => none

theorem called_append (index : ℕ) (events later : List (Event World (Option Call))) :
    called index (events ++ later) = called index events ++ called index later :=
  List.filterMap_append

/-- One more choice of a thread. -/
theorem called_choose (index caller : ℕ) (call : Option Call) :
    called index ([.choose caller call] : List (Event World (Option Call))) =
      if caller = index then call.toList else [] := by
  by_cases hcaller : caller = index <;> cases call <;> simp [called, hcaller]

/-- An assertion about a thread that speaks of what the thread has been called with. -/
structure History (code : Code Place Shared World (Option Call)) where
  agrees : ℕ → List Call → Thread Place → Shared → Prop
  moves {index : ℕ} {calls : List Call} {old new : Thread Place} {shared : Shared}
    (hmoves : Moves code old new) (h : agrees index calls old shared) :
    agrees index calls new shared
  access {index : ℕ} {calls : List Call} {place : Place} {f : ℕ → Shared → Place × Shared}
    {shared : Shared} (hstmt : code.stmt place = .access f)
    (h : agrees index calls (.runs place) shared) :
    agrees index calls (.runs (f index shared).1) (f index shared).2
  frame {index other : ℕ} {calls : List Call} {place : Place} {thread : Thread Place}
    {f : ℕ → Shared → Place × Shared} {shared : Shared} (hstmt : code.stmt place = .access f)
    (hother : other ≠ index) (h : agrees other calls thread shared) :
    agrees other calls thread (f index shared).2
  other {index : ℕ} {calls : List Call} {place : Place}
    {f : Option Call → World → Option (Place × World)} {call : Option Call} {world : World}
    {next : Place × World} {shared : Shared} (hstmt : code.stmt place = .other f)
    (hnext : f call world = some next) (h : agrees index calls (.runs place) shared) :
    agrees index (calls ++ call.toList) (.runs next.1) shared

namespace History

variable {code : Code Place Shared World (Option Call)} {history : History code}
  {s t : State Place Shared World} {event : Event World (Option Call)}
  {events : List (Event World (Option Call))}

/-- The assertions hold after the events. -/
def Kept (history : History code) (events : List (Event World (Option Call)))
    (s : State Place Shared World) : Prop :=
  ∀ index thread, s.threads[index]? = some thread →
    history.agrees index (called index events) thread s.shared

/-- A thread moves on without an access and without a choice. -/
theorem Kept.move (h : history.Kept events s) {index : ℕ} {old new : Thread Place}
    (hat : s.threads[index]? = some old) (hmoves : Moves code old new) :
    history.Kept events (s.move index new) := by
  intro other thread hother
  rw [State.getElem?_move hat] at hother
  split at hother
  · rename_i hindex
    subst hindex
    obtain rfl := Option.some.inj hother
    exact history.moves hmoves (h other old hat)
  · exact h other thread hother

/-- An event without a choice adds nothing to the calls. -/
theorem Kept.append (h : history.Kept events s) (hcalled : ∀ index, called index [event] = []) :
    history.Kept (events ++ [event]) s := by
  intro index thread hat
  rw [called_append, hcalled, List.append_nil]
  exact h index thread hat

/-- Every step keeps the assertions. -/
theorem kept_step (h : history.Kept events s) (hstep : Stepping code s event t) :
    history.Kept (events ++ [event]) t := by
  cases hstep with
  | lock hat hstmt hfree => exact (h.move hat (.lock hstmt)).append fun _ ↦ rfl
  | relock hat hstmt hfree => exact (h.move hat (.relock hstmt)).append fun _ ↦ rfl
  | unlock hat hstmt => exact (h.move hat (.unlock hstmt)).append fun _ ↦ rfl
  | wait hat hstmt => exact (h.move hat (.wait hstmt)).append fun _ ↦ rfl
  | @access index place f hat hstmt =>
    refine Kept.append (fun other thread hother ↦ ?_) fun _ ↦ rfl
    rw [State.getElem?_move hat] at hother
    split at hother
    · rename_i hindex
      subst hindex
      obtain rfl := Option.some.inj hother
      exact history.access hstmt (h other _ hat)
    · rename_i hindex
      exact history.frame hstmt hindex (h other thread hother)
  | @other index place f call next hat hstmt hnext =>
    intro other thread hother
    rw [State.getElem?_move hat] at hother
    rw [called_append, called_choose]
    split at hother
    · rename_i hindex
      subst hindex
      obtain rfl := Option.some.inj hother
      rw [if_pos rfl]
      exact history.other hstmt hnext (h other _ hat)
    · rename_i hindex
      rw [if_neg (Ne.symm hindex), List.append_nil]
      exact h other thread hother
  | notifyNone hat hstmt hnone => exact (h.move hat (.notifyOne hstmt)).append fun _ ↦ rfl
  | notifyOne hat hstmt hwoken =>
    exact ((h.move hat (.notifyOne hstmt)).move hwoken .wake).append fun _ ↦ rfl
  | wake hat => exact (h.move hat .wake).append fun _ ↦ rfl
  | world world => exact Kept.append h fun _ ↦ rfl

/-- The assertions hold throughout every run. -/
theorem kept_of_run (hrun : Run (fun s event t ↦ step code s event = some t) s events t)
    (h : history.Kept [] s) : history.Kept events t :=
  hrun.invariant_labels history.Kept (fun h hstep ↦ kept_step h (stepping_of_step hstep)) h

end History

end History

/-! ### Notifications -/

/-- What makes sure that no thread sleeps through the condition `ready`. A place has a duty if the
thread at it holds the mutex and is to notify, or to put an end to the condition, before it unlocks
the mutex: this is so when an access has made the condition true, and when a thread has woken up. No
thread goes to sleep while the condition is true. -/
structure Duties (outline : Outline code) where
  ready : Shared → Prop
  duty : Place → Bool
  access {index : ℕ} {place : Place} {f : ℕ → Shared → Place × Shared} {shared : Shared}
    (hstmt : code.stmt place = .access f) (h : outline.assertion index (.runs place) shared)
    (hduty : ready shared → duty place = true) (hready : ready (f index shared).2) :
    duty (f index shared).1 = true
  unlock {index : ℕ} {place next : Place} {shared : Shared} (hstmt : code.stmt place = .unlock next)
    (h : outline.assertion index (.runs place) shared) (hduty : duty place = true) : ¬ ready shared
  wait {index : ℕ} {place : Place} {next : Bool → Place} {shared : Shared}
    (hstmt : code.stmt place = .wait next) (h : outline.assertion index (.runs place) shared) :
    ¬ ready shared
  relock {place : Place} {next : Bool → Place} (hstmt : code.stmt place = .wait next)
    (timedOut : Bool) : duty (next timedOut) = true

namespace Duties

variable {outline : Outline code}

/-- A thread sleeps. -/
def Sleeping (s : State Place Shared World) : Prop :=
  ∃ (index : ℕ) (place : Place), s.threads[index]? = some (.sleeps place)

/-- A thread has woken up and is to lock the mutex again. -/
def Waking (s : State Place Shared World) : Prop :=
  ∃ (index : ℕ) (place : Place) (timedOut : Bool), s.threads[index]? = some (.wakes place timedOut)

/-- The thread that holds the mutex has a duty. -/
def Owing (duties : Duties outline) (s : State Place Shared World) : Prop :=
  ∃ (index : ℕ) (place : Place), s.holder = some index ∧
    s.threads[index]? = some (.runs place) ∧ duties.duty place = true

/-- No thread sleeps through the condition. -/
def Awake (duties : Duties outline) (s : State Place Shared World) : Prop :=
  duties.ready s.shared → Sleeping s → Waking s ∨ duties.Owing s

/-- A thread that moves on leaves only threads asleep that were so before. -/
theorem sleeping_of_move {index : ℕ} {old thread : Thread Place}
    (hat : s.threads[index]? = some old) (hthread : thread.asleep = false)
    (h : Sleeping (s.move index thread)) : Sleeping s := by
  obtain ⟨other, place, hother⟩ := h
  rw [State.getElem?_move hat] at hother
  split at hother
  · obtain rfl := Option.some.inj hother
    contradiction
  · exact ⟨other, place, hother⟩

/-- A thread that runs moves without changing which threads have woken up. -/
theorem waking_move {index : ℕ} {place : Place} (hat : s.threads[index]? = some (.runs place))
    (thread : Thread Place) (h : Waking s) : Waking (s.move index thread) := by
  obtain ⟨other, place', timedOut, hother⟩ := h
  refine ⟨other, place', timedOut, ?_⟩
  rw [State.getElem?_move hat, if_neg]
  · exact hother
  · rintro rfl
    exact absurd (hat.symm.trans hother) (by simp)

/-- Every step keeps the threads from sleeping through the condition. -/
theorem awake_step {duties : Duties outline} (hvalid : outline.Valid s) (h : duties.Awake s)
    (hstep : Stepping code s event t) : duties.Awake t := by
  intro hready hsleeping
  cases hstep with
  | lock hat hstmt hfree =>
    obtain hwaking | ⟨holder, _, hholder, _⟩ := h hready (sleeping_of_move hat rfl hsleeping)
    · exact .inl (waking_move hat _ hwaking)
    · exact absurd (hfree.symm.trans hholder) (by simp)
  | @relock index place timedOut next hat hstmt hfree =>
    refine .inr ⟨index, next timedOut, rfl, ?_, duties.relock hstmt timedOut⟩
    exact (State.getElem?_move hat _ index).trans (if_pos rfl)
  | @unlock index place next hat hstmt =>
    obtain hwaking | ⟨holder, place', hholder, hat', hduty⟩ :=
      h hready (sleeping_of_move hat rfl hsleeping)
    · exact .inl (waking_move hat _ hwaking)
    · have hkeeps := code.keeps_of hstmt
      have hindex : s.holder = some index := hvalid.exclusive.holder_eq hat hkeeps.1
      obtain rfl := Option.some.inj (hindex.symm.trans hholder)
      obtain rfl := Thread.runs.inj (Option.some.inj (hat.symm.trans hat'))
      exact absurd hready (duties.unlock hstmt (hvalid.threads _ _ hat) hduty)
  | wait hat hstmt => exact absurd hready (duties.wait hstmt (hvalid.threads _ _ hat))
  | @access index place f hat hstmt =>
    have hkeeps := code.keeps_of hstmt
    have hindex : s.holder = some index := hvalid.exclusive.holder_eq hat hkeeps.1
    by_cases hwaking : Waking s
    · exact .inl (waking_move hat _ hwaking)
    · refine .inr ⟨index, (f index s.shared).1, hindex, ?_, ?_⟩
      · exact (State.getElem?_move hat _ index).trans (if_pos rfl)
      · refine duties.access hstmt (hvalid.threads _ _ hat) (fun hbefore ↦ ?_) hready
        obtain hwaking' | ⟨holder, place', hholder, hat', hduty⟩ :=
          h hbefore (sleeping_of_move hat rfl hsleeping)
        · exact absurd hwaking' hwaking
        · obtain rfl := Option.some.inj (hindex.symm.trans hholder)
          obtain rfl := Thread.runs.inj (Option.some.inj (hat.symm.trans hat'))
          exact hduty
  | @other index place f choice next hat hstmt hnext =>
    obtain hwaking | ⟨holder, place', hholder, hat', hduty⟩ :=
      h hready (sleeping_of_move hat rfl hsleeping)
    · exact .inl (waking_move hat _ hwaking)
    · -- the thread that holds the mutex is another one
      refine .inr ⟨holder, place', hholder, ?_, hduty⟩
      refine (State.getElem?_move hat _ holder).trans ((if_neg ?_).trans hat')
      rintro rfl
      obtain ⟨held, hheld, hholds⟩ := hvalid.exclusive.exists_place hholder
      obtain rfl := Thread.runs.inj (Option.some.inj (hat.symm.trans hheld))
      have hkeeps := code.keeps_of hstmt
      exact absurd (hholds.symm.trans hkeeps.1) (by simp)
  | notifyNone hat hstmt hnone =>
    obtain ⟨other, place, hother⟩ := hsleeping
    exact absurd (hnone _ (List.mem_of_getElem? hother)) (by simp [Thread.asleep])
  | @notifyOne index woken place next sleeping hat hstmt hwoken =>
    refine .inl ⟨woken, sleeping, false, ?_⟩
    exact (State.getElem?_move hwoken _ woken).trans (if_pos rfl)
  | @wake index place timedOut hat =>
    refine .inl ⟨index, place, timedOut, ?_⟩
    exact (State.getElem?_move hat _ index).trans (if_pos rfl)
  | world world => exact h hready hsleeping

/-- No thread sleeps through the condition in any state of any run. Assumes: none does at the
start. -/
theorem awake_of_run {duties : Duties outline} {events : List (Event World Choice)}
    (hrun : Run (fun s event t ↦ step code s event = some t) s events t) (hvalid : outline.Valid s)
    (h : duties.Awake s) : duties.Awake t :=
  (hrun.invariant (fun s ↦ outline.Valid s ∧ duties.Awake s)
    (fun hs hstep ↦ ⟨Outline.valid_step hs.1 (stepping_of_step hstep),
      awake_step hs.1 hs.2 (stepping_of_step hstep)⟩) ⟨hvalid, h⟩).2

end Duties

/-! ### Progress -/

/-- A bound on what a thread that holds the mutex does before it unlocks it. -/
structure Ranking (outline : Outline code) where
  rank : Place → Shared → ℕ
  access {index : ℕ} {place : Place} {f : ℕ → Shared → Place × Shared} {shared : Shared}
    (hstmt : code.stmt place = .access f) (h : outline.assertion index (.runs place) shared) :
    rank (f index shared).1 (f index shared).2 < rank place shared
  notifyOne {place next : Place} {shared : Shared} (hstmt : code.stmt place = .notifyOne next)
    (hholds : code.holds place = true) : rank next shared < rank place shared

namespace Ranking

variable {outline : Outline code}

/-- A thread is as it was, or it slept and has been notified. -/
inductive Woken : Thread Place → Thread Place → Prop
  | same (thread : Thread Place) : Woken thread thread
  | notified (place : Place) : Woken (.sleeps place) (.wakes place false)

/-- A thread that has been notified is not notified again. -/
theorem Woken.trans {first second third : Thread Place} (h : Woken first second)
    (h' : Woken second third) : Woken first third := by
  cases h with
  | same => exact h'
  | notified place =>
    cases h' with
    | same => exact .notified place

/-- The steps of one thread leave the others as they were, or notify them. -/
structure Leaves (index : ℕ) (s t : State Place Shared World) : Prop where
  world : t.world = s.world
  threads {other : ℕ} {thread : Thread Place} (hother : other ≠ index)
    (hat : s.threads[other]? = some thread) :
    ∃ thread', t.threads[other]? = some thread' ∧ Woken thread thread'

theorem Leaves.refl (index : ℕ) (s : State Place Shared World) : Leaves index s s where
  world := rfl
  threads _ hat := ⟨_, hat, .same _⟩

theorem Leaves.trans {index : ℕ} {r : State Place Shared World} (h : Leaves index r s)
    (h' : Leaves index s t) : Leaves index r t where
  world := h'.world.trans h.world
  threads hother hat := by
    obtain ⟨middle, hmiddle, hfirst⟩ := h.threads hother hat
    obtain ⟨last, hlast, hsecond⟩ := h'.threads hother hmiddle
    exact ⟨last, hlast, hfirst.trans hsecond⟩

/-- Some thread can be notified, or there is none to be. -/
theorem exists_notify (s : State Place Shared World) : ∃ woken t, s.notify woken = some t ∧
    t.holder = s.holder ∧ t.shared = s.shared ∧ t.world = s.world ∧
    ∀ (index : ℕ) (thread : Thread Place), s.threads[index]? = some thread →
      ∃ thread', t.threads[index]? = some thread' ∧ Woken thread thread' := by
  by_cases hnone : s.threads.all (!·.asleep) = true
  · exact ⟨none, s, if_pos hnone, rfl, rfl, rfl, fun _ thread hat ↦ ⟨thread, hat, .same thread⟩⟩
  · obtain ⟨thread, hmem, hasleep⟩ : ∃ thread ∈ s.threads, thread.asleep = true := by
      simpa using hnone
    obtain ⟨woken, hat⟩ := List.getElem?_of_mem hmem
    cases thread with
    | runs place => contradiction
    | wakes place timedOut => contradiction
    | sleeps place =>
      refine ⟨some woken, s.move woken (.wakes place false), by simp [State.notify, hat], rfl, rfl,
        rfl, fun index thread hat' ↦ ?_⟩
      rw [State.getElem?_move hat]
      split
      · rename_i hindex
        subst hindex
        obtain rfl := Option.some.inj (hat.symm.trans hat')
        exact ⟨_, rfl, .notified place⟩
      · exact ⟨thread, hat', .same thread⟩

/-- A thread that holds the mutex comes, by steps of its own, to a statement that unlocks it. `Part`
is a part of the code that is not left on the way. -/
theorem exists_end (ranking : Ranking outline) (Part : Place → Prop)
    (haccess : ∀ {index place f shared}, Part place → code.stmt place = .access f →
      Part (f index shared).1)
    (hnotify : ∀ {place next}, Part place → code.stmt place = .notifyOne next → Part next)
    {index : ℕ} {place : Place} (hvalid : outline.Valid s)
    (hat : s.threads[index]? = some (.runs place)) (hholds : code.holds place = true)
    (hpart : Part place) :
    ∃ events t place', Run (fun s event t ↦ step code s event = some t) s events t ∧
      (∀ event ∈ events, event.index? = some index) ∧ Leaves index s t ∧
      t.threads[index]? = some (.runs place') ∧ Part place' ∧
      ((∃ next, code.stmt place' = .unlock next) ∨ ∃ next, code.stmt place' = .wait next) := by
  induction hrank : ranking.rank place s.shared using Nat.strongRecOn
    generalizing s place with
  | _ rank ih =>
  cases hstmt : code.stmt place with
  | lock next =>
    exact absurd (hholds.symm.trans (code.keeps_of hstmt).1) (by simp)
  | other f =>
    exact absurd (hholds.symm.trans (code.keeps_of hstmt).1) (by simp)
  | exit =>
    exact absurd (hholds.symm.trans (code.keeps_of hstmt)) (by simp)
  | unlock next =>
    exact ⟨[], s, place, .nil s, by simp, .refl index s, hat, hpart, .inl ⟨next, hstmt⟩⟩
  | wait next =>
    exact ⟨[], s, place, .nil s, by simp, .refl index s, hat, hpart, .inr ⟨next, hstmt⟩⟩
  | access f =>
    have hkeeps := code.keeps_of hstmt
    let after : State Place Shared World :=
      { s.move index (.runs (f index s.shared).1) with shared := (f index s.shared).2 }
    have hstep : step code s (.step index) = some after := by
      simp [step, hat, stepThread, hstmt, after]
    have hat' : after.threads[index]? = some (.runs (f index s.shared).1) :=
      (State.getElem?_move hat _ index).trans (if_pos rfl)
    obtain ⟨events, t, place', hrun, hevents, hleaves, hrest⟩ := ih _
      (hrank ▸ ranking.access hstmt (hvalid.threads _ _ hat))
      (Outline.valid_step hvalid (stepping_of_step hstep)) hat' (hkeeps.2 index s.shared)
      (haccess hpart hstmt) rfl
    have hfirst : Leaves index s after := ⟨rfl, fun hother hthread ↦
      ⟨_, (State.getElem?_move hat _ _).trans ((if_neg hother).trans hthread), .same _⟩⟩
    exact ⟨.step index :: events, t, place', .cons hstep hrun,
      List.forall_mem_cons.mpr ⟨rfl, hevents⟩, hfirst.trans hleaves, hrest⟩
  | notifyOne next =>
    have hkeeps := code.keeps_of hstmt
    obtain ⟨woken, after, hafter, -, hshared, hworld, hthreads⟩ :=
      exists_notify (s.move index (.runs next))
    have hstep : step code s (.notify index woken) = some after := by
      simpa [step, hat, hstmt] using hafter
    obtain ⟨thread, hat', hthread⟩ := hthreads index (.runs next)
      ((State.getElem?_move hat _ index).trans (if_pos rfl))
    cases hthread
    have hless : ranking.rank next after.shared < rank := by
      rw [hshared, ← hrank]
      exact ranking.notifyOne hstmt hholds
    obtain ⟨events, t, place', hrun, hevents, hleaves, hrest⟩ := ih _ hless
      (Outline.valid_step hvalid (stepping_of_step hstep)) hat' (hkeeps.trans hholds)
      (hnotify hpart hstmt) rfl
    have hfirst : Leaves index s after := ⟨hworld, fun hother hthread ↦
      hthreads _ _ ((State.getElem?_move hat _ _).trans ((if_neg hother).trans hthread))⟩
    exact ⟨.notify index woken :: events, t, place', .cons hstep hrun,
      List.forall_mem_cons.mpr ⟨rfl, hevents⟩, hfirst.trans hleaves, hrest⟩

end Ranking

end Monitor

end Kapua
