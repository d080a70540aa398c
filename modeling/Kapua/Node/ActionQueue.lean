import Kapua.Foundation.Monitor

/-!
# The action queue

`Core::queue_action` and `Core::_main_loop` as threads under `_action_mutex` and
`_action_waiting`. Any number of threads call `queue_action` as often as they like, and any number
of threads run `_main_loop`, as `Core::start` can be called more than once. The flag `_running` is
outside the mutex, and other parts of the program may change it at any time.

A step is one statement, so `front` and `pop` are two. `wait_for` with a predicate is the loop that
the standard library defines it by: it tests the predicate, returns if it holds, and otherwise
sleeps; when the time is up it returns what the predicate says. Every action ends in the default
case of the `switch`, since there are no others.
-/

set_option autoImplicit false
set_option relaxedAutoImplicit false

namespace Kapua

open Monitor

namespace ActionQueue

/-- `class Action`. `ActionType` has no enumerators, only the values of its underlying type. -/
structure Action where
  type : UInt8
deriving DecidableEq

/-- What `_action_mutex` protects: `_actions`. The other two are a record that no statement reads:
the actions that `queue_action` has pushed, each with the thread that called it, and those for which
the `switch` of `_main_loop` has logged `Unknown action type`. -/
structure Queue where
  actions : List Action
  pushed : List (ℕ × Action)
  handled : List Action
deriving DecidableEq

/-- The statements of `Core::queue_action` that a thread can be about to execute.
* `returned`: outside the function.
* `lockGuard`: the constructor of the lock guard.
* `push`: `_actions.push`.
* `notifyOne`: `_action_waiting.notify_one`.
* `unlock`: the destructor of the lock guard. -/
inductive QueueAction
  | returned
  | lockGuard (action : Action)
  | push (action : Action)
  | notifyOne
  | unlock
deriving DecidableEq

/-- The statements of `Core::_main_loop` that a thread can be about to execute.
* `testRunning`: the test before `_running = true`.
* `setRunning`: `_running = true`.
* `whileRunning`: the test of the loop.
* `uniqueLock`: the constructor of the lock.
* `predicate`: the predicate of `wait_for`.
* `waitUntil`: the wait inside `wait_for`.
* `predicateAfterTimeout`: the predicate, once the time is up.
* `whileNotEmpty`: the test of the inner loop.
* `front`, `pop`: of `_actions`.
* `switch`: on the type of an action.
* `unlock`: the destructor of the lock. -/
inductive MainLoop
  | testRunning
  | setRunning
  | whileRunning
  | uniqueLock
  | predicate
  | waitUntil
  | predicateAfterTimeout
  | whileNotEmpty
  | front
  | pop (action : Action)
  | switch (action : Action)
  | unlock
  | exited
deriving DecidableEq

/-- Where a thread is. -/
inductive Place
  | queueAction (pc : QueueAction)
  | mainLoop (pc : MainLoop)
deriving DecidableEq

/-- `Core::queue_action`. A thread outside the function may call it with any action. -/
def queueAction : QueueAction → Stmt Place Queue Bool (Option Action)
  | .returned => .other fun call running ↦
      call.map fun action ↦ (.queueAction (.lockGuard action), running)
  | .lockGuard action => .lock (.queueAction (.push action))
  | .push action => .access fun index queue ↦ (.queueAction .notifyOne,
      { queue with
        actions := queue.actions ++ [action]
        pushed := queue.pushed ++ [(index, action)] })
  | .notifyOne => .notifyOne (.queueAction .unlock)
  | .unlock => .unlock (.queueAction .returned)

/-- The next place of a thread that only reads the flag. -/
def readRunning (next : Bool → MainLoop) : Stmt Place Queue Bool (Option Action) :=
  .other fun call running ↦ if call = none then some (.mainLoop (next running), running) else none

/-- The next place of a thread that only reads the queue. -/
def readQueue (next : List Action → MainLoop) : Stmt Place Queue Bool (Option Action) :=
  .access fun _ queue ↦ (.mainLoop (next queue.actions), queue)

/-- `Core::_main_loop`. The first action of an empty queue is not defined, and never asked for. -/
def mainLoop : MainLoop → Stmt Place Queue Bool (Option Action)
  | .testRunning => readRunning fun running ↦ if running then .exited else .setRunning
  | .setRunning => .other fun call _ ↦
      if call = none then some (.mainLoop .whileRunning, true) else none
  | .whileRunning => readRunning fun running ↦ if running then .uniqueLock else .exited
  | .uniqueLock => .lock (.mainLoop .predicate)
  | .predicate => readQueue fun actions ↦ if actions = [] then .waitUntil else .whileNotEmpty
  | .waitUntil => .wait fun timedOut ↦
      .mainLoop (if timedOut then .predicateAfterTimeout else .predicate)
  | .predicateAfterTimeout => readQueue fun actions ↦
      if actions = [] then .unlock else .whileNotEmpty
  | .whileNotEmpty => readQueue fun actions ↦ if actions = [] then .unlock else .front
  | .front => readQueue fun actions ↦ .pop (actions.headD ⟨0⟩)
  | .pop action => .access fun _ queue ↦
      (.mainLoop (.switch action), { queue with actions := queue.actions.tail })
  | .switch action => .access fun _ queue ↦
      (.mainLoop .whileNotEmpty, { queue with handled := queue.handled ++ [action] })
  | .unlock => .unlock (.mainLoop .whileRunning)
  | .exited => .exit

/-- Whether a thread holds `_action_mutex`. -/
def holds : Place → Bool
  | .queueAction (.push _) | .queueAction .notifyOne | .queueAction .unlock => true
  | .queueAction .returned | .queueAction (.lockGuard _) => false
  | .mainLoop .testRunning | .mainLoop .setRunning | .mainLoop .whileRunning
  | .mainLoop .uniqueLock | .mainLoop .exited => false
  | .mainLoop .predicate | .mainLoop .waitUntil | .mainLoop .predicateAfterTimeout
  | .mainLoop .whileNotEmpty | .mainLoop .front | .mainLoop (.pop _) | .mainLoop (.switch _)
  | .mainLoop .unlock => true

/-- The statement at a place. -/
def stmt : Place → Stmt Place Queue Bool (Option Action)
  | .queueAction pc => queueAction pc
  | .mainLoop pc => mainLoop pc

/-- Reading the flag does not need the mutex. -/
theorem keeps_readRunning {place : Place} {next : Bool → MainLoop} (hplace : holds place = false)
    (hnext : ∀ running, holds (.mainLoop (next running)) = false) :
    (readRunning next).Keeps holds place := by
  refine ⟨hplace, fun call running result hresult ↦ ?_⟩
  obtain ⟨-, hresult⟩ := Option.ite_none_right_eq_some.mp hresult
  obtain rfl := Option.some.inj hresult
  exact hnext running

/-- Both functions lock and unlock the mutex as `holds` says. -/
theorem keeps (place : Place) : (stmt place).Keeps holds place := by
  cases place with
  | queueAction pc =>
    cases pc with
    | returned =>
      refine ⟨rfl, fun call running result hresult ↦ ?_⟩
      obtain ⟨action, -, rfl⟩ := Option.map_eq_some_iff.mp hresult
      rfl
    | lockGuard action => exact ⟨rfl, rfl⟩
    | push action => exact ⟨rfl, fun _ _ ↦ rfl⟩
    | notifyOne => rfl
    | unlock => exact ⟨rfl, rfl⟩
  | mainLoop pc =>
    cases pc with
    | testRunning => exact keeps_readRunning rfl fun running ↦ by cases running <;> rfl
    | setRunning =>
      refine ⟨rfl, fun call running result hresult ↦ ?_⟩
      obtain ⟨-, hresult⟩ := Option.ite_none_right_eq_some.mp hresult
      obtain rfl := Option.some.inj hresult
      rfl
    | whileRunning => exact keeps_readRunning rfl fun running ↦ by cases running <;> rfl
    | uniqueLock => exact ⟨rfl, rfl⟩
    | predicate => exact ⟨rfl, fun _ queue ↦ by cases h : queue.actions <;> simp [h, holds]⟩
    | waitUntil => exact ⟨rfl, fun timedOut ↦ by cases timedOut <;> rfl⟩
    | predicateAfterTimeout =>
      exact ⟨rfl, fun _ queue ↦ by cases h : queue.actions <;> simp [h, holds]⟩
    | whileNotEmpty => exact ⟨rfl, fun _ queue ↦ by cases h : queue.actions <;> simp [h, holds]⟩
    | front => exact ⟨rfl, fun _ _ ↦ rfl⟩
    | pop action => exact ⟨rfl, fun _ _ ↦ rfl⟩
    | switch action => exact ⟨rfl, fun _ _ ↦ rfl⟩
    | unlock => exact ⟨rfl, rfl⟩
    | exited => rfl

/-- The threads of the program as far as the action queue is concerned. -/
def code : Code Place Queue Bool (Option Action) where
  stmt := stmt
  holds := holds
  keeps := keeps

/-- Before the first step of any thread: each is outside `queue_action` or at the beginning of
`_main_loop`. -/
structure Started (s : State Place Queue Bool) : Prop where
  holder : s.holder = none
  shared : s.shared = ⟨[], [], []⟩
  threads : ∀ thread ∈ s.threads,
    thread = .runs (.queueAction .returned) ∨ thread = .runs (.mainLoop .testRunning)

/-! ### The queue between two statements -/

/-- The queue holds what has been pushed and not handled. -/
def Queue.InOrder (queue : Queue) : Prop :=
  queue.pushed.map Prod.snd = queue.handled ++ queue.actions

/-- What holds when a thread is about to execute a statement. -/
def assertion (_ : ℕ) (thread : Thread Place) (queue : Queue) : Prop :=
  match thread with
  | .runs (.queueAction .returned) | .runs (.queueAction (.lockGuard _)) => True
  | .runs (.queueAction _) => queue.InOrder
  | .runs (.mainLoop .predicate) | .runs (.mainLoop .predicateAfterTimeout)
  | .runs (.mainLoop .whileNotEmpty) => queue.InOrder
  | .runs (.mainLoop .waitUntil) | .runs (.mainLoop .unlock) =>
    queue.InOrder ∧ queue.actions = []
  | .runs (.mainLoop .front) => queue.InOrder ∧ queue.actions ≠ []
  | .runs (.mainLoop (.pop action)) => queue.InOrder ∧ queue.actions.head? = some action
  | .runs (.mainLoop (.switch action)) =>
    queue.pushed.map Prod.snd = queue.handled ++ action :: queue.actions
  | .runs (.mainLoop _) => True
  | .sleeps place | .wakes place _ => place = .mainLoop .waitUntil

variable {index other : ℕ} {place next : Place} {queue : Queue}
  {f : ℕ → Queue → Place × Queue}

/-- The places at which the mutex is locked. -/
theorem stmt_eq_lock (hstmt : stmt place = .lock next) :
    (∃ action, place = .queueAction (.lockGuard action) ∧ next = .queueAction (.push action)) ∨
      place = .mainLoop .uniqueLock ∧ next = .mainLoop .predicate := by
  cases place with
  | queueAction pc =>
    cases pc with
    | lockGuard action => exact .inl ⟨action, rfl, (Stmt.lock.inj hstmt).symm⟩
    | returned | push _ | notifyOne | unlock => cases hstmt
  | mainLoop pc =>
    cases pc with
    | uniqueLock => exact .inr ⟨rfl, (Stmt.lock.inj hstmt).symm⟩
    | _ => cases hstmt

/-- The places at which the mutex is unlocked. -/
theorem stmt_eq_unlock (hstmt : stmt place = .unlock next) :
    (place = .queueAction .unlock ∧ next = .queueAction .returned) ∨
      place = .mainLoop .unlock ∧ next = .mainLoop .whileRunning := by
  cases place with
  | queueAction pc =>
    cases pc with
    | unlock => exact .inl ⟨rfl, (Stmt.unlock.inj hstmt).symm⟩
    | returned | lockGuard _ | push _ | notifyOne => cases hstmt
  | mainLoop pc =>
    cases pc with
    | unlock => exact .inr ⟨rfl, (Stmt.unlock.inj hstmt).symm⟩
    | _ => cases hstmt

/-- The place at which a thread waits. -/
theorem stmt_eq_wait {after : Bool → Place} (hstmt : stmt place = .wait after) :
    place = .mainLoop .waitUntil ∧ after = fun timedOut ↦
      .mainLoop (if timedOut then .predicateAfterTimeout else .predicate) := by
  cases place with
  | queueAction pc => cases pc <;> cases hstmt
  | mainLoop pc =>
    cases pc with
    | waitUntil => exact ⟨rfl, (Stmt.wait.inj hstmt).symm⟩
    | _ => cases hstmt

/-- The place at which a thread notifies. -/
theorem stmt_eq_notifyOne (hstmt : stmt place = .notifyOne next) :
    place = .queueAction .notifyOne ∧ next = .queueAction .unlock := by
  cases place with
  | queueAction pc =>
    cases pc with
    | notifyOne => exact ⟨rfl, (Stmt.notifyOne.inj hstmt).symm⟩
    | returned | lockGuard _ | push _ | unlock => cases hstmt
  | mainLoop pc => cases pc <;> cases hstmt

/-- An access to the queue keeps the assertions about the thread. -/
theorem assertion_access (hstmt : stmt place = .access f)
    (h : assertion index (.runs place) queue) :
    assertion index (.runs (f index queue).1) (f index queue).2 := by
  cases place with
  | queueAction pc =>
    cases pc with
    | push action =>
      obtain rfl := Stmt.access.inj hstmt
      have horder : queue.pushed.map Prod.snd = queue.handled ++ queue.actions := h
      show (queue.pushed ++ [(index, action)]).map Prod.snd =
        queue.handled ++ (queue.actions ++ [action])
      rw [List.map_append, horder, List.append_assoc]
      rfl
    | returned | lockGuard _ | notifyOne | unlock => cases hstmt
  | mainLoop pc =>
    cases pc with
    | predicate | predicateAfterTimeout | whileNotEmpty =>
      obtain rfl := Stmt.access.inj hstmt
      cases hactions : queue.actions with
      | nil => simpa [assertion, hactions] using h
      | cons action rest => simpa [assertion, hactions] using h
    | front =>
      obtain rfl := Stmt.access.inj hstmt
      obtain ⟨horder, hsome⟩ := h
      cases hactions : queue.actions with
      | nil => exact absurd hactions hsome
      | cons action rest => exact ⟨horder, by simp [hactions]⟩
    | pop action =>
      obtain rfl := Stmt.access.inj hstmt
      obtain ⟨horder, hhead⟩ := h
      show queue.pushed.map Prod.snd = queue.handled ++ action :: queue.actions.tail
      rw [List.cons_head?_tail hhead]
      exact horder
    | switch action =>
      obtain rfl := Stmt.access.inj hstmt
      have horder : queue.pushed.map Prod.snd = queue.handled ++ action :: queue.actions := h
      show queue.pushed.map Prod.snd = queue.handled ++ [action] ++ queue.actions
      rw [horder, List.append_assoc]
      rfl
    | testRunning | setRunning | whileRunning | uniqueLock | waitUntil | unlock | exited =>
      cases hstmt

/-- Nothing is asserted at a place that does not hold the mutex. -/
theorem assertion_of_outside (hholds : holds place = false) (index : ℕ) (queue : Queue) :
    assertion index (.runs place) queue := by
  cases place with
  | queueAction pc => cases pc <;> trivial
  | mainLoop pc => cases pc <;> trivial

/-- The assertion about a thread that does not hold the mutex does not mention the queue. -/
theorem assertion_frame {thread : Thread Place} (hthread : code.holding thread = false)
    (h : assertion index thread queue) (other : ℕ) (queue' : Queue) :
    assertion other thread queue' := by
  cases thread with
  | runs place => exact assertion_of_outside hthread other queue'
  | sleeps place => exact h
  | wakes place timedOut => exact h

/-- The assertions about the threads that use the queue. -/
def outline : Outline code where
  free := Queue.InOrder
  assertion := assertion
  lock hstmt h hfree := by
    obtain ⟨action, -, rfl⟩ | ⟨-, rfl⟩ := stmt_eq_lock hstmt
    · exact hfree
    · exact hfree
  relock timedOut hstmt _ hfree := by
    obtain ⟨-, rfl⟩ := stmt_eq_wait hstmt
    cases timedOut with
    | false => exact hfree
    | true => exact hfree
  unlock hstmt h := by
    obtain ⟨rfl, rfl⟩ | ⟨rfl, rfl⟩ := stmt_eq_unlock hstmt
    · exact ⟨h, trivial⟩
    · exact ⟨h.1, trivial⟩
  wait hstmt h := by
    obtain ⟨rfl, -⟩ := stmt_eq_wait hstmt
    exact ⟨h.1, rfl⟩
  wake h := h
  access := assertion_access
  frame _ _ _ hthread h' := assertion_frame hthread h' _ _
  other hstmt hnext _ := assertion_of_outside ((code.keeps_of hstmt).2 _ _ _ hnext) _ _
  notifyOne hstmt h := by
    obtain ⟨rfl, rfl⟩ := stmt_eq_notifyOne hstmt
    exact h

/-- An empty queue that nothing has been pushed to is in order. -/
theorem Started.valid {s : State Place Queue Bool} (h : Started s) : outline.Valid s where
  exclusive := exclusive_of_outside h.holder fun thread hthread ↦ by
    obtain rfl | rfl := h.threads thread hthread <;> rfl
  free _ := by
    show Queue.InOrder s.shared
    rw [h.shared]
    rfl
  threads index thread hat := by
    obtain rfl | rfl := h.threads thread (List.mem_of_getElem? hat) <;> trivial

/-! ### The calls of one thread -/

/-- The actions that the thread `index` has pushed. -/
def Queue.pushedBy (queue : Queue) (index : ℕ) : List Action :=
  (queue.pushed.filter (·.1 = index)).map Prod.snd

/-- The action of a call that has yet to push it. -/
def QueueAction.pending : QueueAction → List Action
  | .lockGuard action | .push action => [action]
  | .returned | .notifyOne | .unlock => []

/-- The places with access to the queue. -/
theorem stmt_eq_access (hstmt : stmt place = .access f) :
    (∃ action, place = .queueAction (.push action) ∧ f = fun index queue ↦
      (.queueAction .notifyOne, { queue with
        actions := queue.actions ++ [action]
        pushed := queue.pushed ++ [(index, action)] })) ∨
    ∃ pc, place = .mainLoop pc ∧ ∀ index queue,
      (∃ pc', (f index queue).1 = .mainLoop pc') ∧ (f index queue).2.pushed = queue.pushed := by
  cases place with
  | queueAction pc =>
    cases pc with
    | push action => exact .inl ⟨action, rfl, (Stmt.access.inj hstmt).symm⟩
    | returned | lockGuard _ | notifyOne | unlock => cases hstmt
  | mainLoop pc =>
    refine .inr ⟨pc, rfl, fun index queue ↦ ?_⟩
    cases pc with
    | testRunning | setRunning | whileRunning | uniqueLock | waitUntil | unlock | exited =>
      cases hstmt
    | _ =>
      obtain rfl := Stmt.access.inj hstmt
      exact ⟨⟨_, rfl⟩, rfl⟩

/-- What a thread that is given a choice makes of it. -/
theorem stmt_eq_other {choose : Option Action → Bool → Option (Place × Bool)}
    (hstmt : stmt place = .other choose) {call : Option Action} {running : Bool}
    {result : Place × Bool} (hresult : choose call running = some result) :
    (∃ action, call = some action ∧ place = .queueAction .returned ∧
      result.1 = .queueAction (.lockGuard action)) ∨
    call = none ∧ ∃ pc pc', place = .mainLoop pc ∧ result.1 = .mainLoop pc' := by
  cases place with
  | queueAction pc =>
    cases pc with
    | returned =>
      obtain rfl := Stmt.other.inj hstmt
      obtain ⟨action, rfl, rfl⟩ := Option.map_eq_some_iff.mp hresult
      exact .inl ⟨action, rfl, rfl, rfl⟩
    | lockGuard _ | push _ | notifyOne | unlock => cases hstmt
  | mainLoop pc =>
    cases pc with
    | testRunning | setRunning | whileRunning =>
      obtain rfl := Stmt.other.inj hstmt
      obtain ⟨hcall, hresult⟩ := Option.ite_none_right_eq_some.mp hresult
      obtain rfl := Option.some.inj hresult
      exact .inr ⟨hcall, _, _, rfl, rfl⟩
    | _ => cases hstmt

variable {s t : State Place Queue Bool} {events : List (Event Bool (Option Action))}
  {event : Event Bool (Option Action)}

/-- Every thread has pushed the actions of its calls, in the order of the calls, but for the one it
is in. -/
def history : History code where
  agrees index calls thread queue := match thread with
    | .runs (.queueAction pc) => queue.pushedBy index ++ pc.pending = calls
    | _ => True
  moves hmoves h := by
    cases hmoves with
    | lock hstmt =>
      obtain ⟨action, rfl, rfl⟩ | ⟨-, rfl⟩ := stmt_eq_lock hstmt
      · exact h
      · trivial
    | relock hstmt =>
      obtain ⟨-, rfl⟩ := stmt_eq_wait hstmt
      trivial
    | unlock hstmt =>
      obtain ⟨rfl, rfl⟩ | ⟨-, rfl⟩ := stmt_eq_unlock hstmt
      · exact h
      · trivial
    | notifyOne hstmt =>
      obtain ⟨rfl, rfl⟩ := stmt_eq_notifyOne hstmt
      exact h
    | wait | wake => trivial
  access {index _ _ _ queue} hstmt h := by
    obtain ⟨action, rfl, rfl⟩ | ⟨pc, rfl, hloop⟩ := stmt_eq_access hstmt
    · show Queue.pushedBy _ index ++ [] = _
      rw [← h]
      simp [Queue.pushedBy, QueueAction.pending]
    · obtain ⟨⟨pc', hplace⟩, -⟩ := hloop index queue
      rw [hplace]
      trivial
  frame {index other _ _ thread _ queue} hstmt hother h := by
    obtain ⟨action, rfl, rfl⟩ | ⟨pc, rfl, hloop⟩ := stmt_eq_access hstmt
    · simpa [Queue.pushedBy, Ne.symm hother] using h
    · simpa [Queue.pushedBy, (hloop index queue).2] using h
  other {index _ _ _ _ _ _ queue} hstmt hnext h := by
    obtain ⟨action, rfl, rfl, hplace⟩ | ⟨rfl, pc, pc', rfl, hplace⟩ := stmt_eq_other hstmt hnext
    · have hbefore : queue.pushedBy index ++ [] = _ := h
      rw [hplace, ← hbefore]
      simp [QueueAction.pending]
    · rw [hplace]
      trivial

/-- The actions that have left the queue and are not yet handled: the one that the thread which
holds the mutex is about to handle. -/
theorem exists_inHand (h : outline.Valid s) : ∃ inHand : List Action, inHand.length ≤ 1 ∧
    s.shared.pushed.map Prod.snd = s.shared.handled ++ inHand ++ s.shared.actions := by
  have hbetween (horder : s.shared.InOrder) : ∃ inHand : List Action, inHand.length ≤ 1 ∧
      s.shared.pushed.map Prod.snd = s.shared.handled ++ inHand ++ s.shared.actions :=
    ⟨[], Nat.zero_le 1, by simpa [Queue.InOrder] using horder⟩
  cases hholder : s.holder with
  | none => exact hbetween (h.free hholder)
  | some index =>
    obtain ⟨place, hat, hholds⟩ := h.exclusive.exists_place hholder
    have hassertion : assertion index (.runs place) s.shared := h.threads _ _ hat
    cases place with
    | queueAction pc =>
      cases pc with
      | push _ | notifyOne | unlock => exact hbetween hassertion
      | returned | lockGuard _ => cases hholds
    | mainLoop pc =>
      cases pc with
      | switch action => exact ⟨[action], Nat.le_refl 1, by simpa [assertion] using hassertion⟩
      | predicate | predicateAfterTimeout | whileNotEmpty => exact hbetween hassertion
      | waitUntil | unlock | front | pop _ => exact hbetween hassertion.1
      | testRunning | setRunning | whileRunning | uniqueLock | exited => cases hholds

/-- Whatever the threads and the order of their steps, the actions that have been handled, the one
in hand and those in the queue are the actions that have been pushed, in that order and each of them
once. A thread has pushed the actions of its calls in the order of its calls, but for the call it is
in. Two threads are never both inside the part of either function that holds the mutex. -/
theorem actions_in_order (hs : Started s)
    (hrun : Run (fun s event t ↦ step code s event = some t) s events t) :
    (∃ inHand : List Action, inHand.length ≤ 1 ∧
      t.shared.pushed.map Prod.snd = t.shared.handled ++ inHand ++ t.shared.actions) ∧
    (∀ (index : ℕ) (pc : QueueAction), t.threads[index]? = some (.runs (.queueAction pc)) →
      t.shared.pushedBy index ++ pc.pending = called index events) ∧
    ∀ (index other : ℕ) (place place' : Place), t.threads[index]? = some (.runs place) →
      holds place = true → t.threads[other]? = some (.runs place') → holds place' = true →
      index = other := by
  have hvalid : outline.Valid t := Outline.valid_of_run hrun hs.valid
  have hstart : history.Kept [] s := by
    intro index thread hat
    obtain rfl | rfl := hs.threads thread (List.mem_of_getElem? hat)
    · show s.shared.pushedBy index ++ [] = []
      rw [hs.shared]
      rfl
    · trivial
  have hkept : history.Kept events t := History.kept_of_run hrun hstart
  exact ⟨exists_inHand hvalid, fun index pc hat ↦ hkept index _ hat,
    fun _ _ _ _ hat hholds hat' hholds' ↦ hvalid.exclusive.eq hat hholds hat' hholds'⟩

/-- A thread that calls `queue_action` and one in `_main_loop`. -/
def twoThreads : State Place Queue Bool :=
  ⟨[.runs (.queueAction .returned), .runs (.mainLoop .testRunning)], none, ⟨[], [], []⟩, false⟩

theorem twoThreads_started : Started twoThreads := ⟨rfl, rfl, by simp [twoThreads]⟩

/-- `actions_in_order` while the only action is in hand. -/
theorem actions_in_order_in_hand :
    (∃ inHand : List Action, inHand.length ≤ 1 ∧ [⟨7⟩] = [] ++ inHand ++ []) ∧
      [⟨7⟩] ++ QueueAction.pending .returned =
        called 0 ([.choose 0 (some ⟨7⟩)] : List (Event Bool (Option Action))) := by
  have hrun : [.choose 1 none, .choose 1 none, .choose 1 none, .choose 0 (some ⟨7⟩), .step 0,
      .step 0, .notify 0 none, .step 0, .step 1, .step 1, .step 1, .step 1, .step 1].foldlM
        (step code) twoThreads =
      some ⟨[.runs (.queueAction .returned), .runs (.mainLoop (.switch ⟨7⟩))], some 1,
        ⟨[], [(0, ⟨7⟩)], []⟩, true⟩ := by
    decide +kernel
  obtain ⟨hinHand, hcalls, -⟩ := actions_in_order twoThreads_started (Run.of_foldlM hrun)
  exact ⟨hinHand, hcalls 0 .returned rfl⟩

/-! ### Waking up -/

/-- A thread that has pushed an action has yet to notify, and a thread in `_main_loop` has yet to
empty the queue. -/
def duty : Place → Bool
  | .queueAction .notifyOne | .mainLoop _ => true
  | .queueAction .returned | .queueAction (.lockGuard _) | .queueAction (.push _)
  | .queueAction .unlock => false

/-- What makes sure that no thread sleeps while there are actions in the queue. -/
def duties : Duties outline where
  ready queue := queue.actions ≠ []
  duty := duty
  access {index _ _ queue} hstmt _ _ _ := by
    obtain ⟨action, rfl, rfl⟩ | ⟨pc, rfl, hloop⟩ := stmt_eq_access hstmt
    · rfl
    · obtain ⟨⟨pc', hplace⟩, -⟩ := hloop index queue
      rw [hplace]
      rfl
  unlock hstmt h hduty := by
    obtain ⟨rfl, -⟩ | ⟨rfl, -⟩ := stmt_eq_unlock hstmt
    · cases hduty
    · exact not_not_intro h.2
  wait hstmt h := by
    obtain ⟨rfl, -⟩ := stmt_eq_wait hstmt
    exact not_not_intro h.2
  relock hstmt timedOut := by
    obtain ⟨-, rfl⟩ := stmt_eq_wait hstmt
    rfl

/-- No notification is lost: while there are actions in the queue and a thread sleeps in
`_main_loop`, a thread has woken up, or the thread that holds the mutex is about to notify or is in
`_main_loop`, where it empties the queue. A thread in `_main_loop` goes to sleep or unlocks the
mutex only when every action that has been pushed is handled. -/
theorem no_lost_wakeup (hs : Started s)
    (hrun : Run (fun s event t ↦ step code s event = some t) s events t) :
    (t.shared.actions ≠ [] → Duties.Sleeping t → Duties.Waking t ∨
      ∃ (index : ℕ) (place : Place), t.holder = some index ∧
        t.threads[index]? = some (.runs place) ∧
        (place = .queueAction .notifyOne ∨ ∃ pc, place = .mainLoop pc)) ∧
    ∀ (index : ℕ) (pc : MainLoop), t.threads[index]? = some (.runs (.mainLoop pc)) →
      pc = .waitUntil ∨ pc = .unlock → t.shared.handled = t.shared.pushed.map Prod.snd := by
  have hvalid : outline.Valid t := Outline.valid_of_run hrun hs.valid
  have hstart : duties.Awake s := fun hready ↦ absurd (by rw [hs.shared]) hready
  refine ⟨fun hready hsleeping ↦ ?_, fun index pc hat hpc ↦ ?_⟩
  · obtain hwaking | ⟨index, place, hholder, hat, hduty⟩ :=
      Duties.awake_of_run hrun hs.valid hstart hready hsleeping
    · exact .inl hwaking
    · refine .inr ⟨index, place, hholder, hat, ?_⟩
      cases place with
      | mainLoop pc => exact .inr ⟨pc, rfl⟩
      | queueAction pc =>
        cases pc with
        | notifyOne => exact .inl rfl
        | returned | lockGuard _ | push _ | unlock => cases hduty
  · have hassertion : assertion index (.runs (.mainLoop pc)) t.shared := hvalid.threads _ _ hat
    obtain ⟨horder, hempty⟩ : t.shared.InOrder ∧ t.shared.actions = [] := by
      obtain rfl | rfl := hpc <;> exact hassertion
    rw [Queue.InOrder, hempty, List.append_nil] at horder
    exact horder.symm

/-- A call of `queue_action` between its `push` and its `notify_one`, while the other thread
sleeps. -/
def beforeNotify : State Place Queue Bool :=
  ⟨[.runs (.queueAction .notifyOne), .sleeps (.mainLoop .waitUntil)], some 0,
    ⟨[⟨7⟩], [(0, ⟨7⟩)], []⟩, true⟩

theorem exists_run_beforeNotify : ∃ events,
    Run (fun s event t ↦ step code s event = some t) twoThreads events beforeNotify := by
  have hrun : [.choose 1 none, .choose 1 none, .choose 1 none, .step 1, .step 1, .step 1,
      .choose 0 (some ⟨7⟩), .step 0, .step 0].foldlM (step code) twoThreads =
      some beforeNotify := by
    decide +kernel
  exact ⟨_, Run.of_foldlM hrun⟩

/-- `no_lost_wakeup` before the notification. -/
theorem no_lost_wakeup_before_notify : Duties.Waking beforeNotify ∨
    ∃ (index : ℕ) (place : Place), beforeNotify.holder = some index ∧
      beforeNotify.threads[index]? = some (.runs place) ∧
      (place = .queueAction .notifyOne ∨ ∃ pc, place = .mainLoop pc) := by
  obtain ⟨events, hrun⟩ := exists_run_beforeNotify
  exact (no_lost_wakeup twoThreads_started hrun).1 (by decide) ⟨1, .mainLoop .waitUntil, rfl⟩

/-! ### Progress -/

/-- How many statements a thread that holds the mutex executes before it unlocks it, at most. -/
def rank (place : Place) (queue : Queue) : ℕ :=
  match place with
  | .queueAction (.push _) => 2
  | .queueAction .notifyOne => 1
  | .mainLoop .predicate | .mainLoop .predicateAfterTimeout | .mainLoop (.switch _) =>
    4 * queue.actions.length + 2
  | .mainLoop .whileNotEmpty => 4 * queue.actions.length + 1
  | .mainLoop .front => 4 * queue.actions.length
  | .mainLoop (.pop _) => 4 * queue.actions.length - 1
  | _ => 0

/-- Every access to the queue brings the thread nearer to the end of the part with the mutex. -/
theorem rank_access (hstmt : stmt place = .access f) (h : assertion index (.runs place) queue) :
    rank (f index queue).1 (f index queue).2 < rank place queue := by
  cases place with
  | queueAction pc =>
    cases pc with
    | push action =>
      obtain rfl := Stmt.access.inj hstmt
      exact Nat.one_lt_two
    | returned | lockGuard _ | notifyOne | unlock => cases hstmt
  | mainLoop pc =>
    cases pc with
    | predicate | predicateAfterTimeout | whileNotEmpty =>
      obtain rfl := Stmt.access.inj hstmt
      cases hactions : queue.actions <;> simp [rank, hactions]
    | front =>
      obtain rfl := Stmt.access.inj hstmt
      have hpos : 0 < queue.actions.length := List.length_pos_iff.mpr h.2
      show 4 * queue.actions.length - 1 < 4 * queue.actions.length
      omega
    | pop action =>
      obtain rfl := Stmt.access.inj hstmt
      have hpos : 0 < queue.actions.length :=
        List.length_pos_of_mem (List.mem_of_head? h.2)
      show 4 * queue.actions.tail.length + 2 < 4 * queue.actions.length - 1
      rw [List.length_tail]
      omega
    | switch action =>
      obtain rfl := Stmt.access.inj hstmt
      exact Nat.lt_succ_self _
    | testRunning | setRunning | whileRunning | uniqueLock | waitUntil | unlock | exited =>
      cases hstmt

/-- The bound on what a thread does while it holds the mutex. -/
def ranking : Ranking outline where
  rank := rank
  access := rank_access
  notifyOne hstmt _ := by
    obtain ⟨rfl, rfl⟩ := stmt_eq_notifyOne hstmt
    exact Nat.zero_lt_one

/-- Nothing that has been pushed is forgotten. -/
theorem pushed_prefix (hrun : Run (fun s event t ↦ step code s event = some t) s events t) :
    s.shared.pushed <+: t.shared.pushed := by
  refine hrun.invariant (fun t ↦ s.shared.pushed <+: t.shared.pushed) (fun h hstep ↦ ?_)
    (List.prefix_refl _)
  cases stepping_of_step hstep with
  | @access index _ f _ hstmt =>
    obtain ⟨action, -, rfl⟩ | ⟨pc, -, hloop⟩ := stmt_eq_access hstmt
    · exact h.trans (List.prefix_append _ _)
    · rw [(hloop index _).2]
      exact h
  | _ => exact h

/-- A thread in `_main_loop` is going to see to the queue, and not to leave the function first. -/
def MainLoop.serves (running : Bool) : MainLoop → Bool
  | .testRunning => !running
  | .whileRunning => running
  | .exited => false
  | .setRunning | .uniqueLock | .predicate | .waitUntil | .predicateAfterTimeout | .whileNotEmpty
  | .front | .pop _ | .switch _ | .unlock => true

/-- The thread is in `_main_loop`, and is going to see to the queue. -/
def Serves (running : Bool) : Thread Place → Prop
  | .runs (.mainLoop pc) => pc.serves running = true
  | .runs (.queueAction _) => False
  | .sleeps _ | .wakes _ _ => True

/-- A thread in `_main_loop` comes, by steps of its own, to the end of the part with the mutex, and
has then handled everything. -/
theorem exists_handled (hvalid : outline.Valid s) {index : ℕ} {pc : MainLoop}
    (hat : s.threads[index]? = some (.runs (.mainLoop pc)))
    (hholds : holds (.mainLoop pc) = true) :
    ∃ events t, Run (fun s event t ↦ step code s event = some t) s events t ∧
      (∀ event ∈ events, event.index? = some index) ∧
      t.shared.handled = t.shared.pushed.map Prod.snd := by
  obtain ⟨events, t, place, hrun, hevents, -, hat', ⟨pc', rfl⟩, hend⟩ := ranking.exists_end
    (fun place ↦ ∃ pc, place = .mainLoop pc)
    (fun ⟨pc, hpc⟩ hstmt ↦ by
      obtain ⟨action, rfl, -⟩ | ⟨_, -, hloop⟩ := stmt_eq_access hstmt
      · cases hpc
      · exact (hloop _ _).1)
    (fun ⟨pc, hpc⟩ hstmt ↦ by
      obtain ⟨rfl, -⟩ := stmt_eq_notifyOne hstmt
      cases hpc)
    hvalid hat hholds ⟨pc, rfl⟩
  have hassertion : assertion index (.runs (.mainLoop pc')) t.shared :=
    (Outline.valid_of_run hrun hvalid).threads _ _ hat'
  obtain ⟨horder, hempty⟩ : t.shared.InOrder ∧ t.shared.actions = [] := by
    obtain ⟨next, hunlock⟩ | ⟨next, hwait⟩ := hend
    · have hstmt : stmt (.mainLoop pc') = .unlock next := hunlock
      obtain ⟨hplace, -⟩ | ⟨hplace, -⟩ := stmt_eq_unlock hstmt
      · cases hplace
      · cases hplace
        exact hassertion
    · have hstmt : stmt (.mainLoop pc') = .wait next := hwait
      obtain ⟨hplace, -⟩ := stmt_eq_wait hstmt
      cases hplace
      exact hassertion
  rw [Queue.InOrder, hempty, List.append_nil] at horder
  exact ⟨events, t, hrun, hevents, horder.symm⟩

/-- A thread that holds the mutex comes to unlock it by steps of its own. -/
theorem exists_released (hvalid : outline.Valid s) {index : ℕ} (hholder : s.holder = some index) :
    ∃ events t, Run (fun s event t ↦ step code s event = some t) s events t ∧
      (∀ event ∈ events, event.index? = some index) ∧ Ranking.Leaves index s t ∧
      t.holder = none := by
  obtain ⟨place, hat, hholds⟩ := hvalid.exclusive.exists_place hholder
  obtain ⟨events, t, place', hrun, hevents, hleaves, hat', -, hend⟩ := ranking.exists_end
    (fun _ ↦ True) (fun _ _ ↦ trivial) (fun _ _ ↦ trivial) hvalid hat hholds trivial
  obtain ⟨thread, hlast⟩ : ∃ thread,
      step code t (.step index) = some { t.move index thread with holder := none } := by
    obtain ⟨next, hstmt⟩ | ⟨next, hstmt⟩ := hend
    · exact ⟨.runs next, by simp [step, hat', stepThread, hstmt]⟩
    · exact ⟨.sleeps place', by simp [step, hat', stepThread, hstmt]⟩
  have hleaves' : Ranking.Leaves index t { t.move index thread with holder := none } := ⟨rfl,
    fun hother hthread ↦ ⟨_, (State.getElem?_move hat' _ _).trans ((if_neg hother).trans hthread),
      .same _⟩⟩
  exact ⟨events ++ [.step index], _, hrun.append (.cons hlast (.nil _)),
    List.forall_mem_append.mpr ⟨hevents, by simp [Event.index?]⟩, hleaves.trans hleaves', rfl⟩

/-- A thread comes, by steps of its own, to a place in `_main_loop` with the mutex. -/
def Locks (s : State Place Queue Bool) (index : ℕ) : Prop :=
  ∃ events t pc, Run (fun s event t ↦ step code s event = some t) s events t ∧
    (∀ event ∈ events, event.index? = some index) ∧
    t.threads[index]? = some (.runs (.mainLoop pc)) ∧ holds (.mainLoop pc) = true

/-- One step of the thread on its way to the mutex. -/
theorem Locks.of_step {index : ℕ} (hstep : step code s event = some t)
    (hevent : event.index? = some index) (h : Locks t index) : Locks s index := by
  obtain ⟨events, last, pc, hrun, hevents, hat, hholds⟩ := h
  exact ⟨event :: events, last, pc, .cons hstep hrun,
    List.forall_mem_cons.mpr ⟨hevent, hevents⟩, hat, hholds⟩

section Locking

variable {index : ℕ} (hfree : s.holder = none)

include hfree

/-- A thread about to lock the free mutex. -/
theorem locks_uniqueLock (hat : s.threads[index]? = some (.runs (.mainLoop .uniqueLock))) :
    Locks s index := by
  have hstep : step code s (.step index) =
      some { s.move index (.runs (.mainLoop .predicate)) with holder := some index } := by
    simp [step, hat, stepThread, code, stmt, mainLoop, hfree]
  exact ⟨[.step index], _, .predicate, .cons hstep (.nil _), by simp [Event.index?],
    (State.getElem?_move hat _ index).trans (if_pos rfl), rfl⟩

/-- A thread about to test the flag, which is up. -/
theorem locks_whileRunning (hrunning : s.world = true)
    (hat : s.threads[index]? = some (.runs (.mainLoop .whileRunning))) : Locks s index := by
  have hstep : step code s (.choose index none) =
      some (s.move index (.runs (.mainLoop .uniqueLock))) := by
    simp [step, hat, code, stmt, mainLoop, readRunning, hrunning, State.move]
  exact .of_step hstep rfl
    (locks_uniqueLock hfree ((State.getElem?_move hat _ index).trans (if_pos rfl)))

/-- A thread about to raise the flag. -/
theorem locks_setRunning (hat : s.threads[index]? = some (.runs (.mainLoop .setRunning))) :
    Locks s index := by
  have hstep : step code s (.choose index none) =
      some { s.move index (.runs (.mainLoop .whileRunning)) with world := true } := by
    simp [step, hat, code, stmt, mainLoop]
  refine .of_step hstep rfl ?_
  exact locks_whileRunning hfree rfl ((State.getElem?_move hat _ index).trans (if_pos rfl))

/-- A thread about to test whether the flag is down, as it is. -/
theorem locks_testRunning (hrunning : s.world = false)
    (hat : s.threads[index]? = some (.runs (.mainLoop .testRunning))) : Locks s index := by
  have hstep : step code s (.choose index none) =
      some (s.move index (.runs (.mainLoop .setRunning))) := by
    simp [step, hat, code, stmt, mainLoop, readRunning, hrunning, State.move]
  exact .of_step hstep rfl
    (locks_setRunning hfree ((State.getElem?_move hat _ index).trans (if_pos rfl)))

/-- A thread that has woken up. -/
theorem locks_wakes {timedOut : Bool}
    (hat : s.threads[index]? = some (.wakes (.mainLoop .waitUntil) timedOut)) :
    Locks s index := by
  have hstep : step code s (.step index) = some { s.move index (.runs (.mainLoop
      (if timedOut then .predicateAfterTimeout else .predicate))) with holder := some index } := by
    simp [step, hat, stepThread, code, stmt, mainLoop, hfree]
  refine ⟨[.step index], _, _, .cons hstep (.nil _), by simp [Event.index?],
    (State.getElem?_move hat _ index).trans (if_pos rfl), ?_⟩
  cases timedOut <;> rfl

/-- A thread that serves the queue locks the free mutex. -/
theorem locks_of_serves (hvalid : outline.Valid s) {thread : Thread Place}
    (hat : s.threads[index]? = some thread) (hserves : Serves s.world thread) :
    Locks s index := by
  have hassertion : assertion index thread s.shared := hvalid.threads _ _ hat
  cases thread with
  | runs place =>
    cases place with
    | queueAction pc => exact hserves.elim
    | mainLoop pc =>
      by_cases hholds : holds (.mainLoop pc) = true
      · exact ⟨[], s, pc, .nil s, by simp, hat, hholds⟩
      · cases pc with
        | testRunning => exact locks_testRunning hfree (Bool.not_eq_true' _ ▸ hserves) hat
        | setRunning => exact locks_setRunning hfree hat
        | whileRunning => exact locks_whileRunning hfree hserves hat
        | uniqueLock => exact locks_uniqueLock hfree hat
        | exited => cases hserves
        | _ => exact absurd rfl hholds
  | sleeps place =>
    obtain rfl : place = .mainLoop .waitUntil := hassertion
    have hstep : step code s (.wake index true) =
        some (s.move index (.wakes (.mainLoop .waitUntil) true)) := by
      simp [step, hat]
    exact .of_step hstep rfl
      (locks_wakes hfree ((State.getElem?_move hat _ index).trans (if_pos rfl)))
  | wakes place timedOut =>
    obtain rfl : place = .mainLoop .waitUntil := hassertion
    exact locks_wakes hfree hat

end Locking

/-- A thread that has been notified serves the queue as before. -/
theorem serves_of_woken {running : Bool} {before after : Thread Place}
    (hserves : Serves running before) (h : Ranking.Woken before after) : Serves running after := by
  cases h with
  | same => exact hserves
  | notified place => trivial

/-- In every state that is reached, whichever threads are where, the actions in the queue can be
handled by steps of one thread in `_main_loop`, once the thread that holds the mutex, if there is
one, has gone on to unlock it. The queue is never stuck, and nothing that has been pushed is lost on
the way. -/
theorem exists_all_handled (hs : Started s)
    (hrun : Run (fun s event t ↦ step code s event = some t) s events t) {index : ℕ}
    {thread : Thread Place} (hat : t.threads[index]? = some thread)
    (hserves : Serves t.world thread) :
    ∃ later final, Run (fun s event t ↦ step code s event = some t) t later final ∧
      (∀ event ∈ later, event.index? = some index ∨
        ∃ holder, t.holder = some holder ∧ event.index? = some holder) ∧
      t.shared.pushed <+: final.shared.pushed ∧
      final.shared.handled = final.shared.pushed.map Prod.snd := by
  have hvalid : outline.Valid t := Outline.valid_of_run hrun hs.valid
  -- from a state in which the mutex is free, the thread does the rest alone
  have hrest {middle : State Place Queue Bool} (hvalid : outline.Valid middle)
      (hlocks : Locks middle index) : ∃ later final,
      Run (fun s event t ↦ step code s event = some t) middle later final ∧
        (∀ event ∈ later, event.index? = some index) ∧
        final.shared.handled = final.shared.pushed.map Prod.snd := by
    obtain ⟨first, locked, pc, hfirst, hown, hat', hholds⟩ := hlocks
    obtain ⟨second, final, hsecond, hown', hhandled⟩ :=
      exists_handled (Outline.valid_of_run hfirst hvalid) hat' hholds
    exact ⟨first ++ second, final, hfirst.append hsecond,
      List.forall_mem_append.mpr ⟨hown, hown'⟩, hhandled⟩
  cases hholder : t.holder with
  | none =>
    obtain ⟨later, final, hlater, hown, hhandled⟩ :=
      hrest hvalid (locks_of_serves hholder hvalid hat hserves)
    exact ⟨later, final, hlater, fun event hevent ↦ .inl (hown event hevent),
      pushed_prefix hlater, hhandled⟩
  | some holder =>
    by_cases hself : index = holder
    · subst hself
      obtain ⟨place, hat', hholds⟩ := hvalid.exclusive.exists_place hholder
      obtain rfl := Option.some.inj (hat.symm.trans hat')
      obtain ⟨pc, rfl⟩ : ∃ pc, place = .mainLoop pc := by
        cases place with
        | queueAction pc => exact hserves.elim
        | mainLoop pc => exact ⟨pc, rfl⟩
      obtain ⟨later, final, hlater, hown, hhandled⟩ := exists_handled hvalid hat hholds
      exact ⟨later, final, hlater, fun event hevent ↦ .inl (hown event hevent),
        pushed_prefix hlater, hhandled⟩
    · obtain ⟨first, free, hfirst, hown, hleaves, hfree⟩ := exists_released hvalid hholder
      obtain ⟨thread', hat', hwoken⟩ := hleaves.threads hself hat
      have hvalid' : outline.Valid free := Outline.valid_of_run hfirst hvalid
      have hserves' : Serves free.world thread' := by
        rw [hleaves.world]
        exact serves_of_woken hserves hwoken
      obtain ⟨second, final, hsecond, hown', hhandled⟩ :=
        hrest hvalid' (locks_of_serves hfree hvalid' hat' hserves')
      have hwhole := hfirst.append hsecond
      refine ⟨first ++ second, final, hwhole, fun event hevent ↦ ?_, pushed_prefix hwhole, hhandled⟩
      obtain hevent | hevent := List.mem_append.mp hevent
      · exact .inr ⟨holder, rfl, hown event hevent⟩
      · exact .inl (hown' event hevent)

/-- `exists_all_handled` while a call of `queue_action` holds the mutex and the other thread
sleeps. -/
theorem exists_all_handled_before_notify : ∃ later final,
    Run (fun s event t ↦ step code s event = some t) beforeNotify later final ∧
      (∀ event ∈ later, event.index? = some 1 ∨
        ∃ holder, beforeNotify.holder = some holder ∧ event.index? = some holder) ∧
      [(0, ⟨7⟩)] <+: final.shared.pushed ∧
      final.shared.handled = final.shared.pushed.map Prod.snd := by
  obtain ⟨events, hrun⟩ := exists_run_beforeNotify
  have hat : beforeNotify.threads[1]? = some (.sleeps (.mainLoop .waitUntil)) := rfl
  exact exists_all_handled twoThreads_started hrun hat trivial

end ActionQueue

end Kapua
