import Mathlib.Control.Basic

/-!
# A mutex that is not recursive

The computations of a thread over the state that a mutex protects. A computation is told whether
the thread holds the mutex, and has no outcome if it tries to lock a mutex that it holds: the thread
waits for itself. `guarded` is a block under a lock guard, which holds the mutex until the block is
left. A guarded block returns what its body returns when it is entered without the mutex
(`call_guarded`), and one that enters another guarded block never returns (`call_guarded_nested`).
-/

set_option autoImplicit false
set_option relaxedAutoImplicit false

namespace Kapua

/-- The computations of a thread that may hold the mutex. -/
abbrev Locking (State : Type) : Type → Type := ReaderT Bool (StateT State Option)

namespace Locking

variable {State α β : Type}

/-- A block under a lock guard. -/
def guarded (body : Locking State α) : Locking State α := fun held ↦
  if held then failure else body true

/-- A computation of a thread that does not hold the mutex: its result and the state it leaves,
`none` if it waits for itself. -/
def call (program : Locking State α) (s : State) : Option (α × State) := program false s

/-- A block under a lock guard returns what its body returns. -/
theorem call_guarded (body : Locking State α) (s : State) :
    call (guarded body) s = body true s := rfl

/-- A computation that does not touch the mutex reads and changes the state. -/
theorem call_guarded_modifyGet (f : State → α × State) (s : State) :
    call (guarded (modifyGet f)) s = some (f s) := call_guarded _ s

/-- One call after another. -/
theorem call_bind (program : Locking State α) (next : α → Locking State β) (s : State) :
    call (program >>= next) s = (call program s).bind fun result ↦ call (next result.1) result.2 :=
  rfl

/-- A guarded block that enters another guarded block waits for itself. -/
theorem call_guarded_nested (inner : Locking State α) (next : α → Locking State β) (s : State) :
    call (guarded (guarded inner >>= next)) s = none := rfl

end Locking

end Kapua
