import Kapua.Foundation.Mutex
import Kapua.Node.TaggedCipher

/-!
# Removing a node

Every method of `Core` that touches the node table does so under a guard of `_nodes_mutex`, and
`remove_node` calls `find_node` under its own guard. `std::mutex` is not recursive, so no call of
`remove_node` returns (`remove_node_never_returns`), whatever the table and the id.

What its body would do to the table is `eraseNode`. Records that share an address share one entry of
the address index, and the body erases the entry of the address and not the entry of the record:
`eraseNode_removesOne_iff` says that this hits exactly the record if and only if the entry is its
own.
-/

set_option autoImplicit false
set_option relaxedAutoImplicit false

namespace Kapua

variable {PKey : Type}

namespace Core

open Locking (guarded call)

/-! ### The methods and the mutex -/

/-- `Core::add_node` under its lock guard. -/
def addNodeGuarded (storage : Node PKey) (id : UInt64) (addr : Sockaddr) :
    Locking (Core PKey) NodePtr :=
  guarded (modifyGet fun core ↦
    ((core.addNode storage id addr).2, (core.addNode storage id addr).1))

/-- `Core::find_node(uint64_t)` under its lock guard. -/
def findNodeByIdGuarded (id : UInt64) : Locking (Core PKey) (Option NodePtr) :=
  guarded (modifyGet fun core ↦ (core.findNodeById id, core))

/-- `Core::find_node(sockaddr_in)` under its lock guard. -/
def findNodeGuarded (addr : Sockaddr) : Locking (Core PKey) (Option NodePtr) :=
  guarded (modifyGet fun core ↦ (core.findNode addr, core))

/-- The erasures of `remove_node`: the entry of the record's address and the entry of the id. The
record itself is deleted; nothing may use the pointer after that. -/
def eraseNode (core : Core PKey) (id : UInt64) (node : NodePtr) : Core PKey :=
  { core with
    nodesByAddr := Function.update core.nodesByAddr (core.heap node).addr none
    nodes := Function.update core.nodes id none }

/-- `Core::remove_node` under its lock guard. -/
def removeNode (id : UInt64) : Locking (Core PKey) Unit :=
  guarded do
    match ← findNodeByIdGuarded id with
    | none => return
    | some node => modify fun core ↦ core.eraseNode id node

/-- A table that a sequence of `add_node` calls makes of an empty one. -/
def addNodes : List (Node PKey × UInt64 × Sockaddr) → Locking (Core PKey) Unit
  | [] => return
  | (storage, id, addr) :: rest => do
    let _ ← addNodeGuarded storage id addr
    addNodes rest

/-- The tables that sequences of `add_node` calls build. -/
def Tabled (core : Core PKey) : Prop :=
  ∃ start calls, Core.Empty start ∧ call (addNodes calls) start = some ((), core)

/-- The table after one node was removed: the node is found under no key, and every other node under
the keys it was found under. -/
structure RemovesOne (core : Core PKey) (id : UInt64) (after : Core PKey) : Prop where
  id_gone : after.findNodeById id = none
  addr_gone : ∀ addr node, core.findNodeById id = some node → after.findNode addr ≠ some node
  ids_kept : ∀ other node, core.findNodeById other = some node → core.findNodeById id ≠ some node →
    after.findNodeById other = some node
  addrs_kept : ∀ addr node, core.findNode addr = some node → core.findNodeById id ≠ some node →
    after.findNode addr = some node

/-- `remove_node` returns, and has removed one node. -/
def RemovesAndReturns (core : Core PKey) (id : UInt64) : Prop :=
  ∃ after, call (removeNode id) core = some ((), after) ∧ RemovesOne core id after

/-! ### What the calls return -/

@[simp] theorem call_addNodeGuarded (core : Core PKey) (storage : Node PKey) (id : UInt64)
    (addr : Sockaddr) : call (addNodeGuarded storage id addr) core =
      some ((core.addNode storage id addr).2, (core.addNode storage id addr).1) :=
  Locking.call_guarded_modifyGet _ core

@[simp] theorem call_findNodeByIdGuarded (core : Core PKey) (id : UInt64) :
    call (findNodeByIdGuarded id) core = some (core.findNodeById id, core) :=
  Locking.call_guarded_modifyGet _ core

@[simp] theorem call_findNodeGuarded (core : Core PKey) (addr : Sockaddr) :
    call (findNodeGuarded addr) core = some (core.findNode addr, core) :=
  Locking.call_guarded_modifyGet _ core

/-- `remove_node` locks the mutex again that it holds. -/
theorem call_removeNode (core : Core PKey) (id : UInt64) : call (removeNode id) core = none :=
  Locking.call_guarded_nested _ _ core

/-! ### The table that `add_node` builds -/

/-- What `add_node` keeps of the table, whatever the ids and the addresses: the pointers of both
indexes have been handed out and lead to records with that id or that address, and every address of
a record has an entry, perhaps that of another record. -/
structure Indexed (core : Core PKey) : Prop where
  id_of_find : ∀ {id ptr}, core.findNodeById id = some ptr →
    ptr < core.next ∧ (core.heap ptr).id = id
  addr_of_find : ∀ {addr ptr}, core.findNode addr = some ptr →
    ptr < core.next ∧ (core.heap ptr).addr = addr
  find_addr : ∀ {ptr}, ptr < core.next → ∃ other, core.findNode (core.heap ptr).addr = some other

theorem Empty.indexed {core : Core PKey} (h : core.Empty) : core.Indexed where
  id_of_find := fun hfind ↦ by simp [findNodeById, h.2.1] at hfind
  addr_of_find := fun hfind ↦ by simp [findNode, h.2.2] at hfind
  find_addr := fun hlt ↦ by simp [h.1] at hlt

/-- A record is registered under an address unless the address has a record. -/
theorem addNode_findNode_eq (core : Core PKey) (storage : Node PKey) (id : UInt64)
    (addr other : Sockaddr) : (core.addNode storage id addr).1.findNode other =
      if other = addr ∧ core.findNode addr = none then some core.next
      else core.findNode other := by
  unfold findNode
  cases haddr : core.nodesByAddr addr with
  | some ptr => simp [addNode, insertEntry, haddr]
  | none => by_cases hother : other = addr <;> simp [addNode, insertEntry, haddr, hother]

/-- `add_node` keeps the table indexed. -/
theorem Indexed.addNode {core : Core PKey} (h : core.Indexed) (storage : Node PKey) (id : UInt64)
    (addr : Sockaddr) : (core.addNode storage id addr).1.Indexed where
  id_of_find := fun {other ptr} hfind ↦ by
    rw [addNode_findNodeById] at hfind
    split_ifs at hfind with hnew
    · obtain rfl := Option.some.inj hfind
      exact ⟨Nat.lt_succ_self _, by rw [addNode_heap_next, hnew.1]; rfl⟩
    · obtain ⟨hlt, hid⟩ := h.id_of_find hfind
      exact ⟨Nat.lt_succ_of_lt hlt, by rw [addNode_heap_of_ne _ _ hlt.ne, hid]⟩
  addr_of_find := fun {other ptr} hfind ↦ by
    rw [addNode_findNode_eq] at hfind
    split_ifs at hfind with hnew
    · obtain rfl := Option.some.inj hfind
      exact ⟨Nat.lt_succ_self _, by rw [addNode_heap_next, hnew.1]; rfl⟩
    · obtain ⟨hlt, haddr⟩ := h.addr_of_find hfind
      exact ⟨Nat.lt_succ_of_lt hlt, by rw [addNode_heap_of_ne _ _ hlt.ne, haddr]⟩
  find_addr := fun {ptr} hlt ↦ by
    rcases Nat.lt_succ_iff_lt_or_eq.mp hlt with hold | rfl
    · obtain ⟨other, hother⟩ := h.find_addr hold
      rw [addNode_heap_of_ne _ _ hold.ne, addNode_findNode_eq]
      split_ifs with hnew
      · exact ⟨core.next, rfl⟩
      · exact ⟨other, hother⟩
    · rw [addNode_heap_next, addNode_findNode_eq]
      show ∃ other, (if addr = addr ∧ core.findNode addr = none then some core.next
        else core.findNode addr) = some other
      cases haddr : core.findNode addr with
      | none => exact ⟨core.next, by simp⟩
      | some other => exact ⟨other, by simp⟩

/-- Every table that `add_node` calls build is indexed. -/
theorem Tabled.indexed {core : Core PKey} (h : core.Tabled) : core.Indexed := by
  obtain ⟨start, calls, hempty, hcalls⟩ := h
  have hstart := Empty.indexed hempty
  clear hempty
  induction calls generalizing start with
  | nil =>
    obtain rfl := (Prod.mk.inj (Option.some.inj hcalls)).2
    exact hstart
  | cons first rest ih =>
    obtain ⟨storage, id, addr⟩ := first
    rw [addNodes, Locking.call_bind, call_addNodeGuarded, Option.bind_some] at hcalls
    exact ih _ hcalls (hstart.addNode storage id addr)

/-- The body of `remove_node` removes exactly the record if and only if the entry of its address is
its own. Assumes: a table that `add_node` calls build, and a record for the id. -/
theorem eraseNode_removesOne_iff {core : Core PKey} (hcore : core.Tabled) {id : UInt64}
    {node : NodePtr} (hfind : core.findNodeById id = some node) :
    RemovesOne core id (core.eraseNode id node) ↔
      core.findNode (core.heap node).addr = some node := by
  have hindexed := hcore.indexed
  have hids (other : UInt64) : (core.eraseNode id node).findNodeById other =
      if other = id then none else core.findNodeById other := by
    simp [eraseNode, findNodeById, Function.update_apply]
  have haddrs (addr : Sockaddr) : (core.eraseNode id node).findNode addr =
      if addr = (core.heap node).addr then none else core.findNode addr := by
    simp [eraseNode, findNode, Function.update_apply]
  constructor
  · intro hremoves
    obtain ⟨other, hother⟩ := hindexed.find_addr (hindexed.id_of_find hfind).1
    by_contra howned
    have hne : core.findNodeById id ≠ some other := by
      rintro hsame
      exact howned (hother.trans (hsame.symm.trans hfind))
    have hkept := hremoves.addrs_kept _ other hother hne
    rw [haddrs, if_pos rfl] at hkept
    cases hkept
  · intro howned
    constructor
    · rw [hids, if_pos rfl]
    · intro addr removed hremoved hafter
      rw [haddrs] at hafter
      split_ifs at hafter with haddr
      obtain rfl := Option.some.inj (hfind.symm.trans hremoved)
      exact haddr (hindexed.addr_of_find hafter).2.symm
    · intro other kept hother hne
      have hkey : other ≠ id := by
        rintro rfl
        exact hne hother
      rw [hids, if_neg hkey, hother]
    · intro addr kept hother hne
      have hkey : addr ≠ (core.heap node).addr := by
        rintro rfl
        exact hne (hfind.trans (howned.symm.trans hother))
      rw [haddrs, if_neg hkey, hother]

/-! ### The call -/

/-- No call of `remove_node` returns, whatever the table and the id. -/
theorem remove_node_never_returns (core : Core PKey) (id : UInt64) :
    ¬ RemovesAndReturns core id := by
  rintro ⟨after, hreturns, -⟩
  rw [call_removeNode] at hreturns
  cases hreturns

/-- Removing the only node of a table waits for a mutex that the thread holds. -/
theorem not_removesAndReturns : ∃ core : Core UInt8, core.Tabled ∧
    core.findNodeById 7 = some 0 ∧ core.findNode ⟨1, 1⟩ = some 0 ∧
    ¬ RemovesAndReturns core 7 := by
  refine ⟨((taggedStart 5 1).core.addNode taggedNode 7 ⟨1, 1⟩).1,
    ⟨(taggedStart 5 1).core, [(taggedNode, 7, ⟨1, 1⟩)], empty_taggedStart 5 1, rfl⟩, rfl, rfl, ?_⟩
  rintro ⟨after, hreturns, -⟩
  rw [call_removeNode] at hreturns
  cases hreturns

end Core

end Kapua
