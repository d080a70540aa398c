import Kapua.Node.Packet
import Mathlib.Logic.Function.Basic

/-!
# Peer records and the node table

`class Node` and the node table of `class Core`. The table is two maps of pointers into one heap of
records: `_nodes` by id and `_nodes_by_addr` by address. Inserting never overwrites, so `addNode`
can leave a record that only one of the maps finds. `Core.peer` is the record the receive loop
works on for an address.

`WellFormed` says how the table looks as long as records are only added for addresses that have
none: the address map finds every record, under the address the record carries. The id map has no
such property, and nothing here asks for one.
-/

set_option autoImplicit false
set_option relaxedAutoImplicit false

namespace Kapua

/-- A socket address. Equality of `SockaddrHashable` compares the port and the IP address. -/
structure Sockaddr where
  port : UInt16
  addr : UInt32
  deriving DecidableEq

/-- `Node::State`. -/
inductive NodeState
  | initialised
  | keyExchange
  | handshake
  | checkEncryption
  | connected
  deriving DecidableEq

/-- The underlying value of a state, which the comparisons of the source use. -/
def NodeState.rank : NodeState → ℕ
  | initialised => 0
  | keyExchange => 1
  | handshake => 2
  | checkEncryption => 3
  | connected => 4

theorem NodeState.rank_inj {first second : NodeState} :
    first.rank = second.rank ↔ first = second := by
  cases first <;> cases second <;> decide

instance : LE NodeState := ⟨fun first second ↦ first.rank ≤ second.rank⟩

instance (first second : NodeState) : Decidable (first ≤ second) :=
  inferInstanceAs (Decidable (first.rank ≤ second.rank))

/-- The states in which packets are encrypted. -/
@[simp] theorem NodeState.checkEncryption_le {state : NodeState} :
    NodeState.checkEncryption ≤ state ↔ state = .checkEncryption ∨ state = .connected := by
  cases state <;> decide

@[simp] theorem NodeState.keyExchange_le {state : NodeState} :
    NodeState.keyExchange ≤ state ↔ state ≠ .initialised := by
  cases state <;> decide

@[simp] theorem NodeState.handshake_le {state : NodeState} : NodeState.handshake ≤ state ↔
    state = .handshake ∨ state = .checkEncryption ∨ state = .connected := by
  cases state <;> decide

@[simp] theorem NodeState.connected_le {state : NodeState} :
    NodeState.connected ≤ state ↔ state = .connected := by
  cases state <;> decide

/-- `class Node`, without the group list, which nothing uses. -/
structure Node (PKey : Type) where
  addr : Sockaddr
  id : UInt64
  state : NodeState
  keys : KeyPair PKey
  aesContextTx : AESKey
  aesContextRx : AESKey
  lastContactTime : ℕ

namespace Node

variable {PKey : Type}

/-- `Node::Node(uint64_t, sockaddr_in)` on the given storage: the key pair and the session keys are
not assigned. -/
def construct (storage : Node PKey) (pid : UInt64) (paddr : Sockaddr) : Node PKey :=
  { storage with id := pid, addr := paddr, state := .initialised }

/-- `Node::update_last_contact`. -/
def updateLastContact (node : Node PKey) (now : ℕ) : Node PKey :=
  { node with lastContactTime := now }

/-- The session of a record: its state, the peer's public key and the two session keys. -/
def session (node : Node PKey) : NodeState × Option PKey × AESKey × AESKey :=
  (node.state, node.keys.publicKey, node.aesContextTx, node.aesContextRx)

end Node

/-- A `Node*` that is not null. -/
abbrev NodePtr := ℕ

/-- The part of `class Core` the network uses: the own id, the own key pair, and the node table.
`next` is the first pointer `new` has not handed out. -/
structure Core (PKey : Type) where
  myId : UInt64
  keys : KeyPair PKey
  nodes : UInt64 → Option NodePtr
  nodesByAddr : Sockaddr → Option NodePtr
  heap : NodePtr → Node PKey
  next : NodePtr

namespace Core

variable {PKey : Type}

/-- `Core::find_node(sockaddr_in)`. -/
def findNode (core : Core PKey) (addr : Sockaddr) : Option NodePtr := core.nodesByAddr addr

/-- `Core::find_node(uint64_t)`. -/
def findNodeById (core : Core PKey) (id : UInt64) : Option NodePtr := core.nodes id

/-- `std::unordered_map::insert`, which keeps an entry that is already there. -/
def insertEntry {Key : Type} [DecidableEq Key] (entries : Key → Option NodePtr) (key : Key)
    (node : NodePtr) : Key → Option NodePtr :=
  match entries key with
  | some _ => entries
  | none => Function.update entries key (some node)

/-- `Core::add_node`, with the storage `new` returns. -/
def addNode (core : Core PKey) (storage : Node PKey) (id : UInt64) (addr : Sockaddr) :
    Core PKey × NodePtr :=
  ({ core with
      heap := Function.update core.heap core.next (Node.construct storage id addr)
      nodes := insertEntry core.nodes id core.next
      nodesByAddr := insertEntry core.nodesByAddr addr core.next
      next := core.next + 1 }, core.next)

/-- Assignment through a `Node*`. -/
def setNode (core : Core PKey) (ptr : NodePtr) (node : Node PKey) : Core PKey :=
  { core with heap := Function.update core.heap ptr node }

/-- The record found under an address. -/
def peer (core : Core PKey) (addr : Sockaddr) : Option (Node PKey) :=
  (core.findNode addr).map core.heap

/-- The table as the receive loop keeps it: every record is found under the address it carries,
and the pointers of both maps have been handed out. -/
structure WellFormed (core : Core PKey) : Prop where
  addr_of_find : ∀ {addr ptr}, core.findNode addr = some ptr →
    ptr < core.next ∧ (core.heap ptr).addr = addr
  find_addr : ∀ {ptr}, ptr < core.next → core.findNode (core.heap ptr).addr = some ptr
  lt_of_nodes : ∀ {id ptr}, core.nodes id = some ptr → ptr < core.next

/-- A table with no entries. -/
def Empty (core : Core PKey) : Prop :=
  core.next = 0 ∧ (∀ id, core.nodes id = none) ∧ ∀ addr, core.nodesByAddr addr = none

/-- The record found under an address carries that address. -/
theorem WellFormed.addr_of_peer {core : Core PKey} (hcore : core.WellFormed) {addr : Sockaddr}
    {node : Node PKey} (h : core.peer addr = some node) : node.addr = addr := by
  obtain ⟨ptr, hfind, rfl⟩ := Option.map_eq_some_iff.mp h
  exact (hcore.addr_of_find hfind).2

theorem Empty.wellFormed {core : Core PKey} (h : core.Empty) : core.WellFormed where
  addr_of_find := fun hfind ↦ by simp [findNode, h.2.2] at hfind
  find_addr := fun hlt ↦ by simp [h.1] at hlt
  lt_of_nodes := fun hnode ↦ by simp [h.2.1] at hnode

theorem Empty.peer {core : Core PKey} (h : core.Empty) (addr : Sockaddr) :
    core.peer addr = none := by
  simp [Core.peer, findNode, h.2.2]

/-! ### Lookups after an update -/

@[simp] theorem peer_of_find {core : Core PKey} {addr : Sockaddr} {ptr : NodePtr}
    (h : core.findNode addr = some ptr) : core.peer addr = some (core.heap ptr) := by
  simp [peer, h]

@[simp] theorem peer_of_not_find {core : Core PKey} {addr : Sockaddr}
    (h : core.findNode addr = none) : core.peer addr = none := by
  simp [peer, h]

@[simp] theorem setNode_myId (core : Core PKey) (ptr : NodePtr) (node : Node PKey) :
    (core.setNode ptr node).myId = core.myId := rfl

@[simp] theorem setNode_keys (core : Core PKey) (ptr : NodePtr) (node : Node PKey) :
    (core.setNode ptr node).keys = core.keys := rfl

@[simp] theorem setNode_next (core : Core PKey) (ptr : NodePtr) (node : Node PKey) :
    (core.setNode ptr node).next = core.next := rfl

@[simp] theorem setNode_findNode (core : Core PKey) (ptr : NodePtr) (node : Node PKey)
    (addr : Sockaddr) : (core.setNode ptr node).findNode addr = core.findNode addr := rfl

@[simp] theorem setNode_findNodeById (core : Core PKey) (ptr : NodePtr) (node : Node PKey)
    (id : UInt64) : (core.setNode ptr node).findNodeById id = core.findNodeById id := rfl

@[simp] theorem setNode_heap_self (core : Core PKey) (ptr : NodePtr) (node : Node PKey) :
    (core.setNode ptr node).heap ptr = node := by
  simp [setNode]

theorem setNode_heap_of_ne (core : Core PKey) {ptr other : NodePtr} (node : Node PKey)
    (h : other ≠ ptr) : (core.setNode ptr node).heap other = core.heap other := by
  simp [setNode, h]

/-- An assignment that keeps a field of a record keeps it in every record. -/
theorem setNode_heap_congr {core : Core PKey} {ptr : NodePtr} {node : Node PKey} {Field : Type}
    {field : Node PKey → Field} (h : field node = field (core.heap ptr)) (other : NodePtr) :
    field ((core.setNode ptr node).heap other) = field (core.heap other) := by
  by_cases hother : other = ptr
  · rw [hother, setNode_heap_self, h]
  · rw [setNode_heap_of_ne _ _ hother]

/-- Assignment through the pointer of an address is to the record of that address. -/
theorem peer_setNode_self {core : Core PKey} {addr : Sockaddr} {ptr : NodePtr}
    (h : core.findNode addr = some ptr) (node : Node PKey) :
    (core.setNode ptr node).peer addr = some node := by
  simp [peer, h]

/-- A pointer found under one address is not the pointer found under another. -/
theorem WellFormed.ne_of_addr_ne {core : Core PKey} (hcore : core.WellFormed)
    {first second : Sockaddr} {ptr other : NodePtr} (hfirst : core.findNode first = some ptr)
    (hsecond : core.findNode second = some other) (hne : first ≠ second) : ptr ≠ other := by
  rintro rfl
  exact hne ((hcore.addr_of_find hfirst).2.symm.trans (hcore.addr_of_find hsecond).2)

/-- Assignment to the record of an address leaves the record of every other address. -/
theorem WellFormed.peer_setNode_of_ne {core : Core PKey} (hcore : core.WellFormed)
    {addr other : Sockaddr} {ptr : NodePtr} (hfind : core.findNode addr = some ptr)
    (hne : other ≠ addr) (node : Node PKey) :
    (core.setNode ptr node).peer other = core.peer other := by
  cases hother : core.findNode other with
  | none => simp [peer, hother]
  | some target =>
    have htarget : target ≠ ptr := hcore.ne_of_addr_ne hother hfind hne
    simp [peer, hother, setNode_heap_of_ne _ _ htarget]

/-- Assignment of a record that keeps its address keeps the table well-formed. -/
theorem WellFormed.setNode {core : Core PKey} (hcore : core.WellFormed) {ptr : NodePtr}
    {node : Node PKey} (haddr : node.addr = (core.heap ptr).addr) :
    (core.setNode ptr node).WellFormed where
  addr_of_find := fun {addr target} hfind ↦ by
    rw [setNode_heap_congr haddr, setNode_next]
    exact hcore.addr_of_find hfind
  find_addr := fun {target} hlt ↦ by
    rw [setNode_heap_congr haddr, setNode_findNode]
    exact hcore.find_addr hlt
  lt_of_nodes := fun hnode ↦ hcore.lt_of_nodes hnode

section AddNode

variable {core : Core PKey} {addr : Sockaddr} (hfresh : core.findNode addr = none)
  (storage : Node PKey) (id : UInt64)

@[simp] theorem addNode_ptr : (core.addNode storage id addr).2 = core.next := rfl

@[simp] theorem addNode_myId : (core.addNode storage id addr).1.myId = core.myId := rfl

@[simp] theorem addNode_keys : (core.addNode storage id addr).1.keys = core.keys := rfl

@[simp] theorem addNode_heap_next :
    (core.addNode storage id addr).1.heap core.next = Node.construct storage id addr := by
  simp [addNode]

theorem addNode_heap_of_ne {ptr : NodePtr} (hne : ptr ≠ core.next) :
    (core.addNode storage id addr).1.heap ptr = core.heap ptr := by
  simp [addNode, hne]

/-- A record is registered under an id unless the id has a record. -/
theorem addNode_findNodeById (other : UInt64) :
    (core.addNode storage id addr).1.findNodeById other =
      if other = id ∧ core.findNodeById id = none then some core.next
      else core.findNodeById other := by
  unfold findNodeById
  cases hid : core.nodes id with
  | some ptr => simp [addNode, insertEntry, hid]
  | none => by_cases hother : other = id <;> simp [addNode, insertEntry, hid, hother]

include hfresh

theorem addNode_findNode (other : Sockaddr) : (core.addNode storage id addr).1.findNode other =
    if other = addr then some core.next else core.findNode other := by
  have hnone : core.nodesByAddr addr = none := hfresh
  by_cases hother : other = addr
  · simp [addNode, findNode, insertEntry, hnone, hother]
  · simp [addNode, findNode, insertEntry, hnone, hother]

/-- Adding a record leaves the record of every other address. -/
theorem WellFormed.peer_addNode_of_ne (hcore : core.WellFormed) {other : Sockaddr}
    (hne : other ≠ addr) : (core.addNode storage id addr).1.peer other = core.peer other := by
  cases hother : core.findNode other with
  | none => simp [peer, addNode_findNode hfresh, hne, hother]
  | some target =>
    have htarget : target ≠ core.next := (hcore.addr_of_find hother).1.ne
    simp [peer, addNode_findNode hfresh, hne, hother, addNode_heap_of_ne _ _ htarget]

/-- Adding a record for an address that has none keeps the table well-formed. -/
theorem WellFormed.addNode (hcore : core.WellFormed) :
    (core.addNode storage id addr).1.WellFormed where
  addr_of_find := fun {other target} hfind ↦ by
    rw [addNode_findNode hfresh] at hfind
    split_ifs at hfind with hother
    · obtain rfl := Option.some.inj hfind
      exact ⟨Nat.lt_succ_self _, by simp [Node.construct, hother]⟩
    · obtain ⟨hlt, haddr⟩ := hcore.addr_of_find hfind
      exact ⟨Nat.lt_succ_of_lt hlt, by rw [addNode_heap_of_ne _ _ hlt.ne, haddr]⟩
  find_addr := fun {target} hlt ↦ by
    have hsplit : target < core.next ∨ target = core.next := Nat.lt_succ_iff_lt_or_eq.mp hlt
    rcases hsplit with hold | rfl
    · have hfind := hcore.find_addr hold
      have hne : (core.heap target).addr ≠ addr := fun heq ↦ by
        rw [heq, hfresh] at hfind
        exact absurd hfind (by simp)
      rw [addNode_heap_of_ne _ _ hold.ne, addNode_findNode hfresh, if_neg hne]
      exact hfind
    · rw [addNode_heap_next, addNode_findNode hfresh]
      simp [Node.construct]
  lt_of_nodes := fun {other target} hnode ↦ by
    have hadded : (core.addNode storage id addr).1.findNodeById other = some target := hnode
    rw [addNode_findNodeById] at hadded
    split_ifs at hadded
    · obtain rfl := Option.some.inj hadded
      exact Nat.lt_succ_self _
    · exact Nat.lt_succ_of_lt (hcore.lt_of_nodes hadded)

end AddNode

end Core

end Kapua
