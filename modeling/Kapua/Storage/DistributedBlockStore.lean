import Kapua.Foundation.OrderedSet
import Mathlib.Data.Finmap
import Mathlib.Tactic.Common

/-!
# The distributed block store

The model of `class DistributedBlockStore`: a ring of virtual ids, the real node that each of them
stands for, and the capacity and usage of every real node. A `std::set` is an `OrderedSet`, a
`std::unordered_map` is a `Finmap`, and an iterator into the ring is the list of the positions from
it to `end()`, which is empty at `end()`. `getDbsNodesForBlock` fails where `virtual_to_real.at`
throws.

Each call has one lemma for each container it changes, and the proofs about stores use those lemmas
only.
-/

set_option autoImplicit false
set_option relaxedAutoImplicit false

namespace Kapua

namespace DistributedBlockStore

/-- The order of `std::set<uint64_t>`. -/
scoped instance linearOrderUInt64 : LinearOrder UInt64 where
  le_refl := UInt64.le_refl
  le_trans _ _ _ := UInt64.le_trans
  le_antisymm _ _ := UInt64.le_antisymm
  le_total := UInt64.le_total
  lt_iff_le_not_ge a b := by
    rw [UInt64.lt_iff_toNat_lt, UInt64.le_iff_toNat_le, UInt64.le_iff_toNat_le]
    omega
  toDecidableLE := inferInstance
  toDecidableEq := inferInstance
  toDecidableLT := inferInstance

end DistributedBlockStore

open scoped DistributedBlockStore

/-- A `std::unordered_map` with keys of type `uint64_t`. -/
abbrev UnorderedMap (β : Type) : Type := Finmap fun _ : UInt64 ↦ β

/-- The fields of the store. A capacity entry is a pair of the capacity and the usage. -/
@[ext]
structure DistributedBlockStore where
  nodeId : UInt64
  ring : OrderedSet UInt64
  virtualToReal : UnorderedMap UInt64
  nodeCapacities : UnorderedMap (UInt64 × UInt64)

namespace DistributedBlockStore

/-! ### Joining and leaving -/

/-- One round of the loop over the virtual ids of a joining node. -/
def addVirtualId (id : UInt64) (s : DistributedBlockStore) (vid : UInt64) :
    DistributedBlockStore :=
  { s with
    ring := s.ring.insert vid
    virtualToReal := s.virtualToReal.insert vid id }

/-- `add_dbs_node`. -/
def addDbsNode (s : DistributedBlockStore) (id : UInt64) (virtualIds : List UInt64)
    (capacity : UInt64) : DistributedBlockStore :=
  let s := virtualIds.foldl (addVirtualId id) s
  { s with nodeCapacities := s.nodeCapacities.insert id (capacity, 0) }

/-- The fields before the body of the constructor runs. -/
def blank (id : UInt64) : DistributedBlockStore where
  nodeId := id
  ring := .empty
  virtualToReal := ∅
  nodeCapacities := ∅

/-- The constructor. Its body is the one of `add_dbs_node`. -/
def construct (id : UInt64) (virtualIds : List UInt64) (capacity : UInt64) :
    DistributedBlockStore :=
  let s := virtualIds.foldl (addVirtualId id) (blank id)
  { s with nodeCapacities := s.nodeCapacities.insert id (capacity, 0) }

/-- One round of the loop over `virtual_to_real` in `remove_dbs_node`. -/
def eraseOwned (id : UInt64) (s : DistributedBlockStore) (vid real : UInt64) :
    DistributedBlockStore :=
  if real = id then
    { s with
      ring := s.ring.erase vid
      virtualToReal := s.virtualToReal.erase vid }
  else s

/-- The rounds of the loop may come in any order, as the iteration over a hash map does. -/
theorem eraseOwned_comm (id : UInt64) (s : DistributedBlockStore) (v real v' real' : UInt64) :
    eraseOwned id (eraseOwned id s v real) v' real' =
      eraseOwned id (eraseOwned id s v' real') v real := by
  by_cases hreal : real = id <;> by_cases hreal' : real' = id <;>
    simp only [eraseOwned, hreal, hreal', if_true, if_false]
  rw [OrderedSet.erase_erase, Finmap.erase_erase]

/-- `remove_dbs_node`. The iterators that an erasure leaves are those of the entries it leaves, so
that the loop sees every entry there was. -/
def removeDbsNode (s : DistributedBlockStore) (id : UInt64) : DistributedBlockStore :=
  let s := s.virtualToReal.foldl (eraseOwned id) (eraseOwned_comm id) s
  { s with nodeCapacities := s.nodeCapacities.erase id }

/-- `update_dbs_node_capacity`. -/
def updateDbsNodeCapacity (s : DistributedBlockStore) (id newCapacity : UInt64) :
    DistributedBlockStore :=
  match s.nodeCapacities.lookup id with
  | some (_, usage) => { s with nodeCapacities := s.nodeCapacities.insert id (newCapacity, usage) }
  | none => s

/-! ### The lookup -/

/-- `check_node_overloaded`. A node without an entry counts as not overloaded. -/
def checkNodeOverloaded (s : DistributedBlockStore) (nodeId : UInt64) : Bool :=
  match s.nodeCapacities.lookup nodeId with
  | some (capacity, usage) => usage ≥ capacity
  | none => false

/-- An iterator, or `begin()` in place of `end()`. -/
def wrap (s : DistributedBlockStore) (it : List UInt64) : List UInt64 :=
  if it = [] then s.ring.elements else it

/-- The loop of `get_dbs_nodes_for_block` with the rounds that are left, the iterator and the
entries found so far. -/
def visit (s : DistributedBlockStore) : ℕ → List UInt64 → List UInt64 → Option (List UInt64)
  | 0, _, nodes => some nodes
  | _ + 1, [], nodes => some nodes
  | rounds + 1, vid :: rest, nodes => do
    let nodeId ← s.virtualToReal.lookup vid
    let nodes := if s.checkNodeOverloaded nodeId then nodes else nodes ++ [vid]
    s.visit rounds (s.wrap rest) nodes

/-- `get_dbs_nodes_for_block`. -/
def getDbsNodesForBlock (s : DistributedBlockStore) (blockId : UInt64) : Option (List UInt64) :=
  if s.ring.elements = [] then some []
  else s.visit 5 (s.wrap (s.ring.lowerBound blockId)) []

/-- The positions that the loop reads, accepted or not. -/
def probe (s : DistributedBlockStore) : ℕ → List UInt64 → List UInt64
  | 0, _ => []
  | _ + 1, [] => []
  | rounds + 1, vid :: rest => vid :: s.probe rounds (s.wrap rest)

/-- The positions that the lookup of a block reads. -/
def probed (s : DistributedBlockStore) (blockId : UInt64) : List UInt64 :=
  s.probe 5 (s.wrap (s.ring.lowerBound blockId))

/-! ### Runs -/

/-- The calls on a store. -/
inductive Operation
  | add (id : UInt64) (virtualIds : List UInt64) (capacity : UInt64)
  | remove (id : UInt64)
  | update (id newCapacity : UInt64)
deriving DecidableEq

/-- The effect of a call. -/
def apply (s : DistributedBlockStore) : Operation → DistributedBlockStore
  | .add id virtualIds capacity => s.addDbsNode id virtualIds capacity
  | .remove id => s.removeDbsNode id
  | .update id newCapacity => s.updateDbsNodeCapacity id newCapacity

/-- A store that is constructed and then called a number of times. -/
def run (id : UInt64) (virtualIds : List UInt64) (capacity : UInt64)
    (operations : List Operation) : DistributedBlockStore :=
  operations.foldl apply (construct id virtualIds capacity)

/-- The states of stores that are constructed and then called any number of times. -/
def Reachable (s : DistributedBlockStore) : Prop :=
  ∃ id virtualIds capacity operations, s = run id virtualIds capacity operations

/-! ### What each call does to each container -/

variable {s : DistributedBlockStore} {id vid : UInt64}

theorem mem_ring_addVirtualIds (id : UInt64) (virtualIds : List UInt64)
    (s : DistributedBlockStore) :
    vid ∈ (virtualIds.foldl (addVirtualId id) s).ring ↔ vid ∈ virtualIds ∨ vid ∈ s.ring := by
  induction virtualIds generalizing s with
  | nil => simp
  | cons first rest ih =>
    rw [List.foldl_cons, ih, List.mem_cons]
    simp only [addVirtualId, OrderedSet.mem_insert]
    tauto

theorem virtualToReal_addVirtualIds (id : UInt64) (virtualIds : List UInt64)
    (s : DistributedBlockStore) :
    (virtualIds.foldl (addVirtualId id) s).virtualToReal.lookup vid =
      if vid ∈ virtualIds then some id else s.virtualToReal.lookup vid := by
  induction virtualIds generalizing s with
  | nil => simp
  | cons first rest ih =>
    rw [List.foldl_cons, ih]
    by_cases hrest : vid ∈ rest
    · simp [hrest]
    · by_cases hfirst : vid = first
      · subst hfirst
        simp [addVirtualId, hrest]
      · simp [addVirtualId, hrest, hfirst]

theorem nodeCapacities_addVirtualIds (id : UInt64) (virtualIds : List UInt64)
    (s : DistributedBlockStore) :
    (virtualIds.foldl (addVirtualId id) s).nodeCapacities = s.nodeCapacities ∧
      (virtualIds.foldl (addVirtualId id) s).nodeId = s.nodeId := by
  induction virtualIds generalizing s with
  | nil => exact ⟨rfl, rfl⟩
  | cons first rest ih => exact ih (addVirtualId id s first)

@[simp] theorem mem_ring_addDbsNode {virtualIds : List UInt64} {capacity : UInt64} :
    vid ∈ (s.addDbsNode id virtualIds capacity).ring ↔ vid ∈ virtualIds ∨ vid ∈ s.ring :=
  mem_ring_addVirtualIds id virtualIds s

@[simp] theorem virtualToReal_addDbsNode {virtualIds : List UInt64} {capacity : UInt64} :
    (s.addDbsNode id virtualIds capacity).virtualToReal.lookup vid =
      if vid ∈ virtualIds then some id else s.virtualToReal.lookup vid :=
  virtualToReal_addVirtualIds id virtualIds s

@[simp] theorem nodeCapacities_addDbsNode {virtualIds : List UInt64} {capacity real : UInt64} :
    (s.addDbsNode id virtualIds capacity).nodeCapacities.lookup real =
      if real = id then some (capacity, 0) else s.nodeCapacities.lookup real := by
  simp only [addDbsNode, (nodeCapacities_addVirtualIds id virtualIds s).1]
  by_cases hreal : real = id
  · subst hreal
    simp
  · simp [hreal]

@[simp] theorem nodeId_addDbsNode {virtualIds : List UInt64} {capacity : UInt64} :
    (s.addDbsNode id virtualIds capacity).nodeId = s.nodeId :=
  (nodeCapacities_addVirtualIds id virtualIds s).2

theorem construct_eq (id : UInt64) (virtualIds : List UInt64) (capacity : UInt64) :
    construct id virtualIds capacity = (blank id).addDbsNode id virtualIds capacity := rfl

/-- The loop of `remove_dbs_node` sees the entries of the map in some order. -/
theorem foldl_eraseOwned (id : UInt64) (map : UnorderedMap UInt64) (s : DistributedBlockStore) :
    ∃ entries : List (Σ _ : UInt64, UInt64),
      (∀ vid real, ⟨vid, real⟩ ∈ entries ↔ map.lookup vid = some real) ∧
        map.foldl (eraseOwned id) (eraseOwned_comm id) s =
          entries.foldl (fun s entry ↦ eraseOwned id s entry.1 entry.2) s := by
  obtain ⟨entries, hentries⟩ := Quotient.exists_rep map.entries
  refine ⟨entries, fun vid real ↦ ?_, ?_⟩
  · rw [Finmap.lookup_eq_some_iff, ← hentries]
    exact Multiset.mem_coe.symm
  · rw [Finmap.foldl, ← hentries]
    rfl

theorem mem_ring_eraseEntries (id : UInt64) (entries : List (Σ _ : UInt64, UInt64))
    (s : DistributedBlockStore) :
    vid ∈ (entries.foldl (fun s entry ↦ eraseOwned id s entry.1 entry.2) s).ring ↔
      vid ∈ s.ring ∧ ⟨vid, id⟩ ∉ entries := by
  induction entries generalizing s with
  | nil => simp
  | cons first rest ih =>
    obtain ⟨firstVid, firstReal⟩ := first
    rw [List.foldl_cons, ih, List.mem_cons]
    by_cases hreal : firstReal = id
    · subst hreal
      simp only [eraseOwned, if_true, OrderedSet.mem_erase, Sigma.mk.injEq, heq_eq_eq, and_true]
      tauto
    · have hother : ¬ id = firstReal := fun h ↦ hreal h.symm
      simp [eraseOwned, hreal, hother]

theorem virtualToReal_eraseEntries (id : UInt64) (entries : List (Σ _ : UInt64, UInt64))
    (s : DistributedBlockStore) :
    (entries.foldl (fun s entry ↦ eraseOwned id s entry.1 entry.2) s).virtualToReal.lookup vid =
      if ⟨vid, id⟩ ∈ entries then none else s.virtualToReal.lookup vid := by
  induction entries generalizing s with
  | nil => simp
  | cons first rest ih =>
    obtain ⟨firstVid, firstReal⟩ := first
    rw [List.foldl_cons, ih]
    by_cases hrest : (⟨vid, id⟩ : Σ _ : UInt64, UInt64) ∈ rest
    · simp [hrest]
    · by_cases hfirst : vid = firstVid
      · subst hfirst
        by_cases hreal : firstReal = id
        · subst hreal
          simp [eraseOwned, hrest]
        · have hother : ¬ id = firstReal := fun h ↦ hreal h.symm
          simp [eraseOwned, hrest, hreal, hother]
      · by_cases hreal : firstReal = id <;> simp [eraseOwned, hrest, hfirst, hreal]

theorem nodeCapacities_eraseEntries (id : UInt64) (entries : List (Σ _ : UInt64, UInt64))
    (s : DistributedBlockStore) :
    (entries.foldl (fun s entry ↦ eraseOwned id s entry.1 entry.2) s).nodeCapacities =
        s.nodeCapacities ∧
      (entries.foldl (fun s entry ↦ eraseOwned id s entry.1 entry.2) s).nodeId = s.nodeId := by
  induction entries generalizing s with
  | nil => exact ⟨rfl, rfl⟩
  | cons first rest ih =>
    have hfirst : (eraseOwned id s first.1 first.2).nodeCapacities = s.nodeCapacities ∧
        (eraseOwned id s first.1 first.2).nodeId = s.nodeId := by
      unfold eraseOwned
      split_ifs <;> exact ⟨rfl, rfl⟩
    obtain ⟨hcapacities, hnodeId⟩ := ih (eraseOwned id s first.1 first.2)
    exact ⟨hcapacities.trans hfirst.1, hnodeId.trans hfirst.2⟩

/-- Leaving takes the virtual ids of the node off the ring and no other. -/
@[simp] theorem mem_ring_removeDbsNode :
    vid ∈ (s.removeDbsNode id).ring ↔ vid ∈ s.ring ∧ s.virtualToReal.lookup vid ≠ some id := by
  obtain ⟨entries, hentries, hfold⟩ := foldl_eraseOwned id s.virtualToReal s
  simp only [removeDbsNode, hfold]
  rw [mem_ring_eraseEntries, hentries]

@[simp] theorem virtualToReal_removeDbsNode :
    (s.removeDbsNode id).virtualToReal.lookup vid =
      if s.virtualToReal.lookup vid = some id then none else s.virtualToReal.lookup vid := by
  obtain ⟨entries, hentries, hfold⟩ := foldl_eraseOwned id s.virtualToReal s
  simp only [removeDbsNode, hfold]
  rw [virtualToReal_eraseEntries]
  simp only [hentries]

@[simp] theorem nodeCapacities_removeDbsNode {real : UInt64} :
    (s.removeDbsNode id).nodeCapacities.lookup real =
      if real = id then none else s.nodeCapacities.lookup real := by
  obtain ⟨entries, -, hfold⟩ := foldl_eraseOwned id s.virtualToReal s
  simp only [removeDbsNode, hfold, (nodeCapacities_eraseEntries id entries s).1]
  by_cases hreal : real = id
  · subst hreal
    simp
  · simp [hreal]

@[simp] theorem nodeId_removeDbsNode : (s.removeDbsNode id).nodeId = s.nodeId := by
  obtain ⟨entries, -, hfold⟩ := foldl_eraseOwned id s.virtualToReal s
  simp only [removeDbsNode, hfold, (nodeCapacities_eraseEntries id entries s).2]

@[simp] theorem ring_updateDbsNodeCapacity {newCapacity : UInt64} :
    (s.updateDbsNodeCapacity id newCapacity).ring = s.ring := by
  unfold updateDbsNodeCapacity
  split <;> rfl

@[simp] theorem virtualToReal_updateDbsNodeCapacity {newCapacity : UInt64} :
    (s.updateDbsNodeCapacity id newCapacity).virtualToReal = s.virtualToReal := by
  unfold updateDbsNodeCapacity
  split <;> rfl

/-- An update replaces the capacity of an entry and makes none. -/
@[simp] theorem nodeCapacities_updateDbsNodeCapacity {newCapacity real : UInt64} :
    (s.updateDbsNodeCapacity id newCapacity).nodeCapacities.lookup real =
      if real = id then (s.nodeCapacities.lookup id).map fun entry ↦ (newCapacity, entry.2)
      else s.nodeCapacities.lookup real := by
  unfold updateDbsNodeCapacity
  by_cases hreal : real = id
  · subst hreal
    cases hentry : s.nodeCapacities.lookup real with
    | none => simp [hentry]
    | some entry => simp
  · split
    · simp [hreal]
    · simp [hreal]

/-! ### The ring and the map -/

/-- The ring and the map have the same virtual ids. -/
def Consistent (s : DistributedBlockStore) : Prop :=
  ∀ vid, vid ∈ s.ring ↔ (s.virtualToReal.lookup vid).isSome

theorem Consistent.apply (h : s.Consistent) (operation : Operation) :
    (s.apply operation).Consistent := by
  intro vid
  have hvid := h vid
  cases operation with
  | add id virtualIds capacity =>
    simp only [DistributedBlockStore.apply, mem_ring_addDbsNode, virtualToReal_addDbsNode]
    by_cases hmem : vid ∈ virtualIds
    · simp [hmem]
    · simp [hmem, hvid]
  | remove id =>
    simp only [DistributedBlockStore.apply, mem_ring_removeDbsNode, virtualToReal_removeDbsNode]
    by_cases howner : s.virtualToReal.lookup vid = some id
    · simp [howner]
    · simp [howner, hvid]
  | update id newCapacity =>
    simpa only [DistributedBlockStore.apply, ring_updateDbsNodeCapacity,
      virtualToReal_updateDbsNodeCapacity] using hvid

theorem consistent_blank (id : UInt64) : (blank id).Consistent := by
  intro vid
  simp [blank]

theorem Reachable.consistent (h : s.Reachable) : s.Consistent := by
  obtain ⟨id, virtualIds, capacity, operations, rfl⟩ := h
  unfold run
  have hstart : (construct id virtualIds capacity).Consistent := by
    rw [construct_eq]
    exact (consistent_blank id).apply (.add id virtualIds capacity)
  generalize construct id virtualIds capacity = start at hstart
  induction operations generalizing start with
  | nil => exact hstart
  | cons operation rest ih => exact ih _ (hstart.apply operation)

end DistributedBlockStore

end Kapua
