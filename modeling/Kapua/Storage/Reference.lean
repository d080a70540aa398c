import Kapua.Storage.RingHistory

/-!
# The lookup and its reference

`reference` says what a lookup is for, without an iterator: the ring in ascending order, rotated to
begin at the block, repeated, cut after five positions and filtered by who has room. It needs an
owner and a capacity entry for every position, and `Reachable.isSome_lookups` is the invariant that
there are some: a virtual id is owned by a node that joined with it and has not left, and such a
node has an entry. `lookup_eq_reference` puts the two together.
-/

set_option autoImplicit false
set_option relaxedAutoImplicit false

namespace Kapua

open scoped DistributedBlockStore

namespace DistributedBlockStore

/-- The ring in ascending order, from the least virtual id that is not below the block id, or from
the least of all if there is none. -/
def rotated (s : DistributedBlockStore) (blockId : UInt64) : List UInt64 :=
  s.ring.elements.rotate (s.ring.elements.findIdx (blockId ≤ ·))

/-- The usage of the position's real node is below its capacity. -/
def hasRoom (s : DistributedBlockStore) (vid : UInt64) : Bool :=
  (s.virtualToReal.lookup vid).any fun real ↦
    (s.nodeCapacities.lookup real).any fun entry ↦ entry.2 < entry.1

/-- What the lookup of a block is for: the first five positions of the rotated ring, repeated, whose
real nodes have room. -/
def reference (s : DistributedBlockStore) (blockId : UInt64) : List UInt64 :=
  if s.ring.elements = [] then []
  else ((List.replicate 5 (s.rotated blockId)).flatten.take 5).filter s.hasRoom

/-- Whoever owns a virtual id has joined and not left. -/
theorem joined_of_owned {history : List Operation} {vid real : UInt64}
    (h : Owned history vid real) : Joined history real :=
  h.mono (fun _ ↦ And.left) fun _ ↦ Or.inr

/-- Every position of the ring has an owner, and the owner has a capacity entry. Assumes: a
reachable store. -/
theorem Reachable.isSome_lookups {s : DistributedBlockStore} (h : s.Reachable) {vid : UInt64}
    (hvid : vid ∈ s.ring) : ∃ real entry, s.virtualToReal.lookup vid = some real ∧
      s.nodeCapacities.lookup real = some entry := by
  have hconsistent := h.consistent
  obtain ⟨id, virtualIds, capacity, operations, rfl⟩ := h
  obtain ⟨real, hreal⟩ := Option.isSome_iff_exists.mp ((hconsistent vid).mp hvid)
  have howned : Owned (calls id virtualIds capacity operations) vid real := by
    rwa [run_eq, virtualToReal_foldl] at hreal
  have hentry := (isSome_nodeCapacities_foldl id _ real).mpr (joined_of_owned howned)
  rw [← run_eq] at hentry
  obtain ⟨entry, hentry⟩ := Option.isSome_iff_exists.mp hentry
  exact ⟨real, entry, hreal, hentry⟩

/-- Where there is an entry, the overload check compares usage and capacity. -/
theorem accepts_eq_hasRoom {s : DistributedBlockStore} {vid real : UInt64}
    {entry : UInt64 × UInt64} (hreal : s.virtualToReal.lookup vid = some real)
    (hentry : s.nodeCapacities.lookup real = some entry) : s.accepts vid = s.hasRoom vid := by
  simp only [accepts, hasRoom, hreal, Option.any_some, checkNodeOverloaded, hentry, ge_iff_le]
  by_cases hroom : entry.2 < entry.1
  · simp [hroom, not_le.mpr hroom]
  · simp [hroom, not_lt.mp hroom]

/-- The positions the lookup reads are on the ring. -/
theorem mem_ring_of_mem_probed {s : DistributedBlockStore} {blockId vid : UInt64}
    (h : vid ∈ s.probed blockId) : vid ∈ s.ring := by
  rw [probed_eq, CircularWalk.mem_visited] at h
  exact (s.ring.startingAt_perm blockId).subset (List.mem_of_mem_take h)

/-- The lookup of a block returns normally and equals its reference; and every position it reads has
an owner with a capacity entry, so that the overload check never falls back to its default.
Assumes: a reachable store. -/
theorem lookup_eq_reference {s : DistributedBlockStore} (h : s.Reachable) (blockId : UInt64) :
    s.getDbsNodesForBlock blockId = some (s.reference blockId) ∧
      ∀ vid ∈ s.probed blockId, ∃ real entry, s.virtualToReal.lookup vid = some real ∧
        s.nodeCapacities.lookup real = some entry := by
  have hlookups : ∀ vid ∈ s.probed blockId, ∃ real entry,
      s.virtualToReal.lookup vid = some real ∧ s.nodeCapacities.lookup real = some entry :=
    fun vid hvid ↦ h.isSome_lookups (mem_ring_of_mem_probed hvid)
  refine ⟨?_, hlookups⟩
  have hfilter : (s.probed blockId).filter s.accepts = (s.probed blockId).filter s.hasRoom := by
    refine List.filter_congr fun vid hvid ↦ ?_
    obtain ⟨real, entry, hreal, hentry⟩ := hlookups vid hvid
    exact accepts_eq_hasRoom hreal hentry
  rw [getDbsNodesForBlock_eq h.consistent, hfilter, reference]
  by_cases hring : s.ring.elements = []
  · have hnone : s.probed blockId = [] := by
      rw [probed_eq, OrderedSet.startingAt_eq_rotate, hring]
      exact CircularWalk.visited_nil 5
    rw [if_pos hring, hnone, List.filter_nil]
  · rw [if_neg hring, probed_eq, OrderedSet.startingAt_eq_rotate]
    rfl

/-- `lookup_eq_reference` for a ring of two nodes, one of them without room. -/
theorem lookup_eq_reference_two :
    (run 1 [10, 30] 5 [.add 2 [20] 0]).getDbsNodesForBlock 15 =
        some ((run 1 [10, 30] 5 [.add 2 [20] 0]).reference 15) ∧
      ∀ vid ∈ (run 1 [10, 30] 5 [.add 2 [20] 0]).probed 15, ∃ real entry,
        (run 1 [10, 30] 5 [.add 2 [20] 0]).virtualToReal.lookup vid = some real ∧
          (run 1 [10, 30] 5 [.add 2 [20] 0]).nodeCapacities.lookup real = some entry :=
  lookup_eq_reference ⟨1, [10, 30], 5, [.add 2 [20] 0], rfl⟩ 15

/-- Five visits around three positions, of which two have room. -/
example : (run 1 [10, 30] 5 [.add 2 [20] 0]).reference 15 = [30, 10, 30] := by decide +kernel

end DistributedBlockStore

end Kapua
