import Kapua.Storage.RingWalk

/-!
# The replicas of a block

How many different nodes a block is placed on. The lookup goes on around the ring until it has read
five positions. It does not stop where it began, so that a ring of fewer positions is read more than
once, and it does not look at the nodes it has already found. And it counts the positions it reads
rather than those it takes, so that overloaded nodes use up the five positions. For both the exact
condition is stated on the positions from the block on, in the order of the ring.
-/

set_option autoImplicit false
set_option relaxedAutoImplicit false

namespace Kapua

namespace DistributedBlockStore

variable {s : DistributedBlockStore}

/-- Positions of one real node are accepted together. -/
theorem accepts_of_owner_eq {vid vid' : UInt64}
    (h : s.virtualToReal.lookup vid = s.virtualToReal.lookup vid') :
    s.accepts vid = s.accepts vid' := by
  simp only [accepts, h]

/-- The walk for a block goes through each position of the ring once. -/
theorem length_startingAt (s : DistributedBlockStore) (blockId : UInt64) :
    (s.ring.startingAt blockId).length = s.ring.elements.length :=
  (s.ring.startingAt_perm blockId).length_eq

/-- The entries of a block belong to pairwise distinct real nodes exactly when, among the first five
positions from the block on, two have the same real node only where it is overloaded, and the
positions of a ring of fewer than five that are read a second time belong to overloaded nodes.
Assumes: a reachable store. -/
theorem distinct_replicas_iff (h : s.Reachable) (blockId : UInt64) :
    (∃ nodes, s.getDbsNodesForBlock blockId = some nodes ∧
      (nodes.map s.virtualToReal.lookup).Nodup) ↔
      ((s.ring.startingAt blockId).take 5).Pairwise (fun vid vid' ↦
          s.virtualToReal.lookup vid = s.virtualToReal.lookup vid' → ¬ s.accepts vid) ∧
        ∀ vid ∈ (s.ring.startingAt blockId).take (5 - s.ring.elements.length),
          ¬ s.accepts vid := by
  have hpairs : ∀ vid vid',
      (s.virtualToReal.lookup vid = s.virtualToReal.lookup vid' →
        ¬ (s.accepts vid ∧ s.accepts vid')) ↔
      (s.virtualToReal.lookup vid = s.virtualToReal.lookup vid' → ¬ s.accepts vid) := by
    intro vid vid'
    refine imp_congr_right fun howner ↦ ?_
    rw [accepts_of_owner_eq howner, and_self]
  have hnodup := CircularWalk.nodup_collected_iff s.accepts s.virtualToReal.lookup 5
    (s.ring.startingAt blockId)
  simp only [hpairs, length_startingAt] at hnodup
  rw [getDbsNodesForBlock_eq h.consistent, probed_eq, ← hnodup]
  simp

/-- Three nodes on five positions, two of them of one node that is overloaded. -/
theorem distinct_replicas_three :
    ∃ nodes,
      (run 1 [10] 5 [.add 2 [20, 30, 40] 0, .add 3 [50] 5]).getDbsNodesForBlock 35 = some nodes ∧
        (nodes.map
          (run 1 [10] 5 [.add 2 [20, 30, 40] 0, .add 3 [50] 5]).virtualToReal.lookup).Nodup := by
  have honce : ((run 1 [10] 5 [.add 2 [20, 30, 40] 0, .add 3 [50] 5]).ring.startingAt 35).take
      (5 - (run 1 [10] 5 [.add 2 [20, 30, 40] 0, .add 3 [50] 5]).ring.elements.length) = [] := by
    decide +kernel
  refine (distinct_replicas_iff ⟨1, [10], 5, [.add 2 [20, 30, 40] 0, .add 3 [50] 5], rfl⟩
    35).mpr ⟨by decide +kernel, ?_⟩
  rw [honce]
  exact List.forall_mem_nil _

/-- A ring with one position. Every block gets that position five times. -/
theorem replicas_repeat :
    (run 1 [10] 5 []).Reachable ∧
      (run 1 [10] 5 []).getDbsNodesForBlock 7 = some [10, 10, 10, 10, 10] ∧
      ¬ ∃ nodes, (run 1 [10] 5 []).getDbsNodesForBlock 7 = some nodes ∧
        (nodes.map (run 1 [10] 5 []).virtualToReal.lookup).Nodup := by
  have hlookup : (run 1 [10] 5 []).getDbsNodesForBlock 7 = some [10, 10, 10, 10, 10] := by
    decide +kernel
  refine ⟨⟨1, [10], 5, [], rfl⟩, hlookup, ?_⟩
  rintro ⟨nodes, hnodes, hnodup⟩
  obtain rfl := Option.some.inj (hlookup.symm.trans hnodes)
  simp at hnodup

/-- With `k` positions of nodes that are not overloaded the lookup returns at least `min 5 k`
entries exactly when none of the first five positions from the block on belongs to an overloaded
node, or all positions beyond them do. Assumes: a reachable store. -/
theorem finds_storage_iff (h : s.Reachable) (blockId : UInt64) :
    (∃ nodes, s.getDbsNodesForBlock blockId = some nodes ∧
      min 5 (s.ring.elements.countP s.accepts) ≤ nodes.length) ↔
      (∀ vid ∈ (s.ring.startingAt blockId).take 5, s.accepts vid) ∨
        ∀ vid ∈ (s.ring.startingAt blockId).drop 5, ¬ s.accepts vid := by
  rw [getDbsNodesForBlock_eq h.consistent, probed_eq,
    ← (s.ring.startingAt_perm blockId).countP_eq,
    ← CircularWalk.min_le_collected_iff]
  simp

/-- The walk for block 0 passes an overloaded node, and no position is beyond the five it reads. -/
theorem finds_storage_small :
    ∃ nodes, (run 1 [10, 30] 5 [.add 2 [20] 0]).getDbsNodesForBlock 0 = some nodes ∧
      min 5 ((run 1 [10, 30] 5 [.add 2 [20] 0]).ring.elements.countP
        (run 1 [10, 30] 5 [.add 2 [20] 0]).accepts) ≤ nodes.length := by
  have hcovered : ((run 1 [10, 30] 5 [.add 2 [20] 0]).ring.startingAt 0).drop 5 = [] := by
    decide +kernel
  refine (finds_storage_iff ⟨1, [10, 30], 5, [.add 2 [20] 0], rfl⟩ 0).mpr (Or.inr ?_)
  rw [hcovered]
  exact List.forall_mem_nil _

/-- Five positions of a node without capacity stand before the one of a node with capacity. The
lookup finds nothing. -/
theorem storage_missed :
    (run 1 [60] 5 [.add 2 [10, 20, 30, 40, 50] 0]).Reachable ∧
      (run 1 [60] 5 [.add 2 [10, 20, 30, 40, 50] 0]).ring.elements.countP
        (run 1 [60] 5 [.add 2 [10, 20, 30, 40, 50] 0]).accepts = 1 ∧
      (run 1 [60] 5 [.add 2 [10, 20, 30, 40, 50] 0]).getDbsNodesForBlock 0 = some [] :=
  ⟨⟨1, [60], 5, [.add 2 [10, 20, 30, 40, 50] 0], rfl⟩, by decide +kernel, by decide +kernel⟩

end DistributedBlockStore

end Kapua
