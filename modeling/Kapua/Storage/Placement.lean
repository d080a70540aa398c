import Kapua.Storage.RingWalk

/-!
# Joining, leaving and the placement of blocks

What a change of the ring does to the lookups. When a node leaves, a block keeps every other node it
was placed on, in the same order, and only gains places at the end. When a node joins, a block moves
to the new node or stays. Both compare walks around two rings, one of which has positions that the
other lacks, so that they rest on `filter_probed_isPrefix`.

A node that joins and leaves again does not always leave the store as it was. A join takes over the
virtual ids that it lists, whoever had them, and leaving takes them off the ring.
-/

set_option autoImplicit false
set_option relaxedAutoImplicit false

namespace Kapua

namespace DistributedBlockStore

variable {s : DistributedBlockStore}

/-! ### Leaving -/

/-- The nodes that stay accept what they accepted before. -/
theorem accepts_removeDbsNode {id vid : UInt64} (h : s.virtualToReal.lookup vid ≠ some id) :
    (s.removeDbsNode id).accepts vid = s.accepts vid := by
  apply accepts_congr
  · rw [virtualToReal_removeDbsNode, if_neg h]
  · intro real hreal
    have hne : real ≠ id := fun heq ↦ h (heq ▸ hreal)
    rw [nodeCapacities_removeDbsNode, if_neg hne]

/-- The ring without the positions of a node. -/
theorem ring_removeDbsNode (s : DistributedBlockStore) (id vid : UInt64) :
    vid ∈ (s.removeDbsNode id).ring ↔
      vid ∈ s.ring ∧ decide (s.virtualToReal.lookup vid ≠ some id) = true := by
  rw [mem_ring_removeDbsNode, decide_eq_true_eq]

/-- When a node leaves, the entries of a block that are not its own stay, in their order and at the
front of the new entries, and a block for which none of its positions was probed keeps its entries.
Assumes: a reachable store. -/
theorem leave_disrupts_minimally (h : s.Reachable) (id blockId : UInt64) :
    ∃ before after, s.getDbsNodesForBlock blockId = some before ∧
      (s.removeDbsNode id).getDbsNodesForBlock blockId = some after ∧
      before.filter (fun vid ↦ s.virtualToReal.lookup vid ≠ some id) <+: after ∧
      ((∀ vid ∈ s.probed blockId, s.virtualToReal.lookup vid ≠ some id) → after = before) := by
  have hs := h.consistent
  have hleft : (s.removeDbsNode id).Consistent := hs.apply (.remove id)
  refine ⟨_, _, getDbsNodesForBlock_eq hs blockId, getDbsNodesForBlock_eq hleft blockId, ?_, ?_⟩
  · have hkept : ((s.probed blockId).filter s.accepts).filter
        (fun vid ↦ s.virtualToReal.lookup vid ≠ some id) =
        ((s.probed blockId).filter (fun vid ↦ s.virtualToReal.lookup vid ≠ some id)).filter
          (s.removeDbsNode id).accepts := by
      rw [List.filter_comm]
      refine List.filter_congr fun vid hvid ↦ ?_
      have hother := (List.mem_filter.mp hvid).2
      exact (accepts_removeDbsNode (by simpa using hother)).symm
    rw [hkept]
    exact (filter_probed_isPrefix (ring_removeDbsNode s id) blockId).filter _
  · intro hother
    have hwalk : (s.removeDbsNode id).probed blockId = s.probed blockId :=
      probed_congr (ring_removeDbsNode s id) fun vid hvid ↦ decide_eq_true (hother vid hvid)
    rw [hwalk]
    exact List.filter_congr fun vid hvid ↦ accepts_removeDbsNode (hother vid hvid)

/-- Node 2 leaves a ring of three positions. -/
theorem leave_disrupts_minimally_three :
    ∃ before after,
      (run 1 [10, 30] 5 [.add 2 [20] 5]).getDbsNodesForBlock 15 = some before ∧
      ((run 1 [10, 30] 5 [.add 2 [20] 5]).removeDbsNode 2).getDbsNodesForBlock 15 = some after ∧
      before.filter (fun vid ↦
        (run 1 [10, 30] 5 [.add 2 [20] 5]).virtualToReal.lookup vid ≠ some 2) <+: after ∧
      ((∀ vid ∈ (run 1 [10, 30] 5 [.add 2 [20] 5]).probed 15,
        (run 1 [10, 30] 5 [.add 2 [20] 5]).virtualToReal.lookup vid ≠ some 2) →
          after = before) :=
  leave_disrupts_minimally ⟨1, [10, 30], 5, [.add 2 [20] 5], rfl⟩ 2 15

/-! ### Joining -/

/-- The nodes that were there accept after a join what they accepted before. -/
theorem accepts_addDbsNode {id vid capacity : UInt64} {virtualIds : List UInt64}
    (h : (s.addDbsNode id virtualIds capacity).virtualToReal.lookup vid ≠ some id) :
    (s.addDbsNode id virtualIds capacity).accepts vid = s.accepts vid := by
  rw [virtualToReal_addDbsNode] at h
  have hvid : vid ∉ virtualIds := fun hmem ↦ h (if_pos hmem)
  rw [if_neg hvid] at h
  apply accepts_congr
  · rw [virtualToReal_addDbsNode, if_neg hvid]
  · intro real hreal
    have hne : real ≠ id := fun heq ↦ h (heq ▸ hreal)
    rw [nodeCapacities_addDbsNode, if_neg hne]

/-- The positions from before a join among those after it. -/
theorem ring_addDbsNode (s : DistributedBlockStore) (id : UInt64) (virtualIds : List UInt64)
    (capacity vid : UInt64) : vid ∈ s.ring ↔
      vid ∈ (s.addDbsNode id virtualIds capacity).ring ∧ decide (vid ∈ s.ring) = true := by
  rw [mem_ring_addDbsNode, decide_eq_true_eq]
  exact ⟨fun h ↦ ⟨Or.inr h, h⟩, And.right⟩

/-- A join moves no block to a third node: the entries that the joining node does not own are among
those from before, in the same order. Assumes: a reachable store. -/
theorem join_disrupts_minimally (h : s.Reachable) (id : UInt64) (virtualIds : List UInt64)
    (capacity blockId : UInt64) :
    ∃ before after, s.getDbsNodesForBlock blockId = some before ∧
      (s.addDbsNode id virtualIds capacity).getDbsNodesForBlock blockId = some after ∧
      (after.filter fun vid ↦
        (s.addDbsNode id virtualIds capacity).virtualToReal.lookup vid ≠ some id).Sublist
          before := by
  have hs := h.consistent
  have hjoined : (s.addDbsNode id virtualIds capacity).Consistent :=
    hs.apply (.add id virtualIds capacity)
  refine ⟨_, _, getDbsNodesForBlock_eq hs blockId, getDbsNodesForBlock_eq hjoined blockId, ?_⟩
  have hold : ∀ vid, (s.addDbsNode id virtualIds capacity).accepts vid →
      (s.addDbsNode id virtualIds capacity).virtualToReal.lookup vid ≠ some id →
        vid ∈ s.ring ∧ s.accepts vid := by
    intro vid haccepts hother
    rw [accepts_addDbsNode hother] at haccepts
    refine ⟨(hs vid).mpr ?_, haccepts⟩
    exact Option.isSome_of_any haccepts
  have hsublist : List.Sublist
      ((((s.addDbsNode id virtualIds capacity).probed blockId).filter
        (s.addDbsNode id virtualIds capacity).accepts).filter fun vid ↦
          (s.addDbsNode id virtualIds capacity).virtualToReal.lookup vid ≠ some id)
      ((((s.addDbsNode id virtualIds capacity).probed blockId).filter (· ∈ s.ring)).filter
        s.accepts) := by
    rw [List.filter_filter, List.filter_filter]
    refine List.monotone_filter_right _ fun vid hvid ↦ ?_
    simp only [Bool.and_eq_true, decide_eq_true_eq] at hvid ⊢
    exact (hold vid hvid.2 hvid.1).symm
  have hwalk := filter_probed_isPrefix (ring_addDbsNode s id virtualIds capacity) blockId
  exact hsublist.trans (hwalk.filter s.accepts).sublist

/-- Node 2 joins and takes over a position of node 1. -/
theorem join_disrupts_minimally_takeover :
    ∃ before after,
      (run 1 [10, 30] 5 []).getDbsNodesForBlock 15 = some before ∧
      ((run 1 [10, 30] 5 []).addDbsNode 2 [20, 30] 5).getDbsNodesForBlock 15 = some after ∧
      (after.filter fun vid ↦
        ((run 1 [10, 30] 5 []).addDbsNode 2 [20, 30] 5).virtualToReal.lookup vid ≠
          some 2).Sublist before :=
  join_disrupts_minimally ⟨1, [10, 30], 5, [], rfl⟩ 2 [20, 30] 5 15

/-! ### Joining and leaving again -/

section Passing

variable {id : UInt64} (hvids : ∀ vid, s.virtualToReal.lookup vid ≠ some id)
  (virtualIds : List UInt64) (capacity : UInt64)

include hvids

theorem mem_ring_leave_join (vid : UInt64) :
    vid ∈ ((s.addDbsNode id virtualIds capacity).removeDbsNode id).ring ↔
      vid ∈ s.ring ∧ vid ∉ virtualIds := by
  rw [mem_ring_removeDbsNode, mem_ring_addDbsNode, virtualToReal_addDbsNode]
  by_cases hvid : vid ∈ virtualIds
  · simp [hvid]
  · simp [hvid, hvids vid]

theorem virtualToReal_leave_join (vid : UInt64) :
    ((s.addDbsNode id virtualIds capacity).removeDbsNode id).virtualToReal.lookup vid =
      if vid ∈ virtualIds then none else s.virtualToReal.lookup vid := by
  rw [virtualToReal_removeDbsNode, virtualToReal_addDbsNode]
  by_cases hvid : vid ∈ virtualIds
  · simp [hvid]
  · simp [hvid, hvids vid]

omit hvids in
theorem nodeCapacities_leave_join (hentry : id ∉ s.nodeCapacities) :
    ((s.addDbsNode id virtualIds capacity).removeDbsNode id).nodeCapacities =
      s.nodeCapacities := by
  refine Finmap.ext_lookup fun real ↦ ?_
  rw [nodeCapacities_removeDbsNode, nodeCapacities_addDbsNode]
  by_cases hreal : real = id
  · rw [if_pos hreal, hreal, Finmap.lookup_eq_none.mpr hentry]
  · rw [if_neg hreal, if_neg hreal]

/-- A node that listed no position of the ring leaves the ring and the map as they were. -/
theorem leave_join_eq (hs : s.Consistent) (hentry : id ∉ s.nodeCapacities)
    (hfresh : ∀ vid ∈ virtualIds, vid ∉ s.ring) :
    (s.addDbsNode id virtualIds capacity).removeDbsNode id = s := by
  have hkept : ∀ vid, vid ∈ s.ring → vid ∉ virtualIds := fun vid hmem hvid ↦ hfresh vid hvid hmem
  refine DistributedBlockStore.ext ?_ ?_ ?_
    (nodeCapacities_leave_join virtualIds capacity hentry)
  · rw [nodeId_removeDbsNode, nodeId_addDbsNode]
  · ext vid
    rw [mem_ring_leave_join hvids]
    exact and_iff_left_of_imp (hkept vid)
  · refine Finmap.ext_lookup fun vid ↦ ?_
    rw [virtualToReal_leave_join hvids]
    by_cases hvid : vid ∈ virtualIds
    · have hnone : ¬ (s.virtualToReal.lookup vid).isSome :=
        fun hsome ↦ hfresh vid hvid ((hs vid).mpr hsome)
      rw [if_pos hvid, Option.not_isSome_iff_eq_none.mp hnone]
    · rw [if_neg hvid]

end Passing

/-- A node that passes through takes the virtual ids it listed off the ring, whoever had them, and
changes nothing else. It leaves the store as it was exactly when none of them was on the ring.
Assumes: the node has neither a capacity entry nor a virtual id, in a reachable store. -/
theorem leave_after_join (h : s.Reachable) {id : UInt64} (hentry : id ∉ s.nodeCapacities)
    (hvids : ∀ vid, s.virtualToReal.lookup vid ≠ some id) (virtualIds : List UInt64)
    (capacity : UInt64) :
    (∀ vid, vid ∈ ((s.addDbsNode id virtualIds capacity).removeDbsNode id).ring ↔
      vid ∈ s.ring ∧ vid ∉ virtualIds) ∧
    (∀ vid, ((s.addDbsNode id virtualIds capacity).removeDbsNode id).virtualToReal.lookup vid =
      if vid ∈ virtualIds then none else s.virtualToReal.lookup vid) ∧
    ((s.addDbsNode id virtualIds capacity).removeDbsNode id).nodeCapacities =
      s.nodeCapacities ∧
    ((s.addDbsNode id virtualIds capacity).removeDbsNode id = s ↔
      ∀ vid ∈ virtualIds, vid ∉ s.ring) := by
  refine ⟨mem_ring_leave_join hvids virtualIds capacity,
    virtualToReal_leave_join hvids virtualIds capacity,
    nodeCapacities_leave_join virtualIds capacity hentry, ?_,
    leave_join_eq hvids virtualIds capacity h.consistent hentry⟩
  intro hsame vid hvid hmem
  rw [← hsame, mem_ring_leave_join hvids] at hmem
  exact hmem.2 hvid

/-- The store with the one position 10 of node 1. -/
theorem owners_run_single (vid : UInt64) : (run 1 [10] 5 []).virtualToReal.lookup vid ≠ some 2 := by
  have hmap : (run 1 [10] 5 []).virtualToReal.lookup vid =
      if vid ∈ [10] then some 1 else (blank 1).virtualToReal.lookup vid :=
    virtualToReal_addDbsNode
  rw [hmap]
  split_ifs <;> simp [blank]

/-- Node 2 passes through with a virtual id of its own. -/
theorem leave_after_join_fresh :
    ((run 1 [10] 5 []).addDbsNode 2 [20] 5).removeDbsNode 2 = run 1 [10] 5 [] := by
  have hfresh : ∀ vid ∈ [20], vid ∉ (run 1 [10] 5 []).ring := by
    intro vid hvid
    obtain rfl := List.mem_singleton.mp hvid
    decide +kernel
  exact (leave_after_join ⟨1, [10], 5, [], rfl⟩ (by decide +kernel) owners_run_single [20]
    5).2.2.2.mpr hfresh

/-- Node 2 passes through with the virtual id of node 1 and takes it along. -/
theorem leave_after_join_takes :
    (run 1 [10] 5 []).Reachable ∧ 2 ∉ (run 1 [10] 5 []).nodeCapacities ∧
      (∀ vid, (run 1 [10] 5 []).virtualToReal.lookup vid ≠ some 2) ∧
      10 ∈ (run 1 [10] 5 []).ring ∧
      10 ∉ (((run 1 [10] 5 []).addDbsNode 2 [10] 5).removeDbsNode 2).ring ∧
      (run 1 [10] 5 []).getDbsNodesForBlock 0 = some [10, 10, 10, 10, 10] ∧
      (((run 1 [10] 5 []).addDbsNode 2 [10] 5).removeDbsNode 2).getDbsNodesForBlock 0 =
        some [] :=
  ⟨⟨1, [10], 5, [], rfl⟩, by decide +kernel, owners_run_single, by decide +kernel,
    by decide +kernel, by decide +kernel, by decide +kernel⟩

end DistributedBlockStore

end Kapua
