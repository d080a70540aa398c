import Kapua.Foundation.CircularWalk
import Kapua.Storage.DistributedBlockStore

/-!
# The lookup as a walk around the ring

`get_dbs_nodes_for_block` goes around the ring from the first position not below the block id, reads
five positions, and keeps those of real nodes that are not overloaded. `probed_eq` states the
positions it reads as the visits of a circular walk, and `getDbsNodesForBlock_eq` what it returns as
the accepted ones among them. In a reachable state the lookup does not fail. The last section
compares the lookups of two stores, one of which may lack positions of the other.
-/

set_option autoImplicit false
set_option relaxedAutoImplicit false

namespace Kapua

namespace DistributedBlockStore

variable {s : DistributedBlockStore}

/-- The position belongs to a real node that is not overloaded. -/
def accepts (s : DistributedBlockStore) (vid : UInt64) : Bool :=
  (s.virtualToReal.lookup vid).any fun real ↦ !s.checkNodeOverloaded real

/-- The loop collects the accepted ones of the positions it reads. Assumes: every position it can
come to is a key of `virtual_to_real`. -/
theorem visit_eq (h : s.Consistent) (rounds : ℕ) (it nodes : List UInt64)
    (hit : ∀ vid ∈ it, vid ∈ s.ring) :
    s.visit rounds it nodes = some (nodes ++ (s.probe rounds it).filter s.accepts) := by
  induction rounds generalizing it nodes with
  | zero => simp [visit, probe]
  | succ rounds ih =>
    cases it with
    | nil => simp [visit, probe]
    | cons vid rest =>
      obtain ⟨hvid, hrest⟩ := List.forall_mem_cons.mp hit
      obtain ⟨real, hreal⟩ := Option.isSome_iff_exists.mp ((h vid).mp hvid)
      have hnext : ∀ v ∈ s.wrap rest, v ∈ s.ring := by
        unfold wrap
        split_ifs
        · exact fun v hv ↦ hv
        · exact hrest
      have haccepts : s.accepts vid = !s.checkNodeOverloaded real := by
        simp [accepts, hreal]
      simp only [visit, hreal, Option.bind_eq_bind, Option.bind_some, probe]
      rw [ih _ _ hnext]
      cases hoverloaded : s.checkNodeOverloaded real with
      | false => simp [haccepts, hoverloaded]
      | true => simp [haccepts, hoverloaded]

/-- From a position on, the loop reads what is left of the ring and then whole rounds. -/
theorem probe_eq (hring : s.ring.elements ≠ []) (rounds : ℕ) {it : List UInt64} (hit : it ≠ []) :
    s.probe rounds it = (it ++ CircularWalk.laps rounds s.ring.elements).take rounds := by
  induction rounds generalizing it with
  | zero => rfl
  | succ rounds ih =>
    obtain ⟨vid, rest, rfl⟩ := List.exists_cons_of_ne_nil hit
    rw [probe, List.cons_append, List.take_succ_cons]
    congr 1
    by_cases hrest : rest = []
    · subst hrest
      have hwrap : s.wrap [] = s.ring.elements := if_pos rfl
      rw [hwrap, ih hring, List.nil_append, CircularWalk.laps_succ]
    · have hwrap : s.wrap rest = rest := if_neg hrest
      have hlong : rounds ≤ (rest ++ CircularWalk.laps rounds s.ring.elements).length := by
        have hlaps := CircularWalk.le_length_laps hring rounds
        rw [List.length_append]
        omega
      rw [hwrap, ih hrest, CircularWalk.laps_succ', ← List.append_assoc,
        List.take_append_of_le_length hlong]

/-- The positions read for a block are the first five of the walk around the ring that begins at
the block. -/
theorem probed_eq (s : DistributedBlockStore) (blockId : UInt64) :
    s.probed blockId = CircularWalk.visited 5 (s.ring.startingAt blockId) := by
  by_cases hring : s.ring.elements = []
  · have hbound : s.ring.lowerBound blockId = [] := by simp [OrderedSet.lowerBound, hring]
    simp [probed, OrderedSet.startingAt, wrap, probe, hbound, hring]
  · have hsplit := s.ring.elements_eq blockId
    by_cases hbound : s.ring.lowerBound blockId = []
    · -- the block is beyond the last position
      have hwrap : s.wrap (s.ring.lowerBound blockId) = s.ring.elements := if_pos hbound
      have hstart : s.ring.startingAt blockId = s.ring.elements := by
        rw [hbound, List.append_nil] at hsplit
        rw [OrderedSet.startingAt, hbound, List.nil_append, ← hsplit]
      rw [probed, hwrap, probe_eq hring 5 hring, hstart, ← CircularWalk.laps_succ]
      exact CircularWalk.take_laps _ (Nat.le_succ 5)
    · have hwrap : s.wrap (s.ring.lowerBound blockId) = s.ring.lowerBound blockId :=
        if_neg hbound
      rw [probed, hwrap, probe_eq hring 5 hbound, OrderedSet.startingAt,
        ← CircularWalk.take_append_laps, ← hsplit]

/-- The lookup returns the accepted ones of the positions it reads. -/
theorem getDbsNodesForBlock_eq (h : s.Consistent) (blockId : UInt64) :
    s.getDbsNodesForBlock blockId = some ((s.probed blockId).filter s.accepts) := by
  unfold getDbsNodesForBlock
  split_ifs with hring
  · have hbound : s.ring.lowerBound blockId = [] := by simp [OrderedSet.lowerBound, hring]
    simp [probed, wrap, hbound, hring, probe]
  · have hmem : ∀ vid ∈ s.wrap (s.ring.lowerBound blockId), vid ∈ s.ring := by
      unfold wrap
      split_ifs
      · exact fun vid hvid ↦ hvid
      · exact fun vid hvid ↦ (List.dropWhile_sublist _).subset hvid
    rw [visit_eq h 5 _ [] hmem, List.nil_append, probed]

/-! ### Comparing two stores -/

variable {t : DistributedBlockStore}

/-- The position is accepted alike in two stores in which it has the same owner and the owner the
same capacity and usage. -/
theorem accepts_congr {vid : UInt64}
    (hmap : t.virtualToReal.lookup vid = s.virtualToReal.lookup vid)
    (hcapacities : ∀ real, s.virtualToReal.lookup vid = some real →
      t.nodeCapacities.lookup real = s.nodeCapacities.lookup real) :
    t.accepts vid = s.accepts vid := by
  unfold accepts
  rw [hmap]
  cases hreal : s.virtualToReal.lookup vid with
  | none => rfl
  | some real => simp only [Option.any_some, checkNodeOverloaded, hcapacities real hreal]

/-- Where one ring has some of the positions of another, the walk around it reads what the other
walk reads of them, in the same order, and then perhaps more. -/
theorem filter_probed_isPrefix {p : UInt64 → Bool}
    (hring : ∀ vid, vid ∈ t.ring ↔ vid ∈ s.ring ∧ p vid) (blockId : UInt64) :
    (s.probed blockId).filter p <+: t.probed blockId := by
  rw [probed_eq, probed_eq, ← OrderedSet.filter_startingAt hring]
  exact CircularWalk.filter_visited_isPrefix p 5 _

/-- A walk that reads no position that the other ring lacks is the same around both. -/
theorem probed_congr {p : UInt64 → Bool} (hring : ∀ vid, vid ∈ t.ring ↔ vid ∈ s.ring ∧ p vid)
    {blockId : UInt64} (hprobed : ∀ vid ∈ s.probed blockId, p vid) :
    t.probed blockId = s.probed blockId := by
  rw [probed_eq] at hprobed
  rw [probed_eq, probed_eq, ← OrderedSet.filter_startingAt hring]
  exact CircularWalk.visited_filter hprobed

/-- The lookup reads the ring, the map and the capacities only. -/
theorem getDbsNodesForBlock_congr (hs : s.Consistent) (ht : t.Consistent)
    (hring : s.ring = t.ring) (hmap : s.virtualToReal = t.virtualToReal)
    (hcapacities : s.nodeCapacities = t.nodeCapacities) (blockId : UInt64) :
    s.getDbsNodesForBlock blockId = t.getDbsNodesForBlock blockId := by
  have haccepts : s.accepts = t.accepts := by
    funext vid
    exact accepts_congr (by rw [hmap]) fun real _ ↦ by rw [hcapacities]
  rw [getDbsNodesForBlock_eq hs, getDbsNodesForBlock_eq ht, probed_eq, probed_eq, hring, haccepts]

end DistributedBlockStore

end Kapua
