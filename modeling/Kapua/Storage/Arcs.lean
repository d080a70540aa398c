import Kapua.Storage.Reference
import Mathlib.Algebra.BigOperators.Group.Finset.Basic
import Mathlib.Combinatorics.Enumerative.DoubleCounting

/-!
# Which blocks a position of the ring serves

The block ids are a circle, on which a lookup goes up from the id of its block. So a position is
read by the lookups of those blocks for which fewer than five other positions lie on the way
(`mem_probed_iff`), and these are the blocks on an arc of the circle that ends at the position
(`mem_probed_iff_load`). How long the arc is depends on the ring only (`load_eq_of_ring`), and the
arcs together go round the circle once for each position that a lookup reads (`sum_load`).
-/

set_option autoImplicit false
set_option relaxedAutoImplicit false

namespace Kapua

/-- A property of the numbers below `bound` that a number has if a greater one has it is to be less
than the number of those with the property. -/
theorem lt_card_filter_range_iff {bound number : ℕ} {p : ℕ → Prop} [DecidablePred p]
    (hp : ∀ {less more}, less ≤ more → p more → p less) (hnumber : number < bound) :
    number < ((Finset.range bound).filter p).card ↔ p number := by
  constructor
  · intro hless
    by_contra hnot
    have hsubset : (Finset.range bound).filter p ⊆ Finset.range number := by
      intro other hother
      obtain ⟨-, hholds⟩ := Finset.mem_filter.mp hother
      exact Finset.mem_range.mpr (not_le.mp fun hle ↦ hnot (hp hle hholds))
    have hcard := Finset.card_le_card hsubset
    rw [Finset.card_range] at hcard
    omega
  · intro hholds
    have hsubset : Finset.range (number + 1) ⊆ (Finset.range bound).filter p := by
      intro other hother
      have hle : other ≤ number := Nat.lt_succ_iff.mp (Finset.mem_range.mp hother)
      exact Finset.mem_filter.mpr ⟨Finset.mem_range.mpr (hle.trans_lt hnumber), hp hle hholds⟩
    have hcard := Finset.card_le_card hsubset
    rw [Finset.card_range] at hcard
    omega

namespace DistributedBlockStore

variable {s : DistributedBlockStore}

/-- On the way up from a block another position comes before one if it is nearer below that one than
the block is. -/
theorem before_iff (blockId vid other : UInt64) : OrderedSet.Before blockId other vid ↔
    other ≠ vid ∧ (vid - other).toNat ≤ (vid - blockId).toNat := by
  have hblock := blockId.toNat_lt
  have hvid := vid.toNat_lt
  have hother := other.toNat_lt
  rw [OrderedSet.Before, UInt64.le_iff_toNat_le, UInt64.le_iff_toNat_le, UInt64.lt_iff_toNat_lt,
    UInt64.lt_iff_toNat_lt, UInt64.toNat_sub, UInt64.toNat_sub, ne_eq, ← UInt64.toNat_inj]
  omega

/-- The other positions within a distance below one. -/
def below (s : DistributedBlockStore) (vid : UInt64) (distance : ℕ) : ℕ :=
  s.ring.elements.countP fun other ↦ other ≠ vid ∧ (vid - other).toNat ≤ distance

/-- There are no fewer positions within a greater distance. -/
theorem below_mono (s : DistributedBlockStore) (vid : UInt64) {less more : ℕ} (h : less ≤ more) :
    s.below vid less ≤ s.below vid more := by
  refine List.countP_mono_left fun other _ hother ↦ ?_
  simp only [decide_eq_true_eq] at hother ⊢
  exact ⟨hother.1, hother.2.trans h⟩

/-- A lookup reads a position if fewer than five others lie on the way to it. -/
theorem mem_probed_iff {vid blockId : UInt64} : vid ∈ s.probed blockId ↔
    vid ∈ s.ring ∧ s.below vid (vid - blockId).toNat < 5 := by
  rw [probed_eq, CircularWalk.mem_visited, OrderedSet.mem_take_startingAt]
  simp only [before_iff, below]

/-- The number of the block ids whose lookups read a position. -/
def load (s : DistributedBlockStore) (vid : UInt64) : ℕ :=
  ((Finset.range (2 ^ 64)).filter fun blockId ↦ vid ∈ s.probed (.ofNat blockId)).card

/-- The distances below a position have a property as often as numbers do. Assumes: the bound is the
number of the ids. -/
theorem card_filter_distance {bound : ℕ} (hbound : bound = 2 ^ 64) (vid : UInt64) (p : ℕ → Prop)
    [DecidablePred p] :
    ((Finset.range bound).filter fun blockId ↦ p (vid - .ofNat blockId).toNat).card =
      ((Finset.range bound).filter p).card := by
  have hvid := vid.toNat_lt
  refine Finset.card_bij (fun blockId _ ↦ (vid - .ofNat blockId).toNat) ?_ ?_ ?_
  · intro blockId hblock
    have hdistance : (vid - .ofNat blockId).toNat < bound := hbound ▸ UInt64.toNat_lt _
    exact Finset.mem_filter.mpr ⟨Finset.mem_range.mpr hdistance, (Finset.mem_filter.mp hblock).2⟩
  · intro blockId hblock other hother heq
    have hblock := Finset.mem_range.mp (Finset.mem_filter.mp hblock).1
    have hother := Finset.mem_range.mp (Finset.mem_filter.mp hother).1
    simp only [UInt64.toNat_sub, UInt64.toNat_ofNat'] at heq
    omega
  · intro distance hdistance
    obtain ⟨hrange, hholds⟩ := Finset.mem_filter.mp hdistance
    have hdistance := Finset.mem_range.mp hrange
    have hback : (vid - .ofNat (vid - .ofNat distance).toNat).toNat = distance := by
      simp only [UInt64.toNat_sub, UInt64.toNat_ofNat']
      omega
    have hblock : (vid - .ofNat distance).toNat < bound := hbound ▸ UInt64.toNat_lt _
    exact ⟨_, Finset.mem_filter.mpr ⟨Finset.mem_range.mpr hblock, by rwa [hback]⟩, hback⟩

/-- The load by the distances below the position. -/
theorem load_eq {vid : UInt64} (hvid : vid ∈ s.ring) : s.load vid =
    ((Finset.range (2 ^ 64)).filter fun distance ↦ s.below vid distance < 5).card := by
  rw [← card_filter_distance rfl vid, load]
  simp only [mem_probed_iff, hvid, true_and]

/-- A lookup reads a position if the block lies on the arc of that length that ends there. -/
theorem mem_probed_iff_load {vid blockId : UInt64} : vid ∈ s.probed blockId ↔
    vid ∈ s.ring ∧ (vid - blockId).toNat < s.load vid := by
  rw [mem_probed_iff]
  refine and_congr_right fun hvid ↦ ?_
  rw [load_eq hvid, lt_card_filter_range_iff (fun hle hmore ↦ (s.below_mono vid hle).trans_lt hmore)
    (UInt64.toNat_lt _)]

/-- Together the arcs go round the circle as many times as a lookup reads different positions. -/
theorem sum_load (s : DistributedBlockStore) :
    ∑ vid ∈ s.ring.elements.toFinset, s.load vid = min 5 s.ring.elements.length * 2 ^ 64 := by
  have hread (blockId : UInt64) : (s.ring.elements.toFinset.filter
      (· ∈ s.probed blockId)).card = min 5 s.ring.elements.length := by
    have hperm := s.ring.startingAt_perm blockId
    have heq : s.ring.elements.toFinset.filter (· ∈ s.probed blockId) =
        ((s.ring.startingAt blockId).take 5).toFinset := by
      ext vid
      rw [Finset.mem_filter, List.mem_toFinset, List.mem_toFinset, probed_eq,
        CircularWalk.mem_visited]
      exact and_iff_right_of_imp fun hvid ↦ hperm.mem_iff.mp (List.mem_of_mem_take hvid)
    have hnodup : (s.ring.startingAt blockId).Nodup := hperm.nodup_iff.mpr s.ring.sorted.nodup
    rw [heq, List.toFinset_card_of_nodup (hnodup.sublist (List.take_sublist _ _)), List.length_take,
      hperm.length_eq]
  calc ∑ vid ∈ s.ring.elements.toFinset, s.load vid
      = ∑ blockId ∈ Finset.range (2 ^ 64), (s.ring.elements.toFinset.filter
          (· ∈ s.probed (.ofNat blockId))).card :=
        Finset.sum_card_bipartiteAbove_eq_sum_card_bipartiteBelow
          fun vid blockId ↦ vid ∈ s.probed (.ofNat blockId)
    _ = min 5 s.ring.elements.length * 2 ^ 64 := by
        rw [Finset.sum_congr rfl fun blockId _ ↦ hread _, Finset.sum_const, Finset.card_range,
          Nat.nsmul_eq_mul, Nat.mul_comm]

/-- A lookup reads the position at the id of its block. -/
theorem load_pos {vid : UInt64} (hvid : vid ∈ s.ring) : 0 < s.load vid := by
  have hnone : s.below vid (vid - vid).toNat = 0 := by
    refine List.countP_eq_zero.mpr fun other _ ↦ ?_
    have hself : ¬ OrderedSet.Before vid other vid := by
      rintro (⟨-, hless⟩ | ⟨hsides, hless⟩)
      · exact lt_irrefl vid hless
      · exact absurd (hsides.mpr le_rfl) (not_le.mpr hless)
    rw [before_iff] at hself
    simpa using hself
  have hread : vid ∈ s.probed vid := mem_probed_iff.mpr ⟨hvid, by rw [hnone]; decide⟩
  exact Nat.zero_lt_of_lt (mem_probed_iff_load.mp hread).2

/-- Stores with the same ring have the same loads, whatever nodes the positions belong to and
however much these hold. -/
theorem load_eq_of_ring {other : DistributedBlockStore} (h : other.ring = s.ring) :
    other.load = s.load := by
  funext vid
  refine congrArg Finset.card (Finset.filter_congr fun blockId _ ↦ ?_)
  rw [mem_probed_iff, mem_probed_iff, below, below, h]

/-- The load of the positions of the ring. Each lookup lists the positions with room on whose arc
its block lies: the arc of a position ends at its own id, is not empty, and is as long as its load.
The loads depend on the ring only, and add up to five times the number of the block ids, or to as
many times as there are positions if there are fewer than five. Assumes: a reachable store. -/
theorem arcs (h : s.Reachable) :
    (∀ blockId, ∃ nodes, s.getDbsNodesForBlock blockId = some nodes ∧
      ∀ vid, vid ∈ nodes ↔
        vid ∈ s.ring ∧ s.hasRoom vid = true ∧ (vid - blockId).toNat < s.load vid) ∧
    (∀ vid ∈ s.ring, 0 < s.load vid) ∧
    (∀ other : DistributedBlockStore, other.ring = s.ring → other.load = s.load) ∧
    ∑ vid ∈ s.ring.elements.toFinset, s.load vid = min 5 s.ring.elements.length * 2 ^ 64 := by
  refine ⟨fun blockId ↦ ⟨_, getDbsNodesForBlock_eq h.consistent blockId, fun vid ↦ ?_⟩,
    fun vid hvid ↦ load_pos hvid, fun _ ↦ load_eq_of_ring, sum_load s⟩
  rw [List.mem_filter, mem_probed_iff_load]
  constructor
  · rintro ⟨⟨hvid, harc⟩, haccepts⟩
    obtain ⟨real, entry, hreal, hentry⟩ := h.isSome_lookups hvid
    exact ⟨hvid, accepts_eq_hasRoom hreal hentry ▸ haccepts, harc⟩
  · rintro ⟨hvid, hroom, harc⟩
    obtain ⟨real, entry, hreal, hentry⟩ := h.isSome_lookups hvid
    exact ⟨⟨hvid, harc⟩, (accepts_eq_hasRoom hreal hentry).trans hroom⟩

/-- `arcs` for a ring of six positions of two nodes. -/
theorem arcs_six : ∃ s : DistributedBlockStore, s.ring.elements = [10, 20, 30, 40, 50, 60] ∧
    (∃ nodes, s.getDbsNodesForBlock 15 = some nodes ∧ ∀ vid, vid ∈ nodes ↔
      vid ∈ s.ring ∧ s.hasRoom vid = true ∧ (vid - 15).toNat < s.load vid) ∧
    ∑ vid ∈ s.ring.elements.toFinset, s.load vid = 5 * 2 ^ 64 := by
  have hring : (run 1 [10, 30, 50] 5 [.add 2 [20, 40, 60] 5]).ring.elements =
      [10, 20, 30, 40, 50, 60] := by decide +kernel
  obtain ⟨hlists, -, -, htotal⟩ := arcs (s := run 1 [10, 30, 50] 5 [.add 2 [20, 40, 60] 5])
    ⟨1, [10, 30, 50], 5, [.add 2 [20, 40, 60] 5], rfl⟩
  refine ⟨_, hring, hlists 15, ?_⟩
  rw [htotal, hring]
  rfl

end DistributedBlockStore

end Kapua
