import Mathlib.Data.List.Basic
import Mathlib.Tactic.Common

/-!
# Circular walks

A walk that goes around a list again and again and stops after a number of visits. Its two main
facts concern a filter. Elements left out of the round leave the other visits as they are, as far as
the walk came before (`CircularWalk.filter_visited_isPrefix`), since the shorter round only lets the
walk come farther. And what an accepting visitor collects is compared with the round itself: when it
has no repetition (`CircularWalk.nodup_collected_iff`) and when it is as much as the round can give
(`CircularWalk.min_le_collected_iff`).
-/

set_option autoImplicit false
set_option relaxedAutoImplicit false

namespace Kapua

namespace CircularWalk

variable {α β : Type}

/-- A number of full rounds. -/
def laps (n : ℕ) (round : List α) : List α := (List.replicate n round).flatten

/-- The elements met in a number of visits. -/
def visited (n : ℕ) (round : List α) : List α := (laps n round).take n

@[simp] theorem laps_zero (round : List α) : laps 0 round = [] := rfl

theorem laps_succ (n : ℕ) (round : List α) : laps (n + 1) round = round ++ laps n round := by
  simp [laps, List.replicate_succ]

theorem laps_succ' (n : ℕ) (round : List α) : laps (n + 1) round = laps n round ++ round := by
  simp [laps, List.replicate_succ']

@[simp] theorem laps_nil (n : ℕ) : laps n ([] : List α) = [] := List.flatten_replicate_nil

theorem length_laps (n : ℕ) (round : List α) : (laps n round).length = n * round.length := by
  simp [laps]

/-- A round that is not empty is at least one visit long. -/
theorem le_length_laps {round : List α} (hround : round ≠ []) (n : ℕ) :
    n ≤ (laps n round).length := by
  rw [length_laps]
  exact Nat.le_mul_of_pos_right n (List.length_pos_iff.mpr hround)

theorem filter_laps (p : α → Bool) (n : ℕ) (round : List α) :
    (laps n round).filter p = laps n (round.filter p) := by
  induction n with
  | zero => rfl
  | succ n ih => rw [laps_succ, laps_succ, List.filter_append, ih]

@[simp] theorem visited_nil (n : ℕ) : visited n ([] : List α) = [] := by
  rw [visited, laps_nil, List.take_nil]

@[simp] theorem visited_zero (round : List α) : visited 0 round = [] := List.take_zero

theorem length_visited {round : List α} (hround : round ≠ []) (n : ℕ) :
    (visited n round).length = n := by
  rw [visited, List.length_take, Nat.min_eq_left (le_length_laps hround n)]

/-- Rounds beyond the number of visits are not reached. -/
theorem take_laps (round : List α) {n m : ℕ} (h : n ≤ m) :
    (laps m round).take n = visited n round := by
  obtain ⟨more, rfl⟩ := Nat.exists_eq_add_of_le h
  induction more with
  | zero => rfl
  | succ more ih =>
    by_cases hround : round = []
    · subst hround
      simp
    · have hlong : n ≤ (laps (n + more) round).length :=
        Nat.le_trans (Nat.le_add_right n more) (le_length_laps hround _)
      rw [← Nat.add_assoc, laps_succ', List.take_append_of_le_length hlong]
      exact ih (Nat.le_add_right n more)

/-- The first round, and then the walk again with the visits that are left. -/
theorem visited_eq (n : ℕ) (round : List α) :
    visited n round = round.take n ++ visited (n - round.length) round := by
  cases n with
  | zero => simp
  | succ n =>
    by_cases hround : round = []
    · subst hround
      simp
    · have hless : n + 1 - round.length ≤ n := by
        have hpos := List.length_pos_iff.mpr hround
        omega
      rw [visited, laps_succ, List.take_append, take_laps round hless]

/-- Rounds that begin elsewhere, up to the end of the last one. -/
theorem append_laps (front back : List α) (n : ℕ) :
    back ++ laps n (front ++ back) = laps n (back ++ front) ++ back := by
  induction n with
  | zero => simp
  | succ n ih =>
    rw [laps_succ, laps_succ, List.append_assoc front, ih]
    simp only [List.append_assoc]

/-- A walk that begins in the middle of a list visits the rounds that begin there. -/
theorem take_append_laps (front back : List α) (n : ℕ) :
    (back ++ laps n (front ++ back)).take n = visited n (back ++ front) := by
  by_cases hround : back ++ front = []
  · obtain ⟨rfl, rfl⟩ := List.append_eq_nil_iff.mp hround
    simp
  · rw [append_laps, List.take_append_of_le_length (le_length_laps hround n), visited]

/-- The visits meet what the first round meets. -/
theorem mem_visited {n : ℕ} {round : List α} {a : α} :
    a ∈ visited n round ↔ a ∈ round.take n := by
  rw [visited_eq, List.mem_append]
  refine ⟨?_, Or.inl⟩
  rintro (h | h)
  · exact h
  · have hround : a ∈ round := by
      have hlaps : a ∈ laps (n - round.length) round := List.mem_of_mem_take h
      obtain ⟨copy, hcopy, ha⟩ := List.mem_flatten.mp hlaps
      rwa [List.eq_of_mem_replicate hcopy] at ha
    by_cases hlong : round.length ≤ n
    · rwa [List.take_of_length_le hlong]
    · have hnone : n - round.length = 0 := by omega
      simp [hnone] at h

/-! ### Rounds with elements left out -/

/-- Without some elements of the round, the walk meets the others in the same order, and comes at
least as far. -/
theorem filter_visited_isPrefix (p : α → Bool) (n : ℕ) (round : List α) :
    (visited n round).filter p <+: visited n (round.filter p) := by
  have hlaps : (visited n round).filter p <+: laps n (round.filter p) := by
    rw [← filter_laps]
    exact (List.take_prefix n _).filter p
  have hlength : ((visited n round).filter p).length ≤ n :=
    Nat.le_trans (List.length_filter_le p _) (List.length_take_le n _)
  exact List.prefix_take_iff.mpr ⟨hlaps, hlength⟩

/-- The walk does not change if the elements left out were not visited. -/
theorem visited_filter {p : α → Bool} {n : ℕ} {round : List α}
    (h : ∀ a ∈ visited n round, p a) : visited n (round.filter p) = visited n round := by
  by_cases hround : round = []
  · subst hround
    rfl
  · have hpre := filter_visited_isPrefix p n round
    rw [List.filter_eq_self.mpr h] at hpre
    refine (hpre.eq_of_length_le ?_).symm
    rw [length_visited hround n]
    exact List.length_take_le n _

/-! ### What an accepting visitor collects -/

/-- The collected elements have pairwise distinct images exactly when those of the first round do
and nothing that is visited a second time is accepted. -/
theorem nodup_collected_iff (p : α → Bool) (f : α → β) (n : ℕ) (round : List α) :
    (((visited n round).filter p).map f).Nodup ↔
      (round.take n).Pairwise (fun a b ↦ f a = f b → ¬ (p a ∧ p b)) ∧
        ∀ a ∈ round.take (n - round.length), ¬ p a := by
  have hfirst : (((round.take n).filter p).map f).Nodup ↔
      (round.take n).Pairwise (fun a b ↦ f a = f b → ¬ (p a ∧ p b)) := by
    rw [List.Nodup, List.pairwise_map, List.pairwise_filter]
    refine List.Pairwise.iff fun a b ↦ ?_
    tauto
  rw [visited_eq, List.filter_append, List.map_append, List.nodup_append, hfirst]
  constructor
  · rintro ⟨hpairwise, -, hdisjoint⟩
    refine ⟨hpairwise, fun a ha hp ↦ ?_⟩
    have hsecond : f a ∈ ((visited (n - round.length) round).filter p).map f :=
      List.mem_map_of_mem (List.mem_filter.mpr ⟨mem_visited.mpr ha, hp⟩)
    have hthere : f a ∈ ((round.take n).filter p).map f :=
      List.mem_map_of_mem
        (List.mem_filter.mpr ⟨List.take_subset_take_left round (Nat.sub_le ..) ha, hp⟩)
    exact hdisjoint _ hthere _ hsecond rfl
  · rintro ⟨hpairwise, hrefused⟩
    have hnone : (visited (n - round.length) round).filter p = [] :=
      List.filter_eq_nil_iff.mpr fun a ha ↦ hrefused a (mem_visited.mp ha)
    rw [hnone]
    refine ⟨hpairwise, List.nodup_nil, ?_⟩
    simp

/-- The visitor collects as much as the round can give exactly when it refuses no visited element or
nothing beyond the visited elements is acceptable. -/
theorem min_le_collected_iff (p : α → Bool) (n : ℕ) (round : List α) :
    min n (round.countP p) ≤ ((visited n round).filter p).length ↔
      (∀ a ∈ round.take n, p a) ∨ ∀ a ∈ round.drop n, ¬ p a := by
  have hround : round.countP p = (round.take n).countP p + (round.drop n).countP p := by
    rw [← List.countP_append, List.take_append_drop]
  have hcollected : ((visited n round).filter p).length =
      (round.take n).countP p + (visited (n - round.length) round).countP p := by
    rw [← List.countP_eq_length_filter, visited_eq, List.countP_append]
  have hall : (∀ a ∈ round.take n, p a) ↔ (round.take n).countP p = (round.take n).length :=
    List.countP_eq_length.symm
  have hnone : (∀ a ∈ round.drop n, ¬ p a) ↔ (round.drop n).countP p = 0 :=
    List.countP_eq_zero.symm
  have hbound : (round.take n).countP p ≤ (round.take n).length := List.countP_le_length
  rw [hcollected, hall, hnone, hround]
  by_cases hlong : n ≤ round.length
  · -- no visit is a second one
    have hagain : n - round.length = 0 := Nat.sub_eq_zero_of_le hlong
    have hlength : (round.take n).length = n := List.length_take_of_le hlong
    rw [hagain, visited_zero, List.countP_nil]
    omega
  · -- the visits cover the round
    have hcovered : round.drop n = [] := List.drop_eq_nil_of_le (Nat.le_of_not_ge hlong)
    rw [hcovered, List.countP_nil]
    omega

end CircularWalk

end Kapua
