import Mathlib.Data.List.Rotate
import Mathlib.Data.List.Sort
import Mathlib.Tactic.ByContra

/-!
# Ordered sets

A set over a linear order, kept as the increasing list of its elements, so that an iteration over
the set is a walk over that list. Two such sets with the same elements are the same set
(`OrderedSet.ext`), which makes every equality between them a statement about membership.
`OrderedSet.startingAt` is the walk that begins at a bound and goes round, and
`OrderedSet.filter_startingAt` says that elements left out of the set leave its order alone.
-/

set_option autoImplicit false
set_option relaxedAutoImplicit false

namespace Kapua

variable {α : Type} [LinearOrder α]

/-- A finite set as the increasing list of its elements. -/
structure OrderedSet (α : Type) [LinearOrder α] where
  elements : List α
  sorted : elements.SortedLT
deriving DecidableEq

namespace OrderedSet

instance : Membership α (OrderedSet α) := ⟨fun s a ↦ a ∈ s.elements⟩

instance (s : OrderedSet α) (a : α) : Decidable (a ∈ s) :=
  inferInstanceAs (Decidable (a ∈ s.elements))

@[simp] theorem mem_elements {s : OrderedSet α} {a : α} : a ∈ s.elements ↔ a ∈ s := Iff.rfl

/-- A set is determined by its elements. -/
@[ext]
theorem ext {s t : OrderedSet α} (h : ∀ a, a ∈ s ↔ a ∈ t) : s = t := by
  have helements : s.elements = t.elements := s.sorted.eq_of_mem_iff t.sorted h
  cases s
  cases t
  congr

/-- The set without elements. -/
def empty : OrderedSet α := ⟨[], List.Pairwise.nil.sortedLT⟩

@[simp] theorem not_mem_empty (a : α) : a ∉ (empty : OrderedSet α) := List.not_mem_nil

/-- The set with one element more, unless it has that element. -/
def insert (s : OrderedSet α) (a : α) : OrderedSet α :=
  if h : a ∈ s then s
  else
    { elements := s.elements.orderedInsert (· ≤ ·) a
      sorted := by
        have hsorted := s.sorted.sortedLE.pairwise.orderedInsert a
        have hnodup : (s.elements.orderedInsert (· ≤ ·) a).Nodup :=
          (List.perm_orderedInsert (· ≤ ·) a s.elements).nodup_iff.mpr
            (List.nodup_cons.mpr ⟨h, s.sorted.nodup⟩)
        exact hsorted.sortedLE.sortedLT_of_nodup hnodup }

@[simp] theorem mem_insert {s : OrderedSet α} {a b : α} : b ∈ s.insert a ↔ b = a ∨ b ∈ s := by
  by_cases ha : a ∈ s
  · have hsame : s.insert a = s := dif_pos ha
    rw [hsame]
    refine ⟨Or.inr, ?_⟩
    rintro (rfl | hb)
    · exact ha
    · exact hb
  · have helements : (s.insert a).elements = s.elements.orderedInsert (· ≤ ·) a := by
      simp only [insert, dif_neg ha]
    rw [← mem_elements, helements, List.mem_orderedInsert, mem_elements]

/-- The set without an element. -/
def erase (s : OrderedSet α) (a : α) : OrderedSet α where
  elements := s.elements.erase a
  sorted := (s.sorted.pairwise.sublist List.erase_sublist).sortedLT

@[simp] theorem mem_erase {s : OrderedSet α} {a b : α} : b ∈ s.erase a ↔ b ≠ a ∧ b ∈ s :=
  s.sorted.nodup.mem_erase_iff

/-- Two elements leave in either order. -/
theorem erase_erase (s : OrderedSet α) (a b : α) :
    (s.erase a).erase b = (s.erase b).erase a := by
  ext c
  simp only [mem_erase]
  exact and_left_comm

/-! ### The elements from a bound on -/

/-- The walk from the first element that is not below a bound, empty if all are below it. -/
def lowerBound (s : OrderedSet α) (bound : α) : List α := s.elements.dropWhile (· < bound)

/-- In an increasing list the elements below a bound stand before the others. -/
theorem dropWhile_eq_filter {l : List α} (h : l.Pairwise (· < ·)) (bound : α) :
    l.dropWhile (· < bound) = l.filter (bound ≤ ·) := by
  induction l with
  | nil => rfl
  | cons a l ih =>
    obtain ⟨hfirst, hrest⟩ := List.pairwise_cons.mp h
    by_cases ha : a < bound
    · rw [List.dropWhile_cons_of_pos (by simpa using ha),
        List.filter_cons_of_neg (by simpa using ha)]
      exact ih hrest
    · have hall : ∀ c ∈ a :: l, bound ≤ c := by
        intro c hc
        obtain rfl | hc := List.mem_cons.mp hc
        · exact not_lt.mp ha
        · exact (not_lt.mp ha).trans (hfirst c hc).le
      rw [List.dropWhile_cons_of_neg (by simpa using ha)]
      exact (List.filter_eq_self.mpr fun c hc ↦ by simpa using hall c hc).symm

theorem lowerBound_eq (s : OrderedSet α) (bound : α) :
    s.lowerBound bound = s.elements.filter (bound ≤ ·) :=
  dropWhile_eq_filter s.sorted.pairwise bound

/-- The list of the elements is its part below a bound and then the walk from the bound on. -/
theorem elements_eq (s : OrderedSet α) (bound : α) :
    s.elements = s.elements.filter (· < bound) ++ s.lowerBound bound := by
  refine List.SortedLT.eq_of_mem_iff s.sorted ?_ fun a ↦ ?_
  · rw [lowerBound_eq]
    refine (List.pairwise_append.mpr ⟨?_, ?_, ?_⟩).sortedLT
    · exact s.sorted.pairwise.sublist List.filter_sublist
    · exact s.sorted.pairwise.sublist List.filter_sublist
    · intro a ha c hc
      have ha' : a < bound := by simpa using (List.mem_filter.mp ha).2
      have hc' : bound ≤ c := by simpa using (List.mem_filter.mp hc).2
      exact ha'.trans_le hc'
  · rw [lowerBound_eq, List.mem_append, List.mem_filter, List.mem_filter, ← and_or_left]
    have htotal := lt_or_ge a bound
    simp [htotal]

/-- The elements in the order of a walk that begins at the first one not below a bound and goes on
with the least one after the greatest. -/
def startingAt (s : OrderedSet α) (bound : α) : List α :=
  s.lowerBound bound ++ s.elements.filter (· < bound)

/-- The walk from a bound is the list of the elements, rotated to the first one not below it. -/
theorem startingAt_eq_rotate (s : OrderedSet α) (bound : α) :
    s.startingAt bound = s.elements.rotate (s.elements.findIdx (bound ≤ ·)) := by
  have hfront : (s.elements.filter (· < bound)).findIdx (bound ≤ ·) =
      (s.elements.filter (· < bound)).length := by
    refine List.findIdx_eq_length_of_false fun a ha ↦ ?_
    simpa using (List.mem_filter.mp ha).2
  have hback : (s.lowerBound bound).findIdx (bound ≤ ·) = 0 := by
    rw [lowerBound_eq]
    cases hlist : s.elements.filter (bound ≤ ·) with
    | nil => rfl
    | cons first rest =>
      have hfirst : first ∈ s.elements.filter (bound ≤ ·) := hlist ▸ List.mem_cons_self
      rw [List.findIdx_cons, (List.mem_filter.mp hfirst).2]
      rfl
  have hindex : s.elements.findIdx (bound ≤ ·) = (s.elements.filter (· < bound)).length := by
    rw [s.elements_eq bound, List.findIdx_append, hfront, if_neg (lt_irrefl _), hback, Nat.zero_add,
      ← s.elements_eq bound]
  rw [hindex, startingAt, ← List.rotate_append_length_eq, ← s.elements_eq bound]

theorem startingAt_perm (s : OrderedSet α) (bound : α) :
    (s.startingAt bound).Perm s.elements := by
  calc s.startingAt bound
      |>.Perm (s.elements.filter (· < bound) ++ s.lowerBound bound) := List.perm_append_comm
    _ = s.elements := (s.elements_eq bound).symm

/-- On a walk from the bound, `a` comes before `b`: only `b` is below the bound, or both or none of
them are and `a` is less. -/
def Before (bound a b : α) : Prop := bound ≤ a ∧ b < bound ∨ (bound ≤ a ↔ bound ≤ b) ∧ a < b

instance (bound a b : α) : Decidable (Before bound a b) := inferInstanceAs (Decidable (_ ∨ _))

theorem not_before_self (bound a : α) : ¬ Before bound a a := by
  rintro (⟨habove, hbelow⟩ | ⟨-, hless⟩)
  · exact absurd habove (not_le.mpr hbelow)
  · exact lt_irrefl a hless

theorem not_before_of_before {bound a b : α} (h : Before bound a b) : ¬ Before bound b a := by
  rintro (⟨habove, hbelow⟩ | ⟨hsides, hless⟩)
  · obtain ⟨ha, -⟩ | ⟨hsides, -⟩ := h
    · exact absurd ha (not_le.mpr hbelow)
    · exact absurd (hsides.mpr habove) (not_le.mpr hbelow)
  · obtain ⟨ha, hb⟩ | ⟨-, hless'⟩ := h
    · exact absurd (hsides.mpr ha) (not_le.mpr hb)
    · exact lt_asymm hless hless'

/-- The walk is in this order. -/
theorem startingAt_pairwise (s : OrderedSet α) (bound : α) :
    (s.startingAt bound).Pairwise (Before bound) := by
  rw [startingAt, lowerBound_eq]
  refine List.pairwise_append.mpr ⟨?_, ?_, fun a ha b hb ↦ Or.inl ⟨?_, ?_⟩⟩
  · refine (s.sorted.pairwise.sublist List.filter_sublist).imp_of_mem fun ha hb hless ↦ ?_
    have ha' := of_decide_eq_true (List.mem_filter.mp ha).2
    have hb' := of_decide_eq_true (List.mem_filter.mp hb).2
    exact Or.inr ⟨iff_of_true ha' hb', hless⟩
  · refine (s.sorted.pairwise.sublist List.filter_sublist).imp_of_mem fun ha hb hless ↦ ?_
    have ha' := of_decide_eq_true (List.mem_filter.mp ha).2
    have hb' := of_decide_eq_true (List.mem_filter.mp hb).2
    exact Or.inr ⟨iff_of_false (not_le.mpr ha') (not_le.mpr hb'), hless⟩
  · exact of_decide_eq_true (List.mem_filter.mp ha).2
  · exact of_decide_eq_true (List.mem_filter.mp hb).2

/-- The first elements of the walk are those that few others come before. -/
theorem mem_take_startingAt {s : OrderedSet α} {bound a : α} {n : ℕ} :
    a ∈ (s.startingAt bound).take n ↔
      a ∈ s ∧ s.elements.countP (fun b ↦ Before bound b a) < n := by
  have hperm := s.startingAt_perm bound
  by_cases ha : a ∈ s
  · obtain ⟨front, back, hwalk⟩ := List.append_of_mem (hperm.mem_iff.mpr ha)
    have hordered := s.startingAt_pairwise bound
    rw [hwalk] at hordered
    obtain ⟨-, hback, hfront⟩ := List.pairwise_append.mp hordered
    -- exactly the elements in front of it come before it
    have hcount : s.elements.countP (fun b ↦ Before bound b a) = front.length := by
      have hbefore : front.countP (fun b ↦ Before bound b a) = front.length :=
        List.countP_eq_length.mpr fun b hb ↦ decide_eq_true (hfront b hb a List.mem_cons_self)
      have hafter : (a :: back).countP (fun b ↦ Before bound b a) = 0 := by
        refine List.countP_eq_zero.mpr fun b hb ↦ ?_
        obtain rfl | hb := List.mem_cons.mp hb
        · simpa using not_before_self bound b
        · simpa using not_before_of_before ((List.pairwise_cons.mp hback).1 b hb)
      rw [← hperm.countP_eq, hwalk, List.countP_append, hbefore, hafter, Nat.add_zero]
    rw [hcount, and_iff_right ha, hwalk]
    constructor
    · intro htake
      by_contra hlong
      rw [List.take_append_of_le_length (not_lt.mp hlong)] at htake
      exact not_before_self bound a (hfront a (List.mem_of_mem_take htake) a List.mem_cons_self)
    · intro hshort
      rw [List.take_append, List.mem_append]
      refine Or.inr ?_
      obtain ⟨rest, hrest⟩ : ∃ rest, n - front.length = rest + 1 := ⟨n - front.length - 1, by omega⟩
      rw [hrest, List.take_succ_cons]
      exact List.mem_cons_self
  · refine iff_of_false (fun htake ↦ ha (hperm.mem_iff.mp (List.mem_of_mem_take htake))) fun h ↦ ?_
    exact ha h.1

/-- Leaving elements out of the set leaves them out of the walk and moves none of the others. -/
theorem filter_startingAt {s t : OrderedSet α} {p : α → Bool}
    (h : ∀ a, a ∈ t ↔ a ∈ s ∧ p a) (bound : α) :
    (s.startingAt bound).filter p = t.startingAt bound := by
  have helements : t.elements = s.elements.filter p := by
    refine List.SortedLT.eq_of_mem_iff t.sorted ?_ fun a ↦ ?_
    · exact (s.sorted.pairwise.sublist List.filter_sublist).sortedLT
    · rw [List.mem_filter, mem_elements, mem_elements]
      exact h a
  simp only [startingAt, lowerBound_eq, List.filter_append, helements, List.filter_filter,
    Bool.and_comm]

end OrderedSet

end Kapua
