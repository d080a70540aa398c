import Mathlib.Algebra.Order.Group.Defs
import Mathlib.Algebra.Order.Group.Unbundled.Basic
import Mathlib.Algebra.Order.Monoid.Defs
import Mathlib.Tactic.Abel

/-!
# Gates that open at most once in a span

A gate is polled with readings of a clock and opens at a reading that lies at least `span` after the
one it last opened at. `fires` is the list of readings it opens at. Openings are at least `span`
apart (`separated_fires`), so that a period holds at most one opening for each `span` in it, and one
more (`Separated.length_nsmul_le`); and at every reading the gate opens, or an opening before it is
less than `span` ago (`exists_fire`).
-/

set_option autoImplicit false
set_option relaxedAutoImplicit false

namespace Kapua

namespace Pacing

variable {Time : Type} [AddCommGroup Time] [LinearOrder Time]

/-- The readings at which a gate opens that last opened at the given time. -/
def fires (span : Time) : Time → List Time → List Time
  | _, [] => []
  | last, now :: rest =>
    if span ≤ now - last then now :: fires span now rest else fires span last rest

/-- A later time is at least `span` after an earlier one. -/
def Separated (span : Time) (times : List Time) : Prop :=
  times.Pairwise fun earlier later ↦ span ≤ later - earlier

variable {span last now : Time} {readings : List Time}

section Ordered

variable [IsOrderedAddMonoid Time]

/-- Openings are at least `span` apart, and that long after the one from before. Assumes: a span
that is not negative. -/
theorem separated_fires (hspan : 0 ≤ span) : Separated span (last :: fires span last readings) := by
  induction readings generalizing last with
  | nil => exact List.pairwise_singleton _ _
  | cons now rest ih =>
    unfold fires
    split_ifs with hdue
    · have hlater : Separated span (now :: fires span now rest) := ih
      refine List.pairwise_cons.mpr ⟨fun later hmem ↦ ?_, hlater⟩
      obtain rfl | hmem := List.mem_cons.mp hmem
      · exact hdue
      · -- the span is only added to
        have hgap : span ≤ later - now := (List.pairwise_cons.mp hlater).1 later hmem
        calc span ≤ later - now := hgap
          _ ≤ later - now + (now - last) := le_add_of_nonneg_right (hspan.trans hdue)
          _ = later - last := sub_add_sub_cancel later now last
    · exact ih

/-- Times in a period of the given length that lie at least `span` apart are few. -/
theorem Separated.length_nsmul_le {times : List Time} (h : Separated span times)
    {start finish : Time} (hspan : 0 ≤ span) (horder : start ≤ finish)
    (hmem : ∀ time ∈ times, start ≤ time ∧ time ≤ finish) :
    times.length • span ≤ finish - start + span := by
  induction times generalizing start with
  | nil =>
    rw [List.length_nil, zero_nsmul]
    exact add_nonneg (sub_nonneg.mpr horder) hspan
  | cons first rest ih =>
    obtain ⟨hgap, hrest⟩ := List.pairwise_cons.mp h
    obtain ⟨hstart, hfinish⟩ := hmem first List.mem_cons_self
    rw [List.length_cons, succ_nsmul]
    refine add_le_add_left ?_ span
    cases rest with
    | nil =>
      rw [List.length_nil, zero_nsmul]
      exact sub_nonneg.mpr horder
    | cons second others =>
      -- the rest lies in the period that begins a span later
      have hlater : ∀ time ∈ second :: others, start + span ≤ time ∧ time ≤ finish :=
        fun time htime ↦ ⟨(add_le_add_left hstart span).trans
            (le_sub_iff_add_le'.mp (hgap time htime)),
          (hmem time (List.mem_cons_of_mem first htime)).2⟩
      have hroom : start + span ≤ finish :=
        (hlater second List.mem_cons_self).1.trans (hlater second List.mem_cons_self).2
      calc (second :: others).length • span ≤ finish - (start + span) + span :=
            ih hrest hroom hlater
        _ = finish - start := by abel

omit [IsOrderedAddMonoid Time] in
/-- At every reading the gate opens, or an opening before it is less than `span` ago. Assumes: the
readings do not go back. -/
theorem exists_fire (horder : (last :: readings).Pairwise (· ≤ ·)) (hnow : now ∈ readings) :
    now - last < span ∨ ∃ fired ∈ fires span last readings, fired ≤ now ∧
      (fired = now ∨ now - fired < span) := by
  induction readings generalizing last with
  | nil => cases hnow
  | cons first rest ih =>
    obtain ⟨hlast, hrest⟩ := List.pairwise_cons.mp horder
    unfold fires
    split_ifs with hdue
    · refine Or.inr ?_
      obtain rfl | hnow := List.mem_cons.mp hnow
      · exact ⟨now, List.mem_cons_self, le_refl now, Or.inl rfl⟩
      · obtain hrecent | ⟨fired, hfired, hbefore⟩ := ih hrest hnow
        · exact ⟨first, List.mem_cons_self, (List.pairwise_cons.mp hrest).1 now hnow,
            Or.inr hrecent⟩
        · exact ⟨fired, List.mem_cons_of_mem first hfired, hbefore⟩
    · obtain rfl | hnow := List.mem_cons.mp hnow
      · exact Or.inl (not_le.mp hdue)
      · refine ih (List.pairwise_cons.mpr ⟨fun time htime ↦ ?_, ?_⟩) hnow
        · exact hlast time (List.mem_cons_of_mem first htime)
        · exact (List.pairwise_cons.mp hrest).2

end Ordered

end Pacing

end Kapua
