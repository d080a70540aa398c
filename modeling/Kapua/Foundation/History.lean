import Mathlib.Data.List.Induction

/-!
# What the latest event of a history says

`Since Good Bad history` says that some event of a history was good and that no bad one came after
it. It is the law of everything a state remembers of its history: a step either starts the memory
over, or ends it, or leaves it (`since_snoc`).
-/

set_option autoImplicit false
set_option relaxedAutoImplicit false

namespace Kapua

variable {Event : Type}

/-- Some event was good, and none after it was bad. The history is in the order of time. -/
def Since (Good Bad : Event → Prop) (history : List Event) : Prop :=
  ∃ earlier event later, history = earlier ++ event :: later ∧ Good event ∧
    ∀ other ∈ later, ¬ Bad other

variable {Good Bad : Event → Prop}

@[simp] theorem not_since_nil : ¬ Since Good Bad [] := by
  rintro ⟨earlier, event, later, hhistory, -, -⟩
  simp at hhistory

/-- What happened since then also happened under weaker demands. -/
theorem Since.mono {Good' Bad' : Event → Prop} {history : List Event}
    (h : Since Good Bad history) (hgood : ∀ event, Good event → Good' event)
    (hbad : ∀ event, Bad' event → Bad event) : Since Good' Bad' history := by
  obtain ⟨earlier, event, later, hhistory, hevent, hlater⟩ := h
  exact ⟨earlier, event, later, hhistory, hgood event hevent,
    fun other hother hother' ↦ hlater other hother (hbad other hother')⟩

/-- The latest event decides, or the events before it do. -/
theorem since_snoc {history : List Event} {event : Event} :
    Since Good Bad (history ++ [event]) ↔ Good event ∨ (Since Good Bad history ∧ ¬ Bad event) := by
  constructor
  · rintro ⟨earlier, first, later, hhistory, hgood, hlater⟩
    obtain rfl | ⟨later, last, rfl⟩ := later.eq_nil_or_concat
    · obtain ⟨-, hlast⟩ := List.append_inj' hhistory rfl
      rw [List.singleton_inj] at hlast
      exact Or.inl (hlast ▸ hgood)
    · rw [List.concat_eq_append] at hhistory hlater
      rw [← List.cons_append, ← List.append_assoc] at hhistory
      obtain ⟨hfront, hlast⟩ := List.append_inj' hhistory rfl
      rw [List.singleton_inj] at hlast
      refine Or.inr ⟨⟨earlier, first, later, hfront, hgood, fun other hother ↦ ?_⟩, ?_⟩
      · exact hlater other (List.mem_append_left _ hother)
      · exact hlast ▸ hlater last (List.mem_append_right _ (List.mem_singleton_self last))
  · rintro (hgood | ⟨⟨earlier, first, later, rfl, hgood, hlater⟩, hbad⟩)
    · exact ⟨history, event, [], rfl, hgood, fun other hother ↦ absurd hother List.not_mem_nil⟩
    · refine ⟨earlier, first, later ++ [event], by simp, hgood, fun other hother ↦ ?_⟩
      obtain hother | hother := List.mem_append.mp hother
      · exact hlater other hother
      · rwa [List.mem_singleton.mp hother]

end Kapua
