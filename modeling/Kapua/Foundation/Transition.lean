import Mathlib.Data.List.Forall2

/-!
# Runs of labelled transition relations

`Run step` is the closure of a transition relation over lists of labels. Four rules are proved for
it, each an induction over the run that no later proof repeats: an invariant of single steps holds
at the end of every run (`Run.invariant`), a simulation of single steps is one of runs
(`Run.simulate`), a property that single steps keep exactly under a condition holds after exactly
the runs whose steps all meet it (`Run.property_iff`), and `Unwinding.similar`, the unwinding rule
of noninterference. The last one compares two runs whose labels agree only where they concern an
observer. If a step with any other label leaves the observer's view alone, and steps with the same
label of concern take equal views to equal views, then the runs end in equal views.
-/

set_option autoImplicit false
set_option relaxedAutoImplicit false

namespace Kapua

variable {State Label : Type}

/-- The runs of a transition relation over a list of labels. -/
inductive Run (step : State → Label → State → Prop) : State → List Label → State → Prop
  | nil (s : State) : Run step s [] s
  | cons {s next t : State} {label : Label} {labels : List Label} (hstep : step s label next)
      (hrun : Run step next labels t) : Run step s (label :: labels) t

namespace Run

variable {step : State → Label → State → Prop} {s t : State} {labels : List Label}

/-- A run over a concatenation passes through a state between its parts. -/
theorem split {front back : List Label} (h : Run step s (front ++ back) t) :
    ∃ middle, Run step s front middle ∧ Run step middle back t := by
  induction front generalizing s with
  | nil => exact ⟨s, .nil s, h⟩
  | cons label front ih =>
    cases h with
    | cons hstep hrun =>
      obtain ⟨middle, hfront, hback⟩ := ih hrun
      exact ⟨middle, .cons hstep hfront, hback⟩

/-- One run after another. -/
theorem append {front back : List Label} {middle : State} (hfront : Run step s front middle)
    (hback : Run step middle back t) : Run step s (front ++ back) t := by
  induction hfront with
  | nil => exact hback
  | cons hfirst _ ih => exact .cons hfirst (ih hback)

/-- What every step preserves holds at the end of a run. Assumes: it holds at the start. -/
theorem invariant (Invariant : State → Prop)
    (hstep : ∀ {s label t}, Invariant s → step s label t → Invariant t)
    (hrun : Run step s labels t) (hs : Invariant s) : Invariant t := by
  induction hrun with
  | nil => exact hs
  | cons hfirst _ ih => exact ih (hstep hs hfirst)

/-- An invariant of a state and of the labels of the run that has led to it holds at the end of a
run. Assumes: it holds at the start, and every step preserves it. -/
theorem invariant_labels (Invariant : List Label → State → Prop)
    (hstep : ∀ {past s label t}, Invariant past s → step s label t → Invariant (past ++ [label]) t)
    {past : List Label} (hrun : Run step s labels t) (hs : Invariant past s) :
    Invariant (past ++ labels) t := by
  induction hrun generalizing past with
  | nil => simpa using hs
  | @cons _ _ _ label labels hfirst _ ih =>
    have hnext := ih (hstep hs hfirst)
    rwa [List.append_assoc] at hnext

/-- A relation that every step can follow is one that every run can follow. -/
theorem simulate {State' Label' : Type} {step' : State' → Label' → State' → Prop}
    (Related : State → State' → Prop)
    (hstep : ∀ {s label t s'}, Related s s' → step s label t →
      ∃ label' t', step' s' label' t' ∧ Related t t')
    (hrun : Run step s labels t) {s' : State'} (hs : Related s s') :
    ∃ labels' t', Run step' s' labels' t' ∧ Related t t' := by
  induction hrun generalizing s' with
  | nil => exact ⟨[], s', .nil s', hs⟩
  | cons hfirst _ ih =>
    obtain ⟨label', next', hfirst', hnext⟩ := hstep hs hfirst
    obtain ⟨labels', t', hrest', ht⟩ := ih hnext
    exact ⟨label' :: labels', t', .cons hfirst' hrest', ht⟩

/-- The same for a relation whose steps are followed by runs, which can be empty. -/
theorem simulate_runs {State' Label' : Type} {step' : State' → Label' → State' → Prop}
    (Related : State → State' → Prop)
    (hstep : ∀ {s label t s'}, Related s s' → step s label t →
      ∃ labels' t', Run step' s' labels' t' ∧ Related t t')
    (hrun : Run step s labels t) {s' : State'} (hs : Related s s') :
    ∃ labels' t', Run step' s' labels' t' ∧ Related t t' := by
  induction hrun generalizing s' with
  | nil => exact ⟨[], s', .nil s', hs⟩
  | cons hfirst _ ih =>
    obtain ⟨front', next', hfront', hnext⟩ := hstep hs hfirst
    obtain ⟨back', t', hback', ht⟩ := ih hnext
    exact ⟨front' ++ back', t', hfront'.append hback', ht⟩

/-- A run of one relation is a run of any that contains it. -/
theorem mono {step' : State → Label → State → Prop}
    (hstep : ∀ {s label t}, step s label t → step' s label t) (hrun : Run step s labels t) :
    Run step' s labels t := by
  induction hrun with
  | nil s => exact .nil s
  | cons hfirst _ ih => exact .cons (hstep hfirst) ih

/-- Folding an executable step over the labels is a run. -/
theorem of_foldlM {next : State → Label → Option State} (hfold : labels.foldlM next s = some t) :
    Run (fun s label t ↦ next s label = some t) s labels t := by
  induction labels generalizing s with
  | nil =>
    obtain rfl : s = t := by simpa using hfold
    exact .nil s
  | cons label labels ih =>
    obtain ⟨middle, hfirst, hrest⟩ := Option.bind_eq_some_iff.mp hfold
    exact .cons hfirst (ih hrest)

/-- A run over labels that all have a property. -/
theorem restrict {Good : Label → Prop} (hrun : Run step s labels t)
    (hgood : ∀ label ∈ labels, Good label) :
    Run (fun s label t ↦ Good label ∧ step s label t) s labels t := by
  induction hrun with
  | nil s => exact .nil s
  | cons hfirst _ ih =>
    obtain ⟨hhead, htail⟩ := List.forall_mem_cons.mp hgood
    exact .cons ⟨hhead, hfirst⟩ (ih htail)

/-- A property that a step keeps exactly under a condition, and never restores, holds at the end of
a run exactly when it holds at the start and every step meets the condition. -/
theorem property_iff (Invariant Property : State → Prop) (Condition : State → Label → Prop)
    (hgood : ∀ {s label t}, Invariant s → step s label t → Invariant t)
    (hstep : ∀ {s label t}, Invariant s → step s label t →
      (Property t ↔ Property s ∧ Condition s label))
    (hrun : Run step s labels t) (hs : Invariant s) : Property t ↔
      Property s ∧ Run (fun s label t ↦ step s label t ∧ Condition s label) s labels t := by
  constructor
  · intro ht
    induction hrun with
    | nil s => exact ⟨ht, .nil s⟩
    | cons hfirst _ ih =>
      obtain ⟨hnext, hrest⟩ := ih (hgood hs hfirst) ht
      obtain ⟨hproperty, hcondition⟩ := (hstep hs hfirst).mp hnext
      exact ⟨hproperty, .cons ⟨hfirst, hcondition⟩ hrest⟩
  · rintro ⟨hproperty, hall⟩
    have hboth := hall.invariant (fun s ↦ Invariant s ∧ Property s)
      (fun h hnext ↦ ⟨hgood h.1 hnext.1, (hstep h.1 hnext.1).mpr ⟨h.2, hnext.2⟩⟩) ⟨hs, hproperty⟩
    exact hboth.2

end Run

/-! ### Noninterference -/

/-- The unwinding conditions for an observer that sees a state up to `Similar` and whom the labels
in `Concerns` concern. `Same` says which labels look the same to the observer, and `Good` is an
invariant of the states. -/
structure Unwinding (step : State → Label → State → Prop) (Good : State → Prop)
    (Similar : State → State → Prop) (Concerns : Label → Prop) (Same : Label → Label → Prop) :
    Prop where
  equivalence : Equivalence Similar
  good : ∀ {s label t}, Good s → step s label t → Good t
  frame : ∀ {s label t}, Good s → ¬ Concerns label → step s label t → Similar s t
  consistent : ∀ {s label t s' label' t'}, Good s → Good s' → Similar s s' → Concerns label →
    Concerns label' → Same label label' → step s label t → step s' label' t' → Similar t t'

namespace Unwinding

variable {step : State → Label → State → Prop} {Good : State → Prop}
  {Similar : State → State → Prop} {Concerns : Label → Prop} {Same : Label → Label → Prop}
  (h : Unwinding step Good Similar Concerns Same)

include h

/-- A run over labels that do not concern the observer leaves the view. -/
theorem similar_of_frame {s t : State} {labels : List Label} (hrun : Run step s labels t)
    (hs : Good s) (hlabels : ∀ label ∈ labels, ¬ Concerns label) : Good t ∧ Similar s t := by
  induction hrun with
  | nil s => exact ⟨hs, h.equivalence.refl s⟩
  | cons hstep _ ih =>
    have hnext := h.frame hs (hlabels _ (List.mem_cons_self ..)) hstep
    obtain ⟨ht, hrest⟩ := ih (h.good hs hstep)
      fun label hlabel ↦ hlabels label (List.mem_cons_of_mem _ hlabel)
    exact ⟨ht, h.equivalence.trans hnext hrest⟩

/-- Two runs from equal views, over lists of labels whose sublists of concern look the same, end in
equal views. -/
theorem similar [DecidablePred Concerns] {s t s' t' : State} {labels labels' : List Label}
    (hrun : Run step s labels t) (hrun' : Run step s' labels' t') (hs : Good s) (hs' : Good s')
    (hsimilar : Similar s s') (hsame : List.Forall₂ Same (labels.filter (Concerns ·))
      (labels'.filter (Concerns ·))) : Similar t t' := by
  induction hrun generalizing s' labels' with
  | nil s =>
    have hnone : ∀ label ∈ labels', ¬ Concerns label := by
      intro label hlabel hconcerns
      have hempty : labels'.filter (Concerns ·) = [] := List.forall₂_nil_left_iff.mp hsame
      have hmem : label ∈ labels'.filter (Concerns ·) := by simpa using ⟨hlabel, hconcerns⟩
      simp [hempty] at hmem
    exact h.equivalence.trans hsimilar (h.similar_of_frame hrun' hs' hnone).2
  | @cons s next t label labels hstep hrun ih =>
    by_cases hconcerns : Concerns label
    · -- the other run reaches its matching label after steps that do not concern the observer
      rw [List.filter_cons_of_pos (by simpa using hconcerns)] at hsame
      obtain ⟨label', rest, hhead, htail, hfilter⟩ := List.forall₂_cons_left_iff.mp hsame
      obtain ⟨front, back, rfl, hfront, hlabel', rfl⟩ := List.filter_eq_cons_iff.mp hfilter
      obtain ⟨middle, hbefore, hafter⟩ := hrun'.split
      obtain ⟨hmiddle, hleft⟩ := h.similar_of_frame hbefore hs'
        fun other hother ↦ by simpa using hfront other hother
      cases hafter with
      | cons hstep' hrest =>
        refine ih hrest (h.good hs hstep) (h.good hmiddle hstep') ?_ htail
        exact h.consistent hs hmiddle (h.equivalence.trans hsimilar hleft) hconcerns
          (by simpa using hlabel') hhead hstep hstep'
    · rw [List.filter_cons_of_neg (by simpa using hconcerns)] at hsame
      have hleft := h.equivalence.symm (h.frame hs hconcerns hstep)
      exact ih hrun' (h.good hs hstep) hs' (h.equivalence.trans hleft hsimilar) hsame

end Unwinding

end Kapua
