import Mathlib.Order.Basic

/-!
# Simulations between labelled transition systems

A `System` has initial states and steps with labels. The labels are what can be seen of a run from
outside, so the label lists of the runs are the histories of the system. A `Simulation` answers
every step of one system with a step of the other one that has the same label, and therefore every
history of the first is a history of the second (`Simulation.isHistory`). A `HidingSimulation` does
the same for the steps whose labels are seen, and answers the others with no step.
-/

set_option autoImplicit false
set_option relaxedAutoImplicit false

namespace Sukari.Effects

structure System (σ ι : Type) where
  initial : σ → Prop
  step : ι → σ → σ → Prop

variable {σ τ ι : Type}

namespace System

variable (S : System σ ι)

/-- The second state is reached from the first one by steps with the labels, in order. -/
inductive Steps : List ι → σ → σ → Prop
  | refl (s : σ) : Steps [] s s
  | cons {label : ι} {later : List ι} {s s' s'' : σ} (first : S.step label s s')
      (rest : Steps later s' s'') : Steps (label :: later) s s''

def IsHistory (history : List ι) : Prop := ∃ s s', S.initial s ∧ S.Steps history s s'

variable {S}

theorem Steps.append {before after : List ι} {s s' s'' : σ} (h : S.Steps before s s')
    (h' : S.Steps after s' s'') : S.Steps (before ++ after) s s'' := by
  induction h with
  | refl s => exact h'
  | cons first _ ih => exact .cons first (ih h')

/-- The state after some of the steps. -/
theorem Steps.split {before after : List ι} {s s'' : σ} (h : S.Steps (before ++ after) s s'') :
    ∃ s', S.Steps before s s' ∧ S.Steps after s' s'' := by
  induction before generalizing s with
  | nil => exact ⟨s, .refl s, h⟩
  | cons label rest ih =>
    cases h with
    | cons first h =>
      obtain ⟨s', hbefore, hafter⟩ := ih h
      exact ⟨s', .cons first hbefore, hafter⟩

/-- What every step keeps, given the labels so far, holds at the end. -/
theorem Steps.invariant {P : List ι → σ → Prop} {history : List ι} {s s' : σ}
    (h : S.Steps history s s') {past : List ι} (hstart : P past s)
    (hstep : ∀ past label s s', label ∈ history → P past s → S.step label s s' →
      P (past ++ [label]) s') : P (past ++ history) s' := by
  induction h generalizing past with
  | refl s => rwa [List.append_nil]
  | cons first _ ih =>
    rw [List.append_cons]
    exact ih (hstep _ _ _ _ (List.mem_cons_self ..) hstart first) fun past label s s' hlabel ↦
      hstep past label s s' (List.mem_cons_of_mem _ hlabel)

end System

/-- The relation holds of initial states, and every step of `S` is answered by a step of `T` with
the same label. -/
structure Simulation (S : System σ ι) (T : System τ ι) (R : σ → τ → Prop) : Prop where
  initial : ∀ s, S.initial s → ∃ t, T.initial t ∧ R s t
  step : ∀ label s s' t, R s t → S.step label s s' → ∃ t', T.step label t t' ∧ R s' t'

namespace Simulation

variable {S : System σ ι} {T : System τ ι} {R : σ → τ → Prop} {history : List ι} {s s' : σ} {t : τ}

theorem steps (h : Simulation S T R) (hsteps : S.Steps history s s') (hrelated : R s t) :
    ∃ t', T.Steps history t t' ∧ R s' t' := by
  induction hsteps generalizing t with
  | refl s => exact ⟨t, .refl t, hrelated⟩
  | cons first _ ih =>
    obtain ⟨t₁, hfirst, hrelated₁⟩ := h.step _ _ _ _ hrelated first
    obtain ⟨t', hrest, hrelated'⟩ := ih hrelated₁
    exact ⟨t', .cons hfirst hrest, hrelated'⟩

theorem isHistory (h : Simulation S T R) (hhistory : S.IsHistory history) :
    T.IsHistory history := by
  obtain ⟨s, s', hinitial, hsteps⟩ := hhistory
  obtain ⟨t, ht, hrelated⟩ := h.initial s hinitial
  obtain ⟨t', hsteps', -⟩ := h.steps hsteps hrelated
  exact ⟨t, t', ht, hsteps'⟩

end Simulation

variable {κ : Type}

/-- A step with a label that is not seen is answered by no step. -/
structure HidingSimulation (S : System σ κ) (T : System τ ι) (seen : κ → Option ι)
    (R : σ → τ → Prop) : Prop where
  initial : ∀ s, S.initial s → ∃ t, T.initial t ∧ R s t
  shown : ∀ label label' s s' t, seen label = some label' → R s t → S.step label s s' →
    ∃ t', T.step label' t t' ∧ R s' t'
  hidden : ∀ label s s' t, seen label = none → R s t → S.step label s s' → R s' t

namespace HidingSimulation

variable {S : System σ κ} {T : System τ ι} {seen : κ → Option ι} {R : σ → τ → Prop}
  {history : List κ} {s s' : σ} {t : τ}

theorem steps (h : HidingSimulation S T seen R) (hsteps : S.Steps history s s') (hrelated : R s t) :
    ∃ t', T.Steps (history.filterMap seen) t t' ∧ R s' t' := by
  induction hsteps generalizing t with
  | refl s => exact ⟨t, .refl t, hrelated⟩
  | @cons label later _ _ _ first _ ih =>
    cases hseen : seen label with
    | none =>
      rw [List.filterMap_cons_none hseen]
      exact ih (h.hidden _ _ _ _ hseen hrelated first)
    | some label' =>
      obtain ⟨t₁, hfirst, hrelated₁⟩ := h.shown _ _ _ _ _ hseen hrelated first
      obtain ⟨t', hrest, hrelated'⟩ := ih hrelated₁
      rw [List.filterMap_cons_some hseen]
      exact ⟨t', .cons hfirst hrest, hrelated'⟩

theorem isHistory (h : HidingSimulation S T seen R) (hhistory : S.IsHistory history) :
    T.IsHistory (history.filterMap seen) := by
  obtain ⟨s, s', hinitial, hsteps⟩ := hhistory
  obtain ⟨t, ht, hrelated⟩ := h.initial s hinitial
  obtain ⟨t', hsteps', -⟩ := h.steps hsteps hrelated
  exact ⟨t, t', ht, hsteps'⟩

end HidingSimulation

end Sukari.Effects
