import Sukari.Effects.Program

/-!
# Bisimulation of machine states

States that differ only in what no reply depends on. A program cannot tell such states apart: it
makes the same requests, ends with the same value, and leaves states that again differ only in this
way (`Bisimulation.run`, `Bisimulation.trace`, `Bisimulation.observe`).
-/

set_option autoImplicit false
set_option relaxedAutoImplicit false

namespace Sukari.Effects

variable {S : Signature} {α σ : Type}

/-- Related states give the same replies, and requests keep them related. -/
structure Bisimulation (M : Machine S σ) (R : σ → σ → Prop) : Prop where
  reply : ∀ op s s', R s s' → M.reply op s = M.reply op s'
  after : ∀ op s s', R s s' → R (M.after op s) (M.after op s')
  during : ∀ op s s', R s s' → List.Forall₂ R (M.during op s) (M.during op s')

namespace Bisimulation

variable {M : Machine S σ} {R : σ → σ → Prop}

theorem run (h : Bisimulation M R) (p : Program S α) {s s' : σ} (hrelated : R s s') :
    (M.run p s).1 = (M.run p s').1 ∧ R (M.run p s).2 (M.run p s').2 := by
  induction p generalizing s s' with
  | done value => exact ⟨rfl, hrelated⟩
  | request op next ih =>
    simp only [Machine.run_request, ← h.reply op s s' hrelated]
    exact ih _ (h.after op s s' hrelated)

theorem performed (h : Bisimulation M R) (p : Program S α) {s s' : σ} (hrelated : R s s') :
    M.performed p s = M.performed p s' := by
  induction p generalizing s s' with
  | done value => rfl
  | request op next ih =>
    simp only [Machine.performed, ← h.reply op s s' hrelated]
    rw [ih _ (h.after op s s' hrelated)]

/-- The states on the way are related, one by one. -/
theorem trace (h : Bisimulation M R) (p : Program S α) (past : List (Exchange S)) {s s' : σ}
    (hrelated : R s s') : List.Forall₂ (fun visit visit' ↦ visit.past = visit'.past ∧
      R visit.state visit'.state) (M.trace past p s) (M.trace past p s') := by
  induction p generalizing past s s' with
  | done value => exact .nil
  | request op next ih =>
    have hafter := h.after op s s' hrelated
    simp only [Machine.trace, ← h.reply op s s' hrelated]
    refine List.rel_append ?_ (.cons ⟨rfl, hafter⟩ (ih _ _ hafter))
    rw [List.forall₂_map_left_iff, List.forall₂_map_right_iff]
    exact (h.during op s s' hrelated).imp fun _ _ hstates ↦ ⟨rfl, hstates⟩

/-- Every state on the way has a related one, after the same requests. -/
theorem visit (h : Bisimulation M R) {p : Program S α} {past : List (Exchange S)} {s s' : σ}
    (hrelated : R s s') {visit : Visit S σ} (hvisit : visit ∈ M.trace past p s) :
    ∃ visit' ∈ M.trace past p s', visit.past = visit'.past ∧ R visit.state visit'.state := by
  have hstates := h.trace p past hrelated
  generalize M.trace past p s = visits, M.trace past p s' = visits' at hvisit hstates ⊢
  induction hstates with
  | nil => nomatch hvisit
  | @cons first first' _ _ hfirst _ ih =>
    rcases List.mem_cons.mp hvisit with rfl | hvisit
    · exact ⟨first', by simp, hfirst⟩
    · obtain ⟨visit', hvisit', hpast⟩ := ih hvisit
      exact ⟨visit', by simp [hvisit'], hpast⟩

/-- A state in the middle of a request has a related one. -/
theorem exists_during (h : Bisimulation M R) {s s' : σ} (hrelated : R s s') {op : S.Op} {t : σ}
    (hmem : t ∈ M.during op s) : ∃ t' ∈ M.during op s', R t t' := by
  obtain ⟨hlength, hstates⟩ := List.forall₂_iff_get.mp (h.during op s s' hrelated)
  obtain ⟨i, hi, rfl⟩ := List.mem_iff_getElem.mp hmem
  have hi' : i < (M.during op s').length := hlength ▸ hi
  exact ⟨_, List.getElem_mem hi', hstates i hi hi'⟩

theorem observe (h : Bisimulation M R) {world world' : ℕ → σ}
    (hrelated : ∀ t, R (world t) (world' t)) (p : Program S α) (t : ℕ) :
    M.observe world p t = M.observe world' p t := by
  induction p generalizing t with
  | done value => rfl
  | request op next ih =>
    simp only [Machine.observe, ← h.reply op _ _ (hrelated t)]
    exact ih _ _

theorem asks (h : Bisimulation M R) {world world' : ℕ → σ} (hrelated : ∀ t, R (world t) (world' t))
    (op : S.Op) (u : ℕ) (p : Program S α) (t : ℕ) :
    M.Asks world op u p t ↔ M.Asks world' op u p t := by
  induction p generalizing t with
  | done value => exact Iff.rfl
  | request first next ih =>
    simp only [Machine.Asks, ← h.reply first _ _ (hrelated t), ih]

theorem asksLast (h : Bisimulation M R) {world world' : ℕ → σ}
    (hrelated : ∀ t, R (world t) (world' t)) {op : S.Op} {u : ℕ} {p : Program S α} {t : ℕ}
    (hlast : M.AsksLast world op u p t) : M.AsksLast world' op u p t where
  asks := (h.asks hrelated op u p t).mp hlast.asks
  last other hother := hlast.last other ((h.asks hrelated op other p t).mpr hother)

/-- What a program sees does not depend on which of the related states answers. -/
theorem sees (h : Bisimulation M R) {world world' : ℕ → σ} (hrelated : ∀ t, R (world t) (world' t))
    {Q : α → ℕ → Prop} {p : Program S α} {t : ℕ} (hsees : M.Sees world Q p t) :
    M.Sees world' Q p t := by
  induction p generalizing t with
  | done value => exact hsees
  | request op next ih =>
    refine ⟨hsees.1, ih _ ?_⟩
    rw [← h.reply op _ _ (hrelated t)]
    exact hsees.2

end Bisimulation

end Sukari.Effects
