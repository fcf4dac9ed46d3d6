import Sukari.Error
import Sukari.TreeMap

/-!
# Fallible folds with resets and with keys

A fold whose step ignores the state at some items, the resets, depends on the last reset and the
items after it only; `sinceLast` is that part of a list. A fold that keeps one state for every key
is, at each key, the fold over the items with that key (`keyedFold_eq_ok`), and it succeeds when all
of these folds do (`keyedFold_succeeds`).
-/

set_option autoImplicit false
set_option relaxedAutoImplicit false

namespace Sukari

variable {ι σ κ ε : Type}

/-! ### Resets -/

/-- The items from the last one that satisfies `p` on, or all items if none does. -/
def sinceLast (p : ι → Bool) : List ι → List ι
  | [] => []
  | item :: rest => if rest.any p then sinceLast p rest else item :: rest

theorem sinceLast_append_cons {p : ι → Bool} {before after : List ι} {item : ι}
    (hitem : p item = true) (hafter : ∀ other ∈ after, p other = false) :
    sinceLast p (before ++ item :: after) = item :: after := by
  induction before with
  | nil =>
    have hany : after.any p = false := by simpa using hafter
    simp [sinceLast, hany]
  | cons first rest ih =>
    have hany : (rest ++ item :: after).any p = true := by simp [hitem]
    simp [sinceLast, ih, hitem]

/-- A list with a reset ends with its last reset and the items after it. -/
theorem exists_last {p : ι → Bool} {items : List ι} (h : ∃ item ∈ items, p item = true) :
    ∃ before item after, items = before ++ item :: after ∧ p item = true ∧
      ∀ other ∈ after, p other = false := by
  induction items with
  | nil => simp at h
  | cons first rest ih =>
    by_cases hrest : ∃ item ∈ rest, p item = true
    · obtain ⟨before, item, after, rfl, hitem, hafter⟩ := ih hrest
      exact ⟨first :: before, item, after, rfl, hitem, hafter⟩
    · refine ⟨[], first, rest, rfl, ?_, fun other hother ↦ ?_⟩
      · obtain ⟨item, hmem, hitem⟩ := h
        rcases List.mem_cons.mp hmem with rfl | hmem
        · exact hitem
        · exact absurd ⟨item, hmem, hitem⟩ hrest
      · by_contra hp
        exact hrest ⟨other, hother, by simpa using hp⟩

/-- The step ignores the state at the items that satisfy `p`. -/
def Resets (p : ι → Bool) (step : σ → ι → Except ε σ) : Prop :=
  ∀ item, p item = true → ∀ state state', step state item = step state' item

/-- What comes before a reset matters only in so far as it fails. -/
theorem Resets.foldlM_eq {p : ι → Bool} {step : σ → ι → Except ε σ} (h : Resets p step)
    {before after : List ι} {item : ι} (hitem : p item = true) {state result : σ}
    (hfold : (before ++ item :: after).foldlM step state = .ok result) (state' : σ) :
    (item :: after).foldlM step state' = .ok result := by
  rw [List.foldlM_append] at hfold
  cases hbefore : before.foldlM step state with
  | error error => simp [hbefore, bind, Except.bind] at hfold
  | ok middle =>
    rw [hbefore] at hfold
    rw [← hfold, List.foldlM_cons, h item hitem state' middle]
    rfl

/-! ### Folds by key -/

variable [Ord κ] [Std.TransOrd κ] [Std.LawfulEqOrd κ] [DecidableEq κ]

/-- One step of a fold that keeps a state for every key. -/
def keyedStep (key : ι → κ) (step : σ → ι → Except ε σ) (start : σ)
    (states : Std.ExtTreeMap κ σ) (item : ι) : Except ε (Std.ExtTreeMap κ σ) := do
  let state ← step (states[key item]?.getD start) item
  return states.insert (key item) state

variable {key : ι → κ} {step : σ → ι → Except ε σ} {start : σ}

theorem keyedFold_eq_ok {items : List ι} {states states' : Std.ExtTreeMap κ σ}
    (h : items.foldlM (keyedStep key step start) states = .ok states') (k : κ) :
    (items.filter (key · = k)).foldlM step (states[k]?.getD start) =
      .ok (states'[k]?.getD start) := by
  induction items generalizing states with
  | nil =>
    have hstates : states = states' := Except.ok.inj h
    simp [hstates, pure, Except.pure]
  | cons item rest ih =>
    rw [List.foldlM_cons] at h
    cases hstep : step (states[key item]?.getD start) item with
    | error error => simp [keyedStep, hstep, bind, Except.bind] at h
    | ok state =>
      simp only [keyedStep, hstep, bind, Except.bind, pure, Except.pure] at h
      have hrest := ih h
      rw [Std.ExtTreeMap.getElem?_insert] at hrest
      by_cases hkey : key item = k
      · subst hkey
        rw [List.filter_cons_of_pos (by simp), List.foldlM_cons, hstep]
        simpa [bind, Except.bind] using hrest
      · rw [List.filter_cons_of_neg (by simpa using hkey)]
        simpa [hkey] using hrest

theorem keyedFold_succeeds {items : List ι} {states : Std.ExtTreeMap κ σ}
    (h : ∀ k, Succeeds ((items.filter (key · = k)).foldlM step (states[k]?.getD start))) :
    Succeeds (items.foldlM (keyedStep key step start) states) := by
  induction items generalizing states with
  | nil => trivial
  | cons item rest ih =>
    have hitem := h (key item)
    rw [List.filter_cons_of_pos (by simp), List.foldlM_cons] at hitem
    rw [List.foldlM_cons]
    cases hstep : step (states[key item]?.getD start) item with
    | error error => simp [hstep, bind, Except.bind, Succeeds] at hitem
    | ok state =>
      rw [hstep] at hitem
      simp only [keyedStep, hstep, bind, Except.bind, pure, Except.pure]
      refine ih fun k ↦ ?_
      rw [Std.ExtTreeMap.getElem?_insert]
      by_cases hkey : key item = k
      · subst hkey
        simpa [bind, Except.bind] using hitem
      · have hk := h k
        rw [List.filter_cons_of_neg (by simpa using hkey)] at hk
        simpa [hkey] using hk

end Sukari
