import Sukari.Effects.Refinement

/-!
# Programs that may fail

The rules of `Machine.Sees` and of `Refinement.Refines` for the sequential composition of programs
that may fail, with and without a state of their own: the second program runs when the first one
succeeds, and a failure is passed on.
-/

set_option autoImplicit false
set_option relaxedAutoImplicit false

namespace Sukari.Effects

variable {S : Signature} {α β γ ε σ τ : Type} {M : Machine S σ}

theorem run_bindExcept (x : ExceptT ε (Program S) α) (f : α → ExceptT ε (Program S) β) :
    (x >>= f).run = x.run >>= fun result ↦ match result with
      | .ok value => (f value).run
      | .error error => .done (.error error) := by
  rw [ExceptT.run_bind]
  congr 1
  funext result
  cases result <;> rfl

theorem Machine.run_bindExcept_ok {x : ExceptT ε (Program S) α} {f : α → ExceptT ε (Program S) β}
    {s s' : σ} {value : α} (h : M.run x.run s = (.ok value, s')) :
    M.run (x >>= f).run s = M.run (f value).run s' := by
  rw [run_bindExcept, Machine.run_bind, h]

theorem Machine.run_bindExcept_error {x : ExceptT ε (Program S) α}
    {f : α → ExceptT ε (Program S) β} {s s' : σ} {error : ε}
    (h : M.run x.run s = (.error error, s')) : M.run (x >>= f).run s = (.error error, s') := by
  rw [run_bindExcept, Machine.run_bind, h]
  rfl

theorem Machine.asksLast_bindExcept {world : ℕ → σ} {op : S.Op} {t middle u : ℕ} {value : α}
    {x : ExceptT ε (Program S) α} {f : α → ExceptT ε (Program S) β}
    (h : M.observe world x.run t = (.ok value, middle))
    (hlast : M.AsksLast world op u (f value).run middle) :
    M.AsksLast world op u (x >>= f).run t := by
  rw [run_bindExcept]
  exact Machine.asksLast_bind M h hlast

/-- The request is not made again when the second program never makes it. -/
theorem Machine.AsksLast.bindExcept {world : ℕ → σ} {op : S.Op} {t u : ℕ}
    {x : ExceptT ε (Program S) α} {f : α → ExceptT ε (Program S) β}
    (h : M.AsksLast world op u x.run t)
    (hnever : ∀ value middle other, ¬ M.Asks world op other (f value).run middle) :
    M.AsksLast world op u (x >>= f).run t where
  asks := by
    rw [run_bindExcept, Machine.asks_bind]
    exact .inl h.asks
  last other hother := by
    rw [run_bindExcept, Machine.asks_bind] at hother
    rcases hother with hfirst | hsecond
    · exact h.last other hfirst
    · exfalso
      cases hresult : (M.observe world x.run t).1 with
      | ok value =>
        rw [hresult] at hsecond
        exact hnever value _ other hsecond
      | error error =>
        rw [hresult] at hsecond
        exact hsecond

/-- A method is a program for every value of its own state. -/
theorem run_bindMethod (x : ExceptT ε (StateT τ (Program S)) α)
    (f : α → ExceptT ε (StateT τ (Program S)) β) (m : τ) :
    ((x >>= f).run m : Program S (Except ε β × τ)) = (x.run m) >>= fun out ↦ match out.1 with
      | .ok value => (f value).run out.2
      | .error error => .done (.error error, out.2) := by
  rw [ExceptT.run_bind]
  change StateT.run (x.run >>= _) m = _
  rw [StateT.run_bind]
  congr 1
  funext ⟨result, m'⟩
  cases result <;> rfl

theorem Machine.run_bindMethod_ok {x : ExceptT ε (StateT τ (Program S)) α}
    {f : α → ExceptT ε (StateT τ (Program S)) β} {m m' : τ} {s s' : σ} {value : α}
    (h : M.run (x.run m) s = ((.ok value, m'), s')) :
    M.run ((x >>= f).run m) s = M.run ((f value).run m') s' := by
  rw [run_bindMethod, Machine.run_bind, h]

theorem Machine.run_bindMethod_error {x : ExceptT ε (StateT τ (Program S)) α}
    {f : α → ExceptT ε (StateT τ (Program S)) β} {m m' : τ} {s s' : σ} {error : ε}
    (h : M.run (x.run m) s = ((.error error, m'), s')) :
    M.run ((x >>= f).run m) s = ((.error error, m'), s') := by
  rw [run_bindMethod, Machine.run_bind, h]
  rfl

theorem Machine.Sees.bindExcept {world : ℕ → σ} {x : ExceptT ε (Program S) α}
    {f : α → ExceptT ε (Program S) β} {Q : Except ε β → ℕ → Prop} {t : ℕ}
    (h : M.Sees world (fun result t ↦ match result with
      | .ok value => M.Sees world Q (f value).run t
      | .error error => Q (.error error) t) x.run t) :
    M.Sees world Q (x >>= f).run t := by
  rw [run_bindExcept]
  refine .bind (h.mono fun result t hresult ↦ ?_)
  cases result <;> exact hresult

namespace Refinement.Refines

variable {R : Refinement M γ} {g : γ} {s : σ}

theorem bindExcept {x : ExceptT ε (Program S) α} {f : α → ExceptT ε (Program S) β}
    {Q : Except ε β → γ → σ → Prop}
    (h : R.Refines (fun result g s ↦ match result with
      | .ok value => R.Refines Q (f value).run g s
      | .error error => Q (.error error) g s) x.run g s) :
    R.Refines Q (x >>= f).run g s := by
  rw [run_bindExcept]
  refine .bind (h.mono fun result g s hresult ↦ ?_)
  cases result <;> exact hresult

theorem bindMethod {x : ExceptT ε (StateT τ (Program S)) α}
    {f : α → ExceptT ε (StateT τ (Program S)) β} {Q : Except ε β × τ → γ → σ → Prop} {m : τ}
    (h : R.Refines (fun out g s ↦ match out.1 with
      | .ok value => R.Refines Q ((f value).run out.2) g s
      | .error error => Q (.error error, out.2) g s) (x.run m) g s) :
    R.Refines Q ((x >>= f).run m) g s := by
  rw [run_bindMethod]
  refine .bind (h.mono fun out g s hout ↦ ?_)
  obtain ⟨result, m'⟩ := out
  cases result <;> exact hout

end Refinement.Refines

end Sukari.Effects
