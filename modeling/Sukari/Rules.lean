import Sukari.Ledger

/-!
# Rules for the methods of the storage code

One rule for each building block of a method: a request, a read of the state of the method, an
update of it, an early return. Together with the rules for sequential composition they reduce a
method to its requests, for any refinement of the storage directory.
-/

set_option autoImplicit false
set_option relaxedAutoImplicit false

namespace Sukari

open Effects

variable {N : Noraft} {α γ σ : Type} {R : Refinement directory γ} {g : γ} {fs : Fs} {s : σ}

/-! ### Functions -/

theorem refines_io {op : FsOp} {Q : Except IoError op.Reply → γ → Fs → Prop} (g' : γ)
    (hduring : ∀ fs' ∈ Fs.during op fs, R.holds g fs')
    (hstep : R.step ⟨op, Fs.reply op fs⟩ g g') (hholds : R.holds g' (Fs.after op fs))
    (h : Q (.ok (Fs.reply op fs)) g' (Fs.after op fs)) : R.Refines Q (io op).run g fs :=
  ⟨hduring, g', hstep, hholds, h⟩

/-- A function that only asks. -/
theorem refines_sees {action : IoM α} {Q : Except IoError α → ℕ → Prop} {t : ℕ}
    {ledger : Ledger N} (hholds : ledger.Holds fs)
    (h : directory.Sees (fun _ ↦ fs) Q action.run t) :
    (storage N).Refines (fun result ledger' fs' ↦ ledger' = ledger ∧ fs' = fs ∧ ∃ t, Q result t)
      action.run ledger fs :=
  .of_sees step_of_inquiry hholds h

theorem refines_liftExcept {result : Except IoError α} {Q : Except IoError α → γ → Fs → Prop}
    (h : Q result g fs) : R.Refines Q (liftM result : IoM α).run g fs := by
  cases result <;> exact h

theorem refines_failIfExcept {condition : Prop} [Decidable condition] {error : IoError}
    {Q : Except IoError Unit → γ → Fs → Prop}
    (hfails : condition → Q (.error error) g fs) (h : ¬ condition → Q (.ok ()) g fs) :
    R.Refines Q (failIf condition error : IoM Unit).run g fs := by
  unfold failIf
  split
  · next hcondition => exact hfails hcondition
  · next hcondition => exact h hcondition

theorem refines_onlyIfExcept {condition : Prop} [Decidable condition] {action : IoM Unit}
    {Q : Except IoError Unit → γ → Fs → Prop}
    (haction : condition → R.Refines Q action.run g fs)
    (h : ¬ condition → Q (.ok ()) g fs) :
    R.Refines Q (onlyIf condition action).run g fs := by
  unfold onlyIf
  split
  · next hcondition => exact haction hcondition
  · next hcondition => exact h hcondition

/-! ### Methods -/

variable {Q : Except IoError α × σ → γ → Fs → Prop}

theorem refines_get {Q : Except IoError σ × σ → γ → Fs → Prop} (h : Q (.ok s, s) g fs) :
    R.Refines Q ((get : MethodM σ σ).run s) g fs := h

theorem refines_modify {Q : Except IoError Unit × σ → γ → Fs → Prop} {f : σ → σ}
    (h : Q (.ok (), f s) g fs) :
    R.Refines Q ((modify f : MethodM σ PUnit).run s) g fs := h

theorem refines_return {value : α} (h : Q (.ok value, s) g fs) :
    R.Refines Q ((pure value : MethodM σ α).run s) g fs := h

theorem refines_liftM {result : Except IoError α} (h : Q (result, s) g fs) :
    R.Refines Q ((liftM result : MethodM σ α).run s) g fs := by
  cases result <;> exact h

theorem refines_liftIo {action : IoM α}
    (h : R.Refines (fun result g fs ↦ Q (result, s) g fs) action.run g fs) :
    R.Refines Q ((liftIo action : MethodM σ α).run s) g fs :=
  .bind h

theorem refines_failIf {condition : Prop} [Decidable condition] {error : IoError}
    {Q : Except IoError Unit × σ → γ → Fs → Prop}
    (hfails : condition → Q (.error error, s) g fs) (h : ¬ condition → Q (.ok (), s) g fs) :
    R.Refines Q ((failIf condition error : MethodM σ Unit).run s) g fs := by
  unfold failIf
  split
  · next hcondition => exact hfails hcondition
  · next hcondition => exact h hcondition

theorem refines_onlyIf {condition : Prop} [Decidable condition] {action : MethodM σ Unit}
    {Q : Except IoError Unit × σ → γ → Fs → Prop}
    (haction : condition → R.Refines Q (action.run s) g fs)
    (h : ¬ condition → Q (.ok (), s) g fs) :
    R.Refines Q ((onlyIf condition action).run s) g fs := by
  unfold onlyIf
  split
  · next hcondition => exact haction hcondition
  · next hcondition => exact h hcondition

end Sukari
