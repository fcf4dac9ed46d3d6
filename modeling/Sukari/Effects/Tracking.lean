import Sukari.Effects.Footprint

/-!
# Refinements that track the requests

`Refinement.tracking R E` is the refinement `R` whose abstract states also have the requests made so
far, with a property `E` of both. When the requests of a program maintain the property, a proof that
the program follows `R` is a proof that it follows the tracking refinement
(`Program.Within.tracking`).
-/

set_option autoImplicit false
set_option relaxedAutoImplicit false

namespace Sukari.Effects

variable {S : Signature} {α γ σ : Type} {M : Machine S σ}

namespace Refinement

variable (R : Refinement M γ)

/-- The refinement with the requests made so far, and with a property of them. -/
def tracking (E : List (Exchange S) → γ → σ → Prop) : Refinement M (List (Exchange S) × γ) where
  step exchange g g' := g'.1 = g.1 ++ [exchange] ∧ R.step exchange g.2 g'.2
  holds g s := R.holds g.2 s ∧ E g.1 g.2 s

/-- The property holds on through every allowed request that follows the refinement. -/
structure Maintains (allowed : S.Op → Prop) (E : List (Exchange S) → γ → σ → Prop) : Prop where
  during : ∀ op past g s, allowed op → E past g s → ∀ s' ∈ M.during op s, E past g s'
  after : ∀ op past g g' s, allowed op → E past g s → R.step ⟨op, M.reply op s⟩ g g' →
    E (past ++ [⟨op, M.reply op s⟩]) g' (M.after op s)

variable {R}

theorem Steps.of_tracking {E : List (Exchange S) → γ → σ → Prop} {ops : List (Exchange S)}
    {g g' : List (Exchange S) × γ} (h : (R.tracking E).Steps ops g g') :
    g'.1 = g.1 ++ ops ∧ R.Steps ops g.2 g'.2 := by
  induction h with
  | refl g => exact ⟨(List.append_nil _).symm, .refl _⟩
  | cons first rest ih => exact ⟨by rw [ih.1, first.1, List.append_assoc]; rfl, .cons first.2 ih.2⟩

end Refinement

/-- Allowed requests that follow a refinement follow it with the property that they maintain. -/
theorem Program.Within.tracking {R : Refinement M γ} {allowed : S.Op → Prop}
    {E F : List (Exchange S) → γ → σ → Prop} {Q : α → γ → σ → Prop} {p : Program S α}
    {past : List (Exchange S)} {g : γ} {s : σ} (h : p.Within allowed)
    (hmaintains : R.Maintains allowed E) (hweaker : ∀ past g s, E past g s → F past g s)
    (hE : E past g s) (hrefines : R.Refines Q p g s) :
    (R.tracking F).Refines (fun value g' s' ↦ Q value g'.2 s' ∧ E g'.1 g'.2 s') p (past, g) s := by
  induction p generalizing past g s with
  | done value => exact ⟨hrefines, hE⟩
  | request op next ih =>
    obtain ⟨hduring, g', hstep, hholds, hrest⟩ := hrefines
    have hafter := hmaintains.after op past g g' s h.1 hE hstep
    exact ⟨fun s' hs' ↦
      ⟨hduring s' hs', hweaker _ _ _ (hmaintains.during op past g s h.1 hE s' hs')⟩,
      (past ++ [⟨op, M.reply op s⟩], g'), ⟨rfl, hstep⟩, ⟨hholds, hweaker _ _ _ hafter⟩,
      ih _ (h.2 _) hafter hrest⟩

end Sukari.Effects
