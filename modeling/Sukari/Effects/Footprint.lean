import Sukari.Effects.Fallible

/-!
# Footprints of programs

A program is `Within` a set of requests when it makes no other request, whatever the replies are.
What the allowed requests of a medium maintain holds in every state that the program goes through
(`Program.Within.refines`), without a look at what the program computes. In the same way
`Program.Returns` is about the values that it returns.
-/

set_option autoImplicit false
set_option relaxedAutoImplicit false

namespace Sukari.Effects

variable {S : Signature} {α β γ ε ι σ τ : Type} {M : Machine S σ}

/-! ### Programs -/

namespace Program

/-- The program makes only allowed requests, whatever the replies are. -/
def Within (allowed : S.Op → Prop) : Program S α → Prop
  | .done _ => True
  | .request op next => allowed op ∧ ∀ reply, Within allowed (next reply)

namespace Within

variable {allowed : S.Op → Prop}

theorem and {allowed' : S.Op → Prop} {p : Program S α} (h : Within allowed p)
    (h' : Within allowed' p) : Within (fun op ↦ allowed op ∧ allowed' op) p := by
  induction p with
  | done value => trivial
  | request op next ih => exact ⟨⟨h.1, h'.1⟩, fun reply ↦ ih reply (h.2 reply) (h'.2 reply)⟩

theorem bind {p : Program S α} {f : α → Program S β} (h : Within allowed p)
    (hnext : ∀ value, Within allowed (f value)) : Within allowed (p >>= f) := by
  induction p with
  | done value => exact hnext value
  | request op next ih => exact ⟨h.1, fun reply ↦ ih reply (h.2 reply)⟩

theorem bindExcept {x : ExceptT ε (Program S) α} {f : α → ExceptT ε (Program S) β}
    (h : Within allowed x.run) (hnext : ∀ value, Within allowed (f value).run) :
    Within allowed (x >>= f).run := by
  rw [run_bindExcept]
  refine h.bind fun result ↦ ?_
  cases result with
  | ok value => exact hnext value
  | error error => trivial

theorem bindMethod {x : ExceptT ε (StateT τ (Program S)) α}
    {f : α → ExceptT ε (StateT τ (Program S)) β} {m : τ} (h : Within allowed (x.run m))
    (hnext : ∀ value m', Within allowed ((f value).run m')) :
    Within allowed ((x >>= f).run m) := by
  rw [run_bindMethod]
  refine h.bind fun out ↦ ?_
  obtain ⟨result, m'⟩ := out
  cases result with
  | ok value => exact hnext value m'
  | error error => trivial

theorem foldlM {step : β → ι → ExceptT ε (Program S) β}
    (h : ∀ acc item, Within allowed (step acc item).run) (items : List ι) (acc : β) :
    Within allowed (items.foldlM step acc).run := by
  induction items generalizing acc with
  | nil => trivial
  | cons item rest ih =>
    rw [List.foldlM_cons]
    exact (h acc item).bindExcept ih

theorem forM {step : ι → ExceptT ε (Program S) PUnit}
    (h : ∀ item, Within allowed (step item).run) (items : List ι) :
    Within allowed (items.forM step).run := by
  induction items with
  | nil => trivial
  | cons item rest ih => exact (h item).bindExcept fun _ ↦ ih

end Within

/-- The program returns only such values, whatever the replies are. -/
def Returns (post : α → Prop) : Program S α → Prop
  | .done value => post value
  | .request _ next => ∀ reply, Returns post (next reply)

theorem Returns.any (p : Program S α) : Returns (fun _ ↦ True) p := by
  induction p with
  | done value => trivial
  | request op next ih => exact ih

theorem Returns.mono {p : Program S α} {post post' : α → Prop} (h : Returns post p)
    (hpost : ∀ value, post value → post' value) : Returns post' p := by
  induction p with
  | done value => exact hpost value h
  | request op next ih => exact fun reply ↦ ih reply (h reply)

theorem Returns.bind {p : Program S α} {f : α → Program S β} {mid : α → Prop} {post : β → Prop}
    (h : Returns mid p) (hnext : ∀ value, mid value → Returns post (f value)) :
    Returns post (p >>= f) := by
  induction p with
  | done value => exact hnext value h
  | request op next ih => exact fun reply ↦ ih reply (h reply)

theorem Returns.and {p : Program S α} {post post' : α → Prop} (h : Returns post p)
    (h' : Returns post' p) : Returns (fun value ↦ post value ∧ post' value) p := by
  induction p with
  | done value => exact ⟨h, h'⟩
  | request op next ih => exact fun reply ↦ ih reply (h reply) (h' reply)

theorem Returns.run {p : Program S α} {post : α → Prop} (h : Returns post p)
    (M : Machine S σ) (s : σ) :
    post (M.run p s).1 := by
  induction p generalizing s with
  | done value => exact h
  | request op next ih => exact ih _ (h _) _

theorem Returns.refines {R : Refinement M γ} {p : Program S α} {post : α → Prop}
    {Q : α → γ → σ → Prop} {g : γ} {s : σ} (hreturns : Returns post p) (h : R.Refines Q p g s) :
    R.Refines (fun value g s ↦ post value ∧ Q value g s) p g s := by
  induction p generalizing g s with
  | done value => exact ⟨hreturns, h⟩
  | request op next ih =>
    obtain ⟨hduring, g', hstep, hholds, hrest⟩ := h
    exact ⟨hduring, g', hstep, hholds, ih _ (hreturns _) hrest⟩

end Program

/-- What is not allowed is not asked for. -/
theorem Program.Within.not_asks {allowed : S.Op → Prop} {p : Program S α}
    {world : ℕ → σ} {op : S.Op}
    {u t : ℕ} (h : p.Within allowed) (hop : ¬ allowed op) : ¬ M.Asks world op u p t := by
  induction p generalizing t with
  | done value => exact False.elim
  | request first next ih =>
    rintro (⟨-, rfl⟩ | hlater)
    · exact hop h.1
    · exact ih _ (h.2 _) hlater

/-! ### Functions and methods that may fail -/

theorem Program.Returns.bindExcept {x : ExceptT ε (Program S) α} {f : α → ExceptT ε (Program S) β}
    {mid : Except ε α → Prop} {post : Except ε β → Prop} (h : Returns mid x.run)
    (herror : ∀ error, mid (.error error) → post (.error error))
    (hnext : ∀ value, mid (.ok value) → Returns post (f value).run) :
    Returns post (x >>= f).run := by
  rw [run_bindExcept]
  refine h.bind fun result hresult ↦ ?_
  cases result with
  | ok value => exact hnext value hresult
  | error error => exact herror error hresult

theorem Program.Returns.bindMethod {p : ExceptT ε (StateT σ (Program S)) α}
    {f : α → ExceptT ε (StateT σ (Program S)) β} {m : σ} {mid : Except ε α × σ → Prop}
    {post : Except ε β × σ → Prop} (h : Returns mid (p.run m : Program S (Except ε α × σ)))
    (herror : ∀ error m', mid (.error error, m') → post (.error error, m'))
    (hnext : ∀ value m', mid (.ok value, m') →
      Returns post ((f value).run m' : Program S (Except ε β × σ))) :
    Returns post ((p >>= f).run m : Program S (Except ε β × σ)) := by
  rw [run_bindMethod]
  refine h.bind fun out hout ↦ ?_
  obtain ⟨result, m'⟩ := out
  cases result with
  | ok value => exact hnext value m' hout
  | error error => exact herror error m' hout

/-- The method keeps this invariant of its state, whether it succeeds or not. -/
def Preserves (P : σ → Prop) (p : ExceptT ε (StateT σ (Program S)) α) : Prop :=
  ∀ m, P m → Program.Returns (fun out ↦ P out.2) (p.run m : Program S (Except ε α × σ))

namespace Preserves

variable {P : σ → Prop} {p : ExceptT ε (StateT σ (Program S)) α}
  {f : α → ExceptT ε (StateT σ (Program S)) β}

theorem done (result : Except ε α) :
    Preserves P (ExceptT.mk (pure result) : ExceptT ε (StateT σ (Program S)) α) := fun _ h ↦ h

theorem bind (h : Preserves P p) (hnext : ∀ value, Preserves P (f value)) : Preserves P (p >>= f) :=
  fun m hm ↦ (h m hm).bindMethod (fun _ _ hm' ↦ hm') fun value m' hm' ↦ hnext value m' hm'

theorem read {f : σ → ExceptT ε (StateT σ (Program S)) α} (h : ∀ m, Preserves P (f m)) :
    Preserves P (get >>= f) := fun m hm ↦ h m m hm

theorem write {u : σ → σ} (hu : ∀ m, P m → P (u m)) :
    Preserves P (modify u : ExceptT ε (StateT σ (Program S)) PUnit) := hu

end Preserves

/-! ### What allowed requests maintain -/

/-- The property holds on through every allowed request. -/
structure Machine.Maintains (M : Machine S σ) (allowed : S.Op → Prop) (I : σ → Prop) : Prop where
  after : ∀ op s, allowed op → I s → I (M.after op s)
  during : ∀ op s, allowed op → I s → ∀ s' ∈ M.during op s, I s'

/-- A property of all states that a program goes through, as a refinement. -/
def Machine.always (M : Machine S σ) (I : σ → Prop) : Refinement M Unit :=
  ⟨fun _ _ _ ↦ True, fun _ ↦ I⟩

/-- A program with allowed requests goes through states with the property only. -/
theorem Program.Within.refines {allowed : S.Op → Prop} {I J : σ → Prop} {p : Program S α}
    {g : Unit} {s : σ} (h : p.Within allowed) (hmaintains : M.Maintains allowed I)
    (hweaker : ∀ s, I s → J s) (hs : I s) :
    (M.always J).Refines (fun _ _ s' ↦ I s') p g s := by
  induction p generalizing s with
  | done value => exact hs
  | request op next ih =>
    have hafter := hmaintains.after op s h.1 hs
    exact ⟨fun s' hs' ↦ hweaker s' (hmaintains.during op s h.1 hs s' hs'), g, trivial,
      hweaker _ hafter, ih _ (h.2 _) hafter⟩

end Sukari.Effects
