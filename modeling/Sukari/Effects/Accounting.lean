import Sukari.Effects.Footprint
import Mathlib.Algebra.Group.Action.Pi

/-!
# Programs that keep accounts

A method may carry counters in its state that the rest of it does not depend on. `Erases` says that
a method without the counters makes the same requests and returns the same values, whatever the
replies are. `Accounts` is a logic for what the counters say: every request has a cost in a
commutative monoid, the counters are acted on by that monoid, and the postcondition relates the cost
of the requests that were made to what was added to the counters. Both are closed under sequential
composition.
-/

set_option autoImplicit false
set_option relaxedAutoImplicit false

namespace Sukari.Effects

variable {S : Signature} {A C α β δ ε ι σ τ : Type}

/-! ### Programs with mapped values -/

namespace Program

/-- The second program is the first one with its values mapped. -/
def Maps (f : α → β) (p : Program S α) (q : Program S β) : Prop :=
  (p >>= fun value ↦ .done (f value)) = q

namespace Maps

variable {f : α → β} {p : Program S α} {q : Program S β}

theorem refl (p : Program S α) : Maps (fun value ↦ value) p p := bind_done p

theorem comp {κ : Type} {g : β → κ} {r : Program S κ} (h : Maps f p q) (h' : Maps g q r) :
    Maps (fun value ↦ g (f value)) p r := by
  rw [← h', ← h, Maps, bind_assoc]
  rfl

/-- The second programs have to match for the values only that the first one returns. -/
theorem bindReturns {κ : Type} {g : δ → κ} {k : α → Program S δ} {l : β → Program S κ}
    {post : α → Prop} (h : Maps f p q) (hreturns : Returns post p)
    (hnext : ∀ value, post value → Maps g (k value) (l (f value))) : Maps g (p >>= k)
    (q >>= l) := by
  subst h
  induction p with
  | done value => exact hnext value hreturns
  | request op next ih =>
    refine congrArg (Program.request op) (funext fun reply ↦ ?_)
    exact ih reply (hreturns reply)

theorem bind {κ : Type} {g : δ → κ} {k : α → Program S δ} {l : β → Program S κ} (h : Maps f p q)
    (hnext : ∀ value, Maps g (k value) (l (f value))) : Maps g (p >>= k) (q >>= l) :=
  h.bindReturns (.any p) fun value _ ↦ hnext value

theorem returns {post : β → Prop} (h : Maps f p q) (hreturns : Returns post q) :
    Returns (fun value ↦ post (f value)) p := by
  subst h
  induction p with
  | done value => exact hreturns
  | request op next ih => exact fun reply ↦ ih reply (hreturns reply)

theorem within {allowed : S.Op → Prop} (h : Maps f p q) (hwithin : q.Within allowed) :
    p.Within allowed := by
  subst h
  induction p with
  | done value => trivial
  | request op next ih => exact ⟨hwithin.1, fun reply ↦ ih reply (hwithin.2 reply)⟩

theorem run (h : Maps f p q) (M : Machine S σ) (s : σ) :
    M.run q s = (f (M.run p s).1, (M.run p s).2) := by
  subst h
  rw [Machine.run_bind]
  rfl

theorem performed (h : Maps f p q) (M : Machine S σ) (s : σ) :
    M.performed q s = M.performed p s := by
  subst h
  rw [Machine.performed_bind]
  exact List.append_nil _

theorem trace (h : Maps f p q) (M : Machine S σ) (past : List (Exchange S)) (s : σ) :
    M.trace past q s = M.trace past p s := by
  subst h
  rw [Machine.trace_bind]
  exact List.append_nil _

end Maps

end Program

/-! ### Erasure of a part of the state -/

/-- The second method is the first one without a part of its state. -/
def Erases (π : σ → τ) (m : σ) (p : ExceptT ε (StateT σ (Program S)) α)
    (q : ExceptT ε (StateT τ (Program S)) α) : Prop :=
  Program.Maps (fun out ↦ (out.1, π out.2)) (p.run m : Program S (Except ε α × σ)) (q.run (π m))

/-- The second function is the first method without its state, and the rest of the state stays. -/
def ErasesAll (π : σ → τ) (m : σ) (p : ExceptT ε (StateT σ (Program S)) α)
    (q : ExceptT ε (Program S) α) : Prop :=
  Program.Maps (fun out ↦ (out.1, π out.2)) (p.run m : Program S (Except ε α × σ))
    (q.run >>= fun result ↦ .done (result, π m))

variable {π : σ → τ} {m : σ}

namespace Erases

variable {p : ExceptT ε (StateT σ (Program S)) α} {q : ExceptT ε (StateT τ (Program S)) α}

theorem done (result : Except ε α) :
    Erases (S := S) π m (ExceptT.mk (pure result)) (ExceptT.mk (pure result)) := rfl

theorem bind {f : α → ExceptT ε (StateT σ (Program S)) β}
    {g : α → ExceptT ε (StateT τ (Program S)) β}
    (h : Erases π m p q) (hnext : ∀ value m', Erases π m' (f value) (g value)) :
    Erases π m (p >>= f) (q >>= g) := by
  unfold Erases
  rw [run_bindMethod, run_bindMethod]
  refine Program.Maps.bind h fun out ↦ ?_
  obtain ⟨result, m'⟩ := out
  cases result with
  | ok value => exact hnext value m'
  | error error => rfl

/-- The first method goes on with what is erased. -/
theorem bindDone {f : α → ExceptT ε (StateT σ (Program S)) α} (h : Erases π m p q)
    (hnext : ∀ value m', Erases π m' (f value) (pure value)) : Erases π m (p >>= f) q := by
  have hq : q = q >>= pure := (bind_pure q).symm
  rw [hq]
  exact .bind h hnext

theorem read {f : σ → ExceptT ε (StateT σ (Program S)) β}
    {g : τ → ExceptT ε (StateT τ (Program S)) β}
    (h : Erases π m (f m) (g (π m))) : Erases π m (get >>= f) (get >>= g) := h

theorem write {u : σ → σ} {v : τ → τ} (h : π (u m) = v (π m)) :
    Erases π m (modify u : ExceptT ε (StateT σ (Program S)) PUnit)
      (modify v : ExceptT ε (StateT τ (Program S)) PUnit) := by
  change Program.done (Except.ok PUnit.unit, π (u m)) = Program.done (Except.ok PUnit.unit, v (π m))
  rw [h]

/-- A change of nothing but what is erased. -/
theorem count {u : σ → σ} {f : PUnit → ExceptT ε (StateT σ (Program S)) β}
    {r : ExceptT ε (StateT τ (Program S)) β} (hu : π (u m) = π m) (h : Erases π (u m) (f ⟨⟩) r) :
    Erases π m ((modify u : ExceptT ε (StateT σ (Program S)) PUnit) >>= f) r := by
  have hrun : (((modify u : ExceptT ε (StateT σ (Program S)) PUnit) >>= f).run m :
      Program S (Except ε β × σ)) = (f ⟨⟩).run (u m) := rfl
  unfold Erases at h ⊢
  rwa [hrun, ← hu]

end Erases

namespace ErasesAll

variable {p : ExceptT ε (StateT σ (Program S)) α} {q : ExceptT ε (Program S) α}

theorem done (result : Except ε α) :
    ErasesAll (S := S) π m (ExceptT.mk (pure result)) (ExceptT.mk (pure result)) := rfl

/-- What comes behind a function, which passes on the rest of the state. -/
def behind (g : α → ExceptT ε (Program S) β) (out : Except ε α × τ) : Program S (Except ε β × τ) :=
  match out.1 with
  | .ok value => (g value).run >>= fun result ↦ .done (result, out.2)
  | .error error => .done (.error error, out.2)

/-- The rest of the state stays. -/
theorem returns (h : ErasesAll π m p q) :
    Program.Returns (fun out ↦ π out.2 = π m) (p.run m : Program S (Except ε α × σ)) := by
  have hrest : Program.Returns (fun out ↦ out.2 = π m)
      (q.run >>= fun result ↦ Program.done (result, π m)) :=
    (Program.Returns.any q.run).bind fun _ _ ↦ rfl
  exact Program.Maps.returns h hrest

/-- What is erased may be larger. -/
theorem coarser {κ : Type} (f : τ → κ) (h : ErasesAll π m p q) :
    ErasesAll (fun m ↦ f (π m)) m p q := by
  have hrest : Program.Maps (fun out : Except ε α × τ ↦ (out.1, f out.2))
      (q.run >>= fun result ↦ Program.done (result, π m))
      (q.run >>= fun result ↦ Program.done (result, f (π m))) := by
    rw [Program.Maps, Program.bind_assoc]
    rfl
  exact Program.Maps.comp h hrest

theorem bindSame {f : α → ExceptT ε (StateT σ (Program S)) β} {g : α → ExceptT ε (Program S) β}
    (h : ErasesAll π m p q) (hnext : ∀ value m', π m' = π m → ErasesAll π m' (f value) (g value)) :
    ErasesAll π m (p >>= f) (q >>= g) := by
  have hq : (((q >>= g).run : Program S (Except ε β)) >>= fun result ↦ .done (result, π m)) =
      (q.run >>= fun result ↦ .done (result, π m)) >>= behind g := by
    rw [run_bindExcept, Program.bind_assoc, Program.bind_assoc]
    congr 1
    funext result
    cases result <;> rfl
  unfold ErasesAll
  rw [run_bindMethod, hq]
  refine Program.Maps.bindReturns h h.returns fun out hsame ↦ ?_
  obtain ⟨result, m'⟩ := out
  cases result with
  | ok value => exact hnext value m' hsame
  | error error => rfl

theorem bind {f : α → ExceptT ε (StateT σ (Program S)) β} {g : α → ExceptT ε (Program S) β}
    (h : ErasesAll π m p q) (hnext : ∀ value m', ErasesAll π m' (f value) (g value)) :
    ErasesAll π m (p >>= f) (q >>= g) :=
  h.bindSame fun value m' _ ↦ hnext value m'

/-- The method goes on with what is erased. -/
theorem bindDone {f : α → ExceptT ε (StateT σ (Program S)) α} (h : ErasesAll π m p q)
    (hnext : ∀ value m', ErasesAll π m' (f value) (pure value)) : ErasesAll π m (p >>= f) q := by
  have hq : q = q >>= pure := (bind_pure q).symm
  rw [hq]
  exact .bind h hnext

/-- A change of nothing but what is erased. -/
theorem count {u : σ → σ} {f : PUnit → ExceptT ε (StateT σ (Program S)) β}
    {r : ExceptT ε (Program S) β} (hu : π (u m) = π m) (h : ErasesAll π (u m) (f ⟨⟩) r) :
    ErasesAll π m ((modify u : ExceptT ε (StateT σ (Program S)) PUnit) >>= f) r := by
  have hrun : (((modify u : ExceptT ε (StateT σ (Program S)) PUnit) >>= f).run m :
      Program S (Except ε β × σ)) = (f ⟨⟩).run (u m) := rfl
  unfold ErasesAll at h ⊢
  rwa [hrun, ← hu]

theorem foldlM {step : β → ι → ExceptT ε (StateT σ (Program S)) β}
    {step' : β → ι → ExceptT ε (Program S) β}
    (h : ∀ acc item m, ErasesAll π m (step acc item) (step' acc item)) (items : List ι) (acc : β)
    (m : σ) : ErasesAll π m (items.foldlM step acc) (items.foldlM step' acc) := by
  induction items generalizing acc m with
  | nil => exact .done _
  | cons item rest ih =>
    rw [List.foldlM_cons, List.foldlM_cons]
    exact .bind (h acc item m) ih

theorem forM {step : ι → ExceptT ε (StateT σ (Program S)) PUnit}
    {step' : ι → ExceptT ε (Program S) PUnit}
    (h : ∀ item m, ErasesAll π m (step item) (step' item)) (items : List ι) (m : σ) :
    ErasesAll π m (items.forM step) (items.forM step') := by
  induction items generalizing m with
  | nil => exact .done _
  | cons item rest ih => exact .bind (h item m) fun _ m ↦ ih m

end ErasesAll

/-! ### Accounts -/

section Accounts

variable [AddCommMonoid A]

/-- The postcondition holds of the cost of the requests and of the value, whatever the replies
are. -/
def Program.Spends (weigh : Exchange S → A) (post : A → α → Prop) : Program S α → Prop
  | .done value => post 0 value
  | .request op next => ∀ reply,
    Spends weigh (fun cost value ↦ post (weigh ⟨op, reply⟩ + cost) value) (next reply)

namespace Program.Spends

variable {weigh : Exchange S → A} {post post' : A → α → Prop} {p : Program S α}

theorem mono (h : p.Spends weigh post) (hpost : ∀ cost value, post cost value → post' cost value) :
    p.Spends weigh post' := by
  induction p generalizing post post' with
  | done value => exact hpost _ _ h
  | request op next ih => exact fun reply ↦ ih reply (h reply) fun cost value ↦ hpost _ value

theorem bind {f : α → Program S β} {post : A → β → Prop}
    (h : p.Spends weigh fun cost value ↦
      (f value).Spends weigh fun cost' value' ↦ post (cost + cost') value') :
    (p >>= f).Spends weigh post := by
  induction p generalizing post with
  | done value =>
    have hafter : (f value).Spends weigh fun cost value' ↦ post (0 + cost) value' := h
    exact hafter.mono fun cost value' hpost ↦ by rwa [zero_add] at hpost
  | request op next ih =>
    refine fun reply ↦ ih reply ((h reply).mono fun cost value hnext ↦
      hnext.mono fun cost' value' ↦ ?_)
    rw [add_assoc]
    exact id

theorem returns (h : p.Spends weigh post) : p.Returns fun value ↦ ∃ cost, post cost value := by
  induction p generalizing post with
  | done value => exact ⟨0, h⟩
  | request op next ih =>
    exact fun reply ↦ (ih reply (h reply)).mono fun value hvalue ↦
      hvalue.elim fun cost hcost ↦ ⟨_, hcost⟩

theorem bindExcept {x : ExceptT ε (Program S) α} {f : α → ExceptT ε (Program S) β}
    {mid : A → Except ε α → Prop} {post : A → Except ε β → Prop} (h : x.run.Spends weigh mid)
    (herror : ∀ error cost, mid cost (.error error) → post (cost + 0) (.error error))
    (hnext : ∀ value cost, mid cost (.ok value) →
      (f value).run.Spends weigh fun cost' result ↦ post (cost + cost') result) :
    (x >>= f).run.Spends weigh post := by
  rw [run_bindExcept]
  refine .bind (h.mono fun cost result hresult ↦ ?_)
  cases result with
  | ok value => exact hnext value cost hresult
  | error error => exact herror error cost hresult

/-- Other costs, which are the same for all requests that are made. -/
theorem congr {weigh' : Exchange S → A} {allowed : S.Op → Prop} (h : p.Spends weigh post)
    (hwithin : p.Within allowed)
    (hsame : ∀ op reply, allowed op → weigh ⟨op, reply⟩ = weigh' ⟨op, reply⟩) :
    p.Spends weigh' post := by
  induction p generalizing post with
  | done value => exact h
  | request op next ih =>
    intro reply
    rw [← hsame op reply hwithin.1]
    exact ih reply (h reply) (hwithin.2 reply)

/-- Requests that cost nothing. -/
theorem ofReturns {post : α → Prop} (h : p.Returns post)
    (hwithin : p.Within fun op ↦ ∀ reply, weigh ⟨op, reply⟩ = 0) :
    p.Spends weigh fun cost value ↦ cost = 0 ∧ post value := by
  induction p with
  | done value => exact ⟨rfl, h⟩
  | request op next ih =>
    refine fun reply ↦ (ih reply (h reply) (hwithin.2 reply)).mono fun cost _ hcost ↦ ⟨?_, hcost.2⟩
    rw [hcost.1, hwithin.1 reply, add_zero]

/-- The cost of a run is the sum over the requests that it makes. -/
theorem run (h : p.Spends weigh post) (M : Machine S σ) (s : σ) :
    post ((M.performed p s).map weigh).sum (M.run p s).1 := by
  induction p generalizing post s with
  | done value => exact h
  | request op next ih =>
    rw [Machine.performed, List.map_cons, List.sum_cons]
    exact ih _ (h _) _

end Program.Spends

variable [AddAction A C]

/-- The postcondition relates the result and the state at the end to the cost of the requests and to
what was added to the counters. -/
def Accounts (weigh : Exchange S → A) (counters : σ → C)
    (post : Except ε α → σ → A → A → Prop) (p : ExceptT ε (StateT σ (Program S)) α)
    (m : σ) : Prop :=
  (p.run m : Program S (Except ε α × σ)).Spends weigh fun cost out ↦
    ∃ added, post out.1 out.2 cost added ∧ counters out.2 = added +ᵥ counters m

namespace Accounts

variable {weigh : Exchange S → A} {counters : σ → C} {post post' : Except ε α → σ → A → A → Prop}
  {p : ExceptT ε (StateT σ (Program S)) α}

theorem mono (h : Accounts weigh counters post p m)
    (hpost : ∀ result m' cost added, post result m' cost added → post' result m' cost added) :
    Accounts weigh counters post' p m :=
  Program.Spends.mono h fun _ _ hout ↦ hout.imp fun _ hadded ↦ ⟨hpost _ _ _ _ hadded.1, hadded.2⟩

theorem done {result : Except ε α} (h : post result m 0 0) :
    Accounts (S := S) weigh counters post (ExceptT.mk (pure result)) m :=
  ⟨0, h, (zero_vadd A _).symm⟩

theorem bind {f : α → ExceptT ε (StateT σ (Program S)) β} {post : Except ε β → σ → A → A → Prop}
    (h : Accounts weigh counters (fun result m' cost added ↦ match result with
      | .ok value => Accounts weigh counters (fun result' m'' cost' added' ↦
          post result' m'' (cost + cost') (added + added')) (f value) m'
      | .error error => post (.error error) m' cost added) p m) :
    Accounts weigh counters post (p >>= f) m := by
  unfold Accounts
  rw [run_bindMethod]
  refine .bind (Program.Spends.mono h fun cost out hout ↦ ?_)
  obtain ⟨result, m'⟩ := out
  obtain ⟨added, hpost, hcounters⟩ := hout
  cases result with
  | error error => exact ⟨added, by rwa [add_zero], hcounters⟩
  | ok value =>
    refine Program.Spends.mono hpost fun cost' out' hout' ↦ ?_
    obtain ⟨added', hpost', hcounters'⟩ := hout'
    refine ⟨added + added', hpost', ?_⟩
    rw [hcounters', hcounters, add_comm, add_vadd]

theorem read {f : σ → ExceptT ε (StateT σ (Program S)) α}
    (h : Accounts weigh counters post (f m) m) :
    Accounts weigh counters post (get >>= f) m := h

/-- A change of the state adds to the counters. -/
theorem write {u : σ → σ} {f : PUnit → ExceptT ε (StateT σ (Program S)) α} (added : A)
    (hu : counters (u m) = added +ᵥ counters m)
    (h : Accounts weigh counters (fun result m' cost added' ↦ post result m' cost (added + added'))
      (f ⟨⟩) (u m)) :
    Accounts weigh counters post
      ((modify u : ExceptT ε (StateT σ (Program S)) PUnit) >>= f) m := by
  refine Program.Spends.mono h fun cost out hout ↦ ?_
  obtain ⟨added', hpost, hcounters⟩ := hout
  refine ⟨added + added', hpost, ?_⟩
  rw [hcounters, hu, add_comm, add_vadd]

/-- What the counters say after a run. -/
theorem run (h : Accounts weigh counters post p m) (M : Machine S τ) (s : τ) :
    ∃ added, post (M.run (p.run m) s).1.1 (M.run (p.run m) s).1.2
        ((M.performed (p.run m) s).map weigh).sum added ∧
      counters (M.run (p.run m) s).1.2 = added +ᵥ counters m :=
  Program.Spends.run h M s

end Accounts

end Accounts

end Sukari.Effects
