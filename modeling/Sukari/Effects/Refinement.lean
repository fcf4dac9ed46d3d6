import Sukari.Effects.Program

/-!
# Refinement of an abstract transition system by a program

A refinement relates the states of a machine to the states of an abstract transition system whose
transitions are labelled by requests. `Refinement.Refines` says that every request of a program is
a transition of the abstract system, that the relation holds after it, and that it holds for the
unchanged abstract state in every state seen while the request is in progress. It is a logic for
programs that may be stopped at any point: `Refines.bind` composes two programs, `Refines.run`
gives the postcondition of a whole run, and `Refines.labelled` labels every state of the trace
with an abstract state, later labels being reached from earlier ones by the requests in between.
`Refines.preserves` adds a property that the requests of the program keep.
-/

set_option autoImplicit false
set_option relaxedAutoImplicit false

namespace Sukari.Effects

variable {S : Signature} {α β γ σ : Type} {M : Machine S σ}

/-- An abstract transition system labelled by requests, and the relation of its states to the
states of the machine. -/
structure Refinement (M : Machine S σ) (γ : Type) where
  step : Exchange S → γ → γ → Prop
  holds : γ → σ → Prop

namespace Refinement

variable (R : Refinement M γ)

/-- The abstract state `g'` is reached from `g` by the requests of a list, in order. -/
inductive Steps : List (Exchange S) → γ → γ → Prop
  | refl (g : γ) : Steps [] g g
  | cons {op : Exchange S} {ops : List (Exchange S)} {g g' g'' : γ} (first : R.step op g g')
      (rest : Steps ops g' g'') : Steps (op :: ops) g g''

variable {R}

theorem Steps.append {ops ops' : List (Exchange S)} {g g' g'' : γ} (h : R.Steps ops g g')
    (h' : R.Steps ops' g' g'') : R.Steps (ops ++ ops') g g'' := by
  induction h with
  | refl g => exact h'
  | cons first _ ih => exact .cons first (ih h')

theorem Steps.single {op : Exchange S} {g g' : γ} (h : R.step op g g') : R.Steps [op] g g' :=
  .cons h (.refl g')

/-- The abstract state after some of the requests. -/
theorem Steps.split {ops ops' : List (Exchange S)} {g g'' : γ} (h : R.Steps (ops ++ ops') g g'') :
    ∃ g', R.Steps ops g g' ∧ R.Steps ops' g' g'' := by
  induction ops generalizing g with
  | nil => exact ⟨g, .refl g, h⟩
  | cons op ops ih =>
    cases h with
    | cons first rest =>
      obtain ⟨g', hops, hops'⟩ := ih rest
      exact ⟨g', .cons first hops, hops'⟩

variable (R)

/-- Every request of the program is a transition of the abstract system, the relation holds at
every state on the way, and `Q` holds of the value, the abstract state and the state at the end. -/
def Refines (Q : α → γ → σ → Prop) : Program S α → γ → σ → Prop
  | .done value, g, s => Q value g s
  | .request op next, g, s =>
    (∀ t ∈ M.during op s, R.holds g t) ∧
      ∃ g', R.step ⟨op, M.reply op s⟩ g g' ∧ R.holds g' (M.after op s) ∧
        Refines Q (next (M.reply op s)) g' (M.after op s)

/-- A label of a visit leads to a label of a later visit when the requests completed in between
are transitions from the first abstract state to the second. -/
def Leads (first later : γ × Visit S σ) : Prop :=
  ∃ ops, later.2.past = first.2.past ++ ops ∧ R.Steps ops first.1 later.1

variable {R}

theorem Leads.refl (label : γ × Visit S σ) : R.Leads label label :=
  ⟨[], by simp, .refl _⟩

theorem Leads.trans {a b c : γ × Visit S σ} (hab : R.Leads a b) (hbc : R.Leads b c) :
    R.Leads a c := by
  obtain ⟨ops, hpast, hsteps⟩ := hab
  obtain ⟨ops', hpast', hsteps'⟩ := hbc
  exact ⟨ops ++ ops', by rw [hpast', hpast, List.append_assoc], hsteps.append hsteps'⟩

instance : IsTrans (γ × Visit S σ) R.Leads := ⟨fun _ _ _ ↦ Leads.trans⟩

namespace Refines

variable {Q Q' : α → γ → σ → Prop} {p : Program S α} {g : γ} {s : σ}

@[simp] theorem done_iff (value : α) :
    R.Refines Q (.done value) g s ↔ Q value g s := Iff.rfl

/-- A weaker postcondition. -/
theorem mono (h : R.Refines Q p g s) (hQ : ∀ value g s, Q value g s → Q' value g s) :
    R.Refines Q' p g s := by
  induction p generalizing g s with
  | done value => exact hQ _ _ _ h
  | request op next ih =>
    obtain ⟨hduring, g', hstep, hholds, hnext⟩ := h
    exact ⟨hduring, g', hstep, hholds, ih _ hnext⟩

/-- The rule of sequential composition. -/
theorem bind {f : α → Program S β} {Q : β → γ → σ → Prop}
    (h : R.Refines (fun value g s ↦ R.Refines Q (f value) g s) p g s) :
    R.Refines Q (p >>= f) g s := by
  induction p generalizing g s with
  | done value => exact h
  | request op next ih =>
    obtain ⟨hduring, g', hstep, hholds, hnext⟩ := h
    exact ⟨hduring, g', hstep, hholds, ih _ hnext⟩

/-- The postcondition of a whole run. -/
theorem run (h : R.Refines Q p g s) :
    ∃ g', R.Steps (M.performed p s) g g' ∧ Q (M.run p s).1 g' (M.run p s).2 := by
  induction p generalizing g s with
  | done value => exact ⟨g, .refl g, h⟩
  | request op next ih =>
    obtain ⟨-, g', hstep, -, hnext⟩ := h
    obtain ⟨g'', hsteps, hQ⟩ := ih _ hnext
    exact ⟨g'', .cons hstep hsteps, hQ⟩

/-- The postcondition is about the value and the state that the run ends with. -/
theorem returned (h : R.Refines Q p g s) :
    R.Refines (fun value g' s' ↦ M.run p s = (value, s') ∧ Q value g' s') p g s := by
  induction p generalizing g s with
  | done value => exact ⟨rfl, h⟩
  | request op next ih =>
    obtain ⟨hduring, g', hstep, hholds, hnext⟩ := h
    exact ⟨hduring, g', hstep, hholds, ih _ hnext⟩

/-- What the requests of a program keep holds at its end. -/
theorem preserves {P : γ → σ → Prop} {allowed : Exchange S → Prop} (h : R.Refines Q p g s)
    (hallowed : ∀ exchange ∈ M.performed p s, allowed exchange) (hP : P g s)
    (hkeeps : ∀ op g g' s, allowed ⟨op, M.reply op s⟩ → P g s → R.step ⟨op, M.reply op s⟩ g g' →
      R.holds g' (M.after op s) → P g' (M.after op s)) :
    R.Refines (fun value g' s' ↦ Q value g' s' ∧ P g' s') p g s := by
  induction p generalizing g s with
  | done value => exact ⟨h, hP⟩
  | request op next ih =>
    obtain ⟨hduring, g', hstep, hholds, hnext⟩ := h
    have hfirst : allowed ⟨op, M.reply op s⟩ := hallowed _ (List.mem_cons_self ..)
    refine ⟨hduring, g', hstep, hholds, ih _ hnext (fun exchange hexchange ↦ ?_) ?_⟩
    · exact hallowed exchange (List.mem_cons_of_mem _ hexchange)
    · exact hkeeps op g g' s hfirst hP hstep hholds

/-- Every state on the way is related to an abstract state that the requests before it lead to. -/
theorem visit (h : R.Refines Q p g s) {past : List (Exchange S)} {visit : Visit S σ}
    (hvisit : visit ∈ M.trace past p s) : ∃ ops g', visit.past = past ++ ops ∧ R.Steps ops g g' ∧
      R.holds g' visit.state := by
  induction p generalizing past g s with
  | done value => nomatch hvisit
  | request op next ih =>
    obtain ⟨hduring, g', hstep, hholds, hnext⟩ := h
    simp only [Machine.trace, List.mem_append, List.mem_map, List.mem_cons] at hvisit
    rcases hvisit with ⟨t, ht, rfl⟩ | rfl | hvisit
    · exact ⟨[], g, (List.append_nil past).symm, .refl g, hduring t ht⟩
    · exact ⟨_, g', rfl, .single hstep, hholds⟩
    · obtain ⟨ops, g'', hpast, hsteps, hlast⟩ := ih _ hnext hvisit
      exact ⟨⟨op, M.reply op s⟩ :: ops, g'', by simp [hpast], .cons hstep hsteps, hlast⟩

/-- Every state of a trace can be labelled with an abstract state that it is related to, so that
every label leads to the ones after it. The last label satisfies the postcondition. -/
theorem labelled (past : List (Exchange S)) (h : R.Refines Q p g s) :
    ∃ labels : List (γ × Visit S σ), labels.map Prod.snd = M.trace past p s ∧
      List.IsChain R.Leads ((g, ⟨past, s⟩) :: labels) ∧
      (∀ label ∈ labels, R.holds label.1 label.2.state) ∧
      Q (M.run p s).1
        (((g, ⟨past, s⟩) :: labels).getLast (List.cons_ne_nil _ _)).1 (M.run p s).2 := by
  induction p generalizing past g s with
  | done value => exact ⟨[], rfl, .singleton _, by simp, h⟩
  | request op next ih =>
    obtain ⟨hduring, g', hstep, hholds, hnext⟩ := h
    obtain ⟨labels, hmap, hchain, hlabels, hQ⟩ := ih _ (past ++ [⟨op, M.reply op s⟩]) hnext
    let inProgress := (M.during op s).map fun t ↦ (g, Visit.mk past t)
    refine ⟨inProgress ++ (g', ⟨past ++ [⟨op, M.reply op s⟩], M.after op s⟩) :: labels,
      ?_, ?_, ?_, ?_⟩
    · simp [inProgress, Machine.trace, hmap, Function.comp_def]
    · have hprogress : ∀ label ∈ (g, Visit.mk past s) :: inProgress,
          label.1 = g ∧ label.2.past = past := by
        intro label hlabel
        simp only [inProgress, List.mem_cons, List.mem_map] at hlabel
        rcases hlabel with rfl | ⟨t, -, rfl⟩ <;> exact ⟨rfl, rfl⟩
      rw [← List.cons_append]
      refine List.IsChain.append ?_ hchain ?_
      · refine List.Pairwise.isChain (List.pairwise_of_forall_mem_list fun a ha b hb ↦ ?_)
        obtain ⟨hag, hap⟩ := hprogress a ha
        obtain ⟨hbg, hbp⟩ := hprogress b hb
        exact ⟨[], by rw [hap, hbp, List.append_nil], by rw [hag, hbg]; exact .refl g⟩
      · intro a ha b hb
        obtain ⟨hag, hap⟩ := hprogress a (List.mem_of_mem_getLast? ha)
        simp only [List.head?_cons, Option.mem_def, Option.some.injEq] at hb
        subst hb
        exact ⟨[⟨op, M.reply op s⟩], by rw [hap], by rw [hag]; exact .single hstep⟩
    · intro label hlabel
      simp only [inProgress, List.mem_append, List.mem_map, List.mem_cons] at hlabel
      rcases hlabel with ⟨t, ht, rfl⟩ | rfl | hlabel
      · exact hduring t ht
      · exact hholds
      · exact hlabels label hlabel
    · rw [List.getLast_cons (by simp), List.getLast_append_of_ne_nil _ (by simp)]
      exact hQ

/-- A program that only asks refines any system in which inquiries change nothing. -/
theorem of_sees {t : ℕ} {Q : α → ℕ → Prop} (hstep : ∀ op, M.Inquiry op → ∀ reply g,
    R.step ⟨op, reply⟩ g g) (hholds : R.holds g s) (h : M.Sees (fun _ ↦ s) Q p t) :
    R.Refines (fun value g' s' ↦ g' = g ∧ s' = s ∧ ∃ t, Q value t) p g s := by
  induction p generalizing t with
  | done value => exact ⟨rfl, rfl, t, h⟩
  | request op next ih =>
    obtain ⟨hinquiry, hnext⟩ := h
    obtain ⟨hafter, hduring⟩ := hinquiry s
    refine ⟨by simp [hduring], g, hstep op hinquiry _ g, by rwa [hafter], ?_⟩
    rw [hafter]
    exact ih _ hnext

end Refines

end Refinement

end Sukari.Effects
