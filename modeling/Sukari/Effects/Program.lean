import Mathlib.Order.Basic
import Mathlib.Data.List.Chain

/-!
# Programs over a medium of requests

A program is a tree of requests to a medium, each with the continuation that receives the reply. One
program text then has several meanings. `Machine.run` performs the requests one after the other on a
state. `Machine.trace` lists every state that an outside observer can see on the way, together with
the requests completed so far, so that a program may be stopped anywhere. `Machine.observe` answers
the request made at time `t` from the state `world t` of a medium that somebody else is changing,
which is the meaning of a reader that runs beside a writer; `Machine.Asks` says which request it
makes at which time, and `Machine.AsksLast` at which time it makes a request for the last time.

`Machine.Sees` is a logic for programs that only ask: whatever the medium does, the value and the
time at the end satisfy a postcondition. `Sees.bind` composes two programs.

Nothing here refers to a particular medium: `Signature` and `Machine` are parameters.
-/

set_option autoImplicit false
set_option relaxedAutoImplicit false

namespace Sukari.Effects

/-- The requests a medium understands and the type of the reply to each. -/
structure Signature where
  Op : Type
  Reply : Op → Type

/-- A program that makes requests of `S` and returns a value. -/
inductive Program (S : Signature) (α : Type) : Type
  | done (value : α)
  | request (op : S.Op) (next : S.Reply op → Program S α)

variable {S : Signature} {α β δ σ : Type}

namespace Program

/-- Runs the first program and passes its value to the second. -/
def bind : Program S α → (α → Program S β) → Program S β
  | .done value, f => f value
  | .request op next, f => .request op fun reply ↦ (next reply).bind f

instance : Monad (Program S) where
  pure := .done
  bind := bind

@[simp] theorem pure_eq (value : α) : (pure value : Program S α) = .done value := rfl

@[simp] theorem done_bind (value : α) (f : α → Program S β) :
    (Program.done value >>= f) = f value := rfl

@[simp] theorem request_bind (op : S.Op) (next : S.Reply op → Program S α)
    (f : α → Program S β) :
    (Program.request op next >>= f) = .request op fun reply ↦ next reply >>= f := rfl

theorem bind_done (p : Program S α) : (p >>= Program.done) = p := by
  induction p with
  | done value => rfl
  | request op next ih =>
    rw [request_bind]
    congr 1
    funext reply
    exact ih reply

theorem bind_assoc (p : Program S α) (f : α → Program S β) (g : β → Program S δ) :
    ((p >>= f) >>= g) = (p >>= fun value ↦ f value >>= g) := by
  induction p with
  | done value => rfl
  | request op next ih =>
    simp only [request_bind]
    congr 1
    funext reply
    exact ih reply

instance : LawfulMonad (Program S) :=
  LawfulMonad.mk' (Program S) (fun p ↦ bind_done p) (fun _ _ ↦ rfl) bind_assoc

/-- The program that makes one request and returns its reply. -/
def perform (op : S.Op) : Program S (S.Reply op) := .request op .done

end Program

/-- A medium: how it replies to a request, what the request changes, and the states seen while
the request is in progress (for a long write, the states with only a part of it written). -/
structure Machine (S : Signature) (σ : Type) where
  reply : (op : S.Op) → σ → S.Reply op
  after : S.Op → σ → σ
  during : S.Op → σ → List σ

/-- A completed request with its reply. -/
abbrev Exchange (S : Signature) := Sigma S.Reply

/-- A state reached on the way, with the requests completed before it. -/
structure Visit (S : Signature) (σ : Type) where
  past : List (Exchange S)
  state : σ

namespace Machine

variable (M : Machine S σ)

/-- Performs every request of a program. -/
def run : Program S α → σ → α × σ
  | .done value, s => (value, s)
  | .request op next, s => run (next (M.reply op s)) (M.after op s)

/-- The requests that a program makes from a state, with their replies. -/
def performed : Program S α → σ → List (Exchange S)
  | .done _, _ => []
  | .request op next, s => ⟨op, M.reply op s⟩ :: performed (next (M.reply op s)) (M.after op s)

/-- The states after the initial one, in order, each with the requests completed so far. -/
def trace : List (Exchange S) → Program S α → σ → List (Visit S σ)
  | _, .done _, _ => []
  | past, .request op next, s =>
    (M.during op s).map (Visit.mk past) ++ ⟨past ++ [⟨op, M.reply op s⟩], M.after op s⟩ ::
      trace (past ++ [⟨op, M.reply op s⟩]) (next (M.reply op s)) (M.after op s)

/-- Answers the request made at time `t` from the state `world t`; each request takes one unit of
time. The value comes with the time at which the program ends. -/
def observe (world : ℕ → σ) : Program S α → ℕ → α × ℕ
  | .done value, t => (value, t)
  | .request op next, t => observe world (next (M.reply op (world t))) (t + 1)

/-- When the request made at time `t` is answered from `world t`, the program makes the request `op`
at time `u`. -/
def Asks (world : ℕ → σ) (op : S.Op) (u : ℕ) : Program S α → ℕ → Prop
  | .done _, _ => False
  | .request first next, t =>
    t = u ∧ first = op ∨ Asks world op u (next (M.reply first (world t))) (t + 1)

@[simp] theorem run_done (value : α) (s : σ) : M.run (.done value) s = (value, s) := rfl

@[simp] theorem run_request (op : S.Op) (next : S.Reply op → Program S α) (s : σ) :
    M.run (.request op next) s = M.run (next (M.reply op s)) (M.after op s) := rfl

theorem run_bind (p : Program S α) (f : α → Program S β) (s : σ) :
    M.run (p >>= f) s = M.run (f (M.run p s).1) (M.run p s).2 := by
  induction p generalizing s with
  | done value => rfl
  | request op next ih => exact ih _ _

theorem performed_bind (p : Program S α) (f : α → Program S β) (s : σ) :
    M.performed (p >>= f) s =
      M.performed p s ++ M.performed (f (M.run p s).1) (M.run p s).2 := by
  induction p generalizing s with
  | done value => rfl
  | request op next ih =>
    simp only [Program.request_bind, performed, run_request, List.cons_append]
    rw [ih]

theorem trace_bind (past : List (Exchange S)) (p : Program S α) (f : α → Program S β) (s : σ) :
    M.trace past (p >>= f) s = M.trace past p s ++
      M.trace (past ++ M.performed p s) (f (M.run p s).1) (M.run p s).2 := by
  induction p generalizing past s with
  | done value => simp [trace, performed]
  | request op next ih =>
    simp only [Program.request_bind, trace, performed, run_request]
    rw [ih]
    simp [List.append_assoc]

theorem asks_bind (world : ℕ → σ) (op : S.Op) (u : ℕ) (p : Program S α) (f : α → Program S β)
    (t : ℕ) : M.Asks world op u (p >>= f) t ↔ M.Asks world op u p t ∨
      M.Asks world op u (f (M.observe world p t).1) (M.observe world p t).2 := by
  induction p generalizing t with
  | done value => exact (iff_of_eq (false_or _)).symm
  | request first next ih => exact (or_congr_right (ih _ (t + 1))).trans or_assoc.symm

theorem le_observe (world : ℕ → σ) (p : Program S α) (t : ℕ) :
    t ≤ (M.observe world p t).2 := by
  induction p generalizing t with
  | done value => exact le_rfl
  | request op next ih => exact (Nat.le_succ t).trans (ih _ (t + 1))

/-- Requests are made before the program ends. -/
theorem Asks.bounds {world : ℕ → σ} {op : S.Op} {u : ℕ} {p : Program S α} {t : ℕ}
    (h : M.Asks world op u p t) : t ≤ u ∧ u < (M.observe world p t).2 := by
  induction p generalizing t with
  | done value => exact h.elim
  | request first next ih =>
    rcases h with ⟨rfl, -⟩ | hlater
    · exact ⟨le_rfl, M.le_observe world _ (t + 1)⟩
    · obtain ⟨hstart, hend⟩ := ih _ hlater
      exact ⟨(Nat.le_succ t).trans hstart, hend⟩

/-- The program makes the request at time `u` and not later. -/
structure AsksLast (world : ℕ → σ) (op : S.Op) (u : ℕ) (p : Program S α) (t : ℕ) : Prop where
  asks : M.Asks world op u p t
  last : ∀ other, M.Asks world op other p t → other ≤ u

variable {M} in
theorem AsksLast.unique {world : ℕ → σ} {op : S.Op} {u u' : ℕ} {p : Program S α} {t : ℕ}
    (h : M.AsksLast world op u p t) (h' : M.AsksLast world op u' p t) : u = u' :=
  le_antisymm (h'.last u h.asks) (h.last u' h'.asks)

/-- The last request of the second program is the last one of both. -/
theorem asksLast_bind {world : ℕ → σ} {op : S.Op} {u middle t : ℕ} {value : α} {p : Program S α}
    {f : α → Program S β} (h : M.observe world p t = (value, middle))
    (hlast : M.AsksLast world op u (f value) middle) : M.AsksLast world op u (p >>= f) t where
  asks := by
    rw [asks_bind, h]
    exact .inr hlast.asks
  last other hother := by
    rw [asks_bind, h] at hother
    rcases hother with hfirst | hsecond
    · have hbefore := (Asks.bounds M hfirst).2
      have hafter := (Asks.bounds M hlast.asks).1
      rw [h] at hbefore
      exact hbefore.le.trans hafter
    · exact hlast.last other hsecond

/-- The last state of a trace is the state in which the program ends. -/
theorem trace_getLast (past : List (Exchange S)) (p : Program S α) (s : σ) :
    ((⟨past, s⟩ :: M.trace past p s).getLast (List.cons_ne_nil _ _)) =
      ⟨past ++ M.performed p s, (M.run p s).2⟩ := by
  induction p generalizing past s with
  | done value => simp [trace, performed]
  | request op next ih =>
    have h := ih (M.reply op s) (past ++ [⟨op, M.reply op s⟩]) (M.after op s)
    simp only [trace, performed, run_request]
    rw [List.getLast_cons (by simp), List.getLast_append_of_ne_nil _ (by simp), h]
    simp [List.append_assoc]

/-- The requests performed before a state of a trace are the first ones of the whole program. -/
theorem past_prefix {past : List (Exchange S)} {p : Program S α} {s : σ} {visit : Visit S σ}
    (h : visit ∈ M.trace past p s) : visit.past <+: past ++ M.performed p s := by
  induction p generalizing past s with
  | done value => nomatch h
  | request op next ih =>
    simp only [trace, List.mem_append, List.mem_map, List.mem_cons] at h
    rw [performed, List.append_cons]
    rcases h with ⟨t, -, rfl⟩ | rfl | h
    · rw [List.append_assoc]
      exact List.prefix_append _ _
    · exact List.prefix_append _ _
    · exact ih _ h

/-! ### Programs that only ask -/

/-- A request that changes nothing. -/
def Inquiry (op : S.Op) : Prop := ∀ s, M.after op s = s ∧ M.during op s = []

/-- The program makes only inquiries when the request made at time `t` is answered from `world t`,
and `Q` holds of its value and of the time at which it ends. -/
def Sees (world : ℕ → σ) (Q : α → ℕ → Prop) : Program S α → ℕ → Prop
  | .done value, t => Q value t
  | .request op next, t => M.Inquiry op ∧ Sees world Q (next (M.reply op (world t))) (t + 1)

namespace Sees

variable {M} {world : ℕ → σ} {Q Q' : α → ℕ → Prop} {p : Program S α} {t : ℕ}

@[simp] theorem done_iff (value : α) : M.Sees world Q (.done value) t ↔ Q value t := Iff.rfl

theorem mono (h : M.Sees world Q p t) (hQ : ∀ value t, Q value t → Q' value t) :
    M.Sees world Q' p t := by
  induction p generalizing t with
  | done value => exact hQ _ _ h
  | request op next ih => exact ⟨h.1, ih _ h.2⟩

theorem bind {f : α → Program S β} {Q : β → ℕ → Prop}
    (h : M.Sees world (fun value t ↦ M.Sees world Q (f value) t) p t) :
    M.Sees world Q (p >>= f) t := by
  induction p generalizing t with
  | done value => exact h
  | request op next ih => exact ⟨h.1, ih _ h.2⟩

/-- A program ends after it starts. -/
theorem le (h : M.Sees world Q p t) : M.Sees world (fun value t' ↦ t ≤ t' ∧ Q value t') p t := by
  induction p generalizing t with
  | done value => exact ⟨le_rfl, h⟩
  | request op next ih =>
    exact ⟨h.1, (ih _ h.2).mono fun value t' hvalue ↦ ⟨(Nat.le_succ t).trans hvalue.1, hvalue.2⟩⟩

/-- What the program sees is what it observes. -/
theorem observe (h : M.Sees world Q p t) : Q (M.observe world p t).1 (M.observe world p t).2 := by
  induction p generalizing t with
  | done value => exact h
  | request op next ih => exact ih _ h.2

/-- The postcondition is about the value and the time that the program observes. -/
theorem observed (h : M.Sees world Q p t) :
    M.Sees world (fun value t' ↦ M.observe world p t = (value, t') ∧ Q value t') p t := by
  induction p generalizing t with
  | done value => exact ⟨rfl, h⟩
  | request op next ih => exact ⟨h.1, ih _ h.2⟩

/-- A program that only asks leaves an unchanging state as it is. -/
theorem run {s : σ} (h : M.Sees (fun _ ↦ s) Q p t) :
    (M.run p s).2 = s ∧ ∃ t', Q (M.run p s).1 t' := by
  induction p generalizing t with
  | done value => exact ⟨rfl, t, h⟩
  | request op next ih =>
    simp only [run_request, (h.1 s).1]
    exact ih _ h.2

end Sees

end Machine

end Sukari.Effects
