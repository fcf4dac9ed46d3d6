import Sukari.Effects.Program

/-!
# What is left of a program

A program that others watch is not performed at once: between two requests it is what is left of it.
`Machine.Reached start s₀ past rest s` says that the program `start`, begun in `s₀`, has made the
requests `past`, is now `rest` and has the medium in `s`. What is left computes what the whole
program computes (`Reached.run`), and every state that is seen on the way is one of its trace
(`Reached.visit`, `Reached.during`).
-/

set_option autoImplicit false
set_option relaxedAutoImplicit false

namespace Sukari.Effects

variable {S : Signature} {α σ : Type}

namespace Machine

variable (M : Machine S σ)

inductive Reached (start : Program S α) (s₀ : σ) : List (Exchange S) → Program S α → σ → Prop
  | start : Reached start s₀ [] start s₀
  | request {past : List (Exchange S)} {op : S.Op} {next : S.Reply op → Program S α} {s : σ}
      (h : Reached start s₀ past (.request op next) s) :
      Reached start s₀ (past ++ [⟨op, M.reply op s⟩]) (next (M.reply op s)) (M.after op s)

variable {M} {start rest : Program S α} {s₀ s : σ} {past : List (Exchange S)}

namespace Reached

/-- What is left ends with the value and in the state of the whole program. -/
theorem run (h : M.Reached start s₀ past rest s) : M.run rest s = M.run start s₀ := by
  induction h with
  | start => rfl
  | request _ ih => exact ih

/-- Nothing is left: the program has ended. -/
theorem done {value : α} (h : M.Reached start s₀ past (.done value) s) :
    M.run start s₀ = (value, s) := h.run.symm

/-- The requests of the whole program are those that were made and those that are left. -/
theorem performed (h : M.Reached start s₀ past rest s) :
    M.performed start s₀ = past ++ M.performed rest s := by
  induction h with
  | start => rfl
  | request _ ih => rw [ih, List.append_assoc]; rfl

/-- The trace goes through the state that was reached. -/
theorem trace (h : M.Reached start s₀ past rest s) : ∃ before : List (Visit S σ),
    ⟨[], s₀⟩ :: M.trace [] start s₀ = before ++ ⟨past, s⟩ :: M.trace past rest s := by
  induction h with
  | start => exact ⟨[], rfl⟩
  | @request past op next s _ ih =>
    obtain ⟨before, htrace⟩ := ih
    refine ⟨before ++ ⟨past, s⟩ :: (M.during op s).map (Visit.mk past), ?_⟩
    rw [htrace, List.append_assoc]
    rfl

theorem visit (h : M.Reached start s₀ past rest s) :
    ⟨past, s⟩ ∈ ⟨[], s₀⟩ :: M.trace [] start s₀ := by
  obtain ⟨before, htrace⟩ := h.trace
  rw [htrace]
  exact List.mem_append_right _ (List.mem_cons_self ..)

/-- A state in the middle of the next request. -/
theorem during {op : S.Op} {next : S.Reply op → Program S α} {s' : σ}
    (h : M.Reached start s₀ past (.request op next) s) (hduring : s' ∈ M.during op s) :
    ⟨past, s'⟩ ∈ ⟨[], s₀⟩ :: M.trace [] start s₀ := by
  obtain ⟨before, htrace⟩ := h.trace
  rw [htrace]
  refine List.mem_append_right _ (List.mem_cons_of_mem _ ?_)
  exact List.mem_append_left _ (List.mem_map_of_mem hduring)

end Reached

/-- A program that ends without a further request goes through no further state. -/
theorem trace_bind_done {β : Type} {f : α → Program S β} (h : ∀ value, ∃ last, f value = .done last)
    (p : Program S α) (past : List (Exchange S)) (s : σ) :
    M.trace past (p >>= f) s = M.trace past p s := by
  obtain ⟨last, hlast⟩ := h (M.run p s).1
  rw [trace_bind, hlast, Machine.trace, List.append_nil]

end Machine

end Sukari.Effects
