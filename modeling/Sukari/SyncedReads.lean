import Sukari.StoreRefinement

/-!
# What was read after a sync

Once a sync of an engine that had written a record has returned, nothing takes the states of the
nodes back behind it: not a process that is killed, not a power loss, not a reopening. Whatever is
read of a node later is what was read right after the sync, with records applied that were accepted
in between or that belong to a call that was interrupted in between (`read_after_sync`).
-/

set_option autoImplicit false
set_option relaxedAutoImplicit false

namespace Sukari

open Effects

variable {N : Noraft} {store store' : NodeStore N} {nodeId : NodeId}
  {start : Except IoError (NodeState N)} {added more : List (NodeId × Record N)}

namespace Observation

/-- The records that an observation may have added. -/
def records : Observation N → List (NodeId × Record N)
  | .answered command (.ok _) => command.records
  | .killed command | .powerLoss command => (command.map Command.records).getD []
  | _ => []

/-- The same engine stays open. -/
def staysOpen : Observation N → Bool
  | .answered _ _ | .read _ _ | .readAll _ => true
  | _ => false

end Observation

namespace NodeStore

/-! ### States that are never taken back -/

/-- The durable state of a node comes from the start by some of the records that were added, and the
buffered records are some of those after them. -/
def Follows (start : Except IoError (NodeState N)) (nodeId : NodeId)
    (added : List (NodeId × Record N)) (store : NodeStore N) : Prop :=
  ∃ applied, store.durable nodeId = applied.foldl advance start ∧
    (applied ++ recordsOf nodeId store.buffered).Sublist (recordsOf nodeId added)

theorem Follows.congr (h : Follows start nodeId added store)
    (hdurable : store'.durable nodeId = store.durable nodeId)
    (hbuffered : store'.buffered = store.buffered) : Follows start nodeId added store' := by
  obtain ⟨applied, happlied, hsublist⟩ := h
  exact ⟨applied, hdurable.trans happlied, hbuffered ▸ hsublist⟩

theorem Follows.write (h : Follows start nodeId added store) {records : List (NodeId × Record N)}
    (hrecords : records.Sublist more) :
    Follows start nodeId (added ++ more) (store.write records) := by
  obtain ⟨applied, happlied, hsublist⟩ := h
  refine ⟨applied, happlied, ?_⟩
  have hmore : (recordsOf nodeId records).Sublist (recordsOf nodeId more) :=
    (hrecords.filter _).map _
  simp only [NodeStore.write]
  rw [recordsOf_append, recordsOf_append, ← List.append_assoc]
  exact hsublist.append hmore

theorem Follows.mono (h : Follows start nodeId added store) (more : List (NodeId × Record N)) :
    Follows start nodeId (added ++ more) store := by
  obtain ⟨applied, happlied, hsublist⟩ := h
  refine ⟨applied, happlied, hsublist.trans ?_⟩
  rw [recordsOf_append]
  exact List.sublist_append_left _ _

theorem Follows.flush (h : Follows start nodeId added store) (count : ℕ) :
    Follows start nodeId added (store.flush count) := by
  obtain ⟨applied, happlied, hsublist⟩ := h
  refine ⟨applied ++ recordsOf nodeId (store.buffered.take count), ?_, ?_⟩
  · rw [List.foldl_append, ← happlied]
    rfl
  · simp only [NodeStore.flush]
    rw [List.append_assoc, ← recordsOf_append, List.take_append_drop]
    exact hsublist

theorem Follows.sync (h : Follows start nodeId added store) :
    Follows start nodeId added store.sync := by
  unfold NodeStore.sync
  split
  · exact (h.flush _).congr rfl rfl
  · exact h

theorem Follows.lose (h : Follows start nodeId added store) (count : ℕ) :
    Follows start nodeId added (store.lose count) := by
  obtain ⟨applied, happlied, hsublist⟩ := h.flush count
  refine ⟨applied, happlied, ?_⟩
  have hnone : recordsOf nodeId (store.lose count).buffered = [] := rfl
  rw [hnone, List.append_nil]
  exact (List.sublist_append_left _ _).trans hsublist

theorem Follows.after (h : Follows start nodeId added store) (command : Command N) :
    Follows start nodeId (added ++ command.records) (store.after command) := by
  have hwritten := h.write (List.Sublist.refl command.records)
  simp only [NodeStore.after]
  split
  · exact hwritten.sync.congr rfl rfl
  · exact hwritten.congr rfl rfl

theorem Follows.interrupted (h : Follows start nodeId added store) {command : Option (Command N)}
    (hinterrupted : store.Interrupted command store') :
    Follows start nodeId (added ++ (command.map Command.records).getD []) store' := by
  cases hinterrupted with
  | undone => exact h.mono _
  | recorded => exact h.write List.filter_sublist
  | done => exact h.after _

/-- A step adds its records and takes nothing back. -/
theorem Follows.step (h : Follows start nodeId added store) {label : Observation N}
    (hstep : Step label store store') : Follows start nodeId (added ++ label.records) store' := by
  cases hstep with
  | opened | notOpened => exact (h.congr rfl rfl).mono _
  | read | readAll => exact h.mono _
  | @answered _ _ command answer _ hcalls =>
    cases hcalls with
    | refused | full => exact h.mono _
    | performed hcheck hanswer =>
      cases answer with
      | ok value => exact h.after command
      | error error =>
        cases command with
        | load nodeId => simpa using h.mono _
        | loadAll => simpa using h.mono _
        | createNode | removeNode | saveCurrentTerm | saveVotedFor | appendEntries | saveSnapshot
        | sync => cases hanswer
  | killed _ hinterrupted => exact (h.interrupted hinterrupted).congr rfl rfl
  | powerLoss _ hinterrupted => exact (h.interrupted hinterrupted).lose _

/-! ### Syncs that cover everything -/

/-- An engine that has nothing to sync has left nothing in the buffer. -/
def Covered (store : NodeStore N) : Prop := store.unsynced = false → store.buffered = []

theorem Covered.sync (h : store.Covered) : store.sync.buffered = [] := by
  unfold NodeStore.sync
  split
  · exact List.drop_length
  · next hsynced => exact h (by simpa using hsynced)

theorem Covered.write (h : store.Covered) (records : List (NodeId × Record N)) :
    (store.write records).Covered := by
  intro hsynced
  simp only [NodeStore.write, Bool.or_eq_false_iff, Bool.not_eq_false', List.isEmpty_iff]
    at hsynced ⊢
  rw [h hsynced.1, hsynced.2, List.append_nil]

/-- A call that has written a record covers, and a call keeps covering. -/
theorem covered_after {command : Command N} (h : store.Covered ∨ command.records ≠ []) :
    (store.after command).Covered := by
  have hwritten : (store.write command.records).Covered := by
    rcases h with h | hrecords
    · exact h.write _
    · intro hsynced
      simp [NodeStore.write, hrecords] at hsynced
  intro hsynced
  simp only [NodeStore.after] at hsynced ⊢
  split at hsynced
  · next hsyncs =>
    rw [if_pos hsyncs]
    exact hwritten.sync
  · next hsyncs =>
    rw [if_neg hsyncs]
    exact hwritten hsynced

theorem Covered.step (h : store.Covered) {label : Observation N} (hlabel : label.staysOpen = true)
    (hstep : Step label store store') : store'.Covered := by
  cases hstep with
  | answered _ hcalls =>
    cases hcalls with
    | refused | full => exact h
    | performed => exact covered_after (.inl h)
  | read | readAll => exact h
  | opened | notOpened | killed | powerLoss => cases hlabel

/-- An answer without an error was not a refusal. -/
theorem Step.performed {command : Command N} {answer : Answer N}
    (h : Step (.answered command (.ok answer)) store store') : store' = store.after command := by
  cases h with
  | answered _ hcalls =>
    cases hcalls with
    | performed => rfl

/-- What is read of a node is its state. -/
theorem Step.state_of_read {state : NodeState N}
    (h : Step (.read nodeId (.ok state)) store store') :
    store' = store ∧ store.state nodeId = .ok state := by
  obtain ⟨result, hresult, h⟩ : ∃ result, result = .ok state ∧
    Step (.read nodeId result) store store' :=
    ⟨_, rfl, h⟩
  cases h with
  | read =>
    obtain ⟨value, -, hstate⟩ := bind_eq_ok_iff.mp hresult
    exact ⟨rfl, hstate⟩

end NodeStore

/-! ### Histories of the storage code -/

/-- What is read of a node after a sync that covers a record is never taken back. -/
theorem read_after_sync {before calls later : List (Observation N)} {command : Command N}
    {answer : Answer N} {first last : NodeState N}
    (h : (implementation N).IsHistory (before ++ ([.answered command (.ok answer)] ++ (calls ++
      ([.answered .sync (.ok .done), .read nodeId (.ok first)] ++
        (later ++ [.read nodeId (.ok last)]))))))
    (hrecords : command.records ≠ []) (hcalls : ∀ label ∈ calls, label.staysOpen = true) :
    ∃ records : List (Record N),
      records.Sublist (recordsOf nodeId (later.flatMap Observation.records)) ∧
      records.foldl advance (.ok first) = .ok last := by
  obtain ⟨store₀, store₉, -, hsteps⟩ := implementation_refines_store h
  obtain ⟨store₁, -, hsteps⟩ := hsteps.split
  obtain ⟨store₂, hcommand, hsteps⟩ := hsteps.split
  obtain ⟨store₃, hbetween, hsteps⟩ := hsteps.split
  obtain ⟨store₄, hsync, hsteps⟩ := hsteps.split
  obtain ⟨store₅, hlater, hlast⟩ := hsteps.split
  have hcovered₂ : store₂.Covered := by
    cases hcommand with
    | cons hstep hnil =>
      cases hnil
      rw [NodeStore.Step.performed hstep]
      exact NodeStore.covered_after (.inr hrecords)
  have hcovered₃ : store₃.Covered := by
    exact @System.Steps.invariant _ _ _ (fun _ store ↦ store.Covered) _ _ _ hbetween [] hcovered₂
      fun _ label _ _ hlabel hcovered hstep ↦ hcovered.step (hcalls label hlabel) hstep
  have hstart : store₄.durable nodeId = .ok first ∧ store₄.buffered = [] := by
    cases hsync with
    | cons hstep hread =>
      cases hread with
      | cons hread hnil =>
        cases hnil
        obtain ⟨rfl, hstate⟩ := NodeStore.Step.state_of_read hread
        obtain rfl := NodeStore.Step.performed hstep
        have hempty : (store₃.after .sync).buffered = [] :=
          (hcovered₃.write ([] : List (NodeId × Record N))).sync
        rw [NodeStore.state, hempty] at hstate
        exact ⟨hstate, hempty⟩
  have hfollows : NodeStore.Follows (.ok first) nodeId [] store₄ :=
    ⟨[], hstart.1, by rw [hstart.2]; exact List.Sublist.refl _⟩
  obtain ⟨applied, happlied, hsublist⟩ := @System.Steps.invariant _ _ _
    (fun past store ↦ NodeStore.Follows (.ok first) nodeId (past.flatMap Observation.records) store)
    _ _ _ hlater [] hfollows fun past label _ _ _ hkept hstep ↦ by
      rw [List.flatMap_append, List.flatMap_singleton]
      exact hkept.step hstep
  refine ⟨_, hsublist, ?_⟩
  rw [List.foldl_append, ← happlied]
  cases hlast with
  | cons hread hnil => exact (NodeStore.Step.state_of_read hread).2

/-- The vote before the sync is kept. Of the two votes after it, one was accepted and one was being
written when the power was lost. -/
theorem read_after_sync_voting : ∃ first last : NodeState Noraft.ofLists,
    first.votedFor = some 2 ∧ last.votedFor = some 3 ∧
    ∃ records : List (Record Noraft.ofLists),
      records.Sublist [.votedFor (some 3), .votedFor (some 4)] ∧
        records.foldl advance (.ok first) = .ok last := by
  obtain ⟨first, last, hhistory, hfirst, hlast⟩ := exists_votingHistory
  obtain ⟨records, hrecords, hstate⟩ := @read_after_sync Noraft.ofLists 1
    [.opened 64 (.ok ()), .answered (.createNode 1 ⟨true, ⟨"null"⟩⟩) (.ok .done)] []
    [.answered (.saveVotedFor 1 (some 3)) (.ok .done), .powerLoss (some (.saveVotedFor 1 (some 4))),
      .opened 64 (.ok ())] _ _ _ _ hhistory (List.cons_ne_nil _ _) fun _ hlabel ↦ by cases hlabel
  exact ⟨first, last, hfirst, hlast, records, hrecords, hstate⟩

end Sukari
