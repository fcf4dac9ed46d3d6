import Sukari.Folds
import Sukari.Frame

/-!
# The state that a history of records stands for

`recoveredState records` is the state that a node has after its records: the state of the last
checkpoint with the later records applied to it. Records before the last checkpoint do not matter,
and a replay of the whole history reaches the same state whenever it succeeds
(`recoveredState_of_foldlM`).
-/

set_option autoImplicit false
set_option relaxedAutoImplicit false

namespace Sukari

variable {N : Noraft}

/-- The records of a node among the records of all nodes, in the order in which they were
written. -/
def recordsOf (nodeId : NodeId) (written : List (NodeId × Record N)) : List (Record N) :=
  (written.filter (·.1 = nodeId)).map Prod.snd

/-- The last checkpoint, made into a state, with the records after it. -/
def recoveredState (records : List (Record N)) : Except IoError (NodeState N) :=
  match sinceLast Record.isCheckpoint records with
  | .snapshotCheckpoint checkpoint :: later => do
    let state ← checkpoint.intoState
    later.foldlM applyRecordToState state
  | records => records.foldlM applyRecordToState (.default N)

theorem resets_applyRecordToState :
    Resets Record.isCheckpoint (applyRecordToState : NodeState N → _ → _) := by
  intro record hrecord state state'
  cases record <;> first | rfl | simp [Record.isCheckpoint] at hrecord

theorem recoveredState_eq (records : List (Record N)) : recoveredState records =
    (sinceLast Record.isCheckpoint records).foldlM applyRecordToState (.default N) := by
  unfold recoveredState
  split
  · next checkpoint later heq =>
    rw [heq]
    rfl
  · rfl

/-- The records before a last checkpoint do not matter. -/
theorem recoveredState_append_cons {before after : List (Record N)} {record : Record N}
    (hrecord : record.isCheckpoint = true) (hafter : ∀ other ∈ after, other.isCheckpoint = false)
    (state : NodeState N) : recoveredState (before ++ record :: after) =
      (record :: after).foldlM applyRecordToState state := by
  rw [recoveredState_eq, sinceLast_append_cons hrecord hafter, List.foldlM_cons, List.foldlM_cons,
    resets_applyRecordToState record hrecord _ state]

/-- A replay of the whole history reaches the recovered state when it succeeds. -/
theorem recoveredState_of_foldlM {records : List (Record N)} {state result : NodeState N}
    (hcheckpoint : ∃ record ∈ records, record.isCheckpoint = true)
    (h : records.foldlM applyRecordToState state = .ok result) :
    recoveredState records = .ok result := by
  obtain ⟨before, record, after, rfl, hrecord, hafter⟩ := exists_last hcheckpoint
  rw [recoveredState_append_cons hrecord hafter state]
  exact resets_applyRecordToState.foldlM_eq hrecord h state

/-- The result of the plain history: the last checkpoint made into a state, with the records after
it applied in their order. -/
def PlainHistory (records : List (Record N)) (result : Except IoError (NodeState N)) : Prop :=
  ∃ before checkpoint later, records = before ++ .snapshotCheckpoint checkpoint :: later ∧
    (∀ record ∈ later, record.isCheckpoint = false) ∧ result = do
      let state ← checkpoint.intoState
      later.foldlM applyRecordToState state

theorem plainHistory_recoveredState {records : List (Record N)}
    (h : ∃ record ∈ records, record.isCheckpoint = true) :
    PlainHistory records (recoveredState records) := by
  obtain ⟨before, record, after, rfl, hrecord, hafter⟩ := exists_last h
  cases record with
  | snapshotCheckpoint checkpoint =>
    exact ⟨before, checkpoint, after, rfl, hafter,
      recoveredState_append_cons hrecord hafter (.default N)⟩
  | currentTerm | votedFor | append => nomatch hrecord

@[simp] theorem recordsOf_append (nodeId : NodeId) (first second : List (NodeId × Record N)) :
    recordsOf nodeId (first ++ second) = recordsOf nodeId first ++ recordsOf nodeId second := by
  simp [recordsOf]

end Sukari
