import Sukari.Error
import Sukari.Noraft
import Std.Data.ExtTreeMap

/-!
# Records and node states

The values that the storage layer persists for a Raft node and the state that replay builds from
them. `applyRecordToState` applies one record to a state; a snapshot checkpoint replaces the state,
whatever it was, by the one that `SnapshotCheckpoint.intoState` builds from the checkpoint alone.
-/

set_option autoImplicit false
set_option relaxedAutoImplicit false

namespace Sukari

/-- `Bytes`: an application-defined byte payload. -/
abbrev Bytes := List UInt8

structure CommandPayload where
  tag : UInt8
  bytes : Bytes
  deriving DecidableEq

/-- `BTreeMap<noraft::LogIndex, CommandPayload>`. -/
abbrev CommandPayloads := Std.ExtTreeMap LogIndex CommandPayload

variable (N : Noraft)

/-- A persisted log append operation: log entries and the payloads of the command entries.
`validate` of the source goes through the entries, so it is not defined for entries behind the log
index `u64::MAX`, and no value of the source has them. Here it finds nothing wrong with them. -/
structure LogAppend where
  entries : N.LogEntries
  commandPayloads : CommandPayloads

structure Snapshot where
  lastIncluded : LogPosition
  config : ClusterConfig
  data : Bytes
  deriving DecidableEq

structure SnapshotCheckpoint where
  currentTerm : Term
  votedFor : Option NodeId
  snapshot : Snapshot
  suffix : LogAppend N

/-- Loaded persistent state of a Raft node. -/
structure NodeState where
  currentTerm : Term
  votedFor : Option NodeId
  log : N.Log
  commandPayloads : CommandPayloads
  snapshot : Option Snapshot

inductive Record
  | currentTerm (term : Term)
  | votedFor (votedFor : Option NodeId)
  | append (append : LogAppend N)
  | snapshotCheckpoint (checkpoint : SnapshotCheckpoint N)

variable {N}

/-- Every command entry has a payload, and every payload belongs to a command entry. -/
def LogAppend.validate (append : LogAppend N) : Except IoError Unit := do
  (N.iterWithPositions append.entries).forM fun (position, entry) ↦
    failIf (entry = .command ∧ ¬ append.commandPayloads.contains position.index)
      (invalidInput "missing command payload")
  append.commandPayloads.keys.forM fun index ↦
    failIf (N.getEntry append.entries index ≠ some .command)
      (invalidInput "command payload index does not match a command entry")

/-- `LogAppend::new`. -/
def LogAppend.new (entries : N.LogEntries) (commandPayloads : CommandPayloads) :
    Except IoError (LogAppend N) := do
  let this : LogAppend N := ⟨entries, commandPayloads⟩
  this.validate
  return this

def SnapshotCheckpoint.validate (checkpoint : SnapshotCheckpoint N) : Except IoError Unit := do
  checkpoint.suffix.validate
  failIf (N.prevPosition checkpoint.suffix.entries ≠ checkpoint.snapshot.lastIncluded)
    (invalidInput "checkpoint suffix must start at the snapshot position")

variable (N) in
/-- `NodeState::default`. -/
def NodeState.default : NodeState N where
  currentTerm := 0
  votedFor := none
  log := N.newLog .new (N.newEntries .zero)
  commandPayloads := ∅
  snapshot := none

def retainedLogEntriesAfterSnapshot (entries : N.LogEntries) (snapshotPosition : LogPosition) :
    Except IoError N.LogEntries :=
  if snapshotPosition.index < (N.prevPosition entries).index then
    throw (invalidData "snapshot is older than the current snapshot")
  else
    match N.since entries snapshotPosition with
    | some entries => return entries
    | none =>
      if (N.lastPosition entries).index < snapshotPosition.index then
        return N.newEntries snapshotPosition
      else
        throw (invalidData "snapshot position conflicts with local log")

namespace NodeState

def applyCurrentTerm (state : NodeState N) (term : Term) : NodeState N :=
  { state with currentTerm := term }

def applyVotedFor (state : NodeState N) (votedFor : Option NodeId) : NodeState N :=
  { state with votedFor := votedFor }

/-- `NodeState::apply_append_owned`. -/
def applyAppend (state : NodeState N) (append : LogAppend N) : Except IoError (NodeState N) := do
  append.validate
  let prevIndex := (N.prevPosition append.entries).index
  let (found, log) := N.appendSuffix state.log append.entries
  failIf (¬ found) (invalidData "append anchor does not exist in local log")
  return { state with
    log := log
    commandPayloads :=
      (state.commandPayloads.filter fun index _ ↦ index ≤ prevIndex) ∪ append.commandPayloads }

def applySnapshot (state : NodeState N) (snapshot : Snapshot) : Except IoError (NodeState N) := do
  let entries ← retainedLogEntriesAfterSnapshot (N.entries state.log) snapshot.lastIncluded
  return { state with
    commandPayloads :=
      state.commandPayloads.filter fun index _ ↦ snapshot.lastIncluded.index < index
    log := N.newLog snapshot.config entries
    snapshot := some snapshot }

end NodeState

/-- `SnapshotCheckpoint::into_state`. -/
def SnapshotCheckpoint.intoState (checkpoint : SnapshotCheckpoint N) :
    Except IoError (NodeState N) := do
  checkpoint.validate
  let state := ((NodeState.default N).applyCurrentTerm checkpoint.currentTerm).applyVotedFor
    checkpoint.votedFor
  let state ← state.applySnapshot checkpoint.snapshot
  state.applyAppend checkpoint.suffix

variable (N) in
/-- `initial_checkpoint`. -/
def initialCheckpoint : SnapshotCheckpoint N where
  currentTerm := 0
  votedFor := none
  snapshot := { lastIncluded := .zero, config := .new, data := [] }
  suffix := { entries := N.newEntries .zero, commandPayloads := ∅ }

def applyRecordToState (state : NodeState N) : Record N → Except IoError (NodeState N)
  | .currentTerm term => return state.applyCurrentTerm term
  | .votedFor votedFor => return state.applyVotedFor votedFor
  | .append append => state.applyAppend append
  | .snapshotCheckpoint checkpoint => checkpoint.intoState

def Record.isCheckpoint : Record N → Bool
  | .snapshotCheckpoint _ => true
  | _ => false

/-! ### What the checks accept -/

theorem logAppend_validate_eq_ok_iff {append : LogAppend N} :
    append.validate = .ok () ↔
      (∀ item ∈ N.iterWithPositions append.entries, item.2 = .command →
        item.1.index ∈ append.commandPayloads) ∧
      ∀ index ∈ append.commandPayloads, N.getEntry append.entries index = some .command := by
  simp only [LogAppend.validate, bind_eq_ok_iff, forM_eq_ok_iff, failIf_eq_ok_iff, exists_const,
    Std.ExtTreeMap.mem_keys]
  simp

/-- A valid append has payloads for its command entries and no other ones. -/
theorem logAppend_validate_iff_getEntry {append : LogAppend N} :
    append.validate = .ok () ↔ ∀ index, index ∈ append.commandPayloads ↔
      N.getEntry append.entries index = some .command := by
  rw [logAppend_validate_eq_ok_iff]
  constructor
  · rintro ⟨hentries, hpayloads⟩ index
    refine ⟨hpayloads index, fun hentry ↦ ?_⟩
    obtain ⟨position, rfl, hmem⟩ := Noraft.getEntry_eq_some_iff.mp hentry
    exact hentries _ hmem rfl
  · refine fun h ↦ ⟨fun item hitem hcommand ↦ (h _).mpr ?_, fun index ↦ (h index).mp⟩
    exact Noraft.getEntry_eq_some_iff.mpr ⟨item.1, rfl, hcommand ▸ hitem⟩

theorem logAppend_validate_error {append : LogAppend N} {error : IoError}
    (h : append.validate = .error error) : error.kind = .invalidInput := by
  simp only [LogAppend.validate, bind_eq_error_iff] at h
  rcases h with h | ⟨_, -, h⟩
  · obtain ⟨item, -, h⟩ := exists_of_forM_eq_error h
    rw [← (failIf_eq_error_iff.mp h).2]
    rfl
  · obtain ⟨index, -, h⟩ := exists_of_forM_eq_error h
    rw [← (failIf_eq_error_iff.mp h).2]
    rfl

theorem snapshotCheckpoint_validate_eq_ok_iff {checkpoint : SnapshotCheckpoint N} :
    checkpoint.validate = .ok () ↔ checkpoint.suffix.validate = .ok () ∧
      N.prevPosition checkpoint.suffix.entries = checkpoint.snapshot.lastIncluded := by
  simp [SnapshotCheckpoint.validate, check_bind_eq_ok_iff]

theorem snapshotCheckpoint_validate_error {checkpoint : SnapshotCheckpoint N} {error : IoError}
    (h : checkpoint.validate = .error error) : error.kind = .invalidInput := by
  simp only [SnapshotCheckpoint.validate, bind_eq_error_iff] at h
  rcases h with h | ⟨_, -, h⟩
  · exact logAppend_validate_error h
  · rw [← (failIf_eq_error_iff.mp h).2]
    rfl

/-- The suffix of the initial checkpoint is valid, as the source expects when it builds it. -/
theorem initialCheckpoint_validate : (initialCheckpoint N).validate = .ok () := by
  rw [snapshotCheckpoint_validate_eq_ok_iff, logAppend_validate_eq_ok_iff]
  simp [initialCheckpoint, Noraft.iterWithPositions, N.iter_newEntries, N.prevPosition_new]

end Sukari
