import Sukari.Runs

/-!
# Checkpoints as recovery points

A checkpoint that the engine has accepted replaces everything that it knew about the node, and older
segments may be collected. Loading the node right afterwards gives back exactly the checkpoint, on
the same engine or after reopening, if and only if the snapshot is not taken at the index zero of a
term other than zero (`load_after_saveSnapshot`). The validation of a checkpoint lets such a
snapshot through, but `SnapshotCheckpoint.intoState` refuses it, as its position is not in an empty
log and not after it.
-/

set_option autoImplicit false
set_option relaxedAutoImplicit false

namespace Sukari

open Effects

variable {N : Noraft} {fs : Fs}

/-- The state that stands for a checkpoint alone. -/
def SnapshotCheckpoint.state (checkpoint : SnapshotCheckpoint N) : NodeState N where
  currentTerm := checkpoint.currentTerm
  votedFor := checkpoint.votedFor
  log := N.newLog checkpoint.snapshot.config checkpoint.suffix.entries
  commandPayloads := checkpoint.suffix.commandPayloads
  snapshot := some checkpoint.snapshot

/-! ### Checkpoints made into states -/

/-- An empty log retains nothing after a snapshot, and it has no other position of index zero. -/
theorem retainedLogEntries_empty {position : LogPosition} :
    (position.index ≠ 0 ∨ position.term = 0 →
      retainedLogEntriesAfterSnapshot (N.newEntries .zero) position =
        .ok (N.newEntries position)) ∧
    (¬ (position.index ≠ 0 ∨ position.term = 0) →
      ¬ Succeeds (retainedLogEntriesAfterSnapshot (N.newEntries .zero) position)) := by
  have hpositions : N.prevPosition (N.newEntries .zero) ::
      positionsFrom (N.prevPosition (N.newEntries .zero)) (N.iter (N.newEntries .zero)) =
        [.zero] := by
    rw [N.prevPosition_new, N.iter_newEntries]
    rfl
  have hlast : N.lastPosition (N.newEntries .zero) = .zero := by
    rw [N.lastPosition_eq]
    simp only [hpositions, List.getLast_singleton]
  have hnotOlder : ¬ position.index < (N.prevPosition (N.newEntries .zero)).index := by
    rw [N.prevPosition_new]
    exact UInt64.not_lt_zero
  rw [retainedLogEntriesAfterSnapshot, if_neg hnotOlder, hlast]
  by_cases hzero : position = .zero
  · subst hzero
    obtain ⟨entries, hsince, hprev, hiter⟩ :=
      N.since_some (N.newEntries .zero) .zero (by simp [hpositions])
    rw [hsince]
    refine ⟨fun _ ↦ congrArg Except.ok (N.entries_ext _ _ ?_ ?_), fun h ↦ absurd (.inr rfl) h⟩
    · rw [hprev, N.prevPosition_new]
    · rw [hiter, N.iter_newEntries, List.drop_nil]
  · rw [N.since_none _ _ (by simpa [hpositions] using hzero)]
    by_cases hindex : position.index = 0
    · have hterm : position.term ≠ 0 := fun hterm ↦ hzero (by
        cases position
        simp_all [LogPosition.zero])
      refine ⟨fun h ↦ absurd h (by simp [hindex, hterm]), fun _ ↦ ?_⟩
      simp [hindex, LogPosition.zero, throw, throwThe, MonadExceptOf.throw, Succeeds]
    · have hpos : LogPosition.zero.index < position.index := UInt64.pos_iff_ne_zero.mpr hindex
      refine ⟨fun _ ↦ ?_, fun h ↦ absurd (.inl hindex) h⟩
      simp only [hpos, if_true]
      rfl

/-- A snapshot of an empty log and a suffix that starts at it. -/
theorem applyAppend_at_snapshot {state : NodeState N} {config : ClusterConfig}
    {append : LogAppend N} (hvalid : append.validate = .ok ())
    (hlog : state.log = N.newLog config (N.newEntries (N.prevPosition append.entries)))
    (hpayloads : state.commandPayloads = ∅) : state.applyAppend append =
      .ok { state with
        log := N.newLog config append.entries, commandPayloads := append.commandPayloads } := by
  obtain ⟨log, happend, hconfig, hprev, hiter⟩ := N.appendSuffix_some state.log append.entries
    (by rw [hlog, N.entries_new, N.prevPosition_new]; exact List.mem_cons_self)
  have hsame : log = N.newLog config append.entries := by
    refine N.log_ext _ _ ?_ (N.entries_ext _ _ ?_ ?_)
    · rw [hconfig, hlog, N.snapshotConfig_new, N.snapshotConfig_new]
    · rw [hprev, hlog, N.entries_new, N.entries_new, N.prevPosition_new]
    · rw [hiter, hlog, N.entries_new, N.entries_new, N.iter_newEntries, List.take_nil,
        List.nil_append]
  have hempty : (∅ : CommandPayloads).filter (fun index _ ↦
      decide (index ≤ (N.prevPosition append.entries).index)) ∪ append.commandPayloads =
        append.commandPayloads := by
    refine Std.ExtTreeMap.ext_getElem? fun index ↦ ?_
    rw [Std.ExtTreeMap.getElem?_union, Std.ExtTreeMap.getElem?_filter',
      Std.ExtTreeMap.getElem?_empty,
      Option.filter_none, Option.or_none]
  rw [NodeState.applyAppend, check_bind_eq_ok_iff]
  simp only [happend, hsame, hpayloads, hempty]
  exact ⟨hvalid, rfl⟩

/-- A valid checkpoint is the state that it stands for, unless its snapshot is at index zero of a
term that is not zero. -/
theorem intoState_of_validate {checkpoint : SnapshotCheckpoint N}
    (hvalid : checkpoint.validate = .ok ()) :
    checkpoint.intoState = .ok checkpoint.state ↔
      checkpoint.snapshot.lastIncluded.index ≠ 0 ∨ checkpoint.snapshot.lastIncluded.term = 0 := by
  obtain ⟨hsuffix, hstart⟩ := snapshotCheckpoint_validate_eq_ok_iff.mp hvalid
  have hentries : N.entries (NodeState.default N).log = N.newEntries .zero := N.entries_new _ _
  rw [SnapshotCheckpoint.intoState, check_bind_eq_ok_iff, bind_eq_ok_iff]
  simp only [NodeState.applySnapshot, NodeState.applyCurrentTerm, NodeState.applyVotedFor, hentries,
    bind_eq_ok_iff]
  by_cases hposition : checkpoint.snapshot.lastIncluded.index ≠ 0 ∨
      checkpoint.snapshot.lastIncluded.term = 0
  · refine ⟨fun _ ↦ hposition, fun _ ↦
      ⟨hvalid, _, ⟨_, retainedLogEntries_empty.1 hposition, rfl⟩, ?_⟩⟩
    rw [@applyAppend_at_snapshot N _ checkpoint.snapshot.config _ hsuffix (by rw [hstart]) rfl]
    rfl
  · refine ⟨?_, fun h ↦ absurd h hposition⟩
    rintro ⟨-, _, ⟨retained, hretained, -⟩, -⟩
    exact absurd (succeeds_iff.mpr ⟨retained, hretained⟩) (retainedLogEntries_empty.2 hposition)

/-! ### Loads after a checkpoint was saved -/

/-- Loads of the node return the checkpoint, by the engine and after reopening. -/
def LoadsBack (nodeId : NodeId) (checkpoint : SnapshotCheckpoint N) (engine : StorageEngine)
    (fs : Fs) : Prop :=
  (directory.run ((StorageEngine.load N nodeId).run engine) fs).1.1 = .ok checkpoint.state ∧
    ∀ maxSegmentLen, maxSegmentLen ≠ 0 → ∃ reopened fs',
      directory.run (StorageEngine.withMaxSegmentLen N maxSegmentLen).run fs = (.ok reopened, fs') ∧
        (directory.run ((StorageEngine.load N nodeId).run reopened) fs').1.1 = .ok checkpoint.state

/-- A node whose last record is a checkpoint recovers from the checkpoint alone. -/
theorem recoveredState_snoc_checkpoint (records : List (Record N))
    (checkpoint : SnapshotCheckpoint N) :
    recoveredState (records ++ [.snapshotCheckpoint checkpoint]) = checkpoint.intoState := by
  rw [recoveredState_append_cons rfl (by simp) (.default N), List.foldlM_cons]
  cases hstate : applyRecordToState (.default N) (.snapshotCheckpoint checkpoint) <;>
    simp only [applyRecordToState] at hstate <;> rw [hstate] <;> rfl

/-- An accepted checkpoint is loaded back unless its snapshot is at index zero of another term. -/
theorem load_after_saveSnapshot {written : List (NodeId × Record N)}
    {engine engine' : StorageEngine}
    {fs' : Fs} (h : Running N written engine fs) {nodeId : NodeId}
    {checkpoint : SnapshotCheckpoint N}
    (hsave : directory.run ((StorageEngine.saveSnapshot nodeId checkpoint).run engine) fs =
      ((.ok (), engine'), fs')) :
    LoadsBack nodeId checkpoint engine' fs' ↔
      checkpoint.snapshot.lastIncluded.index ≠ 0 ∨ checkpoint.snapshot.lastIncluded.term = 0 := by
  obtain ⟨opened, ledger, -, hready⟩ := h.ready
  obtain ⟨ledger', fsEnd, -, halike, hadds, hsaved⟩ :=
    run_of_refines (refines_saveSnapshot hready nodeId checkpoint)
  rw [hsave] at halike hadds hsaved
  obtain ⟨hvalid, hregistry, hactive⟩ := hsaved rfl
  have hready' := hadds.ready.of_alike halike
  rw [← hregistry] at hactive
  have hrecovered : recoveredState (recordsOf nodeId ledger'.journal.written) =
      checkpoint.intoState := by
    rw [hadds.written, recordsOf_append]
    simpa [recordsOf, acceptedRecords] using recoveredState_snoc_checkpoint _ checkpoint
  have hload := hready'.load nodeId
  rw [hactive, LoadsNode, if_pos rfl, hrecovered] at hload
  rw [← intoState_of_validate hvalid, LoadsBack, hload]
  refine ⟨fun hback ↦ hback.1, fun hstate ↦ ⟨hstate, fun maxSegmentLen hmax ↦ ?_⟩⟩
  obtain ⟨reopened, fsOpen, ledger'', hopen, hopens⟩ := hready'.state.holds.opens hmax
  refine ⟨reopened, fsOpen, hopen, ?_⟩
  have hreload := hopens.ready.load nodeId
  rw [hopens.isActive hready'.documented, hactive, LoadsNode, if_pos rfl, hopens.written,
    hrecovered] at hreload
  rw [hreload, hstate]

/-- A checkpoint that starts after the given position and has no log entries. -/
def checkpointAt (position : LogPosition) : SnapshotCheckpoint Noraft.ofLists where
  currentTerm := 5
  votedFor := some 1
  snapshot := { lastIncluded := position, config := .new, data := [] }
  suffix := { entries := Noraft.ofLists.newEntries position, commandPayloads := ∅ }

/-- The engine of an application that has created a node saves a checkpoint of the node. -/
theorem exists_saveSnapshot {position : LogPosition}
    {p : StorageEngine → Fs → Bool}
    (h : ((directory.run (performEvents creatingEvents .closed) .empty).1.engine.any fun engine ↦
      let saved := directory.run ((StorageEngine.saveSnapshot 1 (checkpointAt position)).run engine)
        (directory.run (performEvents creatingEvents .closed) .empty).2
      decide (saved.1.1 = .ok ()) && p saved.1.2 saved.2) = true) :
    ∃ written engine fs engine' fs', Running Noraft.ofLists written engine fs ∧
      directory.run ((StorageEngine.saveSnapshot 1 (checkpointAt position)).run engine) fs =
        ((.ok (), engine'), fs') ∧ p engine' fs' = true := by
  obtain ⟨engine, hengine, h⟩ := (Option.any_eq_true _ _).mp h
  simp only [Bool.and_eq_true, decide_eq_true_eq] at h
  exact ⟨_, engine, _, _, _, .intro .empty hengine, Prod.ext (Prod.ext h.1 rfl) rfl, h.2⟩

/-- A snapshot at index zero of term five is accepted, but the node does not load any more. -/
theorem load_after_saveSnapshot_refused : ∃ written engine fs engine' fs',
    Running Noraft.ofLists written engine fs ∧
      directory.run ((StorageEngine.saveSnapshot 1 (checkpointAt ⟨5, 0⟩)).run engine) fs =
        ((.ok (), engine'), fs') ∧ ¬ LoadsBack 1 (checkpointAt ⟨5, 0⟩) engine' fs' := by
  obtain ⟨written, engine, fs, engine', fs', hrunning, hsave, hload⟩ :=
    @exists_saveSnapshot ⟨5, 0⟩ (fun engine fs ↦ !decide (Succeeds
      (directory.run ((StorageEngine.load Noraft.ofLists 1).run engine) fs).1.1))
        (by decide +kernel)
  refine ⟨written, engine, fs, engine', fs', hrunning, hsave, fun hback ↦ ?_⟩
  rw [hback.1, Bool.not_eq_true', decide_eq_false_iff_not] at hload
  exact hload trivial

theorem load_after_saveSnapshot_five : ∃ written engine fs engine' fs',
    Running Noraft.ofLists written engine fs ∧
      directory.run ((StorageEngine.saveSnapshot 1 (checkpointAt ⟨5, 3⟩)).run engine) fs =
        ((.ok (), engine'), fs') ∧ (LoadsBack 1 (checkpointAt ⟨5, 3⟩) engine' fs' ↔
          (checkpointAt ⟨5, 3⟩).snapshot.lastIncluded.index ≠ 0 ∨
            (checkpointAt ⟨5, 3⟩).snapshot.lastIncluded.term = 0) := by
  obtain ⟨written, engine, fs, engine', fs', hrunning, hsave, -⟩ :=
    @exists_saveSnapshot ⟨5, 3⟩ (fun _ _ ↦ true) (by decide +kernel)
  exact ⟨written, engine, fs, engine', fs', hrunning, hsave, load_after_saveSnapshot hrunning hsave⟩

end Sukari
