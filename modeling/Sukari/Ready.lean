import Sukari.Writing
import Sukari.ReadOnly

/-!
# The invariant of an open engine

`Ready opened engine ledger fs` relates an engine to the directory that it has open: its writer
stands at the end of the active segment, the registry file has the same active nodes as the registry
in memory, and the index in memory is the part of the index file about these nodes. From it follow
what the loads of the engine return and what garbage collection may remove.
-/

set_option autoImplicit false
set_option relaxedAutoImplicit false

namespace Sukari

open Effects

variable {N : Noraft} {opened ledger : Ledger N} {fs fs' : Fs} {engine : StorageEngine}

/-- The metadata in memory agrees with the files. -/
structure Documented (engine : StorageEngine) (fs : Fs) : Prop where
  registry : ∃ registry, NodeRegistry.ofFile fs.nodes.current = .ok registry ∧
    ∀ nodeId, registry.isActive nodeId = engine.registry.isActive nodeId
  index : ∃ index, CheckpointIndex.ofFile fs.checkpoints.current = .ok index ∧
    ∀ nodeId, engine.checkpointIndex.checkpointPosition nodeId =
      if engine.registry.isActive nodeId then index.checkpointPosition nodeId else none

theorem Documented.congr {engine' : StorageEngine} (h : Documented engine fs)
    (hdocuments : SameDocuments fs fs') (hregistry : engine'.registry = engine.registry)
    (hindex : engine'.checkpointIndex = engine.checkpointIndex) : Documented engine' fs' := by
  constructor
  · rw [hdocuments.nodes, hregistry]
    exact h.registry
  · rw [hdocuments.checkpoints, hregistry, hindex]
    exact h.index

/-- The invariant of an open engine. -/
structure Ready (opened : Ledger N) (engine : StorageEngine) (ledger : Ledger N) (fs : Fs) :
    Prop where
  state : WriterState opened ⟨engine.writer, engine.metrics⟩ ledger fs
  documented : Documented engine fs

namespace Documented

/-- An active node is anchored. -/
theorem anchored (h : Documented engine fs) (hrecoverable : Recoverable ledger.journal fs)
    {nodeId : NodeId} (hactive : engine.registry.isActive nodeId = true) :
    Anchored ledger.journal fs nodeId := by
  obtain ⟨registry, hregistry, hsame⟩ := h.registry
  exact hrecoverable.anchored registry nodeId ⟨_, .inl rfl, hregistry⟩ (by rw [hsame, hactive])

/-- An entry of the index marks a checkpoint of an active node in a segment that is there. -/
theorem marked (h : Documented engine fs) (hrecoverable : Recoverable ledger.journal fs)
    {nodeId : NodeId} {position : RecordPosition}
    (hposition : engine.checkpointIndex.checkpointPosition nodeId = some position) :
    engine.registry.isActive nodeId = true ∧ Marked ledger.journal fs nodeId position ∧
      position.segment ∈ fs.segments := by
  obtain ⟨registry, hregistry, hsame⟩ := h.registry
  obtain ⟨index, hindex, hentries⟩ := h.index
  rw [hentries] at hposition
  split at hposition
  · next hactive =>
    refine ⟨hactive, hrecoverable.marked index nodeId position ⟨_, .inl rfl, hindex⟩ hposition,
      hrecoverable.markedPresent registry index nodeId position ⟨_, .inl rfl, hregistry⟩
        ⟨_, .inl rfl, hindex⟩ (by rw [hsame, hactive]) hposition⟩
  · nomatch hposition

theorem hintsMarked (h : Documented engine fs) (hrecoverable : Recoverable ledger.journal fs) :
    HintsMarked ledger.journal engine.checkpointIndex := by
  intro nodeId position hposition
  obtain ⟨-, ⟨entry, hentry, hat⟩, -⟩ := h.marked hrecoverable hposition
  exact ⟨entry, hentry.mem, hentry.checkpoint, hat⟩

end Documented

/-- A writer has no incomplete frame in its directory. -/
theorem WriterState.whole {s : MeteredWriter} (h : WriterState opened s ledger fs) :
    Whole ledger.journal fs := by
  intro segment file frames hfile hframes
  have hstored := h.holds.recoverable.toStored
  have hlt := (List.getElem?_eq_some_iff.mp hframes).1
  rcases Nat.lt_or_eq_of_le (Nat.succ_le_of_lt hlt) with hsealed | hlast
  · exact (hstored.sealedFile segment file frames hfile hframes hsealed).bytes
  · obtain ⟨file', frames', hfile', hframes', hbytes, -⟩ := h.writer.file
    have hactive := h.writer.active
    obtain rfl : segment = s.writer.activeSegment := by omega
    rw [hfile', Option.some.injEq] at hfile
    rw [hframes', Option.some.injEq] at hframes
    rw [← hfile, ← hframes, hbytes]

/-- What a node has written so far stands for its recovered state. -/
theorem Ready.plainHistory (h : Ready opened engine ledger fs) {nodeId : NodeId}
    (hactive : engine.registry.isActive nodeId = true) :
    PlainHistory (recordsOf nodeId ledger.journal.written)
      (recoveredState (recordsOf nodeId ledger.journal.written)) := by
  obtain ⟨entry, hentry, -⟩ := h.documented.anchored h.state.holds.recoverable hactive
  exact plainHistory_recoveredState (exists_checkpoint_of_mem hentry.mem hentry.checkpoint)

/-! ### Loads -/

/-- A load changes nothing and gives the recovered state of an active node. -/
theorem refines_load (h : Ready opened engine ledger fs) (nodeId : NodeId) :
    (storage N).Refines (fun out ledger' fs' ↦ LoadsNode (engine.registry.isActive nodeId)
        (recoveredState (recordsOf nodeId ledger.journal.written)) out.1 ∧
        out.2 = engine ∧ ledger' = ledger ∧ fs' = fs)
      ((StorageEngine.load N nodeId).run engine) ledger fs := by
  have hrecoverable := h.state.holds.recoverable
  refine .bindMethod (.bindMethod (refines_get (refines_liftM ?_)))
  cases hactive : engine.registry.isActive nodeId with
  | false =>
    have hfails := ensureNodeExists_error hactive
    cases hexists : ensureNodeExists engine.registry nodeId with
    | ok value => exact absurd (hexists ▸ trivial) hfails
    | error error => exact ⟨not_false, rfl, rfl, rfl⟩
  | true =>
    rw [ensureNodeExists_eq_ok_iff.mpr hactive]
    have hwhole : true = true → Whole ledger.journal fs := fun _ ↦ h.state.whole
    refine .bindMethod (refines_get (refines_liftIo ((refines_sees h.state.holds
      (replayNodeState_recovered (t := 0) hrecoverable.toStored hwhole
        (h.documented.anchored hrecoverable hactive).anchoredIn
        (h.documented.hintsMarked hrecoverable) _)).mono ?_)))
    rintro result ledger' fs' ⟨rfl, rfl, -, rfl⟩
    exact ⟨rfl, rfl, rfl, rfl⟩

/-- Loading all nodes changes nothing and gives the recovered states of the active nodes. -/
theorem refines_loadAll (h : Ready opened engine ledger fs) :
    (storage N).Refines (fun out ledger' fs' ↦ LoadsAll engine.registry.activeNodeIds
        (fun nodeId ↦ recoveredState (recordsOf nodeId ledger.journal.written)) out.1 ∧
        out.2 = engine ∧ ledger' = ledger ∧ fs' = fs)
      ((StorageEngine.loadAll N).run engine) ledger fs := by
  have hrecoverable := h.state.holds.recoverable
  refine .bindMethod (refines_get ?_)
  cases hempty : engine.registry.activeNodeIds.isEmpty with
  | true =>
    simp only [hempty, if_true]
    have hnone := Std.ExtTreeSet.isEmpty_iff.mp hempty
    refine ⟨⟨fun nodeId hnode ↦ ?_, fun nodeId _ ↦ Std.ExtTreeMap.getElem?_empty⟩, rfl, rfl, rfl⟩
    simp [hnone] at hnode
  | false =>
    simp only [hempty]
    have hwhole : true = true → Whole ledger.journal fs := fun _ ↦ h.state.whole
    refine .bindMethod (refines_liftIo ((refines_sees h.state.holds
      (replayStorageDir_recovered (t := 0) hrecoverable.toStored hwhole hempty
        (fun nodeId hnode ↦ (h.documented.anchored hrecoverable
          (NodeRegistry.mem_activeNodeIds.mp hnode)).anchoredIn)
        (h.documented.hintsMarked hrecoverable) _)).mono ?_))
    rintro result ledger' fs' ⟨rfl, rfl, -, hloads⟩
    cases result with
    | ok replay => exact ⟨hloads, rfl, rfl, rfl⟩
    | error error => exact ⟨hloads, rfl, rfl, rfl⟩

end Sukari
