import Sukari.Garbage

/-!
# What the calls of an engine do

Every call keeps the invariant of the engine, and it adds to the journal the record that it accepts
and no other one (`refines_call`). A call that saves a checkpoint writes and syncs the record before
it replaces the index, and a call that creates a node replaces the index before the registry.
-/

set_option autoImplicit false
set_option relaxedAutoImplicit false

namespace Sukari

open Effects

variable {N : Noraft} {opened ledger : Ledger N} {fs fs' : Fs} {engine : StorageEngine}

/-! ### Replacing the metadata files -/

/-- The entries of the index mark durable checkpoints in segments that are there. -/
def IndexMarked (journal : Journal N) (fs : Fs) (index : CheckpointIndex) : Prop :=
  ∀ (nodeId : NodeId) (position : RecordPosition), index.checkpointPosition nodeId = some position →
    Marked journal fs nodeId position ∧ position.segment ∈ fs.segments

/-- The numbers of a position in a segment that is there are `u64` values. -/
theorem Stored.position_lt {journal : Journal N} (h : Stored journal fs) {entry : Entry N}
    (hentry : entry ∈ journal.entries) (hpresent : entry.position.segment ∈ fs.segments) :
    entry.position.segment < 2 ^ 64 ∧ entry.position.offset < 2 ^ 64 := by
  refine ⟨(h.present _ hpresent).trans_le h.length_le, ?_⟩
  obtain ⟨file, hfile⟩ := mem_iff_exists_getElem?.mp hpresent
  obtain ⟨frames, hframes, hcontents⟩ := h.contents hfile
  have hplaced := Journal.mem_entries.mp hentry
  rw [Journal.inSegment, hframes, Option.getD_some] at hplaced
  have hend := (offset_of_mem_placedFrom hplaced).2
  have hlength := length_le_of_contents hcontents fun hempty ↦ by
    simp [hempty, placedFrom] at hplaced
  have hbounded := h.bounded _ file hfile
  rw [maxFileLen] at hbounded
  omega

theorem CheckpointIndex.ofFile_format {index : CheckpointIndex}
    (h : ∀ (nodeId : NodeId) (position : RecordPosition), index.nodes[nodeId]? = some position →
      position.segment < 2 ^ 64 ∧ position.offset < 2 ^ 64) :
    ofFile (some (formatCheckpointIndex index)) = .ok index := by
  rw [ofFile, parseCheckpointIndex_format h]
  rfl

theorem NodeRegistry.ofFile_format (registry : NodeRegistry) :
    ofFile (some (formatNodeRegistry registry)) = .ok registry.reloaded := by
  rw [ofFile, parseNodeRegistry_format]
  rfl

/-- The index file after it was saved. -/
structure SavedIndex (index : CheckpointIndex) (fs fs' : Fs) : Prop where
  file : CheckpointIndex.ofFile fs'.checkpoints.current = .ok index
  nodes : fs'.nodes.current = fs.nodes.current
  segments : ∀ segment, segment ∈ fs'.segments ↔ segment ∈ fs.segments
  durable : DocumentsDurable fs'

/-- The registry file after it was saved. -/
structure SavedRegistry (registry : NodeRegistry) (fs fs' : Fs) : Prop where
  file : NodeRegistry.ofFile fs'.nodes.current = .ok registry.reloaded
  checkpoints : fs'.checkpoints.current = fs.checkpoints.current
  segments : ∀ segment, segment ∈ fs'.segments ↔ segment ∈ fs.segments
  durable : DocumentsDurable fs'

/-- The file returns an index whose entries mark checkpoints. -/
theorem IndexMarked.ofFile_format {journal : Journal N} {index : CheckpointIndex}
    (h : IndexMarked journal fs index) (hstored : Stored journal fs) :
    CheckpointIndex.ofFile (some (formatCheckpointIndex index)) = .ok index :=
  CheckpointIndex.ofFile_format fun nodeId position hposition ↦ by
    obtain ⟨⟨entry, hentry, rfl⟩, hpresent⟩ := h nodeId position hposition
    exact hstored.position_lt hentry.mem hpresent

theorem refines_saveIndex {s : MeteredWriter} {index : CheckpointIndex}
    (h : WriterState opened s ledger fs) (hindex : IndexMarked ledger.journal fs index) :
    (storage N).Refines (fun result ledger' fs' ↦ result = .ok () ∧ ledger' = ledger ∧
        WriterState opened s ledger fs' ∧ SavedIndex index fs fs')
      index.save.run ledger fs := by
  have hfile := hindex.ofFile_format h.holds.recoverable.toStored
  have hwriter : WriterAt s.writer ledger.journal
      (fs.replaceJson .checkpoints (formatCheckpointIndex index)) :=
    h.writer.congr fun _ hfile _ ↦ hfile
  have hholds : ledger.Holds (fs.replaceJson .checkpoints (formatCheckpointIndex index)) :=
    h.holds.of_segments_eq (h.holds.recoverable.replaceCheckpoints hfile
      (fun nodeId position hposition ↦ (hindex nodeId position hposition).1)
      fun _ nodeId position _ _ hposition ↦ (hindex nodeId position hposition).2) rfl
  refine .bindExcept (refines_io ledger nofun rfl hholds (refines_syncDir hholds fun hsynced ↦ ?_))
  exact ⟨rfl, rfl, ⟨hsynced, hwriter.syncDir, h.gauges⟩, hfile, rfl,
    fun segment ↦ Fs.mem_syncDir, rfl, rfl⟩

theorem refines_saveRegistry {s : MeteredWriter} {registry : NodeRegistry}
    (h : WriterState opened s ledger fs)
    (hanchored : ∀ nodeId, registry.isActive nodeId = true → Anchored ledger.journal fs nodeId)
    (hpresent : ∀ (index : CheckpointIndex) (nodeId : NodeId) (position : RecordPosition),
      fs.HasIndex index → registry.isActive nodeId = true →
      index.nodes[nodeId]? = some position → position.segment ∈ fs.segments) :
    (storage N).Refines (fun result ledger' fs' ↦ result = .ok () ∧ ledger' = ledger ∧
        WriterState opened s ledger fs' ∧ SavedRegistry registry fs fs')
      registry.save.run ledger fs := by
  have hfile := NodeRegistry.ofFile_format registry
  have hwriter :
      WriterAt s.writer ledger.journal (fs.replaceJson .nodes (formatNodeRegistry registry)) :=
    h.writer.congr fun _ hfile _ ↦ hfile
  have hholds : ledger.Holds (fs.replaceJson .nodes (formatNodeRegistry registry)) :=
    h.holds.of_segments_eq (h.holds.recoverable.replaceNodes hfile
      (fun nodeId hactive ↦ hanchored nodeId (by simpa using hactive))
      fun index nodeId position hindex hactive hposition ↦
        hpresent index nodeId position hindex (by simpa using hactive) hposition) rfl
  refine .bindExcept (refines_io ledger nofun rfl hholds (refines_syncDir hholds fun hsynced ↦ ?_))
  exact ⟨rfl, rfl, ⟨hsynced, hwriter.syncDir, h.gauges⟩, hfile, rfl,
    fun segment ↦ Fs.mem_syncDir, rfl, rfl⟩

/-! ### Calls that write records -/

theorem refines_onWriter {α γ : Type} {R : Refinement directory γ} {g : γ} {action : WriterM α}
    {Q : Except IoError α × StorageEngine → γ → Fs → Prop}
    (h : R.Refines (fun out g' fs' ↦
        Q (out.1, { engine with writer := out.2.writer, metrics := out.2.metrics }) g' fs')
      (action.run ⟨engine.writer, engine.metrics⟩) g fs) :
    R.Refines Q ((StorageEngine.onWriter action).run engine) g fs :=
  .bind h

/-- A method of the writer leaves the metadata as it is. -/
theorem Ready.onWriter {s : MeteredWriter} {ledger' : Ledger N} (h : Ready opened engine ledger fs)
    (hstate : WriterState opened s ledger' fs') (hdocuments : SameDocuments fs fs') :
    Ready opened { engine with writer := s.writer, metrics := s.metrics } ledger' fs' :=
  ⟨hstate, h.documented.congr hdocuments rfl rfl⟩

/-- The last entry is the one of a record that was just written and synced. -/
structure Recorded (nodeId : NodeId) (record : Record N) (position : RecordPosition)
    (ledger : Ledger N) (fs : Fs) : Prop where
  active : position.segment + 1 = ledger.journal.length
  entry : ∃ frame : Frame N, frame.nodeRecord = (nodeId, record) ∧
    [⟨position, frame⟩] <:+ ledger.journal.entries ∧ Durable ledger.journal fs ⟨position, frame⟩

theorem refines_onWriterAppend (h : Ready opened engine ledger fs) (nodeId : NodeId)
    (record : Record N) :
    (storage N).Refines (fun out ledger' fs' ↦ Ready opened out.2 ledger' fs' ∧
        out.2.registry = engine.registry ∧ out.2.checkpointIndex = engine.checkpointIndex ∧
        match out.1 with
        | .ok position =>
          ledger'.journal.written = ledger.journal.written ++ [(nodeId, record)] ∧
            out.2.metrics.Pending ∧ position.segment + 1 = ledger'.journal.length ∧
            ∃ frame : Frame N, frame.nodeRecord = (nodeId, record) ∧
              [⟨position, frame⟩] <:+ ledger'.journal.entries
        | .error _ => ledger'.journal.written = ledger.journal.written)
      ((StorageEngine.onWriter (SegmentWriter.append nodeId record)).run engine) ledger fs := by
  refine refines_onWriter ((refines_append h.state nodeId record).mono ?_)
  rintro ⟨result, s⟩ ledger' fs' ⟨hstate, hdocuments, hresult⟩
  exact ⟨h.onWriter hstate hdocuments, rfl, rfl, hresult⟩

/-- A call that writes a record, syncs it and goes on. -/
theorem refines_record {nodeId : NodeId} {record : Record N} {rest : RecordPosition → EngineM Unit}
    {Q : Except IoError Unit × StorageEngine → Ledger N → Fs → Prop}
    (h : Ready opened engine ledger fs)
    (hfails : ∀ error engine' ledger' fs', Ready opened engine' ledger' fs' →
      ledger'.journal.written = ledger.journal.written → Q (.error error, engine') ledger' fs')
    (hrest : ∀ position engine' ledger' fs', Ready opened engine' ledger' fs' →
      engine'.registry = engine.registry → engine'.checkpointIndex = engine.checkpointIndex →
      ledger'.journal.written = ledger.journal.written ++ [(nodeId, record)] →
      Recorded nodeId record position ledger' fs' →
      (storage N).Refines Q ((rest position).run engine') ledger' fs') :
    (storage N).Refines Q ((do
      let position ← StorageEngine.onWriter (SegmentWriter.append nodeId record)
      StorageEngine.onWriter SegmentWriter.sync
      rest position : EngineM Unit).run engine) ledger fs := by
  refine .bindMethod ((refines_onWriterAppend h nodeId record).mono ?_)
  rintro ⟨result, engine'⟩ ledger' fs' ⟨hready, hregistry, hindex, hresult⟩
  cases result with
  | error error => exact hfails error engine' ledger' fs' hready hresult
  | ok position =>
    obtain ⟨hwritten, hpending, hactive, frame, hframe, hentry⟩ := hresult
    refine .bindMethod (refines_onWriter ((refines_sync hready.state).mono ?_))
    rintro ⟨result, s⟩ ledger'' fs'' ⟨rfl, ⟨-, rfl⟩ | ⟨hnone, -⟩, hstate, hdocuments⟩
    · refine hrest position _ _ _ (hready.onWriter hstate hdocuments) hregistry hindex hwritten
        ⟨hactive, frame, hframe, hentry, hstate.holds.durable _ ?_⟩
      rw [Ledger.sync, List.take_length]
      exact hentry.subset (List.mem_singleton_self _)
    · exact absurd hpending hnone

/-- A recorded checkpoint anchors its node. -/
theorem Recorded.durableCheckpoint {nodeId : NodeId} {checkpoint : SnapshotCheckpoint N}
    {position : RecordPosition}
    (h : Recorded nodeId (.snapshotCheckpoint checkpoint) position ledger fs) :
    ∃ entry, DurableCheckpoint ledger.journal fs nodeId entry ∧ entry.position = position := by
  obtain ⟨frame, hframe, hentry, hdurable⟩ := h.entry
  refine ⟨_, ⟨hentry.subset (List.mem_singleton_self _), ?_, hdurable⟩, rfl⟩
  have hnode : frame.nodeId = nodeId := congrArg Prod.fst hframe
  have hrecord : frame.record = .snapshotCheckpoint checkpoint := congrArg Prod.snd hframe
  simp [Entry.isCheckpointOf, hnode, hrecord, Record.isCheckpoint]

/-- The index with the entry of a recorded checkpoint. -/
theorem Recorded.indexMarked {nodeId : NodeId} {checkpoint : SnapshotCheckpoint N}
    {position : RecordPosition} (h : Ready opened engine ledger fs)
    (hrecorded : Recorded nodeId (.snapshotCheckpoint checkpoint) position ledger fs) :
    IndexMarked ledger.journal fs
      (engine.checkpointIndex.setCheckpointPosition nodeId position) := by
  have hrecoverable := h.state.holds.recoverable
  intro other position' hposition
  rw [CheckpointIndex.checkpointPosition_setCheckpointPosition] at hposition
  split at hposition
  · next hsame =>
    subst hsame
    rw [← Option.some.inj hposition]
    exact ⟨hrecorded.durableCheckpoint, hrecoverable.active _ hrecorded.active⟩
  · exact (h.documented.marked hrecoverable hposition).2

/-! ### The calls -/

/-- The records of a call, if the call has accepted them. -/
def acceptedRecords {α : Type} (records : List (NodeId × Record N)) :
    Except IoError α → List (NodeId × Record N)
  | .ok _ => records
  | .error _ => []

@[simp] theorem acceptedRecords_nil {α : Type} (result : Except IoError α) :
    acceptedRecords ([] : List (NodeId × Record N)) result = [] := by cases result <;> rfl

/-- A call keeps the invariant, and it adds the records to the journal if it succeeds. -/
structure Adds (records : List (NodeId × Record N)) (opened ledger : Ledger N)
    (out : Except IoError Unit × StorageEngine) (ledger' : Ledger N) (fs' : Fs) : Prop where
  ready : Ready opened out.2 ledger' fs'
  written : ledger'.journal.written = ledger.journal.written ++ acceptedRecords records out.1

theorem Ready.adds_error {error : IoError} {ledger' : Ledger N}
    (h : Ready opened engine ledger' fs')
    (hwritten : ledger'.journal.written = ledger.journal.written)
    (records : List (NodeId × Record N)) :
    Adds records opened ledger (.error error, engine) ledger' fs' :=
  ⟨h, by rw [hwritten, acceptedRecords, List.append_nil]⟩

theorem refines_ensureNodeExists {γ : Type} {R : Refinement directory γ} {g : γ} {nodeId : NodeId}
    {Q : Except IoError Unit × StorageEngine → γ → Fs → Prop}
    (hfails : ∀ error, Q (.error error, engine) g fs)
    (h : engine.registry.isActive nodeId = true → Q (.ok (), engine) g fs) :
    R.Refines Q ((StorageEngine.ensureNodeExists nodeId).run engine) g fs := by
  refine .bindMethod (refines_get (refines_liftM ?_))
  cases hexists : ensureNodeExists engine.registry nodeId with
  | error error => exact hfails error
  | ok value => exact h (ensureNodeExists_eq_ok_iff.mp hexists)

theorem refines_saveRecord (h : Ready opened engine ledger fs) (nodeId : NodeId)
    (record : Record N) :
    (storage N).Refines (Adds [(nodeId, record)] opened ledger)
      ((StorageEngine.saveRecord nodeId record).run engine) ledger fs := by
  refine .bindMethod (refines_ensureNodeExists (fun error ↦ h.adds_error rfl _) fun _ ↦ ?_)
  refine .bindMethod ((refines_onWriterAppend h nodeId record).mono ?_)
  rintro ⟨result, engine'⟩ ledger' fs' ⟨hready, -, -, hresult⟩
  cases result with
  | error error => exact hready.adds_error hresult _
  | ok position => exact ⟨hready, hresult.1⟩

theorem refines_engineSync (h : Ready opened engine ledger fs) :
    (storage N).Refines (fun out ledger' fs' ↦ out.1 = .ok () ∧ Ready opened out.2 ledger' fs' ∧
        (engine.metrics.Pending ∧ ledger' = ledger.sync ∨
          ¬ engine.metrics.Pending ∧ ledger' = ledger ∧ fs' = fs))
      (StorageEngine.sync.run engine) ledger fs := by
  refine refines_onWriter ((refines_sync h.state).mono ?_)
  rintro ⟨result, s⟩ ledger' fs' ⟨rfl, hsynced, hstate, hdocuments⟩
  exact ⟨rfl, h.onWriter hstate hdocuments, hsynced⟩

/-- The index was saved and the engine takes it over. -/
theorem Ready.saveIndex {engine' : StorageEngine} (h : Ready opened engine ledger fs)
    (hstate : WriterState opened ⟨engine.writer, engine.metrics⟩ ledger fs')
    (hsaved : SavedIndex engine'.checkpointIndex fs fs')
    (hwriter : engine'.writer = engine.writer) (hmetrics : engine'.metrics = engine.metrics)
    (hregistry : engine'.registry = engine.registry)
    (hactive : ∀ nodeId position, engine'.checkpointIndex.checkpointPosition nodeId =
      some position →
      engine.registry.isActive nodeId = true) : Ready opened engine' ledger fs' := by
  refine ⟨by rwa [hwriter, hmetrics], ⟨?_, _, hsaved.file, fun nodeId ↦ ?_⟩⟩
  · rw [hsaved.nodes, hregistry]
    exact h.documented.registry
  · rw [hregistry]
    split
    · rfl
    · next hinactive =>
      cases hposition : engine'.checkpointIndex.checkpointPosition nodeId with
      | none => rfl
      | some position => exact absurd (hactive nodeId position hposition) hinactive

namespace StorageEngine

/-- What `saveSnapshot` does before it collects garbage. -/
def saveCheckpoint (nodeId : NodeId) (checkpoint : SnapshotCheckpoint N) : EngineM Unit := do
  ensureNodeExists nodeId
  (checkpoint.validate : Except IoError Unit)
  let position ← onWriter (SegmentWriter.append nodeId (.snapshotCheckpoint checkpoint))
  onWriter SegmentWriter.sync
  let checkpointIndex := (← get).checkpointIndex.setCheckpointPosition nodeId position
  liftIo checkpointIndex.save
  modify fun engine ↦ { engine with checkpointIndex := checkpointIndex }

theorem saveSnapshot_eq (nodeId : NodeId) (checkpoint : SnapshotCheckpoint N) :
    saveSnapshot nodeId checkpoint =
      (saveCheckpoint nodeId checkpoint >>= fun _ ↦ collectGarbage) := by
  simp only [saveSnapshot, saveCheckpoint, bind_assoc]

/-- What `removeNode` does before it collects garbage. -/
def unregisterNode (nodeId : NodeId) : EngineM Unit := do
  ensureNodeExists nodeId
  let registry ← liftM ((← get).registry.removeNode nodeId)
  liftIo registry.save
  modify fun engine ↦ { engine with registry := registry }
  let checkpointIndex := (← get).checkpointIndex.removeNode nodeId
  liftIo checkpointIndex.save
  modify fun engine ↦ { engine with checkpointIndex := checkpointIndex }

theorem removeNode_eq (nodeId : NodeId) :
    removeNode nodeId = (unregisterNode nodeId >>= fun _ ↦ collectGarbage) := by
  simp only [removeNode, unregisterNode, bind_assoc]

end StorageEngine

theorem refines_saveCheckpoint (h : Ready opened engine ledger fs) (nodeId : NodeId)
    (checkpoint : SnapshotCheckpoint N) :
    (storage N).Refines (fun out ledger' fs' ↦
        Adds [(nodeId, .snapshotCheckpoint checkpoint)] opened ledger out ledger' fs' ∧
        (out.1 = .ok () → DocumentsDurable fs' ∧ checkpoint.validate = .ok () ∧
          out.2.registry = engine.registry ∧ engine.registry.isActive nodeId = true))
      ((StorageEngine.saveCheckpoint nodeId checkpoint).run engine) ledger fs := by
  refine .bindMethod (refines_ensureNodeExists
    (fun error ↦ ⟨h.adds_error rfl _, nofun⟩) fun hactive ↦ ?_)
  refine .bindMethod (refines_liftM ?_)
  cases hvalid : checkpoint.validate with
  | error error => exact ⟨h.adds_error rfl _, nofun⟩
  | ok value =>
    refine refines_record h (fun error engine' ledger' fs' hready hwritten ↦
      ⟨hready.adds_error hwritten _, nofun⟩) ?_
    intro position engine' ledger' fs' hready hregistry hindex hwritten hrecorded
    have hmarked := hrecorded.indexMarked hready
    refine .bindMethod (refines_get (.bindMethod (refines_liftIo
      ((refines_saveIndex hready.state hmarked).mono ?_))))
    rintro _ ledger' fs'' ⟨rfl, rfl, hstate, hsaved⟩
    refine refines_modify ?_
    have hsavedReady : Ready opened { engine' with checkpointIndex :=
        engine'.checkpointIndex.setCheckpointPosition nodeId position } ledger' fs'' := by
      refine hready.saveIndex hstate hsaved rfl rfl rfl fun other position' hposition ↦ ?_
      rw [CheckpointIndex.checkpointPosition_setCheckpointPosition] at hposition
      split at hposition
      · next hsame => rw [← hsame, hregistry, hactive]
      · exact (hready.documented.marked hready.state.holds.recoverable hposition).1
    exact ⟨⟨hsavedReady, hwritten⟩, fun _ ↦ ⟨hsaved.durable, rfl, hregistry, hactive⟩⟩

theorem refines_saveSnapshot (h : Ready opened engine ledger fs) (nodeId : NodeId)
    (checkpoint : SnapshotCheckpoint N) :
    (storage N).Refines (fun out ledger' fs' ↦
        Adds [(nodeId, .snapshotCheckpoint checkpoint)] opened ledger out ledger' fs' ∧
        (out.1 = .ok () → checkpoint.validate = .ok () ∧
          out.2.registry = engine.registry ∧ engine.registry.isActive nodeId = true))
      ((StorageEngine.saveSnapshot nodeId checkpoint).run engine) ledger fs := by
  rw [StorageEngine.saveSnapshot_eq]
  refine .bindMethod ((refines_saveCheckpoint h nodeId checkpoint).mono ?_)
  rintro ⟨result, engine'⟩ ledger' fs' ⟨hadds, hsaved⟩
  cases result with
  | error error => exact ⟨hadds, nofun⟩
  | ok value =>
    obtain ⟨hdurable, hvalid, hregistry, hactive⟩ := hsaved rfl
    refine (refines_collectGarbage hadds.ready hdurable).mono ?_
    rintro _ ledger' fsEnd ⟨rfl, rfl, hfinal, -⟩
    exact ⟨⟨hfinal, hadds.written⟩, fun _ ↦ ⟨hvalid, hregistry, hactive⟩⟩

theorem DocumentsDurable.index_eq (h : DocumentsDurable fs) {index index' : CheckpointIndex}
    (hfile : CheckpointIndex.ofFile fs.checkpoints.current = .ok index)
    (hindex : fs.HasIndex index') : index' = index := by
  obtain ⟨document, hholds, hdocument⟩ := hindex
  have hcurrent : document = fs.checkpoints.current := by
    rcases hholds with hholds | hholds
    · exact hholds
    · exact hholds.trans h.checkpoints
  rw [hcurrent, hfile, Except.ok.injEq] at hdocument
  exact hdocument.symm

/-- A node is anchored at a checkpoint in the active segment. -/
theorem Marked.anchored {journal : Journal N} {nodeId : NodeId} {position : RecordPosition}
    (h : Marked journal fs nodeId position) (hactive : position.segment + 1 = journal.length)
    (hpresent : position.segment ∈ fs.segments) : Anchored journal fs nodeId := by
  obtain ⟨entry, hentry, rfl⟩ := h
  refine ⟨entry, hentry, fun segment hsegment hlength ↦ ?_⟩
  obtain rfl : segment = entry.position.segment := by omega
  exact hpresent

section SaveCreated

variable {nodeId : NodeId} {metadata : NodeMetadata} {registry : NodeRegistry}
  {checkpoint : SnapshotCheckpoint N} {position : RecordPosition} {s : MeteredWriter}

/-- With the entry of a recorded checkpoint in the index file, the registry may have the node. -/
theorem Recorded.anchored (h : Ready opened engine ledger fs)
    (hcreated : engine.registry.createNode nodeId metadata = .ok registry)
    (hrecorded : Recorded nodeId (.snapshotCheckpoint checkpoint) position ledger fs)
    (hstate : WriterState opened s ledger fs')
    (hsaved : SavedIndex (engine.checkpointIndex.setCheckpointPosition nodeId position) fs fs')
    (other : NodeId) (hactive : registry.isActive other = true) :
    Anchored ledger.journal fs' other := by
  have hposition : (engine.checkpointIndex.setCheckpointPosition nodeId position).nodes[nodeId]? =
      some position :=
    (CheckpointIndex.checkpointPosition_setCheckpointPosition _ _ _ _).trans (if_pos rfl)
  rw [NodeRegistry.isActive_createNode hcreated, Bool.or_eq_true, beq_iff_eq] at hactive
  rcases hactive with hold | rfl
  · obtain ⟨registry', hregistry, hsame⟩ := h.documented.registry
    exact hstate.holds.recoverable.anchored registry' other
      ⟨_, .inl rfl, hsaved.nodes ▸ hregistry⟩ ((hsame other).trans hold)
  · exact (hstate.holds.recoverable.marked _ nodeId position ⟨_, .inl rfl, hsaved.file⟩
      hposition).anchored hrecorded.active (hstate.holds.recoverable.active _ hrecorded.active)

theorem Recorded.present (h : Ready opened engine ledger fs)
    (hrecorded : Recorded nodeId (.snapshotCheckpoint checkpoint) position ledger fs)
    (hsaved : SavedIndex (engine.checkpointIndex.setCheckpointPosition nodeId position) fs fs')
    (index : CheckpointIndex) (other : NodeId) (position' : RecordPosition)
    (hindex : fs'.HasIndex index) (hother : index.nodes[other]? = some position') :
    position'.segment ∈ fs'.segments := by
  rw [hsaved.durable.index_eq hsaved.file hindex] at hother
  exact (hsaved.segments _).mpr (hrecorded.indexMarked h other position' hother).2

/-- The index and then the registry were saved with a new node. -/
theorem Ready.saveCreated {fs'' : Fs} (h : Ready opened engine ledger fs)
    (hcreated : engine.registry.createNode nodeId metadata = .ok registry)
    (hsaved : SavedIndex (engine.checkpointIndex.setCheckpointPosition nodeId position) fs fs')
    (hstate : WriterState opened ⟨engine.writer, engine.metrics⟩ ledger fs'')
    (hsaved' : SavedRegistry registry fs' fs'') : Ready opened { engine with
      registry := registry
      checkpointIndex := engine.checkpointIndex.setCheckpointPosition nodeId position }
      ledger fs'' := by
  refine ⟨hstate, ⟨_, hsaved'.file, fun other ↦ ?_⟩, _, hsaved'.checkpoints ▸ hsaved.file,
    fun other ↦ ?_⟩
  · exact NodeRegistry.isActive_reloaded registry other
  · split
    · rfl
    · next hinactive =>
      simp only [NodeRegistry.isActive_createNode hcreated, Bool.or_eq_true, beq_iff_eq,
        not_or] at hinactive
      rw [CheckpointIndex.checkpointPosition_setCheckpointPosition, if_neg hinactive.2]
      cases hold : engine.checkpointIndex.checkpointPosition other with
      | none => rfl
      | some position' =>
        exact absurd (h.documented.marked h.state.holds.recoverable hold).1 hinactive.1

/-- Creating a node whose checkpoint was recorded: the index is saved, then the registry. -/
theorem refines_saveCreated {Q : Except IoError Unit × StorageEngine → Ledger N → Fs → Prop}
    (h : Ready opened engine ledger fs)
    (hcreated : engine.registry.createNode nodeId metadata = .ok registry)
    (hrecorded : Recorded nodeId (.snapshotCheckpoint checkpoint) position ledger fs)
    (hQ : ∀ engine' fs', Ready opened engine' ledger fs' → engine'.registry = registry →
      Q (.ok (), engine') ledger fs') :
    (storage N).Refines Q ((do
      let checkpointIndex := (← get).checkpointIndex.setCheckpointPosition nodeId position
      liftIo checkpointIndex.save
      liftIo registry.save
      modify fun engine ↦ { engine with registry := registry, checkpointIndex := checkpointIndex } :
        EngineM Unit).run engine) ledger fs := by
  refine .bindMethod (refines_get (.bindMethod (refines_liftIo
    ((refines_saveIndex h.state (hrecorded.indexMarked h)).mono ?_))))
  rintro _ ledger fs₁ ⟨rfl, rfl, hstate, hsaved⟩
  refine .bindMethod (refines_liftIo ((refines_saveRegistry hstate
    (hrecorded.anchored h hcreated hstate hsaved) fun index other position' hindex _ hother ↦
      hrecorded.present h hsaved index other position' hindex hother).mono ?_))
  rintro _ ledger fs₂ ⟨rfl, rfl, hstate', hsaved'⟩
  exact refines_modify (hQ _ _ (h.saveCreated hcreated hsaved hstate' hsaved') rfl)

end SaveCreated

theorem refines_createNode (h : Ready opened engine ledger fs) (nodeId : NodeId)
    (metadata : NodeMetadata) :
    (storage N).Refines (Adds [(nodeId, .snapshotCheckpoint (initialCheckpoint N))] opened ledger)
      ((StorageEngine.createNode N nodeId metadata).run engine) ledger fs := by
  refine .bindMethod (refines_get (.bindMethod (refines_liftM ?_)))
  cases hcreated : engine.registry.createNode nodeId metadata with
  | error error => exact h.adds_error rfl _
  | ok registry =>
    refine refines_record h (fun error engine' ledger' fs' hready hwritten ↦
      hready.adds_error hwritten _) ?_
    intro position engine' ledger' fs' hready hregistry hindex hwritten hrecorded
    exact refines_saveCreated hready (hregistry ▸ hcreated) hrecorded
      fun engine'' fs'' hfinal _ ↦ ⟨hfinal, hwritten⟩

/-- The registry was saved without a node. -/
theorem Ready.saveRegistry {nodeId : NodeId} {registry : NodeRegistry}
    (h : Ready opened engine ledger fs)
    (hremoved : engine.registry.removeNode nodeId = .ok registry)
    (hstate : WriterState opened ⟨engine.writer, engine.metrics⟩ ledger fs')
    (hsaved : SavedRegistry registry fs fs') :
    Ready opened { engine with
      registry := registry, checkpointIndex := engine.checkpointIndex.removeNode nodeId }
      ledger fs' := by
  obtain ⟨index, hindex, hentries⟩ := h.documented.index
  refine ⟨hstate, ⟨_, hsaved.file, NodeRegistry.isActive_reloaded registry⟩, index,
    hsaved.checkpoints ▸ hindex, fun other ↦ ?_⟩
  simp only [CheckpointIndex.checkpointPosition_removeNode, hentries,
    NodeRegistry.isActive_removeNode hremoved, Bool.and_eq_true, bne_iff_ne]
  by_cases hsame : nodeId = other <;> simp [hsame]

theorem refines_unregisterNode (h : Ready opened engine ledger fs) (nodeId : NodeId) :
    (storage N).Refines (fun out ledger' fs' ↦ Adds [] opened ledger out ledger' fs' ∧
        (out.1 = .ok () → DocumentsDurable fs'))
      ((StorageEngine.unregisterNode nodeId).run engine) ledger fs := by
  refine .bindMethod (refines_ensureNodeExists
    (fun error ↦ ⟨h.adds_error rfl _, nofun⟩) fun hactive ↦ ?_)
  refine .bindMethod (refines_get (.bindMethod (refines_liftM ?_)))
  obtain ⟨registry, hremoved⟩ := NodeRegistry.removeNode_of_isActive hactive
  simp only [hremoved]
  have hrecoverable := h.state.holds.recoverable
  have hold {other : NodeId} (hother : registry.isActive other = true) :
      engine.registry.isActive other = true := by
    rw [NodeRegistry.isActive_removeNode hremoved, Bool.and_eq_true] at hother
    exact hother.1
  refine .bindMethod (refines_liftIo ((refines_saveRegistry h.state
    (fun other hother ↦ h.documented.anchored hrecoverable (hold hother)) ?_).mono ?_))
  · intro index other position hindex hother hposition
    obtain ⟨registry', hregistry, hsame⟩ := h.documented.registry
    exact hrecoverable.markedPresent registry' index other position ⟨_, .inl rfl, hregistry⟩
      hindex ((hsame other).trans (hold hother)) hposition
  rintro _ ledger fs₁ ⟨rfl, rfl, hstate, hsaved⟩
  have hready := h.saveRegistry hremoved hstate hsaved
  refine .bindMethod (refines_modify (.bindMethod (refines_get (.bindMethod (refines_liftIo
    ((refines_saveIndex hready.state (fun other position hposition ↦
      (hready.documented.marked hready.state.holds.recoverable hposition).2)).mono ?_))))))
  rintro _ ledger fs₂ ⟨rfl, rfl, hstate', hsaved'⟩
  have hfinal := hready.saveIndex hstate' hsaved' rfl rfl rfl fun other position hposition ↦
    (hready.documented.marked hready.state.holds.recoverable hposition).1
  exact refines_modify ⟨⟨hfinal, by simp⟩, fun _ ↦ hsaved'.durable⟩

theorem refines_removeNode (h : Ready opened engine ledger fs) (nodeId : NodeId) :
    (storage N).Refines (Adds [] opened ledger)
      ((StorageEngine.removeNode nodeId).run engine) ledger fs := by
  rw [StorageEngine.removeNode_eq]
  refine .bindMethod ((refines_unregisterNode h nodeId).mono ?_)
  rintro ⟨result, engine'⟩ ledger' fs' ⟨hadds, hdurable⟩
  cases result with
  | error error => exact hadds
  | ok value =>
    refine (refines_collectGarbage hadds.ready (hdurable rfl)).mono ?_
    rintro _ ledger' fsEnd ⟨rfl, rfl, hcollected, -⟩
    exact ⟨hcollected, by rw [hadds.written]⟩

/-- The record that a call writes, if it succeeds. -/
def Command.records : Command N → List (NodeId × Record N)
  | .createNode nodeId _ => [(nodeId, .snapshotCheckpoint (initialCheckpoint N))]
  | .saveCurrentTerm nodeId term => [(nodeId, .currentTerm term)]
  | .saveVotedFor nodeId votedFor => [(nodeId, .votedFor votedFor)]
  | .appendEntries nodeId append => [(nodeId, .append append)]
  | .saveSnapshot nodeId checkpoint => [(nodeId, .snapshotCheckpoint checkpoint)]
  | .removeNode _ | .sync | .load _ | .loadAll => []

/-- Every call keeps the invariant and adds exactly its record. -/
theorem refines_call (h : Ready opened engine ledger fs) (command : Command N) :
    (storage N).Refines (Adds command.records opened ledger)
      ((StorageEngine.call command).run engine) ledger fs := by
  cases command with
  | createNode nodeId metadata => exact refines_createNode h nodeId metadata
  | removeNode nodeId => exact refines_removeNode h nodeId
  | saveCurrentTerm nodeId term => exact refines_saveRecord h nodeId _
  | saveVotedFor nodeId votedFor => exact refines_saveRecord h nodeId _
  | appendEntries nodeId append => exact refines_saveRecord h nodeId _
  | saveSnapshot nodeId checkpoint =>
    exact (refines_saveSnapshot h nodeId checkpoint).mono fun _ _ _ hout ↦ hout.1
  | sync =>
    refine (refines_engineSync h).mono ?_
    rintro ⟨result, engine'⟩ ledger' fs' ⟨rfl, hready, ⟨-, rfl⟩ | ⟨-, rfl, -⟩⟩
    · exact ⟨hready, by simp [Command.records, Ledger.sync]⟩
    · exact ⟨hready, by simp [Command.records]⟩
  | load nodeId =>
    refine .bindMethod ((refines_load h nodeId).mono ?_)
    rintro ⟨result, engine'⟩ ledger' fs' ⟨-, rfl, rfl, rfl⟩
    cases result with
    | error error => exact h.adds_error rfl _
    | ok state => exact ⟨h, by simp [Command.records]⟩
  | loadAll =>
    refine .bindMethod ((refines_loadAll h).mono ?_)
    rintro ⟨result, engine'⟩ ledger' fs' ⟨-, rfl, rfl, rfl⟩
    cases result with
    | error error => exact h.adds_error rfl _
    | ok nodes => exact ⟨h, by simp [Command.records]⟩

end Sukari
