import Sukari.Reserved
import Sukari.BodyLimits
import Sukari.Rotation

/-!
# When calls succeed

A call that is not refused can still fail: there may be no room for its record, or the records of a
node that it loads may not make a state. `Command.Possible` says when neither is the case, and a
call of a running engine succeeds exactly if it is not refused and possible (`call_succeeds_iff`).
-/

set_option autoImplicit false
set_option relaxedAutoImplicit false

namespace Sukari

open Effects

variable {N : Noraft} {opened ledger : Ledger N} {fs fs' : Fs} {engine : StorageEngine}
  {s : MeteredWriter} {nodeId : NodeId}

/-! ### Room for a record -/

/-- Where the writer puts a frame, or why it cannot: no segment ID is left for the segment that the
frame is to start, or the active file would become too large. -/
def SegmentWriter.place (writer : SegmentWriter) (frameLen : ℕ) : Except IoError RecordPosition :=
  if writer.shouldRotate frameLen then
    if writer.activeSegment + 1 < 2 ^ 64 then
      .ok ⟨writer.activeSegment + 1, segmentFileHeaderLen⟩
    else .error (invalidData "segment ID overflow")
  else if writer.segmentLen + frameLen ≤ maxFileLen then
    .ok ⟨writer.activeSegment, writer.segmentLen⟩
  else .error fileTooLarge

theorem SegmentWriter.place_error {writer : SegmentWriter} {frameLen : ℕ} {error : IoError}
    (h : writer.place frameLen = .error error) :
    error = invalidData "segment ID overflow" ∨ error = fileTooLarge := by
  unfold place at h
  split at h <;> split at h <;> cases h
  · exact .inl rfl
  · exact .inr rfl

/-- The file of the writer has the length that the writer knows. -/
theorem WriterState.exists_file (h : WriterState opened s ledger fs) :
    ∃ file, fs.segments[s.writer.activeSegment]? = some file ∧
      s.writer.segmentLen = file.bytes.length := by
  obtain ⟨file, -, hfile, -, -, -, hlen⟩ := h.writer.file
  exact ⟨file, hfile, hlen⟩

/-- A frame is written if the file stays below the largest file. -/
theorem result_writeFrame {file : SegmentFile} (frame : List UInt8)
    (hfile : fs.segments[s.writer.activeSegment]? = some file)
    (hlen : s.writer.segmentLen = file.bytes.length) :
    (directory.run ((SegmentWriter.writeFrame frame).run s) fs).1.1 =
      if s.writer.segmentLen + frame.length ≤ maxFileLen then
        .ok ⟨s.writer.activeSegment, s.writer.segmentLen⟩
      else .error fileTooLarge := by
  have haccepts : fs.accepts s.writer.activeSegment frame = true ↔
      s.writer.segmentLen + frame.length ≤ maxFileLen := by
    simp [Fs.accepts, hfile, hlen]
  have hrest : directory.run ((SegmentWriter.writeFrame frame).run s) fs = directory.run
      ((do
        liftIo (writeAll s.writer.activeSegment frame)
        let segmentLen := s.writer.segmentLen + frame.length
        failIf (2 ^ 64 ≤ segmentLen) (invalidData "segment length overflow")
        modify fun s ↦ ⟨{ s.writer with segmentLen := segmentLen },
          s.metrics.recordWritten frame.length⟩
        return ⟨s.writer.activeSegment, s.writer.segmentLen⟩ : WriterM RecordPosition).run s)
          fs := rfl
  have hwrite := @run_writeAll fs s.writer.activeSegment frame
  rw [hrest]
  split
  · next hsmall =>
    have hword : ¬ 2 ^ 64 ≤ s.writer.segmentLen + frame.length := by
      rw [maxFileLen] at hsmall
      omega
    rw [if_pos (haccepts.mpr hsmall)] at hwrite
    rw [Machine.run_bindMethod_ok (run_liftIo hwrite)]
    simp only [failIf, if_neg hword]
    rfl
  · next hlarge =>
    rw [if_neg fun h ↦ hlarge (haccepts.mp h)] at hwrite
    rw [Machine.run_bindMethod_error (run_liftIo hwrite)]

/-- Rotating fails when the segment IDs are used up, and only then. -/
theorem run_rotate (h : WriterState opened s ledger fs) :
    if s.writer.activeSegment + 1 < 2 ^ 64 then
      ∃ metrics, directory.run (SegmentWriter.rotate.run s) fs =
        ((.ok (), ⟨⟨s.writer.activeSegment + 1, segmentFileHeaderLen, s.writer.maxSegmentLen⟩,
          metrics⟩), (((fs.syncData s.writer.activeSegment).create
            (s.writer.activeSegment + 1)).append (s.writer.activeSegment + 1)
              segmentFormatMagic).syncDir)
    else (directory.run (SegmentWriter.rotate.run s) fs).1.1 =
      .error (invalidData "segment ID overflow") := by
  have hsynced : directory.run (SegmentWriter.syncCurrentSegment.run s) fs =
      ((.ok (), ⟨s.writer, s.metrics.segmentSynced⟩), fs.syncData s.writer.activeSegment) := rfl
  have hrest : directory.run (SegmentWriter.rotate.run s) fs = directory.run ((do
      let nextSegment ← liftM (SegmentName.nextAppend s.writer.activeSegment)
      liftIo (createActiveSegmentFile nextSegment)
      liftIo syncDir
      modify fun s ↦ { s with writer :=
        { s.writer with activeSegment := nextSegment, segmentLen := segmentFileHeaderLen } } :
          WriterM Unit).run ⟨s.writer, s.metrics.segmentSynced⟩)
      (fs.syncData s.writer.activeSegment) :=
    Machine.run_bindMethod_ok hsynced
  rw [hrest]
  split
  · next hsmall =>
    have hnext : SegmentName.nextAppend s.writer.activeSegment =
        .ok (s.writer.activeSegment + 1) := by
      rw [SegmentName.nextAppend, failIf, if_neg (Nat.not_le.mpr hsmall)]
      rfl
    have hfresh : s.writer.activeSegment + 1 ∉ (fs.syncData s.writer.activeSegment).segments := by
      intro hmem
      have hpresent := h.holds.recoverable.present _ (by simpa [Fs.syncData] using hmem)
      have hactive := h.writer.active
      omega
    have hcreate := run_createActiveSegmentFile hfresh
    refine ⟨s.metrics.segmentSynced, ?_⟩
    rw [hnext]
    exact Machine.run_bindMethod_ok (run_liftIo hcreate)
  · next hlarge =>
    have hnext : SegmentName.nextAppend s.writer.activeSegment =
        .error (invalidData "segment ID overflow") := by
      rw [SegmentName.nextAppend, failIf, if_pos (Nat.not_lt.mp hlarge)]
      rfl
    rw [hnext]
    rfl

/-- The file that a rotation has started. -/
theorem getElem?_rotated {active : ℕ} (h : active + 1 ∉ fs.segments) :
    (((fs.syncData active).create (active + 1)).append (active + 1)
      segmentFormatMagic).syncDir.segments[active + 1]? =
        some ⟨segmentFormatMagic, 0, true⟩ := by
  have hfresh : active + 1 ∉ (fs.syncData active).segments := by simpa [Fs.syncData] using h
  have hfile : ((fs.syncData active).create (active + 1)).segments[active + 1]? =
      some ⟨[], 0, false⟩ := by rw [Fs.getElem?_create hfresh, if_pos rfl]
  rw [Fs.getElem?_syncDir, Fs.getElem?_append hfile]
  rfl

/-- An append puts the frame where there is a place for it. -/
theorem result_append_frame (h : WriterState opened s ledger fs) (frame : Frame N) :
    (directory.run ((SegmentWriter.append frame.nodeId frame.record).run s) fs).1.1 =
      s.writer.place frame.bytes.length := by
  have hencode := encodeRecordFrame_eq_ok_iff.mpr ⟨frame, rfl, rfl, rfl⟩
  have hrest : directory.run ((SegmentWriter.append frame.nodeId frame.record).run s) fs =
      directory.run ((do
        onlyIf (s.writer.shouldRotate frame.bytes.length) SegmentWriter.rotate
        SegmentWriter.writeFrame frame.bytes : WriterM RecordPosition).run s) fs := by
    have hencoded : directory.run ((liftM (encodeRecordFrame frame.nodeId frame.record) :
        WriterM (List UInt8)).run s) fs = ((.ok frame.bytes, s), fs) := by
      rw [hencode]
      rfl
    exact Machine.run_bindMethod_ok hencoded
  rw [hrest, SegmentWriter.place]
  cases hrotate : s.writer.shouldRotate frame.bytes.length with
  | false =>
    obtain ⟨file, hfile, hlen⟩ := h.exists_file
    rw [if_neg Bool.false_ne_true]
    exact result_writeFrame frame.bytes hfile hlen
  | true =>
    rw [if_pos rfl, onlyIf, if_pos rfl]
    have hturn := run_rotate h
    split at hturn
    · next hsmall =>
      obtain ⟨metrics, hturn⟩ := hturn
      have hfresh : s.writer.activeSegment + 1 ∉ fs.segments := fun hmem ↦ by
        have hpresent := h.holds.recoverable.present _ hmem
        have hactive := h.writer.active
        omega
      have hfits : segmentFileHeaderLen + frame.bytes.length ≤ maxFileLen := by
        have hle := frame.length_bytes_le
        simp only [segmentFileHeaderLen, maxFileLen, maxRecordBodyLen] at hle ⊢
        omega
      rw [Machine.run_bindMethod_ok hturn, if_pos hsmall]
      exact (result_writeFrame frame.bytes (getElem?_rotated hfresh) rfl).trans (if_pos hfits)
    · next hlarge =>
      rcases hout : directory.run (SegmentWriter.rotate.run s) fs with ⟨⟨result, s'⟩, fs'⟩
      rw [hout] at hturn
      obtain rfl : result = .error (invalidData "segment ID overflow") := hturn
      rw [Machine.run_bindMethod_error hout, if_neg hlarge]

/-- What an append returns. -/
theorem result_append (h : WriterState opened s ledger fs) (nodeId : NodeId) (record : Record N) :
    (directory.run ((SegmentWriter.append nodeId record).run s) fs).1.1 =
      (encodeRecordFrame nodeId record >>= fun frame ↦ s.writer.place frame.length) := by
  cases hencode : encodeRecordFrame nodeId record with
  | error error =>
    have hfails : directory.run ((SegmentWriter.append nodeId record).run s) fs =
        ((.error error, s), fs) := by
      refine Machine.run_bindMethod_error ?_
      rw [hencode]
      rfl
    rw [hfails]
    rfl
  | ok bytes =>
    obtain ⟨frame, rfl, rfl, rfl⟩ := encodeRecordFrame_eq_ok_iff.mp hencode
    exact result_append_frame h frame

/-! ### The calls -/

/-- A method succeeds if its first part does and the rest does after it. -/
theorem succeeds_bindMethod_iff {α β σ : Type} {action : MethodM σ α} {next : α → MethodM σ β}
    {m : σ} : Succeeds (directory.run ((action >>= next).run m) fs).1.1 ↔
      ∃ value m' fs', directory.run (action.run m) fs = ((.ok value, m'), fs') ∧
        Succeeds (directory.run ((next value).run m') fs').1.1 := by
  rcases hrun : directory.run (action.run m) fs with ⟨⟨result, m'⟩, fs'⟩
  cases result with
  | error error =>
    rw [Machine.run_bindMethod_error hrun]
    refine iff_of_false not_false ?_
    rintro ⟨value, m'', fs'', hsame, -⟩
    cases hsame
  | ok value =>
    rw [Machine.run_bindMethod_ok hrun]
    constructor
    · exact fun h ↦ ⟨value, m', fs', rfl, h⟩
    · rintro ⟨value', m'', fs'', hsame, h⟩
      cases hsame
      exact h

/-- The rest of a method does not fail. -/
theorem succeeds_bindMethod_of_total {α β σ : Type} {action : MethodM σ α} {next : α → MethodM σ β}
    {m : σ} (hnext : ∀ value m' fs', directory.run (action.run m) fs = ((.ok value, m'), fs') →
      Succeeds (directory.run ((next value).run m') fs').1.1) :
    Succeeds (directory.run ((action >>= next).run m) fs).1.1 ↔
      Succeeds (directory.run (action.run m) fs).1.1 := by
  rw [succeeds_bindMethod_iff]
  constructor
  · rintro ⟨value, m', fs', hrun, -⟩
    rw [hrun]
    trivial
  · intro h
    rcases hrun : directory.run (action.run m) fs with ⟨⟨result, m'⟩, fs'⟩
    cases result with
    | error error =>
      rw [hrun] at h
      exact h.elim
    | ok value => exact ⟨value, m', fs', rfl, hnext value m' fs' hrun⟩

/-- There is a place for a record that fits the format. -/
def StorageEngine.HasRoomFor (engine : StorageEngine) (nodeId : NodeId) (record : Record N) :
    Prop :=
  ∀ bytes, encodeRecordFrame nodeId record = .ok bytes → Succeeds (engine.writer.place bytes.length)

theorem Ready.result_append (h : Ready opened engine ledger fs) (nodeId : NodeId)
    (record : Record N) :
    (directory.run
        ((StorageEngine.onWriter (SegmentWriter.append nodeId record)).run engine) fs).1.1 =
      (encodeRecordFrame nodeId record >>= fun frame ↦ engine.writer.place frame.length) := by
  cases hrun : directory.run
    ((StorageEngine.onWriter (SegmentWriter.append nodeId record)).run engine) fs with
  | mk out fs' =>
    obtain ⟨result, engine'⟩ := out
    rw [← Sukari.result_append h.state nodeId record, run_onWriter hrun]

/-- An append succeeds exactly if the record fits the format and there is a place for it. -/
theorem Ready.append_succeeds_iff (h : Ready opened engine ledger fs) (nodeId : NodeId)
    (record : Record N) :
    Succeeds (directory.run
        ((StorageEngine.onWriter (SegmentWriter.append nodeId record)).run engine) fs).1.1 ↔
      Succeeds (encodeRecordFrame nodeId record) ∧ engine.HasRoomFor nodeId record := by
  rw [h.result_append, StorageEngine.HasRoomFor]
  cases encodeRecordFrame nodeId record with
  | error error => exact iff_of_false not_false fun hboth ↦ hboth.1
  | ok frame =>
    constructor
    · intro hplace
      refine ⟨trivial, fun bytes hbytes ↦ ?_⟩
      exact Except.ok.inj hbytes ▸ hplace
    · exact fun hboth ↦ hboth.2 frame rfl

/-- The records that are written without a payload fit the format. -/
theorem succeeds_encodeRecordFrame_of_small {record : Record N} (hlimits : RecordLimits record)
    (hsmall : bodyLength record ≤ maxRecordBodyLen) (nodeId : NodeId) :
    Succeeds (encodeRecordFrame nodeId record) := by
  have hverdict := frameVerdict_encodeRecordFrame nodeId record
  cases hencode : encodeRecordFrame nodeId record with
  | ok bytes => trivial
  | error error =>
    rw [hencode] at hverdict
    exact absurd ⟨hlimits, hsmall⟩ hverdict.1

theorem succeeds_encode_currentTerm (nodeId : NodeId) (term : Term) :
    Succeeds (encodeRecordFrame nodeId (.currentTerm term : Record N)) := by
  refine succeeds_encodeRecordFrame_of_small ?_ ?_ nodeId
  · exact trivial
  · exact show 8 + (1 + 8) ≤ maxRecordBodyLen by decide

theorem succeeds_encode_votedFor (nodeId : NodeId) (votedFor : Option NodeId) :
    Succeeds (encodeRecordFrame nodeId (.votedFor votedFor : Record N)) := by
  refine succeeds_encodeRecordFrame_of_small ?_ ?_ nodeId
  · exact trivial
  · cases votedFor with
    | none => exact show 8 + (1 + 1) ≤ maxRecordBodyLen by decide
    | some other => exact show 8 + (1 + (1 + 8)) ≤ maxRecordBodyLen by decide

/-- The initial checkpoint of a node fits the format. -/
theorem succeeds_encode_initialCheckpoint (nodeId : NodeId) :
    Succeeds (encodeRecordFrame nodeId (.snapshotCheckpoint (initialCheckpoint N))) := by
  have hvalid := snapshotCheckpoint_validate_eq_ok_iff.mp (@initialCheckpoint_validate N)
  have hlimits : AppendLimits (initialCheckpoint N).suffix := by
    refine ⟨logAppend_validate_iff_getEntry.mp hvalid.1, ?_, fun config hconfig ↦ ?_⟩
    · simp [initialCheckpoint, Noraft.len, N.iter_newEntries]
    · simp [initialCheckpoint, N.iter_newEntries] at hconfig
  refine succeeds_encodeRecordFrame_of_small ?_ ?_ nodeId
  · refine ⟨hlimits, hvalid.2, ?_⟩
    simp [initialCheckpoint, ClusterConfigValid, ClusterConfig.new]
  · simp [bodyLength, recordLength, initialCheckpoint, optionalNodeIdLength, snapshotLength,
      clusterConfigLength, ClusterConfig.new, logAppendLength, N.iter_newEntries, maxRecordBodyLen,
      Std.ExtTreeMap.toList_eq_nil_iff.mpr]

/-- What a call that is not refused needs in addition: room for its record, or states of the nodes
that it loads. -/
def Command.Possible (engine : StorageEngine) (written : List (NodeId × Record N)) :
    Command N → Prop
  | .createNode nodeId _ => engine.HasRoomFor nodeId (.snapshotCheckpoint (initialCheckpoint N))
  | .saveCurrentTerm nodeId term => engine.HasRoomFor nodeId (.currentTerm term : Record N)
  | .saveVotedFor nodeId votedFor => engine.HasRoomFor nodeId (.votedFor votedFor : Record N)
  | .appendEntries nodeId append => engine.HasRoomFor nodeId (.append append)
  | .saveSnapshot nodeId checkpoint => engine.HasRoomFor nodeId (.snapshotCheckpoint checkpoint)
  | .removeNode _ | .sync => True
  | .load nodeId => Succeeds (recoveredState (recordsOf nodeId written))
  | .loadAll => ∀ nodeId, engine.registry.isActive nodeId = true →
    Succeeds (recoveredState (recordsOf nodeId written))

theorem Ready.saveRecord_succeeds_iff (h : Ready opened engine ledger fs)
    (hactive : engine.registry.isActive nodeId = true) (record : Record N) :
    Succeeds (directory.run ((StorageEngine.saveRecord nodeId record).run engine) fs).1.1 ↔
      Succeeds (encodeRecordFrame nodeId record) ∧ engine.HasRoomFor nodeId record := by
  have hrest : directory.run ((StorageEngine.saveRecord nodeId record).run engine) fs = _ :=
    Machine.run_bindMethod_ok (passes_ensureNodeExists hactive)
  rw [← h.append_succeeds_iff, hrest]
  refine succeeds_bindMethod_of_total ?_
  exact fun _ _ _ _ ↦ trivial

theorem Ready.createNode_succeeds_iff (h : Ready opened engine ledger fs)
    (hnew : engine.registry.nodes.contains nodeId = false) (metadata : NodeMetadata) :
    Succeeds (directory.run ((StorageEngine.createNode N nodeId metadata).run engine) fs).1.1 ↔
      engine.HasRoomFor nodeId (.snapshotCheckpoint (initialCheckpoint N)) := by
  have happend := h.append_succeeds_iff nodeId (.snapshotCheckpoint (initialCheckpoint N))
  rw [and_iff_right (succeeds_encode_initialCheckpoint nodeId)] at happend
  rw [← happend]
  constructor
  · intro hsucceeds
    obtain ⟨registry, hregistry⟩ : ∃ registry,
        engine.registry.createNode nodeId metadata = .ok registry := ⟨_, if_neg (by simp [hnew])⟩
    have hrest : directory.run ((StorageEngine.createNode N nodeId metadata).run engine) fs = _ :=
      (Machine.run_bindMethod_ok passes_get).trans
        (Machine.run_bindMethod_ok (passes_liftM hregistry))
    rw [hrest, succeeds_bindMethod_iff] at hsucceeds
    obtain ⟨position, engine', fs', hrun, -⟩ := hsucceeds
    rw [hrun]
    trivial
  · intro hsucceeds
    obtain ⟨position, hposition⟩ := succeeds_iff.mp hsucceeds
    rw [creatable_of_status (NodeRegistry.status_eq_creatable_iff.mpr hnew) position _ _
      (Prod.ext (Prod.ext hposition rfl) rfl) metadata]
    trivial

theorem Ready.saveCheckpoint_succeeds_iff (h : Ready opened engine ledger fs)
    (hactive : engine.registry.isActive nodeId = true) {checkpoint : SnapshotCheckpoint N}
    (hvalid : checkpoint.validate = .ok ()) :
    Succeeds (directory.run ((StorageEngine.saveCheckpoint nodeId checkpoint).run engine) fs).1.1 ↔
      Succeeds (encodeRecordFrame nodeId (.snapshotCheckpoint checkpoint)) ∧
        engine.HasRoomFor nodeId (.snapshotCheckpoint checkpoint) := by
  have hrest : directory.run ((StorageEngine.saveCheckpoint nodeId checkpoint).run engine) fs = _ :=
    (Machine.run_bindMethod_ok (passes_ensureNodeExists hactive)).trans
      (Machine.run_bindMethod_ok (passes_liftM hvalid))
  rw [← h.append_succeeds_iff, hrest]
  refine succeeds_bindMethod_of_total fun position engine₁ fs₁ _ ↦ ?_
  obtain ⟨engine₂, fs₂, hsync⟩ := exists_run_sync engine₁ fs₁
  rw [Machine.run_bindMethod_ok hsync]
  exact trivial

/-- Collecting garbage after a checkpoint does not fail. -/
theorem Ready.saveSnapshot_succeeds_iff (h : Ready opened engine ledger fs)
    (hactive : engine.registry.isActive nodeId = true) {checkpoint : SnapshotCheckpoint N}
    (hvalid : checkpoint.validate = .ok ()) :
    Succeeds (directory.run ((StorageEngine.saveSnapshot nodeId checkpoint).run engine) fs).1.1 ↔
      Succeeds (encodeRecordFrame nodeId (.snapshotCheckpoint checkpoint)) ∧
        engine.HasRoomFor nodeId (.snapshotCheckpoint checkpoint) := by
  rw [StorageEngine.saveSnapshot_eq, ← h.saveCheckpoint_succeeds_iff hactive hvalid]
  refine succeeds_bindMethod_of_total fun value engine' fs' hrun ↦ ?_
  obtain ⟨ledger', -, hadds, hsaved⟩ := (refines_saveCheckpoint h nodeId checkpoint).run
  rw [hrun] at hadds hsaved
  obtain ⟨-, -, hout, -⟩ := (refines_collectGarbage hadds.ready (hsaved rfl).1).run
  rw [hout]
  exact trivial

/-- Removing an active node does not fail. -/
theorem Ready.removeNode_succeeds (h : Ready opened engine ledger fs)
    (hactive : engine.registry.isActive nodeId = true) :
    Succeeds (directory.run ((StorageEngine.removeNode nodeId).run engine) fs).1.1 := by
  obtain ⟨registry, hremoved⟩ := NodeRegistry.removeNode_of_isActive hactive
  have hrest : directory.run ((StorageEngine.unregisterNode nodeId).run engine) fs = _ :=
    (Machine.run_bindMethod_ok (passes_ensureNodeExists hactive)).trans
      ((Machine.run_bindMethod_ok passes_get).trans
        (Machine.run_bindMethod_ok (passes_liftM hremoved)))
  rw [StorageEngine.removeNode_eq]
  refine (succeeds_bindMethod_of_total fun value engine' fs' hrun ↦ ?_).mpr ?_
  · obtain ⟨ledger', -, hadds, hdurable⟩ := (refines_unregisterNode h nodeId).run
    rw [hrun] at hadds hdurable
    obtain ⟨-, -, hout, -⟩ := (refines_collectGarbage hadds.ready (hdurable rfl)).run
    rw [hout]
    exact trivial
  · rw [hrest]
    exact trivial

theorem Ready.load_succeeds_iff (h : Ready opened engine ledger fs)
    (hactive : engine.registry.isActive nodeId = true) :
    Succeeds (directory.run ((StorageEngine.load N nodeId).run engine) fs).1.1 ↔
      Succeeds (recoveredState (recordsOf nodeId ledger.journal.written)) := by
  obtain ⟨-, -, hload, -⟩ := (refines_load h nodeId).run
  rw [hactive, LoadsNode, if_pos rfl] at hload
  rw [hload]

theorem Ready.loadAll_succeeds_iff (h : Ready opened engine ledger fs) :
    Succeeds (directory.run ((StorageEngine.loadAll N).run engine) fs).1.1 ↔
      ∀ nodeId, engine.registry.isActive nodeId = true →
        Succeeds (recoveredState (recordsOf nodeId ledger.journal.written)) := by
  obtain ⟨-, -, hloads, -⟩ := (refines_loadAll h).run
  cases hresult : (directory.run ((StorageEngine.loadAll N).run engine) fs).1.1 with
  | ok nodes =>
    rw [hresult] at hloads
    refine iff_of_true trivial fun nodeId hactive ↦ ?_
    obtain ⟨state, hstate, -⟩ := hloads.1 nodeId (NodeRegistry.mem_activeNodeIds.mpr hactive)
    exact succeeds_iff.mpr ⟨state, hstate⟩
  | error error =>
    rw [hresult] at hloads
    obtain ⟨nodeId, hnode, hfails⟩ := hloads
    exact iff_of_false not_false fun hall ↦
      hfails (hall nodeId (NodeRegistry.mem_activeNodeIds.mp hnode))

/-- A call succeeds exactly if it is not refused and possible. -/
theorem Ready.succeeds_call_iff (h : Ready opened engine ledger fs) (command : Command N) :
    Succeeds (directory.run ((StorageEngine.call command).run engine) fs).1.1 ↔
      ¬ Refused engine command ∧ command.Possible engine ledger.journal.written := by
  by_cases hrefused : Refused engine command
  · obtain ⟨error, hstops⟩ := hrefused.stops fs
    rw [hstops]
    exact iff_of_false not_false fun hboth ↦ hboth.1 hrefused
  rw [and_iff_right hrefused]
  cases command with
  | createNode nodeId metadata =>
    exact h.createNode_succeeds_iff (Bool.of_not_eq_true hrefused) metadata
  | removeNode nodeId =>
    exact iff_of_true (h.removeNode_succeeds (Bool.of_not_eq_false hrefused)) trivial
  | saveCurrentTerm nodeId term =>
    refine (h.saveRecord_succeeds_iff (Bool.of_not_eq_false hrefused) _).trans ?_
    exact and_iff_right (succeeds_encode_currentTerm nodeId term)
  | saveVotedFor nodeId votedFor =>
    refine (h.saveRecord_succeeds_iff (Bool.of_not_eq_false hrefused) _).trans ?_
    exact and_iff_right (succeeds_encode_votedFor nodeId votedFor)
  | appendEntries nodeId append =>
    obtain ⟨hactive, hencodes⟩ := not_or.mp hrefused
    refine (h.saveRecord_succeeds_iff (Bool.of_not_eq_false hactive) _).trans ?_
    exact and_iff_right (not_not.mp hencodes)
  | saveSnapshot nodeId checkpoint =>
    obtain ⟨hactive, hrest⟩ := not_or.mp hrefused
    obtain ⟨hvalid, hencodes⟩ := not_or.mp hrest
    obtain ⟨value, hvalid⟩ := succeeds_iff.mp (not_not.mp hvalid)
    refine (h.saveSnapshot_succeeds_iff (Bool.of_not_eq_false hactive) hvalid).trans ?_
    exact and_iff_right (not_not.mp hencodes)
  | sync =>
    obtain ⟨engine', fs', hsync⟩ := exists_run_sync engine fs
    have hrun : directory.run ((StorageEngine.call (.sync : Command N)).run engine) fs =
      ((.ok (), engine'), fs') := hsync
    rw [hrun]
    exact iff_of_true trivial trivial
  | load nodeId =>
    refine (succeeds_bindMethod_of_total ?_).trans
      (h.load_succeeds_iff (Bool.of_not_eq_false hrefused))
    exact fun _ _ _ _ ↦ trivial
  | loadAll =>
    refine (succeeds_bindMethod_of_total ?_).trans h.loadAll_succeeds_iff
    exact fun _ _ _ _ ↦ trivial

/-- A call of a running engine succeeds exactly if it is not refused, there is room for its record,
and the nodes that it loads have states. -/
theorem call_succeeds_iff {written : List (NodeId × Record N)} (h : Running N written engine fs)
    (command : Command N) :
    Succeeds (directory.run ((StorageEngine.call command).run engine) fs).1.1 ↔
      ¬ Refused engine command ∧ command.Possible engine written := by
  obtain ⟨opened, ledger, rfl, hready⟩ := h.ready
  rw [← hready.succeeds_call_iff command,
    (bisimulation_alike.run _ (alike_syncDir fs).symm).1]

/-- A vote in a directory with one node. -/
theorem call_succeeds_iff_voting : ∃ (engine : StorageEngine) (fs : Fs),
    Succeeds (directory.run ((StorageEngine.call (N := Noraft.ofLists)
      (.saveVotedFor 1 (some 2))).run engine) fs).1.1 ∧
    engine.registry.isActive 1 = true ∧
    engine.HasRoomFor 1 (.votedFor (some 2) : Record Noraft.ofLists) := by
  have hruns : (directory.run (performEvents creatingEvents .closed) .empty).1.engine.any
      (fun engine ↦ Succeeds (directory.run ((StorageEngine.call (N := Noraft.ofLists)
        (.saveVotedFor 1 (some 2))).run engine)
          (directory.run (performEvents creatingEvents .closed) .empty).2).1.1) = true := by
    decide +kernel
  simp only [Option.any_eq_true, decide_eq_true_eq] at hruns
  obtain ⟨engine, hengine, hvotes⟩ := hruns
  obtain ⟨haccepted, hpossible⟩ :=
    (call_succeeds_iff (.intro .empty hengine) (.saveVotedFor 1 (some 2))).mp hvotes
  exact ⟨engine, _, hvotes, Bool.of_not_eq_false haccepted, hpossible⟩

end Sukari
