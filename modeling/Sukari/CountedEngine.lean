import Sukari.Engine
import Sukari.Metrics

/-!
# The storage engine with its metrics

The functions of the engine as the source has them, with the metrics that they update. The recovery
and the replay pass the metrics on to the readers of frames and headers, the writer and the engine
have them in their state, and metrics stay as they are at a failure: what was counted before it is
not taken back.
-/

set_option autoImplicit false
set_option relaxedAutoImplicit false

namespace Sukari

open Effects StorageMetricsCounters

variable {N : Noraft}

/-- A function with a parameter `metrics: &mut StorageMetricsCounters`. -/
abbrev CountedM := MethodM StorageMetricsCounters

namespace Counted

/-! ### Reading a segment -/

def checkChecksum (actual expected : ℕ) : CountedM Unit :=
  if actual ≠ expected then do
    modify checksumFailed
    throw (invalidData "segment record checksum mismatch")
  else pure ()

def readRecordBody (stream : Stream) : CountedM (Option (List UInt8 × Stream)) := do
  match ← (liftM (readFrameHeader stream) : CountedM (Option ((ℕ × ℕ) × Stream))) with
  | none => return none
  | some ((bodyLen, expectedChecksum), stream) =>
    let body := stream.rest.take bodyLen
    if body.length ≠ bodyLen then return none
    else
      checkChecksum (Crc32c.crc32c body).toNat expectedChecksum
      return some (body, stream.skip bodyLen)

def scanRecordFrame (stream : Stream) : CountedM (Option (Unit × Stream)) := do
  match ← (liftM (readFrameHeader stream) : CountedM (Option ((ℕ × ℕ) × Stream))) with
  | none => return none
  | some ((bodyLen, expectedChecksum), stream) =>
    match scanChunks bodyLen bodyLen Crc32c.initial stream with
    | none => return none
    | some (crc, stream) =>
      checkChecksum (Crc32c.value crc).toNat expectedChecksum
      return some ((), stream)

def frameLenFromBody (body : List UInt8) : ℕ := segmentRecordHeaderLen + body.length

def readSegmentHeader (name : ℕ) (bytes : List UInt8)
    (allowPartial recoverPartial : Bool) : CountedM Bool := do
  if bytes.length = 0 then
    if allowPartial then return false
    else throw (invalidData "missing segment header")
  else if bytes.length < segmentFileHeaderLen then
    if allowPartial ∧ recoverPartial then
      modify replayTruncated
      liftIo (io (.setLen name 0))
      return false
    else if allowPartial then
      modify replayTruncated
      return false
    else throw (invalidData "partial segment header in inactive segment")
  else if bytes.take segmentFileHeaderLen ≠ segmentFormatMagic then
    throw (invalidData "unsupported segment format")
  else return true

def recordLoop {β σ : Type} (readFrame : Stream → CountedM (Option (β × Stream)))
    (visit : σ → ℕ → β → CountedM σ) (allowPartial : Bool) (fileLen : ℕ) :
    ℕ → Stream → σ → CountedM (σ × Option ℕ)
  | 0, _, acc => return (acc, none)
  | rounds + 1, stream, acc => do
    match ← readFrame stream with
    | none =>
      if stream.position = fileLen then return (acc, none)
      else if allowPartial then
        modify replayTruncated
        return (acc, some stream.position)
      else throw (invalidData "partial record in inactive segment")
    | some (frame, next) =>
      let acc ← visit acc stream.position frame
      recordLoop readFrame visit allowPartial fileLen rounds next acc

def passSegment {β σ : Type} (readFrame : Stream → CountedM (Option (β × Stream)))
    (visit : σ → ℕ → β → CountedM σ) (start : ℕ → Except IoError ℕ)
    (segment : ℕ) (allowPartial recoverPartial : Bool) (acc : σ) : CountedM σ := do
  let bytes ← liftIo (openSegment segment)
  if ← readSegmentHeader segment bytes allowPartial recoverPartial then
    let fileLen := bytes.length
    let offset ← liftM (start fileLen)
    let (acc, partialStart) ← recordLoop readFrame visit allowPartial fileLen
      (fileLen + 1) (.seek bytes offset) acc
    match partialStart with
    | none => return acc
    | some recordStart =>
      onlyIf (recoverPartial = true) (liftIo (io (.setLen segment recordStart)))
      return acc
  else return acc

/-- The body of the loop of `replay_segment`. -/
def replayRecord (segment : ℕ) (nodeFilter : Option NodeIdSet)
    (checkpointPositions : CheckpointPositions) (replay : ReplayState N) (recordStart : ℕ)
    (body : List UInt8) : CountedM (ReplayState N) := do
  let nodeId ← liftM (decodeRecordNodeId body)
  if inFilter nodeFilter nodeId then
    let recordPosition : RecordPosition := ⟨segment, recordStart⟩
    if checkpointPositions[nodeId]?.any fun checkpoint ↦ recordPosition < checkpoint then
      return replay
    else
      let nodeRecord ← liftM (decodeNodeRecord N body)
      let replay ← liftM (replay.apply nodeRecord.1 nodeRecord.2)
      modify fun metrics ↦ metrics.recordReplayed nodeRecord.2.metricKind (frameLenFromBody body)
      return replay
  else return replay

def replaySegment (segment : ℕ) (allowPartial : Bool) (nodeFilter : Option NodeIdSet)
    (checkpointPositions : CheckpointPositions) (recoverPartial : Bool) (replay : ReplayState N) :
    CountedM (ReplayState N) :=
  passSegment readRecordBody (replayRecord segment nodeFilter checkpointPositions) fromHeader
    segment allowPartial recoverPartial replay

/-- The body of the loop of `replay_node_segment`. -/
def replayNodeRecord (segment : ℕ) (targetNodeId : NodeId)
    (checkpointPosition : Option RecordPosition) (state : NodeState N) (recordStart : ℕ)
    (body : List UInt8) : CountedM (NodeState N) := do
  let nodeId ← liftM (decodeRecordNodeId body)
  if nodeId = targetNodeId then
    let recordPosition : RecordPosition := ⟨segment, recordStart⟩
    if checkpointPosition.any fun checkpoint ↦ recordPosition < checkpoint then return state
    else
      let nodeRecord ← liftM (decodeNodeRecord N body)
      let state ← liftM (applyRecordToState state nodeRecord.2)
      modify fun metrics ↦ metrics.recordReplayed nodeRecord.2.metricKind (frameLenFromBody body)
      return state
  else return state

def replayNodeSegment (segment : ℕ) (allowPartial : Bool) (targetNodeId : NodeId)
    (checkpointPosition : Option RecordPosition) (recoverPartial : Bool) (state : NodeState N) :
    CountedM (NodeState N) :=
  passSegment readRecordBody (replayNodeRecord segment targetNodeId checkpointPosition) fromHeader
    segment allowPartial recoverPartial state

variable (N) in
def scanCheckpointPositions (segment : ℕ) (allowPartial : Bool)
    (nodeFilter : Option NodeIdSet) (startOffset : Option ℕ) (recoverPartial : Bool)
    (checkpoints : CheckpointPositions) : CountedM CheckpointPositions :=
  passSegment readRecordBody (fun checkpoints recordStart body ↦
      liftM (noteCheckpoint N segment nodeFilter checkpoints recordStart body))
    (scanStart startOffset) segment allowPartial recoverPartial checkpoints

def scanSegment (segment : ℕ) (allowPartial : Bool) : CountedM Unit :=
  passSegment scanRecordFrame (fun _ _ _ ↦ pure ()) fromHeader segment allowPartial true ()

/-! ### Passes over a directory -/

def passSegments {σ : Type} (pass : ℕ → Bool → σ → CountedM σ)
    (startSegment : Option ℕ) (activeSegment : ℕ) (recoverPartial : Bool)
    (acc : σ) : CountedM σ := do
  let segments ← liftIo discoverSegmentPaths
  let activeSegment := replayActiveSegment segments activeSegment recoverPartial
  segments.foldlM (fun acc segment ↦
    if startSegment.any fun start ↦ segment < start then return acc
    else pass segment (segment == activeSegment) acc) acc

variable (N) in
def findCheckpointPositionsFrom (activeSegment : ℕ) (nodeFilter : Option NodeIdSet)
    (startPosition : Option RecordPosition) (recoverPartial : Bool) :
    CountedM CheckpointPositions :=
  passSegments (fun segment allowPartial checkpoints ↦
    let startOffset := (startPosition.filter fun start ↦ segment == start.segment).map
      RecordPosition.offset
    scanCheckpointPositions N segment allowPartial nodeFilter startOffset recoverPartial
      checkpoints)
    (startPosition.map RecordPosition.segment) activeSegment recoverPartial ∅

variable (N) in
def replayNodeState (activeSegment : ℕ) (nodeId : NodeId)
    (checkpointHint : Option RecordPosition) (recoverPartial : Bool) : CountedM (NodeState N) := do
  let targetNodes : NodeIdSet := (∅ : NodeIdSet).insert nodeId
  let checkpointPositions ← findCheckpointPositionsFrom N activeSegment (some targetNodes)
    checkpointHint recoverPartial
  let checkpointPosition := checkpointPositions[nodeId]?
  passSegments (fun segment allowPartial state ↦
    replayNodeSegment segment allowPartial nodeId checkpointPosition recoverPartial state)
    (checkpointPosition.map RecordPosition.segment) activeSegment recoverPartial (.default N)

variable (N) in
def checkpointPositionsForReplay (activeSegment : ℕ) (nodeFilter : Option NodeIdSet)
    (checkpointHints : Option CheckpointPositions) (recoverPartial : Bool) :
    CountedM (CheckpointPositions × Option ℕ) := do
  match checkpointHints with
  | none =>
    let positions ← findCheckpointPositionsFrom N activeSegment nodeFilter none recoverPartial
    return (positions, none)
  | some checkpointPositions =>
    match (checkpointPositions.toList.map Prod.snd).min? with
    | none => return (checkpointPositions, none)
    | some startPosition =>
      let discovered ← findCheckpointPositionsFrom N activeSegment nodeFilter
        (some startPosition) recoverPartial
      return (checkpointPositions ∪ discovered, some startPosition.segment)

variable (N) in
def replayStorageDir (activeSegment : ℕ) (nodeFilter : Option NodeIdSet)
    (checkpointHints : Option CheckpointPositions) (recoverPartial : Bool) :
    CountedM (ReplayState N) := do
  let (checkpointPositions, replayStartSegment) ← checkpointPositionsForReplay N activeSegment
    nodeFilter checkpointHints recoverPartial
  passSegments (fun segment allowPartial replay ↦
    replaySegment segment allowPartial nodeFilter checkpointPositions recoverPartial replay)
    replayStartSegment activeSegment recoverPartial ∅

def recoverStorageDir (activeSegment : ℕ) : CountedM Unit := do
  let segments ← liftIo discoverSegmentPaths
  segments.forM fun segment ↦ scanSegment segment (segment == activeSegment)

end Counted

/-! ### The writer -/

/-- A writer with the metrics that its methods update. -/
structure CountedWriter where
  writer : SegmentWriter
  metrics : StorageMetricsCounters

abbrev CountedWriterM := MethodM CountedWriter

namespace CountedWriter

/-- `SegmentWriter::open`. -/
def new (activeSegment : ℕ) (maxSegmentLen : ℕ) : CountedM SegmentWriter := do
  let writer ← liftIo (SegmentWriter.new activeSegment maxSegmentLen)
  modify fun metrics ↦ metrics.segmentOpened writer.activeSegment writer.segmentLen
  return writer

def syncCurrentSegment : CountedWriterM Unit := do
  let active := (← get).writer.activeSegment
  let _ : Unit ← liftIo (io (.syncData active))
  modify fun s ↦ { s with metrics := s.metrics.segmentSynced }

def sync : CountedWriterM Unit := do
  let metrics := (← get).metrics
  onlyIf (metrics.unsyncedRecords.value ≠ 0 ∨ metrics.unsyncedBytes.value ≠ 0) syncCurrentSegment

def rotate : CountedWriterM Unit := do
  syncCurrentSegment
  let active := (← get).writer.activeSegment
  let nextSegment ← liftM (SegmentName.nextAppend active)
  liftIo (createActiveSegmentFile nextSegment)
  liftIo syncDir
  modify fun s ↦
    ⟨{ s.writer with activeSegment := nextSegment, segmentLen := segmentFileHeaderLen },
    s.metrics.segmentRotated nextSegment segmentFileHeaderLen⟩

/-- The end of `append`: writes a frame at the end of the active segment. -/
def writeFrame (kind : RecordKindMetric) (frame : List UInt8) : CountedWriterM RecordPosition := do
  let writer := (← get).writer
  let recordPosition : RecordPosition := ⟨writer.activeSegment, writer.segmentLen⟩
  liftIo (writeAll writer.activeSegment frame)
  let segmentLen := writer.segmentLen + frame.length
  failIf (2 ^ 64 ≤ segmentLen) (invalidData "segment length overflow")
  modify fun s ↦ ⟨{ s.writer with segmentLen := segmentLen },
    (s.metrics.recordWritten kind frame.length).segmentWritten segmentLen⟩
  return recordPosition

def append (nodeId : NodeId) (record : Record N) : CountedWriterM RecordPosition := do
  let frame ← liftM (encodeRecordFrame nodeId record)
  let writer := (← get).writer
  onlyIf (writer.shouldRotate frame.length) rotate
  writeFrame record.metricKind frame

end CountedWriter

/-! ### The engine -/

def NodeRegistry.activeNodeCount (registry : NodeRegistry) : ℕ :=
  (registry.nodes.toList.filter fun item ↦ !item.2.removed).length

def NodeRegistry.removedNodeCount (registry : NodeRegistry) : ℕ :=
  (registry.nodes.toList.filter fun item ↦ item.2.removed).length

/-- `CheckpointIndex::len`. -/
def CheckpointIndex.len (index : CheckpointIndex) : ℕ := index.nodes.size

/-- The engine with all its metrics. -/
structure CountedEngine where
  metrics : StorageMetricsCounters
  registry : NodeRegistry
  checkpointIndex : CheckpointIndex
  writer : SegmentWriter

abbrev CountedEngineM := MethodM CountedEngine

namespace CountedEngine

/-- `StorageEngine::with_max_segment_len`, from the recovery on. -/
def recovered (N : Noraft) (activeSegment maxSegmentLen : ℕ) : CountedM CountedEngine := do
  Counted.recoverStorageDir activeSegment
  let registry ← liftIo NodeRegistry.load
  let checkpointIndex ← liftIo (CheckpointIndex.load N registry)
  modify fun metrics ↦
    metrics.nodeCountsChanged registry.activeNodeCount registry.removedNodeCount
  modify fun metrics ↦ metrics.checkpointIndexChanged checkpointIndex.len
  let writer ← CountedWriter.new activeSegment maxSegmentLen
  let metrics ← get
  return ⟨metrics, registry, checkpointIndex, writer⟩

variable (N) in
/-- `StorageEngine::with_max_segment_len`. -/
def withMaxSegmentLen (maxSegmentLen : ℕ) : IoM CountedEngine := do
  failIf (maxSegmentLen = 0) (invalidInput "max segment length must be non-zero")
  let activeSegment ← selectActiveAppendSegment
  ExceptT.mk ((recovered N activeSegment maxSegmentLen).run .default >>= fun out ↦ pure out.1)

/-- A method of the writer, called with the metrics of the engine. -/
def onWriter {α : Type} (action : CountedWriterM α) : CountedEngineM α := fun engine ↦ do
  let (result, s) ← action ⟨engine.writer, engine.metrics⟩
  return (result, { engine with writer := s.writer, metrics := s.metrics })

/-- A function that is called with the metrics of the engine. -/
def onMetrics {α : Type} (action : CountedM α) : CountedEngineM α := fun engine ↦ do
  let (result, metrics) ← action engine.metrics
  return (result, { engine with metrics := metrics })

/-- A change of the metrics. -/
def count (update : StorageMetricsCounters → StorageMetricsCounters) : CountedEngineM Unit :=
  modify fun engine ↦ { engine with metrics := update engine.metrics }

def refreshRegistryMetrics : CountedEngineM Unit := do
  let registry := (← get).registry
  count fun metrics ↦ metrics.nodeCountsChanged registry.activeNodeCount registry.removedNodeCount

def refreshCheckpointIndexMetrics : CountedEngineM Unit := do
  let checkpointIndex := (← get).checkpointIndex
  count fun metrics ↦ metrics.checkpointIndexChanged checkpointIndex.len

def ensureNodeExists (nodeId : NodeId) (operation : StorageOperationKind) :
    CountedEngineM Unit := do
  let registry := (← get).registry
  if registry.isActive nodeId then return ()
  else if registry.isRemoved nodeId then
    count fun metrics ↦ metrics.rejectedOperation operation .removedNode
    throw nodeRemovedError
  else
    count fun metrics ↦ metrics.rejectedOperation operation .unknownNode
    throw nodeNotFoundError

def collectGarbage : CountedEngineM Unit := do
  count gcRan
  let engine ← get
  match engine.checkpointIndex.gcBarrier engine.registry.activeNodeIds with
  | none => return ()
  | some barrier =>
    let segments ← liftIo discoverSegmentPaths
    let deletedSegments ← liftIo (segments.foldlM (fun deleted segment ↦
      if segment = engine.writer.activeSegment then return deleted
      else if barrier.allowsDelete segment = false then return deleted
      else do
        let existed : Bool ← io (.remove segment)
        return if existed then deleted + 1 else deleted) 0)
    onlyIf (deletedSegments ≠ 0) (count fun metrics ↦ metrics.gcDeletedSegments deletedSegments)
    onlyIf (deletedSegments ≠ 0) (liftIo syncDir)

def createNode (N : Noraft) (nodeId : NodeId) (metadata : NodeMetadata) : CountedEngineM Unit := do
  let registry ← liftM ((← get).registry.createNode nodeId metadata)
  let position ← onWriter (CountedWriter.append nodeId
    (.snapshotCheckpoint (initialCheckpoint N)))
  onWriter CountedWriter.sync
  let checkpointIndex := (← get).checkpointIndex.setCheckpointPosition nodeId position
  liftIo checkpointIndex.save
  liftIo registry.save
  modify fun engine ↦ { engine with registry := registry, checkpointIndex := checkpointIndex }
  count nodeCreated
  refreshRegistryMetrics
  refreshCheckpointIndexMetrics

variable (N) in
def load (nodeId : NodeId) : CountedEngineM (NodeState N) := do
  ensureNodeExists nodeId .load
  let engine ← get
  onMetrics (Counted.replayNodeState N engine.writer.activeSegment nodeId
    (engine.checkpointIndex.checkpointPosition nodeId) true)

variable (N) in
def loadAll : CountedEngineM (ReplayState N) := do
  let engine ← get
  let activeNodeIds := engine.registry.activeNodeIds
  if activeNodeIds.isEmpty then return ∅
  else
    let checkpointHints := engine.checkpointIndex.checkpointPositions activeNodeIds
    let replay ← onMetrics (Counted.replayStorageDir N engine.writer.activeSegment
      (some activeNodeIds) checkpointHints true)
    return StorageEngine.collectNodes replay activeNodeIds

def saveRecord (nodeId : NodeId) (record : Record N) (operation : StorageOperationKind) :
    CountedEngineM Unit := do
  ensureNodeExists nodeId operation
  let _ ← onWriter (CountedWriter.append nodeId record)

def saveCurrentTerm (N : Noraft) (nodeId : NodeId) (term : Term) : CountedEngineM Unit :=
  saveRecord (N := N) nodeId (.currentTerm term) .saveCurrentTerm

def saveVotedFor (N : Noraft) (nodeId : NodeId) (votedFor : Option NodeId) : CountedEngineM Unit :=
  saveRecord (N := N) nodeId (.votedFor votedFor) .saveVotedFor

def appendEntries (nodeId : NodeId) (append : LogAppend N) : CountedEngineM Unit :=
  saveRecord nodeId (.append append) .appendEntries

def saveSnapshot (nodeId : NodeId) (checkpoint : SnapshotCheckpoint N) : CountedEngineM Unit := do
  ensureNodeExists nodeId .saveSnapshot
  (checkpoint.validate : Except IoError Unit)
  let position ← onWriter (CountedWriter.append nodeId (.snapshotCheckpoint checkpoint))
  onWriter CountedWriter.sync
  let checkpointIndex := (← get).checkpointIndex.setCheckpointPosition nodeId position
  liftIo checkpointIndex.save
  modify fun engine ↦ { engine with checkpointIndex := checkpointIndex }
  refreshCheckpointIndexMetrics
  collectGarbage
  count snapshotCheckpointSaved

def removeNode (nodeId : NodeId) : CountedEngineM Unit := do
  ensureNodeExists nodeId .removeNode
  let registry ← liftM ((← get).registry.removeNode nodeId)
  liftIo registry.save
  modify fun engine ↦ { engine with registry := registry }
  let checkpointIndex := (← get).checkpointIndex.removeNode nodeId
  liftIo checkpointIndex.save
  modify fun engine ↦ { engine with checkpointIndex := checkpointIndex }
  collectGarbage
  count nodeRemoved
  refreshRegistryMetrics
  refreshCheckpointIndexMetrics

def sync : CountedEngineM Unit := do
  count syncRequested
  onWriter CountedWriter.sync

/-- Performs a call. -/
def call : Command N → CountedEngineM Unit
  | .createNode nodeId metadata => createNode N nodeId metadata
  | .removeNode nodeId => removeNode nodeId
  | .saveCurrentTerm nodeId term => saveCurrentTerm N nodeId term
  | .saveVotedFor nodeId votedFor => saveVotedFor N nodeId votedFor
  | .appendEntries nodeId append => appendEntries nodeId append
  | .saveSnapshot nodeId checkpoint => saveSnapshot nodeId checkpoint
  | .sync => sync
  | .load nodeId => do let _ ← load N nodeId
  | .loadAll => do let _ ← loadAll N

end CountedEngine

end Sukari
