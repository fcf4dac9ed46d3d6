import Sukari.Replay

/-!
# The storage engine

The methods of `StorageEngine` and the read-only functions `load` and `load_all`. `Command` lists
the calls that an application can make, and `StorageEngine.call` performs one of them.
-/

set_option autoImplicit false
set_option relaxedAutoImplicit false

namespace Sukari

open Effects

variable {N : Noraft}

/-- The engine with the two gauges that its code reads. The other metrics are in `CountedEngine`. -/
structure StorageEngine where
  metrics : StorageMetrics
  registry : NodeRegistry
  checkpointIndex : CheckpointIndex
  writer : SegmentWriter

abbrev EngineM := MethodM StorageEngine

namespace StorageEngine

variable (N) in
/-- `StorageEngine::with_max_segment_len`. -/
def withMaxSegmentLen (maxSegmentLen : ℕ) : IoM StorageEngine := do
  failIf (maxSegmentLen = 0) (invalidInput "max segment length must be non-zero")
  let activeSegment ← selectActiveAppendSegment
  recoverStorageDir activeSegment
  let registry ← NodeRegistry.load
  let checkpointIndex ← CheckpointIndex.load N registry
  let writer ← SegmentWriter.new activeSegment maxSegmentLen
  return ⟨.default, registry, checkpointIndex, writer⟩

def defaultMaxSegmentLen : ℕ := 128 * 1024 * 1024

variable (N) in
def new : IoM StorageEngine := withMaxSegmentLen N defaultMaxSegmentLen

/-- A method of the writer, called with the metrics of the engine. -/
def onWriter {α : Type} (action : WriterM α) : EngineM α := fun engine ↦ do
  let (result, s) ← action ⟨engine.writer, engine.metrics⟩
  return (result, { engine with writer := s.writer, metrics := s.metrics })

def ensureNodeExists (nodeId : NodeId) : EngineM Unit := do
  let registry := (← get).registry
  liftM (Sukari.ensureNodeExists registry nodeId)

def collectGarbage : EngineM Unit := do
  let engine ← get
  match engine.checkpointIndex.gcBarrier engine.registry.activeNodeIds with
  | none => return ()
  | some barrier =>
    let segments ← liftIo discoverSegmentPaths
    let deletedSegments ← liftIo (segments.foldlM (fun deleted segment ↦
      if segment = engine.writer.activeSegment then return deleted
      else if barrier.allowsDelete segment = false then return deleted
      else do
        let existed : Bool ← io (.remove segment)
        return if existed then deleted + 1 else deleted) 0)
    onlyIf (deletedSegments ≠ 0) (liftIo syncDir)

def createNode (N : Noraft) (nodeId : NodeId) (metadata : NodeMetadata) : EngineM Unit := do
  let registry ← liftM ((← get).registry.createNode nodeId metadata)
  let position ← onWriter (SegmentWriter.append nodeId
    (.snapshotCheckpoint (initialCheckpoint N)))
  onWriter SegmentWriter.sync
  let checkpointIndex := (← get).checkpointIndex.setCheckpointPosition nodeId position
  liftIo checkpointIndex.save
  liftIo registry.save
  modify fun engine ↦ { engine with registry := registry, checkpointIndex := checkpointIndex }

variable (N) in
def load (nodeId : NodeId) : EngineM (NodeState N) := do
  ensureNodeExists nodeId
  let engine ← get
  liftIo (replayNodeState N engine.writer.activeSegment nodeId
    (engine.checkpointIndex.checkpointPosition nodeId) true)

/-- The states of the given nodes in a replay, with the default for a node without records. -/
def collectNodes (replay : ReplayState N) (nodeIds : NodeIdSet) : ReplayState N :=
  nodeIds.toList.foldl (fun nodes nodeId ↦
    nodes.insert nodeId (replay[nodeId]?.getD (.default N))) ∅

variable (N) in
def loadAll : EngineM (ReplayState N) := do
  let engine ← get
  let activeNodeIds := engine.registry.activeNodeIds
  if activeNodeIds.isEmpty then return ∅
  else
    let checkpointHints := engine.checkpointIndex.checkpointPositions activeNodeIds
    let replay ← liftIo (replayStorageDir N engine.writer.activeSegment (some activeNodeIds)
      checkpointHints true)
    return collectNodes replay activeNodeIds

def saveRecord (nodeId : NodeId) (record : Record N) : EngineM Unit := do
  ensureNodeExists nodeId
  let _ ← onWriter (SegmentWriter.append nodeId record)

def saveCurrentTerm (N : Noraft) (nodeId : NodeId) (term : Term) : EngineM Unit :=
  saveRecord (N := N) nodeId (.currentTerm term)

def saveVotedFor (N : Noraft) (nodeId : NodeId) (votedFor : Option NodeId) : EngineM Unit :=
  saveRecord (N := N) nodeId (.votedFor votedFor)

def appendEntries (nodeId : NodeId) (append : LogAppend N) : EngineM Unit :=
  saveRecord nodeId (.append append)

def saveSnapshot (nodeId : NodeId) (checkpoint : SnapshotCheckpoint N) : EngineM Unit := do
  ensureNodeExists nodeId
  (checkpoint.validate : Except IoError Unit)
  let position ← onWriter (SegmentWriter.append nodeId (.snapshotCheckpoint checkpoint))
  onWriter SegmentWriter.sync
  let checkpointIndex := (← get).checkpointIndex.setCheckpointPosition nodeId position
  liftIo checkpointIndex.save
  modify fun engine ↦ { engine with checkpointIndex := checkpointIndex }
  collectGarbage

def removeNode (nodeId : NodeId) : EngineM Unit := do
  ensureNodeExists nodeId
  let registry ← liftM ((← get).registry.removeNode nodeId)
  liftIo registry.save
  modify fun engine ↦ { engine with registry := registry }
  let checkpointIndex := (← get).checkpointIndex.removeNode nodeId
  liftIo checkpointIndex.save
  modify fun engine ↦ { engine with checkpointIndex := checkpointIndex }
  collectGarbage

def sync : EngineM Unit := onWriter SegmentWriter.sync

/-- `StorageEngine::nodes`: the active nodes and their metadata, in order. -/
def nodes (engine : StorageEngine) : List (NodeId × NodeMetadata) :=
  (engine.registry.nodes.filter fun _ entry ↦ !entry.removed).toList.map fun item ↦
    (item.1, item.2.metadata)

end StorageEngine

/-! ### Read-only access -/

structure ReadOnlyStorage where
  registry : NodeRegistry
  checkpointIndex : CheckpointIndex

namespace ReadOnlyStorage

variable (N) in
/-- `ReadOnlyStorage::open`. -/
def new : IoM ReadOnlyStorage := do
  let registry ← NodeRegistry.load
  let checkpointIndex ← CheckpointIndex.load N registry
  return ⟨registry, checkpointIndex⟩

variable (N) in
def load (storage : ReadOnlyStorage) (nodeId : NodeId) : IoM (NodeState N) := do
  (ensureNodeExists storage.registry nodeId : Except IoError Unit)
  let activeSegment ← selectActiveAppendSegment
  replayNodeState N activeSegment nodeId (storage.checkpointIndex.checkpointPosition nodeId) false

variable (N) in
def loadAll (storage : ReadOnlyStorage) : IoM (ReplayState N) := do
  let activeNodeIds := storage.registry.activeNodeIds
  if activeNodeIds.isEmpty then return ∅
  else
    let checkpointHints := storage.checkpointIndex.checkpointPositions activeNodeIds
    let activeSegment ← selectActiveAppendSegment
    let replay ← replayStorageDir N activeSegment (some activeNodeIds) checkpointHints false
    return StorageEngine.collectNodes replay activeNodeIds

end ReadOnlyStorage

variable (N) in
/-- `load`. -/
def load (nodeId : NodeId) : IoM (NodeState N) := do
  let storage ← ReadOnlyStorage.new N
  storage.load N nodeId

variable (N) in
/-- `load_all`. -/
def loadAll : IoM (ReplayState N) := do
  let storage ← ReadOnlyStorage.new N
  storage.loadAll N

/-! ### Calls of an application -/

variable (N) in
/-- The calls of an application on an open engine. -/
inductive Command
  | createNode (nodeId : NodeId) (metadata : NodeMetadata)
  | removeNode (nodeId : NodeId)
  | saveCurrentTerm (nodeId : NodeId) (term : Term)
  | saveVotedFor (nodeId : NodeId) (votedFor : Option NodeId)
  | appendEntries (nodeId : NodeId) (append : LogAppend N)
  | saveSnapshot (nodeId : NodeId) (checkpoint : SnapshotCheckpoint N)
  | sync
  | load (nodeId : NodeId)
  | loadAll

namespace StorageEngine

/-- Performs a call. The states that the loads return are the subject of their own theorems. -/
def call : Command N → EngineM Unit
  | .createNode nodeId metadata => createNode N nodeId metadata
  | .removeNode nodeId => removeNode nodeId
  | .saveCurrentTerm nodeId term => saveCurrentTerm N nodeId term
  | .saveVotedFor nodeId votedFor => saveVotedFor N nodeId votedFor
  | .appendEntries nodeId append => appendEntries nodeId append
  | .saveSnapshot nodeId checkpoint => saveSnapshot nodeId checkpoint
  | .sync => sync
  | .load nodeId => do let _ ← load N nodeId
  | .loadAll => do let _ ← loadAll N

end StorageEngine

end Sukari
