import Sukari.CheckpointIndex

/-!
# Scanning and replaying segments

Every pass over a segment runs the same loop over its frames, `recordLoop`, with its own visitor:
recovery only checks the frames, the checkpoint scan notes the positions of checkpoints, and replay
applies records to states. A pass reads the segments of a directory listing one after the other.
Replaying a node makes two passes: one that finds its last checkpoint from the hint of the index
on, and one that applies its records from that checkpoint on.
-/

set_option autoImplicit false
set_option relaxedAutoImplicit false

namespace Sukari

open Effects

variable {N : Noraft}

/-! ### The loop over the frames of a segment -/

/-- The loop over frames. The result comes with the place at which an incomplete frame starts.
Every frame takes at least eight bytes, so one round per byte and one more are enough. -/
def recordLoop {β σ : Type} (readFrame : Stream → Except IoError (Option (β × Stream)))
    (visit : σ → ℕ → β → Except IoError σ) (allowPartial : Bool) (fileLen : ℕ) :
    ℕ → Stream → σ → Except IoError (σ × Option ℕ)
  | 0, _, acc => return (acc, none)
  | rounds + 1, stream, acc => do
    match ← readFrame stream with
    | none =>
      if stream.position = fileLen then return (acc, none)
      else if allowPartial then return (acc, some stream.position)
      else throw (invalidData "partial record in inactive segment")
    | some (frame, next) =>
      let acc ← visit acc stream.position frame
      recordLoop readFrame visit allowPartial fileLen rounds next acc

/-- A pass over one segment: its header, then its frames from `start` on. An incomplete frame at
the end is cut off when the segment is being recovered. -/
def passSegment {β σ : Type} (readFrame : Stream → Except IoError (Option (β × Stream)))
    (visit : σ → ℕ → β → Except IoError σ) (start : ℕ → Except IoError ℕ)
    (segment : ℕ) (allowPartial recoverPartial : Bool) (acc : σ) : IoM σ := do
  let bytes ← openSegment segment
  if ← readSegmentHeader segment bytes allowPartial recoverPartial then
    let fileLen := bytes.length
    let offset ← liftM (start fileLen)
    let (acc, partialStart) ← liftM (recordLoop readFrame visit allowPartial fileLen
      (fileLen + 1) (.seek bytes offset) acc)
    match partialStart with
    | none => return acc
    | some recordStart =>
      onlyIf (recoverPartial = true) (io (.setLen segment recordStart))
      return acc
  else return acc

/-- The records of a segment start behind its header. -/
def fromHeader (_ : ℕ) : Except IoError ℕ := return segmentFileHeaderLen

/-- `node_filter.is_none_or(|nodes| nodes.contains(&node_id))`. -/
def inFilter (nodeFilter : Option NodeIdSet) (nodeId : NodeId) : Bool :=
  nodeFilter.all fun nodes ↦ nodes.contains nodeId

abbrev CheckpointPositions := Std.ExtTreeMap NodeId RecordPosition

variable (N) in
/-- The body of the loop of `scan_checkpoint_positions`. -/
def noteCheckpoint (segment : ℕ) (nodeFilter : Option NodeIdSet)
    (checkpoints : CheckpointPositions) (recordStart : ℕ) (body : List UInt8) :
    Except IoError CheckpointPositions := do
  let nodeId ← decodeRecordNodeId body
  if inFilter nodeFilter nodeId then
    let nodeRecord ← decodeNodeRecord N body
    if nodeRecord.2.isCheckpoint then
      return checkpoints.insert nodeId ⟨segment, recordStart⟩
    else return checkpoints
  else return checkpoints

/-- Where `scan_checkpoint_positions` starts in a file of a given length. -/
def scanStart (startOffset : Option ℕ) (fileLen : ℕ) : Except IoError ℕ := do
  let offset := startOffset.getD segmentFileHeaderLen
  failIf (offset < segmentFileHeaderLen) (invalidData "checkpoint scan offset precedes records")
  failIf (fileLen < offset) (invalidData "checkpoint scan offset exceeds segment length")
  return offset

variable (N) in
def scanCheckpointPositions (segment : ℕ) (allowPartial : Bool)
    (nodeFilter : Option NodeIdSet) (startOffset : Option ℕ) (recoverPartial : Bool)
    (checkpoints : CheckpointPositions) : IoM CheckpointPositions :=
  passSegment readRecordBody (noteCheckpoint N segment nodeFilter) (scanStart startOffset) segment
    allowPartial recoverPartial checkpoints

/-- `ReplayState`: the states of the nodes seen so far. -/
abbrev ReplayState (N : Noraft) := Std.ExtTreeMap NodeId (NodeState N)

/-- `ReplayState::apply`. -/
def ReplayState.apply (replay : ReplayState N) (nodeId : NodeId) (record : Record N) :
    Except IoError (ReplayState N) := do
  let state ← applyRecordToState (replay[nodeId]?.getD (.default N)) record
  return replay.insert nodeId state

/-- The body of the loop of `replay_segment`. -/
def replayRecord (segment : ℕ) (nodeFilter : Option NodeIdSet)
    (checkpointPositions : CheckpointPositions) (replay : ReplayState N) (recordStart : ℕ)
    (body : List UInt8) : Except IoError (ReplayState N) := do
  let nodeId ← decodeRecordNodeId body
  if inFilter nodeFilter nodeId then
    let recordPosition : RecordPosition := ⟨segment, recordStart⟩
    if checkpointPositions[nodeId]?.any fun checkpoint ↦ recordPosition < checkpoint then
      return replay
    else
      let nodeRecord ← decodeNodeRecord N body
      replay.apply nodeRecord.1 nodeRecord.2
  else return replay

def replaySegment (segment : ℕ) (allowPartial : Bool) (nodeFilter : Option NodeIdSet)
    (checkpointPositions : CheckpointPositions) (recoverPartial : Bool) (replay : ReplayState N) :
    IoM (ReplayState N) :=
  passSegment readRecordBody (replayRecord segment nodeFilter checkpointPositions) fromHeader
    segment allowPartial recoverPartial replay

/-- The body of the loop of `replay_node_segment`. -/
def replayNodeRecord (segment : ℕ) (targetNodeId : NodeId)
    (checkpointPosition : Option RecordPosition) (state : NodeState N) (recordStart : ℕ)
    (body : List UInt8) : Except IoError (NodeState N) := do
  let nodeId ← decodeRecordNodeId body
  if nodeId = targetNodeId then
    let recordPosition : RecordPosition := ⟨segment, recordStart⟩
    if checkpointPosition.any fun checkpoint ↦ recordPosition < checkpoint then return state
    else
      let nodeRecord ← decodeNodeRecord N body
      applyRecordToState state nodeRecord.2
  else return state

def replayNodeSegment (segment : ℕ) (allowPartial : Bool) (targetNodeId : NodeId)
    (checkpointPosition : Option RecordPosition) (recoverPartial : Bool) (state : NodeState N) :
    IoM (NodeState N) :=
  passSegment readRecordBody (replayNodeRecord segment targetNodeId checkpointPosition) fromHeader
    segment allowPartial recoverPartial state

def scanSegment (segment : ℕ) (allowPartial : Bool) : IoM Unit :=
  passSegment scanRecordFrame (fun _ _ _ ↦ pure ()) fromHeader segment allowPartial true ()

/-! ### Passes over a directory -/

def replayActiveSegment (segments : List ℕ) (activeSegment : ℕ)
    (recoverPartial : Bool) : ℕ :=
  if recoverPartial then activeSegment else segments.getLast?.getD activeSegment

/-- A pass over the segments of a listing, except for the ones before the start segment. -/
def passSegments {σ : Type} (pass : ℕ → Bool → σ → IoM σ)
    (startSegment : Option ℕ) (activeSegment : ℕ) (recoverPartial : Bool)
    (acc : σ) : IoM σ := do
  let segments ← discoverSegmentPaths
  let activeSegment := replayActiveSegment segments activeSegment recoverPartial
  segments.foldlM (fun acc segment ↦
    if startSegment.any fun start ↦ segment < start then return acc
    else pass segment (segment == activeSegment) acc) acc

variable (N) in
def findCheckpointPositionsFrom (activeSegment : ℕ) (nodeFilter : Option NodeIdSet)
    (startPosition : Option RecordPosition) (recoverPartial : Bool) : IoM CheckpointPositions :=
  passSegments (fun segment allowPartial checkpoints ↦
    let startOffset := (startPosition.filter fun start ↦ segment == start.segment).map
      RecordPosition.offset
    scanCheckpointPositions N segment allowPartial nodeFilter startOffset recoverPartial
      checkpoints)
    (startPosition.map RecordPosition.segment) activeSegment recoverPartial ∅

variable (N) in
def replayNodeState (activeSegment : ℕ) (nodeId : NodeId)
    (checkpointHint : Option RecordPosition) (recoverPartial : Bool) : IoM (NodeState N) := do
  let targetNodes : NodeIdSet := (∅ : NodeIdSet).insert nodeId
  let checkpointPositions ← findCheckpointPositionsFrom N activeSegment (some targetNodes)
    checkpointHint recoverPartial
  let checkpointPosition := checkpointPositions[nodeId]?
  passSegments (fun segment allowPartial state ↦
    replayNodeSegment segment allowPartial nodeId checkpointPosition recoverPartial state)
    (checkpointPosition.map RecordPosition.segment) activeSegment recoverPartial (.default N)

variable (N) in
def checkpointPositionsForReplay (activeSegment : ℕ) (nodeFilter : Option NodeIdSet)
    (checkpointHints : Option CheckpointPositions) (recoverPartial : Bool) :
    IoM (CheckpointPositions × Option ℕ) := do
  match checkpointHints with
  | none =>
    let positions ← findCheckpointPositionsFrom N activeSegment nodeFilter none recoverPartial
    return (positions, none)
  | some checkpointPositions =>
    match (checkpointPositions.toList.map Prod.snd).min? with
    | none => return (checkpointPositions, none)
    | some startPosition =>
      let discovered ← findCheckpointPositionsFrom N activeSegment nodeFilter
        (some startPosition) recoverPartial
      return (checkpointPositions ∪ discovered, some startPosition.segment)

variable (N) in
def replayStorageDir (activeSegment : ℕ) (nodeFilter : Option NodeIdSet)
    (checkpointHints : Option CheckpointPositions) (recoverPartial : Bool) :
    IoM (ReplayState N) := do
  let (checkpointPositions, replayStartSegment) ← checkpointPositionsForReplay N activeSegment
    nodeFilter checkpointHints recoverPartial
  passSegments (fun segment allowPartial replay ↦
    replaySegment segment allowPartial nodeFilter checkpointPositions recoverPartial replay)
    replayStartSegment activeSegment recoverPartial ∅

def recoverStorageDir (activeSegment : ℕ) : IoM Unit := do
  let segments ← discoverSegmentPaths
  segments.forM fun segment ↦ scanSegment segment (segment == activeSegment)

end Sukari
