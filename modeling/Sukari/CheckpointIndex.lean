import Sukari.Registry
import Sukari.Listing

/-!
# The checkpoint index

For every node the position of a checkpoint record, kept in `checkpoints.json` as a hint for
replay and as the barrier of garbage collection. Loading the index drops the nodes that are not
active and checks that every entry left points to a checkpoint of its node. The file returns the
index that was saved (`parseCheckpointIndex_format`).
-/

set_option autoImplicit false
set_option relaxedAutoImplicit false

namespace Sukari

open Effects

variable (N : Noraft)

def checkpointIndexVersion : ℕ := 1

/-- `CheckpointIndex`; the entry of a node is its `checkpoint_position`. -/
structure CheckpointIndex where
  nodes : Std.ExtTreeMap NodeId RecordPosition

inductive GcBarrier
  | allInactiveAppendSegments
  | before (segment : ℕ)
  deriving DecidableEq

def GcBarrier.allowsDelete : GcBarrier → ℕ → Bool
  | .allInactiveAppendSegments, _ => true
  | .before checkpointSegment, segment => segment < checkpointSegment

section Format

variable {V : Type} [JsonReader V]

def parseCheckpointNodeIndex (value : V) : Except JsonParseError RecordPosition := do
  let segmentName ← JsonReader.toText (← requiredMember value "checkpoint_segment")
  match SegmentName.parseFileName segmentName with
  | none => throw (.invalid "invalid checkpoint segment name")
  | some segment =>
    let offset ← JsonReader.toU64 (← requiredMember value "checkpoint_offset")
    return ⟨segment, offset⟩

/-- `CheckpointNodeIndexJson`. -/
def formatCheckpointNodeIndex (position : RecordPosition) : Json :=
  .object [("checkpoint_segment", .string (SegmentName.fileName position.segment)),
    ("checkpoint_offset", .integer position.offset)]

def parseCheckpointIndex (value : V) : Except JsonParseError CheckpointIndex := do
  let nodes ← parseNodeFile checkpointIndexVersion "unsupported checkpoint index version"
    parseCheckpointNodeIndex value
  return ⟨nodes⟩

/-- The document that `format_checkpoint_index` prints. -/
def formatCheckpointIndex (index : CheckpointIndex) : Json :=
  formatNodeFile checkpointIndexVersion formatCheckpointNodeIndex index.nodes

end Format

/-- What a checkpoint position must point to, in the file of its segment. -/
def checkCheckpointRecord (nodeId : NodeId) (offset : ℕ) (bytes : List UInt8) :
    Except IoError Unit := do
  failIf (offset < segmentFileHeaderLen) (invalidData "checkpoint index offset precedes records")
  failIf (bytes.length < offset) (invalidData "checkpoint index offset exceeds segment length")
  match ← readRecordBody (.seek bytes offset) with
  | none => throw (invalidData "checkpoint index offset does not point to a record")
  | some (body, _) =>
    let nodeRecord ← decodeNodeRecord N body
    failIf (nodeRecord.1 ≠ nodeId) (invalidData "checkpoint index node ID mismatch")
    failIf (nodeRecord.2.isCheckpoint = false)
      (invalidData "checkpoint index does not point to a checkpoint")

def validateCheckpointPosition (nodeId : NodeId) (position : RecordPosition) : IoM Unit := do
  let existing : Bool ← io (.isFile position.segment)
  failIf (existing = false) (invalidData "checkpoint index segment does not exist")
  let bytes ← openSegment position.segment
  let _ ← readSegmentHeader position.segment bytes false false
  liftM (checkCheckpointRecord N nodeId position.offset bytes)

namespace CheckpointIndex

/-- `CheckpointIndex::default`. -/
def default : CheckpointIndex := ⟨∅⟩

def checkpointPosition (index : CheckpointIndex) (nodeId : NodeId) : Option RecordPosition :=
  index.nodes[nodeId]?

/-- The positions of all the given nodes, if every one of them has one. -/
def checkpointPositions (index : CheckpointIndex) (nodeIds : NodeIdSet) :
    Option (Std.ExtTreeMap NodeId RecordPosition) :=
  nodeIds.toList.foldlM (fun positions nodeId ↦
    (index.checkpointPosition nodeId).map (positions.insert nodeId)) ∅

def gcBarrier (index : CheckpointIndex) (activeNodeIds : NodeIdSet) : Option GcBarrier := do
  let oldest : Option ℕ ← activeNodeIds.toList.foldlM (fun oldest nodeId ↦
    (index.checkpointPosition nodeId).map fun position ↦
      some ((oldest.map fun segment ↦ min segment position.segment).getD position.segment)) none
  match oldest with
  | some segment => return .before segment
  | none => return .allInactiveAppendSegments

def setCheckpointPosition (index : CheckpointIndex) (nodeId : NodeId)
    (position : RecordPosition) : CheckpointIndex :=
  ⟨index.nodes.insert nodeId position⟩

def removeNode (index : CheckpointIndex) (nodeId : NodeId) : CheckpointIndex :=
  ⟨index.nodes.erase nodeId⟩

/-- `nodes.retain` with the active nodes of a registry. -/
def retainActive (index : CheckpointIndex) (registry : NodeRegistry) : CheckpointIndex :=
  ⟨index.nodes.filter fun nodeId _ ↦ registry.isActive nodeId⟩

def validateCheckpointPositions (index : CheckpointIndex) : IoM Unit :=
  index.nodes.toList.forM fun item ↦ validateCheckpointPosition N item.1 item.2

def load (registry : NodeRegistry) : IoM CheckpointIndex := do
  let contents : Option Json ← io (.readJson .checkpoints)
  match contents with
  | none => return .default
  | some document =>
    match parseCheckpointIndex document with
    | .error error => throw (invalidJson error)
    | .ok index =>
      let index := index.retainActive registry
      index.validateCheckpointPositions N
      return index

def save (index : CheckpointIndex) : IoM Unit := do
  let _ : Unit ← io (.replaceJson .checkpoints (formatCheckpointIndex index))
  syncDir

/-- The index that a file holds, before it is checked. -/
def ofFile : Option Json → Except IoError CheckpointIndex
  | none => return .default
  | some document =>
    match parseCheckpointIndex document with
    | .ok index => return index
    | .error error => throw (invalidJson error)

end CheckpointIndex

/-! ### The index file -/

theorem parseCheckpointNodeIndex_readAs {V : Type} [JsonReader V] {position : RecordPosition}
    {value : V} (hsegment : position.segment < 2 ^ 64)
    (h : (formatCheckpointNodeIndex position).ReadAs value) :
    parseCheckpointNodeIndex value = .ok position := by
  simp only [formatCheckpointNodeIndex, Json.ReadAs, Json.MembersReadAs] at h
  obtain ⟨_, hobject, segment, _, rfl, hsegmentName, offset, _, rfl, hoffset, rfl⟩ := h
  have hsegmentValue : requiredMember value "checkpoint_segment" = .ok segment :=
    requiredMember_eq hobject rfl
  have hoffsetValue : requiredMember value "checkpoint_offset" = .ok offset :=
    requiredMember_eq hobject rfl
  simp only [parseCheckpointNodeIndex, hsegmentValue, hsegmentName, parseFileName_fileName hsegment,
    hoffsetValue, hoffset, bind, Except.bind, pure, Except.pure]

/-- A value that reads as the file of an index is parsed into the index. -/
theorem parseCheckpointIndex_readAs {V : Type} [JsonReader V] {index : CheckpointIndex} {value : V}
    (h : ∀ (nodeId : NodeId) (position : RecordPosition), index.nodes[nodeId]? = some position →
      position.segment < 2 ^ 64 ∧ position.offset < 2 ^ 64)
    (hvalue : (formatCheckpointIndex index).ReadAs value) :
    parseCheckpointIndex value = .ok index := by
  have hmap : index.nodes.map (fun _ position ↦ position) = index.nodes := by
    ext nodeId position
    rw [Std.ExtTreeMap.getElem?_map]
    simp
  rw [parseCheckpointIndex, parseNodeFile_readAs (fun position ↦ position) hvalue
    fun nodeId position hposition _ hentry ↦
      parseCheckpointNodeIndex_readAs (h nodeId position hposition).1 hentry]
  simp only [hmap]
  rfl

theorem plain_fileName (segment : ℕ) : Json.Plain (SegmentName.fileName segment) := by
  intro c hc
  simp only [SegmentName.fileName, String.toList_append, List.mem_append] at hc
  obtain (hleft | hdigits) | hright := hc
  · exact (by decide : Json.Plain "append-") c hleft
  · exact plain_repr segment c hdigits
  · exact (by decide : Json.Plain ".segment") c hright

theorem printable_formatCheckpointIndex {accepted : String → Prop} {index : CheckpointIndex}
    (h : ∀ (nodeId : NodeId) (position : RecordPosition), index.nodes[nodeId]? = some position →
      position.segment < 2 ^ 64 ∧ position.offset < 2 ^ 64) :
    (formatCheckpointIndex index).Printable accepted := by
  refine printable_formatNodeFile (by decide) fun nodeId position hposition ↦ ?_
  simp only [formatCheckpointNodeIndex, Json.Printable, Json.MembersPrintable]
  exact ⟨by decide, plain_fileName _, by decide, (h nodeId position hposition).2, trivial⟩

/-- The index file returns the index that was saved. -/
theorem parseCheckpointIndex_format {index : CheckpointIndex}
    (h : ∀ (nodeId : NodeId) (position : RecordPosition), index.nodes[nodeId]? = some position →
      position.segment < 2 ^ 64 ∧ position.offset < 2 ^ 64) :
    parseCheckpointIndex (formatCheckpointIndex index) = .ok index :=
  parseCheckpointIndex_readAs h
    (Json.readAs_self (@printable_formatCheckpointIndex (fun _ ↦ True) index h))

/-! ### The positions of several nodes -/

namespace CheckpointIndex

variable {index : CheckpointIndex} {nodeIds : NodeIdSet}

@[simp] theorem checkpointPosition_setCheckpointPosition (index : CheckpointIndex) (nodeId : NodeId)
    (position : RecordPosition) (other : NodeId) :
    (index.setCheckpointPosition nodeId position).checkpointPosition other =
      if nodeId = other then some position else index.checkpointPosition other := by
  rw [checkpointPosition, setCheckpointPosition, Std.ExtTreeMap.getElem?_insert]
  simp [checkpointPosition]

@[simp] theorem checkpointPosition_removeNode (index : CheckpointIndex) (nodeId other : NodeId) :
    (index.removeNode nodeId).checkpointPosition other =
      if nodeId = other then none else index.checkpointPosition other := by
  rw [checkpointPosition, removeNode, Std.ExtTreeMap.getElem?_erase]
  simp [checkpointPosition]

@[simp] theorem checkpointPosition_retainActive (index : CheckpointIndex) (registry : NodeRegistry)
    (nodeId : NodeId) : (index.retainActive registry).checkpointPosition nodeId =
      if registry.isActive nodeId then index.checkpointPosition nodeId else none := by
  rw [checkpointPosition, retainActive, Std.ExtTreeMap.getElem?_filter, checkpointPosition]
  cases hactive : registry.isActive nodeId with
  | true =>
    simp only [Std.ExtTreeMap.getKey_eq, hactive, Option.pfilter_eq_filter, if_true]
    cases index.nodes[nodeId]? <;> rfl
  | false => simp [hactive]

theorem foldlM_positions {items : List NodeId}
    {start positions : Std.ExtTreeMap NodeId RecordPosition}
    (h : items.foldlM (fun positions nodeId ↦
      (index.checkpointPosition nodeId).map (positions.insert nodeId)) start = some positions)
    (nodeId : NodeId) : positions[nodeId]? =
      if nodeId ∈ items then index.checkpointPosition nodeId else start[nodeId]? := by
  induction items generalizing start with
  | nil =>
    have hsame : start = positions := Option.some.inj h
    simp [hsame]
  | cons item rest ih =>
    rw [List.foldlM_cons] at h
    cases hitem : index.checkpointPosition item with
    | none => simp [hitem] at h
    | some position =>
      rw [hitem] at h
      rw [ih h, Std.ExtTreeMap.getElem?_insert]
      by_cases hrest : nodeId ∈ rest
      · simp [hrest]
      · by_cases hsame : item = nodeId
        · simp [← hsame, hitem]
        · simp [hrest, hsame, Ne.symm hsame]

/-- The hints of all nodes agree with the index. -/
theorem getElem?_checkpointPositions {positions : Std.ExtTreeMap NodeId RecordPosition}
    (h : index.checkpointPositions nodeIds = some positions) (nodeId : NodeId) :
    positions[nodeId]? =
      if nodeId ∈ nodeIds then index.checkpointPosition nodeId else none := by
  rw [foldlM_positions h, Std.ExtTreeMap.getElem?_empty]
  simp

theorem exists_of_foldlM_positions {items : List NodeId}
    {start positions : Std.ExtTreeMap NodeId RecordPosition}
    (h : items.foldlM (fun positions nodeId ↦
      (index.checkpointPosition nodeId).map (positions.insert nodeId)) start = some positions) :
    ∀ nodeId ∈ items, ∃ position, index.checkpointPosition nodeId = some position := by
  induction items generalizing start with
  | nil => simp
  | cons item rest ih =>
    rw [List.foldlM_cons] at h
    cases hitem : index.checkpointPosition item with
    | none => simp [hitem] at h
    | some position =>
      rw [hitem] at h
      exact List.forall_mem_cons.mpr ⟨⟨position, hitem⟩, ih h⟩

/-- There are hints for all nodes or no hints at all. -/
theorem mem_of_checkpointPositions {positions : Std.ExtTreeMap NodeId RecordPosition}
    (h : index.checkpointPositions nodeIds = some positions) :
    ∀ nodeId ∈ nodeIds, nodeId ∈ positions := by
  intro nodeId hnode
  obtain ⟨position, hposition⟩ := exists_of_foldlM_positions h nodeId (by simpa using hnode)
  rw [Std.ExtTreeMap.mem_iff_isSome_getElem?, getElem?_checkpointPositions h,
    if_pos hnode, hposition]
  rfl

theorem foldlM_barrier {items : List NodeId} {start oldest : Option ℕ}
    (h : items.foldlM (fun oldest nodeId ↦ (index.checkpointPosition nodeId).map fun position ↦
      some ((oldest.map fun segment ↦ min segment position.segment).getD position.segment)) start =
        some oldest) :
    (∀ nodeId ∈ items, ∃ position, index.checkpointPosition nodeId = some position) ∧
      ∀ segment, (∀ barrier ∈ oldest, segment < barrier) ↔ (∀ barrier ∈ start, segment < barrier) ∧
        ∀ nodeId ∈ items, ∀ position, index.checkpointPosition nodeId = some position →
          segment < position.segment := by
  induction items generalizing start with
  | nil =>
    have hsame : start = oldest := Option.some.inj h
    simp [hsame]
  | cons item rest ih =>
    rw [List.foldlM_cons] at h
    cases hitem : index.checkpointPosition item with
    | none => simp [hitem] at h
    | some position =>
      rw [hitem] at h
      obtain ⟨hall, hbarrier⟩ := ih h
      refine ⟨List.forall_mem_cons.mpr ⟨⟨position, hitem⟩, hall⟩, fun segment ↦ ?_⟩
      rw [hbarrier, List.forall_mem_cons, ← and_assoc]
      refine and_congr ?_ Iff.rfl
      cases start <;> simp [hitem]

/-- The barrier is the oldest checkpoint segment of the nodes. -/
theorem gcBarrier_eq_some {barrier : GcBarrier} (h : index.gcBarrier nodeIds = some barrier) :
    (∀ nodeId ∈ nodeIds, ∃ position, index.checkpointPosition nodeId = some position) ∧
      ∀ segment, barrier.allowsDelete segment = true ↔ ∀ nodeId ∈ nodeIds, ∀ position,
        index.checkpointPosition nodeId = some position → segment < position.segment := by
  obtain ⟨oldest, hfold, holdest⟩ := Option.bind_eq_some_iff.mp h
  obtain ⟨hall, hbarrier⟩ := foldlM_barrier hfold
  refine ⟨fun nodeId hnode ↦ hall nodeId (by simpa using hnode), fun segment ↦ ?_⟩
  have hiff := hbarrier segment
  simp only [Option.mem_def, reduceCtorEq, false_implies, implies_true, true_and,
    Std.ExtTreeSet.mem_toList] at hiff
  rw [← hiff]
  cases oldest with
  | none =>
    rw [← Option.some.inj holdest]
    simp [GcBarrier.allowsDelete]
  | some oldest =>
    rw [← Option.some.inj holdest]
    simp [GcBarrier.allowsDelete]

/-- Without the position of some node there is no barrier. -/
theorem gcBarrier_eq_none (h : index.gcBarrier nodeIds = none) :
    ∃ nodeId ∈ nodeIds, index.checkpointPosition nodeId = none := by
  by_contra hall
  have hpositions : ∀ nodeId ∈ nodeIds.toList,
      ∃ position, index.checkpointPosition nodeId = some position := by
    intro nodeId hnode
    cases hposition : index.checkpointPosition nodeId with
    | none => exact absurd ⟨nodeId, by simpa using hnode, hposition⟩ hall
    | some position => exact ⟨position, rfl⟩
  have hfold : ∀ (items : List NodeId) (start : Option ℕ),
      (∀ nodeId ∈ items, ∃ position, index.checkpointPosition nodeId = some position) →
      ∃ oldest, items.foldlM (fun oldest nodeId ↦ (index.checkpointPosition nodeId).map
        fun position ↦ some ((oldest.map fun segment ↦ min segment position.segment).getD
          position.segment)) start = some oldest := by
    intro items
    induction items with
    | nil => exact fun start _ ↦ ⟨start, rfl⟩
    | cons item rest ih =>
      intro start hitems
      obtain ⟨position, hposition⟩ := hitems item (by simp)
      rw [List.foldlM_cons, hposition]
      exact ih _ fun nodeId hnode ↦ hitems nodeId (by simp [hnode])
  obtain ⟨oldest, holdest⟩ := hfold nodeIds.toList none hpositions
  unfold gcBarrier at h
  rw [holdest] at h
  cases oldest <;> nomatch h

end CheckpointIndex

end Sukari
