import Sukari.Frame

/-!
# The limits of the encoder

`RecordLimits` says what the format asks of a record in its own terms, and `bodyLength` is the exact
length of its body. The encoder checks lengths step by step, in 32-bit words, and it still accepts
exactly the records within the limits (`encoder_limits`). All that it does to its buffer are puts,
and no sequence of puts takes the buffer beyond the limit or leaves a part of a refused put in it.
-/

set_option autoImplicit false
set_option relaxedAutoImplicit false

namespace Sukari

open LittleEndian Encoder

variable {N : Noraft}

/-! ### Limits of a record -/

/-- Every command entry has a payload, every payload belongs to a command entry, and the numbers of
entries and of the nodes of each configuration are within the limit. -/
structure AppendLimits (append : LogAppend N) : Prop where
  mapping : ∀ index, index ∈ append.commandPayloads ↔
    N.getEntry append.entries index = some .command
  entries : N.len append.entries ≤ maxCountItems
  configs : ∀ config, .clusterConfig config ∈ N.iter append.entries → ClusterConfigValid config

/-- What the format asks of a record, apart from the length of its body. -/
def RecordLimits : Record N → Prop
  | .append append => AppendLimits append
  | .snapshotCheckpoint checkpoint =>
    AppendLimits checkpoint.suffix ∧
      N.prevPosition checkpoint.suffix.entries = checkpoint.snapshot.lastIncluded ∧
        ClusterConfigValid checkpoint.snapshot.config
  | _ => True

/-- A valid append has no more payloads than entries. -/
theorem AppendLimits.size_le {append : LogAppend N} (h : AppendLimits append) :
    append.commandPayloads.size ≤ N.len append.entries := by
  have hsubset : append.commandPayloads.keys ⊆
      (N.positions append.entries).map LogPosition.index := by
    intro index hindex
    obtain ⟨position, rfl, hmem⟩ := Noraft.getEntry_eq_some_iff.mp
      ((h.mapping index).mp (Std.ExtTreeMap.mem_keys.mp hindex))
    exact List.mem_map_of_mem (List.of_mem_zip hmem).1
  have hnodup : append.commandPayloads.keys.Nodup :=
    append.commandPayloads.distinct_keys.imp fun hne hsame ↦ hne (by simp [hsame])
  have hlength := (List.subperm_of_subset hnodup hsubset).length_le
  rwa [Std.ExtTreeMap.length_keys, List.length_map, Noraft.positions, length_positionsFrom]
    at hlength

theorem logAppendValid_iff {append : LogAppend N} :
    LogAppendValid append ↔ AppendLimits append := by
  have hconfigs : (∀ entry ∈ N.iter append.entries, LogEntryValid entry) ↔
      ∀ config, .clusterConfig config ∈ N.iter append.entries → ClusterConfigValid config := by
    refine ⟨fun h config hmem ↦ h _ hmem, fun h entry hmem ↦ ?_⟩
    cases entry with
    | clusterConfig config => exact h config hmem
    | term | command => exact trivial
  rw [LogAppendValid, logAppend_validate_iff_getEntry, hconfigs]
  constructor
  · rintro ⟨hmapping, hentries, hvalid, -⟩
    exact ⟨hmapping, hentries, hvalid⟩
  · intro h
    exact ⟨h.mapping, h.entries, h.configs, h.size_le.trans h.entries⟩

theorem recordValid_iff {record : Record N} : RecordValid record ↔ RecordLimits record := by
  cases record with
  | append append => exact logAppendValid_iff
  | snapshotCheckpoint checkpoint =>
    rw [RecordValid, RecordLimits, SnapshotCheckpointValid, snapshotCheckpoint_validate_eq_ok_iff,
      logAppendValid_iff]
    constructor
    · rintro ⟨⟨-, hanchor⟩, hconfig, hsuffix⟩
      exact ⟨hsuffix, hanchor, hconfig⟩
    · rintro ⟨hsuffix, hanchor, hconfig⟩
      exact ⟨⟨(logAppendValid_iff.mpr hsuffix).1, hanchor⟩, hconfig, hsuffix⟩
  | currentTerm | votedFor => exact Iff.rfl

/-! ### Lengths -/

def optionalNodeIdLength : Option NodeId → ℕ
  | some _ => 1 + 8
  | none => 1

def clusterConfigLength (config : ClusterConfig) : ℕ :=
  (4 + 8 * config.voters.size) + (4 + 8 * config.newVoters.size) + (4 + 8 * config.nonVoters.size)

def logEntryLength : LogEntry → ℕ
  | .term _ => 1 + 8
  | .clusterConfig config => 1 + clusterConfigLength config
  | .command => 1

def logAppendLength (append : LogAppend N) : ℕ :=
  (16 + 4 + ((N.iter append.entries).map logEntryLength).sum) +
    (4 + (append.commandPayloads.toList.map fun item ↦ 8 + 1 + (4 + item.2.bytes.length)).sum)

def snapshotLength (snapshot : Snapshot) : ℕ :=
  16 + clusterConfigLength snapshot.config + (4 + snapshot.data.length)

def recordLength : Record N → ℕ
  | .currentTerm _ => 1 + 8
  | .votedFor votedFor => 1 + optionalNodeIdLength votedFor
  | .append append => 1 + logAppendLength append
  | .snapshotCheckpoint checkpoint => 1 + (8 + optionalNodeIdLength checkpoint.votedFor +
      snapshotLength checkpoint.snapshot + logAppendLength checkpoint.suffix)

/-- The exact length of the body of a record. -/
def bodyLength (record : Record N) : ℕ := 8 + recordLength record

@[simp] theorem length_u64Image (value : UInt64) : (u64Image value).length = 8 :=
  length_toLeBytes 8 _

theorem length_nodeIdSetImage (nodes : NodeIdSet) :
    (nodeIdSetImage nodes).length = 4 + 8 * nodes.size := by
  rw [nodeIdSetImage, List.length_append, length_toLeBytes, List.length_flatMap]
  simp [Nat.mul_comm]

theorem length_clusterConfigImage (config : ClusterConfig) :
    (clusterConfigImage config).length = clusterConfigLength config := by
  simp only [clusterConfigImage, List.length_append, length_nodeIdSetImage, clusterConfigLength]

theorem length_optionalNodeIdImage (nodeId : Option NodeId) :
    (optionalNodeIdImage nodeId).length = optionalNodeIdLength nodeId := by
  cases nodeId <;> simp [optionalNodeIdImage, optionalNodeIdLength, Nat.add_comm]

theorem length_logEntryImage (entry : LogEntry) :
    (logEntryImage entry).length = logEntryLength entry := by
  cases entry <;>
    simp [logEntryImage, logEntryLength, length_clusterConfigImage, Nat.add_comm]

theorem length_logAppendImage (append : LogAppend N) :
    (logAppendImage append).length = logAppendLength append := by
  have hentries : ((N.iter append.entries).flatMap logEntryImage).length =
      ((N.iter append.entries).map logEntryLength).sum := by
    rw [List.length_flatMap, funext length_logEntryImage]
  have hpayloads : (append.commandPayloads.toList.flatMap commandPayloadImage).length =
      (append.commandPayloads.toList.map fun item ↦ 8 + 1 + (4 + item.2.bytes.length)).sum := by
    rw [List.length_flatMap]
    simp only [commandPayloadImage, bytesImage, List.length_append, length_u64Image,
      length_toLeBytes, List.length_singleton]
  simp only [logAppendImage, logEntriesImage, logPositionImage, List.length_append, hentries,
    hpayloads, length_u64Image, length_toLeBytes, logAppendLength]
  omega

theorem length_bodyImage (nodeId : NodeId) (record : Record N) :
    (bodyImage nodeId record).length = bodyLength record := by
  rw [bodyImage, List.length_append, length_u64Image, bodyLength]
  cases record <;>
    simp [recordImage, recordLength, snapshotCheckpointImage, snapshotImage, snapshotLength,
      logPositionImage, bytesImage, length_optionalNodeIdImage, length_clusterConfigImage,
      length_logAppendImage] <;> omega

/-! ### Puts -/

/-- A call of a method of the encoder that appends to its buffer. -/
inductive EncoderPut
  | u8 (value : UInt8)
  | u32 (value : UInt32)
  | u64 (value : UInt64)
  | slice (bytes : List UInt8)
  | bytes (bytes : Bytes)

def EncoderPut.perform : EncoderPut → EncoderM Unit
  | .u8 value => putU8 value
  | .u32 value => putU32 value.toNat
  | .u64 value => putU64 value
  | .slice contents => putSlice contents
  | .bytes contents => putBytes contents

/-- The encoder after a sequence of puts, each of which may fail. -/
def Encoder.afterPuts (encoder : Encoder) (puts : List EncoderPut) : Encoder :=
  puts.foldl (fun encoder put ↦ (put.perform encoder).2) encoder

/-- The action leaves every encoder as it is. -/
def LeavesEncoder {α : Type} (action : EncoderM α) : Prop :=
  ∀ encoder, (action encoder).2 = encoder

/-- The action succeeds or leaves the encoder as it is. -/
def Atomic {α : Type} (action : EncoderM α) : Prop :=
  ∀ encoder, (∃ value, (action encoder).1 = .ok value) ∨ (action encoder).2 = encoder

section LeavesEncoder

variable {α β : Type} {action : EncoderM α} {next : α → EncoderM β}

theorem LeavesEncoder.bind (h : LeavesEncoder action) (h' : ∀ value, LeavesEncoder (next value)) :
    LeavesEncoder (action >>= next) := by
  intro encoder
  have hleaves := h encoder
  rw [bind_apply]
  rcases haction : action encoder with ⟨error | value, encoder'⟩
  · rwa [haction] at hleaves
  · rw [haction] at hleaves
    exact (h' value encoder').trans hleaves

theorem LeavesEncoder.atomic_bind (h : LeavesEncoder action) (h' : ∀ value, Atomic (next value)) :
    Atomic (action >>= next) := by
  intro encoder
  have hleaves := h encoder
  rw [bind_apply]
  rcases haction : action encoder with ⟨error | value, encoder'⟩
  · rw [haction] at hleaves
    exact .inr hleaves
  · rw [haction] at hleaves
    obtain rfl : encoder' = encoder := hleaves
    exact h' value encoder'

theorem leaves_failIf {condition : Prop} [Decidable condition] {error : IoError} :
    LeavesEncoder (failIf condition error : EncoderM Unit) := by
  intro encoder
  rw [failIf_apply]
  split <;> rfl

theorem leaves_liftM (result : Except IoError Unit) :
    LeavesEncoder (liftM result : EncoderM Unit) := by
  intro encoder
  cases result <;> rfl

end LeavesEncoder

theorem leaves_checkAppendLen (additional : ℕ) : LeavesEncoder (checkAppendLen additional) :=
  leaves_failIf.bind fun _ ↦ LeavesEncoder.bind (fun _ ↦ rfl) fun _ ↦ leaves_failIf.bind fun _ ↦
    leaves_failIf.bind fun _ _ ↦ rfl

theorem atomic_putSlice (bytes : List UInt8) : Atomic (putSlice bytes) :=
  (leaves_checkAppendLen _).atomic_bind fun _ _ ↦ .inl ⟨(), rfl⟩

theorem atomic_putBytes (bytes : Bytes) : Atomic (putBytes bytes) :=
  leaves_failIf.atomic_bind fun _ ↦ leaves_failIf.atomic_bind fun _ ↦
    leaves_failIf.atomic_bind fun _ ↦
    (leaves_checkAppendLen _).atomic_bind fun _ _ ↦ .inl ⟨(), rfl⟩

/-- A put that fails leaves the encoder as it was. -/
theorem EncoderPut.atomic (put : EncoderPut) : Atomic put.perform := by
  cases put with
  | u8 _ | u32 _ | u64 _ | slice _ => exact atomic_putSlice _
  | bytes contents => exact atomic_putBytes contents

/-- A put keeps the invariant of the encoder. -/
theorem EncoderPut.coherent (put : EncoderPut) {encoder : Encoder} (h : encoder.Coherent) :
    (put.perform encoder).2.Coherent := by
  have hwrites : ∃ image, Writes put.perform image True := by
    cases put with
    | u8 _ | u32 _ | u64 _ | slice _ => exact ⟨_, putSlice_writes _⟩
    | bytes contents => exact ⟨_, putBytes_writes contents⟩
  obtain ⟨image, hwrites⟩ := hwrites
  obtain ⟨hok, herror⟩ := hwrites encoder h
  by_cases hfits : encoder.bytes.length + image.length ≤ maxRecordBodyLen
  · rw [hok ⟨trivial, hfits⟩]
    exact ⟨(List.length_append).symm, hfits⟩
  · obtain ⟨error, encoder', hfails, -⟩ := herror fun hboth ↦ hfits hboth.2
    rcases put.atomic encoder with ⟨value, hsucceeds⟩ | hkept
    · rw [hfails] at hsucceeds
      nomatch hsucceeds
    · rwa [hkept]

theorem Encoder.Coherent.afterPuts {encoder : Encoder} (h : encoder.Coherent)
    (puts : List EncoderPut) : (encoder.afterPuts puts).Coherent := by
  induction puts generalizing encoder with
  | nil => exact h
  | cons put rest ih => exact ih (put.coherent h)

/-- All that the action does to an encoder are puts. -/
def Puts {α : Type} (action : EncoderM α) : Prop :=
  ∀ encoder, ∃ puts, (action encoder).2 = encoder.afterPuts puts

namespace Puts

variable {α β : Type}

theorem of_leaves {action : EncoderM α} (h : LeavesEncoder action) : Puts action :=
  fun encoder ↦ ⟨[], h encoder⟩

theorem put (put : EncoderPut) : Puts put.perform := fun _ ↦ ⟨[put], rfl⟩

theorem seq {action action' : EncoderM Unit} (h : Puts action) (h' : Puts action') :
    Puts (do action; action') := by
  intro encoder
  obtain ⟨puts, hputs⟩ := h encoder
  rw [bind_apply]
  rcases haction : action encoder with ⟨error | value, encoder'⟩
  · rw [haction] at hputs
    exact ⟨puts, hputs⟩
  · rw [haction] at hputs
    obtain rfl : encoder' = encoder.afterPuts puts := hputs
    obtain ⟨puts', hputs'⟩ := h' (encoder.afterPuts puts)
    exact ⟨puts ++ puts', hputs'.trans List.foldl_append.symm⟩

theorem forM {ι : Type} {step : ι → EncoderM Unit} (h : ∀ item, Puts (step item))
    (items : List ι) : Puts (items.forM step) := by
  induction items with
  | nil => exact of_leaves fun _ ↦ rfl
  | cons item rest ih => exact (h item).seq ih

end Puts

theorem puts_putU8 (value : UInt8) : Puts (putU8 value) := Puts.put (.u8 value)

theorem puts_putU64 (value : UInt64) : Puts (putU64 value) := Puts.put (.u64 value)

theorem puts_putBytes (bytes : Bytes) : Puts (putBytes bytes) := Puts.put (.bytes bytes)

theorem puts_encodeCount (value : ℕ) (error : String) : Puts (encodeCount value error) :=
  (Puts.of_leaves leaves_failIf).seq ((Puts.of_leaves leaves_failIf).seq
    (Puts.put (.slice (toLeBytes 4 value))))

theorem puts_encodeLogPosition (position : LogPosition) : Puts (encodeLogPosition position) :=
  (puts_putU64 _).seq (puts_putU64 _)

theorem puts_encodeOptionalNodeId (nodeId : Option NodeId) :
    Puts (encodeOptionalNodeId nodeId) := by
  cases nodeId with
  | none => exact puts_putU8 0
  | some nodeId => exact (puts_putU8 1).seq (puts_putU64 nodeId)

theorem puts_encodeNodeIdSet (nodes : NodeIdSet) : Puts (encodeNodeIdSet nodes) :=
  (puts_encodeCount _ _).seq (.forM puts_putU64 _)

theorem puts_encodeClusterConfig (config : ClusterConfig) : Puts (encodeClusterConfig config) :=
  (puts_encodeNodeIdSet _).seq ((puts_encodeNodeIdSet _).seq (puts_encodeNodeIdSet _))

theorem puts_encodeLogEntry (entry : LogEntry) : Puts (encodeLogEntry entry) := by
  cases entry with
  | term term => exact (puts_putU8 0).seq (puts_putU64 term)
  | clusterConfig config => exact (puts_putU8 1).seq (puts_encodeClusterConfig config)
  | command => exact puts_putU8 2

theorem puts_encodeCommandPayload (entry : LogIndex × CommandPayload) :
    Puts (encodeCommandPayload entry) :=
  (puts_putU64 _).seq ((puts_putU8 _).seq (puts_putBytes _))

theorem puts_encodeLogAppend (append : LogAppend N) : Puts (encodeLogAppend append) :=
  (Puts.of_leaves (leaves_liftM _)).seq (((puts_encodeLogPosition _).seq ((puts_encodeCount _ _).seq
    (.forM puts_encodeLogEntry _))).seq ((puts_encodeCount _ _).seq
      (.forM puts_encodeCommandPayload _)))

theorem puts_encodeSnapshotCheckpoint (checkpoint : SnapshotCheckpoint N) :
    Puts (encodeSnapshotCheckpoint checkpoint) :=
  (Puts.of_leaves (leaves_liftM _)).seq ((puts_putU64 _).seq ((puts_encodeOptionalNodeId _).seq
    (((puts_encodeLogPosition _).seq ((puts_encodeClusterConfig _).seq (puts_putBytes _))).seq
      (puts_encodeLogAppend _))))

theorem puts_encodeRecord (record : Record N) : Puts (encodeRecord record) := by
  cases record with
  | currentTerm term => exact (puts_putU8 0).seq (puts_putU64 term)
  | votedFor votedFor => exact (puts_putU8 1).seq (puts_encodeOptionalNodeId votedFor)
  | append append => exact (puts_putU8 2).seq (puts_encodeLogAppend append)
  | snapshotCheckpoint checkpoint =>
    exact (puts_putU8 3).seq (puts_encodeSnapshotCheckpoint checkpoint)

/-! ### What the encoder accepts -/

/-- What the encoder returns for a record: a frame around a body of the exact length, if the record
is within the limits, and an error otherwise. -/
def FrameVerdict (record : Record N) : Except IoError (List UInt8) → Prop
  | .ok frame => RecordLimits record ∧ bodyLength record ≤ maxRecordBodyLen ∧
      frame.length = bodyLength record + 8 ∧ fromLeBytes (frame.take 4) = bodyLength record
  | .error error => ¬ (RecordLimits record ∧ bodyLength record ≤ maxRecordBodyLen) ∧
      error.kind = .invalidInput

theorem encodeRecordFrame_error {nodeId : NodeId} {record : Record N} {error : IoError}
    (h : encodeRecordFrame nodeId record = .error error) : error.kind = .invalidInput := by
  simp only [encodeRecordFrame, bind_eq_error_iff, failIf_eq_error_iff] at h
  rcases h with h | ⟨body, -, ⟨-, rfl⟩ | ⟨-, -, ⟨-, rfl⟩ | ⟨-, -, h⟩⟩⟩
  · exact encodeBody_error h
  · rfl
  · rfl
  · cases h

theorem frameVerdict_encodeRecordFrame (nodeId : NodeId) (record : Record N) :
    FrameVerdict record (encodeRecordFrame nodeId record) := by
  have hlimit : maxRecordBodyLen < 256 ^ 4 := by decide
  cases hencoded : encodeRecordFrame nodeId record with
  | ok bytes =>
    obtain ⟨frame, rfl, rfl, rfl⟩ := encodeRecordFrame_eq_ok_iff.mp hencoded
    have hlength : frame.body.length = bodyLength frame.record := length_bodyImage _ _
    refine ⟨recordValid_iff.mp frame.valid, hlength ▸ frame.length_body_le, ?_, ?_⟩
    · rw [frame.length_bytes, hlength, Nat.add_comm]
    · rw [Frame.bytes, frameHeader, List.append_assoc, List.take_left' (length_toLeBytes 4 _),
        fromLeBytes_toLeBytes (frame.length_body_le.trans_lt hlimit), hlength]
  | error error =>
    refine ⟨fun hrecord ↦ ?_, encodeRecordFrame_error hencoded⟩
    obtain ⟨hlimits, hfits⟩ := hrecord
    have hframe := encodeRecordFrame_eq_ok_iff.mpr ⟨⟨nodeId, record, recordValid_iff.mpr hlimits,
      (length_bodyImage nodeId record).trans_le hfits⟩, rfl, rfl, rfl⟩
    rw [hencoded] at hframe
    cases hframe

/-- The encoder accepts exactly the records within the limits. Throughout, its length is the number
of buffered bytes and within the limit, and a put that fails changes nothing. -/
theorem encoder_limits :
    (∀ (nodeId : NodeId) (record : Record N),
      FrameVerdict record (encodeRecordFrame nodeId record)) ∧
    (∀ puts, (Encoder.new.afterPuts puts).len = (Encoder.new.afterPuts puts).bytes.length ∧
      (Encoder.new.afterPuts puts).len ≤ maxRecordBodyLen) ∧
    (∀ (put : EncoderPut) (encoder : Encoder),
      (∃ value, (put.perform encoder).1 = .ok value) ∨ (put.perform encoder).2 = encoder) ∧
    ∀ (nodeId : NodeId) (record : Record N), ∃ puts,
      ((do encodeNodeId nodeId; encodeRecord record : EncoderM Unit) .new).2 =
        Encoder.new.afterPuts puts := by
  refine ⟨frameVerdict_encodeRecordFrame, fun puts ↦ coherent_new.afterPuts puts,
    fun put ↦ put.atomic, fun nodeId record ↦ ?_⟩
  exact (puts_putU64 nodeId).seq (puts_encodeRecord record) .new

end Sukari
