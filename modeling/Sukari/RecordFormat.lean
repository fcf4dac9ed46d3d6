import Sukari.Codec
import Sukari.TreeMap

/-!
# The record format

`recordImage` is the byte string of a record in the segment format and `RecordValid` what the
format asks of the record: valid payload mappings, a checkpoint suffix that starts at the snapshot,
and at most a million items in every counted sequence. `encodeRecord_writes` says that the encoder
succeeds exactly on valid records whose image fits the body limit, and that it then writes the
image; `decodeRecord_reads` that the decoder reads the image of a valid record back to the record.
Both are composed, along the grammar of the format, from the same statements about its parts.
-/

set_option autoImplicit false
set_option relaxedAutoImplicit false

namespace Sukari

open LittleEndian Encoder Decoder

variable {N : Noraft}

/-! ### Byte images -/

def u64Image (value : UInt64) : List UInt8 := toLeBytes 8 value.toNat

def bytesImage (bytes : Bytes) : List UInt8 := toLeBytes 4 bytes.length ++ bytes

def logPositionImage (position : LogPosition) : List UInt8 :=
  u64Image position.term ++ u64Image position.index

def optionalNodeIdImage : Option NodeId → List UInt8
  | some nodeId => 1 :: u64Image nodeId
  | none => [0]

def nodeIdSetImage (nodes : NodeIdSet) : List UInt8 :=
  toLeBytes 4 nodes.size ++ nodes.toList.flatMap u64Image

def clusterConfigImage (config : ClusterConfig) : List UInt8 :=
  nodeIdSetImage config.voters ++ nodeIdSetImage config.newVoters ++
    nodeIdSetImage config.nonVoters

def logEntryImage : LogEntry → List UInt8
  | .term term => 0 :: u64Image term
  | .clusterConfig config => 1 :: clusterConfigImage config
  | .command => [2]

def logEntriesImage (entries : N.LogEntries) : List UInt8 :=
  logPositionImage (N.prevPosition entries) ++ toLeBytes 4 (N.len entries) ++
    (N.iter entries).flatMap logEntryImage

def commandPayloadImage (entry : LogIndex × CommandPayload) : List UInt8 :=
  u64Image entry.1 ++ [entry.2.tag] ++ bytesImage entry.2.bytes

def logAppendImage (append : LogAppend N) : List UInt8 :=
  logEntriesImage append.entries ++ toLeBytes 4 append.commandPayloads.size ++
    append.commandPayloads.toList.flatMap commandPayloadImage

def snapshotImage (snapshot : Snapshot) : List UInt8 :=
  logPositionImage snapshot.lastIncluded ++ clusterConfigImage snapshot.config ++
    bytesImage snapshot.data

def snapshotCheckpointImage (checkpoint : SnapshotCheckpoint N) : List UInt8 :=
  u64Image checkpoint.currentTerm ++ optionalNodeIdImage checkpoint.votedFor ++
    snapshotImage checkpoint.snapshot ++ logAppendImage checkpoint.suffix

def recordImage : Record N → List UInt8
  | .currentTerm term => 0 :: u64Image term
  | .votedFor votedFor => 1 :: optionalNodeIdImage votedFor
  | .append append => 2 :: logAppendImage append
  | .snapshotCheckpoint checkpoint => 3 :: snapshotCheckpointImage checkpoint

/-- The body of a record: the node it belongs to and the record. -/
def bodyImage (nodeId : NodeId) (record : Record N) : List UInt8 :=
  u64Image nodeId ++ recordImage record

/-! ### What the format asks of a record -/

def ClusterConfigValid (config : ClusterConfig) : Prop :=
  config.voters.size ≤ maxCountItems ∧ config.newVoters.size ≤ maxCountItems ∧
    config.nonVoters.size ≤ maxCountItems

def LogEntryValid : LogEntry → Prop
  | .clusterConfig config => ClusterConfigValid config
  | _ => True

def LogAppendValid (append : LogAppend N) : Prop :=
  append.validate = .ok () ∧ N.len append.entries ≤ maxCountItems ∧
    (∀ entry ∈ N.iter append.entries, LogEntryValid entry) ∧
    append.commandPayloads.size ≤ maxCountItems

def SnapshotCheckpointValid (checkpoint : SnapshotCheckpoint N) : Prop :=
  checkpoint.validate = .ok () ∧ ClusterConfigValid checkpoint.snapshot.config ∧
    LogAppendValid checkpoint.suffix

def RecordValid : Record N → Prop
  | .append append => LogAppendValid append
  | .snapshotCheckpoint checkpoint => SnapshotCheckpointValid checkpoint
  | _ => True

/-! ### Running coder actions -/

section Run

variable {σ α β : Type}

/-- The actions of the encoder and of the decoder: a state that is kept when an action fails. -/
theorem bind_apply (action : ExceptT IoError (StateM σ) α) (f : α → ExceptT IoError (StateM σ) β)
    (s : σ) : (action >>= f) s = match action s with
      | (.ok value, s') => f value s'
      | (.error error, s') => (.error error, s') := by
  rcases h : action s with ⟨result, s'⟩
  cases result <;> simp [Bind.bind, ExceptT.bind, ExceptT.mk, StateT.bind, ExceptT.bindCont, h]
  all_goals rfl

theorem get_apply (s : σ) : (get : ExceptT IoError (StateM σ) σ) s = (.ok s, s) := rfl

theorem set_apply (s s' : σ) :
    (set s' : ExceptT IoError (StateM σ) PUnit) s = (.ok (), s') := rfl

theorem pure_apply (value : α) (s : σ) :
    (pure value : ExceptT IoError (StateM σ) α) s = (.ok value, s) := rfl

theorem modify_apply (f : σ → σ) (s : σ) :
    (modify f : ExceptT IoError (StateM σ) PUnit) s = (.ok (), f s) := rfl

theorem failIf_apply (condition : Prop) [Decidable condition] (error : IoError) (s : σ) :
    (failIf condition error : ExceptT IoError (StateM σ) Unit) s =
      if condition then (.error error, s) else (.ok (), s) := by
  unfold failIf
  split <;> rfl

end Run

/-! ### Writing an image -/

/-- The invariant of an encoder: its length is the number of buffered bytes, within the limit. -/
def Encoder.Coherent (encoder : Encoder) : Prop :=
  encoder.len = encoder.bytes.length ∧ encoder.len ≤ maxRecordBodyLen

/-- On a coherent encoder the action succeeds exactly when `valid` holds and the image still fits;
it then appends the image, and it fails with `InvalidInput` otherwise. -/
def Writes (action : EncoderM Unit) (image : List UInt8) (valid : Prop) : Prop :=
  ∀ encoder : Encoder, encoder.Coherent →
    (valid ∧ encoder.bytes.length + image.length ≤ maxRecordBodyLen →
      action encoder = (.ok (), ⟨encoder.bytes ++ image, encoder.bytes.length + image.length⟩)) ∧
    (¬ (valid ∧ encoder.bytes.length + image.length ≤ maxRecordBodyLen) →
      ∃ error encoder', action encoder = (.error error, encoder') ∧ error.kind = .invalidInput)

namespace Writes

variable {action action' : EncoderM Unit} {image image' : List UInt8} {valid valid' : Prop}

theorem pure : Writes (Pure.pure ()) [] True := by
  rintro encoder ⟨hlen, hmax⟩
  refine ⟨fun _ ↦ ?_, fun h ↦ absurd ⟨trivial, ?_⟩ h⟩
  · simp only [List.append_nil, List.length_nil, Nat.add_zero, ← hlen]
    rfl
  · simpa [← hlen] using hmax

/-- Two actions in sequence write their images one after the other. -/
theorem seq (h : Writes action image valid) (h' : Writes action' image' valid') :
    Writes (do action; action') (image ++ image') (valid ∧ valid') := by
  intro encoder hcoherent
  obtain ⟨hok, herror⟩ := h encoder hcoherent
  rw [bind_apply]
  by_cases hfirst : valid ∧ encoder.bytes.length + image.length ≤ maxRecordBodyLen
  · have hmiddle : Encoder.Coherent
        ⟨encoder.bytes ++ image, encoder.bytes.length + image.length⟩ :=
      ⟨by simp, hfirst.2⟩
    obtain ⟨hok', herror'⟩ := h' _ hmiddle
    rw [hok hfirst]
    simp only [List.length_append] at hok' herror' ⊢
    constructor
    · rintro ⟨⟨-, hvalid'⟩, hfits⟩
      rw [hok' ⟨hvalid', by omega⟩]
      simp [Nat.add_assoc]
    · intro hnot
      refine herror' fun hsecond ↦ hnot ⟨⟨hfirst.1, hsecond.1⟩, ?_⟩
      have := hsecond.2
      omega
  · obtain ⟨error, encoder', heq, hkind⟩ := herror hfirst
    rw [heq]
    refine ⟨fun hboth ↦ absurd ⟨hboth.1.1, ?_⟩ hfirst, fun _ ↦ ⟨error, encoder', rfl, hkind⟩⟩
    have := hboth.2
    rw [List.length_append] at this
    omega

theorem congr (h : Writes action image valid) (himage : image = image') (hvalid : valid ↔ valid') :
    Writes action image' valid' := by
  subst himage
  intro encoder hcoherent
  rw [← hvalid]
  exact h encoder hcoherent

/-- A loop over a list writes the images of its items. -/
theorem forM {ι : Type} {step : ι → EncoderM Unit} {image : ι → List UInt8} {valid : ι → Prop}
    (h : ∀ item, Writes (step item) (image item) (valid item)) (items : List ι) :
    Writes (items.forM step) (items.flatMap image) (∀ item ∈ items, valid item) := by
  induction items with
  | nil => exact pure.congr rfl (by simp)
  | cons item rest ih =>
    exact ((h item).seq ih).congr (by simp) (by simp)

/-- A check that writes nothing. -/
theorem check {result : Except IoError Unit}
    (hkind : ∀ error, result = .error error → error.kind = .invalidInput) :
    Writes (liftM result : EncoderM Unit) [] (result = .ok ()) := by
  rintro encoder ⟨hlen, hmax⟩
  cases hresult : result with
  | ok value =>
    refine ⟨fun _ ↦ ?_, fun h ↦ absurd ⟨rfl, ?_⟩ h⟩
    · simp only [List.append_nil, List.length_nil, Nat.add_zero, ← hlen]
      rfl
    · simpa [← hlen] using hmax
  | error error =>
    exact ⟨fun h ↦ (nomatch h.1), fun _ ↦ ⟨error, encoder, rfl, hkind error hresult⟩⟩

end Writes

/-- On a coherent encoder only the body limit can be exceeded. -/
theorem checkAppendLen_apply {encoder : Encoder} (hcoherent : encoder.Coherent) (additional : ℕ) :
    checkAppendLen additional encoder =
      if encoder.bytes.length + additional ≤ maxRecordBodyLen then
        (.ok (encoder.bytes.length + additional), encoder)
      else (.error (invalidInput "record is too large"), encoder) := by
  obtain ⟨hlen, hmax⟩ := hcoherent
  have hlimit : maxRecordBodyLen < 2 ^ 32 := by decide
  simp only [checkAppendLen, bind_apply, get_apply, failIf_apply, ← hlen]
  by_cases hfits : encoder.len + additional ≤ maxRecordBodyLen
  · have hsmall : ¬ 2 ^ 32 ≤ additional := by omega
    have hsum : ¬ 2 ^ 32 ≤ encoder.len + additional := by omega
    have hbody : ¬ maxRecordBodyLen < encoder.len + additional := by omega
    simp only [if_neg hsmall, if_neg hsum, if_neg hbody, if_pos hfits, pure_apply]
  · have hbody : maxRecordBodyLen < encoder.len + additional := by omega
    by_cases hsmall : 2 ^ 32 ≤ additional
    · simp only [if_pos hsmall, if_neg hfits]
    · by_cases hsum : 2 ^ 32 ≤ encoder.len + additional
      · simp only [if_neg hsmall, if_pos hsum, if_neg hfits]
      · simp only [if_neg hsmall, if_neg hsum, if_pos hbody, if_neg hfits]

theorem putSlice_writes (bytes : List UInt8) : Writes (putSlice bytes) bytes True := by
  intro encoder hcoherent
  simp only [putSlice, bind_apply, checkAppendLen_apply hcoherent, true_and]
  refine ⟨fun hfits ↦ ?_, fun hfits ↦ ?_⟩
  · simp only [if_pos hfits, modify_apply]
  · simp only [if_neg hfits]
    exact ⟨_, _, rfl, rfl⟩

theorem putU8_writes (value : UInt8) : Writes (putU8 value) [value] True := putSlice_writes _

theorem putU32_writes (value : ℕ) : Writes (putU32 value) (toLeBytes 4 value) True :=
  putSlice_writes _

theorem putU64_writes (value : UInt64) : Writes (putU64 value) (u64Image value) True :=
  putSlice_writes _

theorem putBytes_writes (bytes : Bytes) : Writes (putBytes bytes) (bytesImage bytes) True := by
  intro encoder hcoherent
  have hlimit : maxRecordBodyLen < 2 ^ 32 := by decide
  have himage : (bytesImage bytes).length = 4 + bytes.length := by simp [bytesImage]
  simp only [putBytes, bind_apply, failIf_apply, true_and, himage]
  refine ⟨fun hfits ↦ ?_, fun hfits ↦ ?_⟩
  · have hword : ¬ 2 ^ 32 ≤ bytes.length := by omega
    have hbody : ¬ maxRecordBodyLen < bytes.length := by omega
    have hsize : ¬ 2 ^ 64 ≤ 4 + bytes.length := by omega
    simp only [if_neg hword, if_neg hbody, if_neg hsize, checkAppendLen_apply hcoherent,
      if_pos hfits, modify_apply, bytesImage, List.append_assoc]
  · by_cases hword : 2 ^ 32 ≤ bytes.length
    · simp only [if_pos hword]
      exact ⟨_, _, rfl, rfl⟩
    · by_cases hbody : maxRecordBodyLen < bytes.length
      · simp only [if_neg hword, if_pos hbody]
        exact ⟨_, _, rfl, rfl⟩
      · have hsize : ¬ 2 ^ 64 ≤ 4 + bytes.length := by omega
        simp only [if_neg hword, if_neg hbody, if_neg hsize, checkAppendLen_apply hcoherent,
          if_neg hfits]
        exact ⟨_, _, rfl, rfl⟩

theorem encodeCount_writes (value : ℕ) (error : String) :
    Writes (encodeCount value error) (toLeBytes 4 value) (value ≤ maxCountItems) := by
  intro encoder hcoherent
  have hlimit : maxCountItems < 2 ^ 32 := by decide
  simp only [encodeCount, bind_apply, failIf_apply]
  by_cases hcount : value ≤ maxCountItems
  · have hword : ¬ 2 ^ 32 ≤ value := by omega
    have hover : ¬ maxCountItems < value := by omega
    simpa only [if_neg hword, if_neg hover, hcount, true_and] using
      putU32_writes value encoder hcoherent
  · refine ⟨fun h ↦ absurd h.1 hcount, fun _ ↦ ?_⟩
    by_cases hword : 2 ^ 32 ≤ value
    · simp only [if_pos hword]
      exact ⟨_, _, rfl, rfl⟩
    · have hover : maxCountItems < value := by omega
      simp only [if_neg hword, if_pos hover]
      exact ⟨_, _, rfl, rfl⟩

/-! ### The encoders of the format -/

theorem encodeTerm_writes (term : Term) : Writes (encodeTerm term) (u64Image term) True :=
  putU64_writes term

theorem encodeNodeId_writes (nodeId : NodeId) :
    Writes (encodeNodeId nodeId) (u64Image nodeId) True := putU64_writes nodeId

theorem encodeLogIndex_writes (index : LogIndex) :
    Writes (encodeLogIndex index) (u64Image index) True := putU64_writes index

theorem encodeLogPosition_writes (position : LogPosition) :
    Writes (encodeLogPosition position) (logPositionImage position) True :=
  ((encodeTerm_writes _).seq (encodeLogIndex_writes _)).congr rfl (by simp)

theorem encodeOptionalNodeId_writes (nodeId : Option NodeId) :
    Writes (encodeOptionalNodeId nodeId) (optionalNodeIdImage nodeId) True := by
  cases nodeId with
  | none => exact putU8_writes 0
  | some nodeId => exact ((putU8_writes 1).seq (encodeNodeId_writes nodeId)).congr rfl (by simp)

theorem encodeNodeIdSet_writes (nodes : NodeIdSet) :
    Writes (encodeNodeIdSet nodes) (nodeIdSetImage nodes) (nodes.size ≤ maxCountItems) :=
  ((encodeCount_writes _ _).seq (.forM encodeNodeId_writes _)).congr rfl (by simp)

theorem encodeClusterConfig_writes (config : ClusterConfig) :
    Writes (encodeClusterConfig config) (clusterConfigImage config) (ClusterConfigValid config) :=
  ((encodeNodeIdSet_writes _).seq
    ((encodeNodeIdSet_writes _).seq (encodeNodeIdSet_writes _))).congr
      (by simp [clusterConfigImage]) Iff.rfl

theorem encodeLogEntry_writes (entry : LogEntry) :
    Writes (encodeLogEntry entry) (logEntryImage entry) (LogEntryValid entry) := by
  cases entry with
  | term term =>
    exact ((putU8_writes 0).seq (encodeTerm_writes term)).congr rfl (by simp [LogEntryValid])
  | clusterConfig config =>
    exact ((putU8_writes 1).seq (encodeClusterConfig_writes config)).congr rfl
      (by simp [LogEntryValid])
  | command => exact (putU8_writes 2).congr rfl (by simp [LogEntryValid])

theorem encodeLogEntries_writes (entries : N.LogEntries) :
    Writes (encodeLogEntries entries) (logEntriesImage entries)
      (N.len entries ≤ maxCountItems ∧ ∀ entry ∈ N.iter entries, LogEntryValid entry) :=
  ((encodeLogPosition_writes _).seq
    ((encodeCount_writes _ _).seq (.forM encodeLogEntry_writes _))).congr
      (by simp [logEntriesImage]) (by simp)

theorem encodeCommandPayload_writes (entry : LogIndex × CommandPayload) :
    Writes (encodeCommandPayload entry) (commandPayloadImage entry) True :=
  ((encodeLogIndex_writes _).seq ((putU8_writes _).seq (putBytes_writes _))).congr
    (by simp [commandPayloadImage]) (by simp)

theorem encodeLogAppend_writes (append : LogAppend N) :
    Writes (encodeLogAppend append) (logAppendImage append) (LogAppendValid append) :=
  ((Writes.check fun _ ↦ logAppend_validate_error).seq
    ((encodeLogEntries_writes _).seq
      ((encodeCount_writes _ _).seq (.forM encodeCommandPayload_writes _)))).congr
        (by simp [logAppendImage]) (by simp [LogAppendValid, and_assoc])

theorem encodeSnapshot_writes (snapshot : Snapshot) :
    Writes (encodeSnapshot snapshot) (snapshotImage snapshot)
      (ClusterConfigValid snapshot.config) :=
  ((encodeLogPosition_writes _).seq
    ((encodeClusterConfig_writes _).seq (putBytes_writes _))).congr
      (by simp [snapshotImage]) (by simp)

theorem encodeSnapshotCheckpoint_writes (checkpoint : SnapshotCheckpoint N) :
    Writes (encodeSnapshotCheckpoint checkpoint) (snapshotCheckpointImage checkpoint)
      (SnapshotCheckpointValid checkpoint) :=
  ((Writes.check fun _ ↦ snapshotCheckpoint_validate_error).seq
    ((encodeTerm_writes _).seq ((encodeOptionalNodeId_writes _).seq
      ((encodeSnapshot_writes _).seq (encodeLogAppend_writes _))))).congr
        (by simp [snapshotCheckpointImage]) (by simp [SnapshotCheckpointValid])

/-- The encoder writes the image of a record exactly when the record is valid and fits. -/
theorem encodeRecord_writes (record : Record N) :
    Writes (encodeRecord record) (recordImage record) (RecordValid record) := by
  cases record with
  | currentTerm term =>
    exact ((putU8_writes 0).seq (encodeTerm_writes term)).congr rfl (by simp [RecordValid])
  | votedFor votedFor =>
    exact ((putU8_writes 1).seq (encodeOptionalNodeId_writes votedFor)).congr rfl
      (by simp [RecordValid])
  | append append =>
    exact ((putU8_writes 2).seq (encodeLogAppend_writes append)).congr rfl (by simp [RecordValid])
  | snapshotCheckpoint checkpoint =>
    exact ((putU8_writes 3).seq (encodeSnapshotCheckpoint_writes checkpoint)).congr rfl
      (by simp [RecordValid])

theorem encodeNodeRecord_writes (nodeId : NodeId) (record : Record N) :
    Writes (do encodeNodeId nodeId; encodeRecord record) (bodyImage nodeId record)
      (RecordValid record) :=
  ((encodeNodeId_writes nodeId).seq (encodeRecord_writes record)).congr rfl (by simp)

theorem coherent_new : Encoder.new.Coherent := ⟨rfl, by simp [Encoder.new]⟩

/-- `encodeBody` succeeds exactly on valid records within the body limit, with the body image. -/
theorem encodeBody_eq_ok_iff {nodeId : NodeId} {record : Record N} {body : List UInt8} :
    encodeBody nodeId record = .ok body ↔ RecordValid record ∧
      (bodyImage nodeId record).length ≤ maxRecordBodyLen ∧ body = bodyImage nodeId record := by
  obtain ⟨hok, herror⟩ := encodeNodeRecord_writes nodeId record .new coherent_new
  simp only [Encoder.new, List.length_nil, Nat.zero_add, List.nil_append] at hok herror
  by_cases hvalid : RecordValid record ∧ (bodyImage nodeId record).length ≤ maxRecordBodyLen
  · simp only [encodeBody, Encoder.new, hok hvalid, Except.map, Except.ok.injEq]
    exact ⟨fun h ↦ ⟨hvalid.1, hvalid.2, h.symm⟩, fun h ↦ h.2.2.symm⟩
  · obtain ⟨error, encoder, heq, -⟩ := herror hvalid
    simp only [encodeBody, Encoder.new, heq, Except.map, reduceCtorEq, false_iff]
    exact fun h ↦ hvalid ⟨h.1, h.2.1⟩

/-- The encoder refuses a record as invalid input. -/
theorem encodeBody_error {nodeId : NodeId} {record : Record N} {error : IoError}
    (h : encodeBody nodeId record = .error error) : error.kind = .invalidInput := by
  obtain ⟨hok, herror⟩ := encodeNodeRecord_writes nodeId record .new coherent_new
  unfold encodeBody at h
  by_cases hvalid : RecordValid record ∧
      Encoder.new.bytes.length + (bodyImage nodeId record).length ≤ maxRecordBodyLen
  · simp only [hok hvalid, Except.map] at h
    nomatch h
  · obtain ⟨error', encoder, heq, hkind⟩ := herror hvalid
    simp only [heq, Except.map, Except.error.injEq] at h
    exact h ▸ hkind

/-! ### Reading an image -/

/-- Wherever the image stands in a body within the limit, the action reads it as `value` and stops
behind it. -/
def Reads {α : Type} (action : DecoderM α) (image : List UInt8) (value : α) : Prop :=
  ∀ before after : List UInt8, (before ++ image ++ after).length ≤ maxRecordBodyLen →
    action ⟨before ++ image ++ after, before.length⟩ =
      (.ok value, ⟨before ++ image ++ after, (before ++ image).length⟩)

namespace Reads

variable {α β σ ι : Type}

theorem pure (value : α) : Reads (Pure.pure value) [] value := by
  intro before after _
  simp [pure_apply]

/-- Two actions in sequence read adjacent images. -/
theorem bind {action : DecoderM α} {f : α → DecoderM β} {image image' : List UInt8} {value : α}
    {value' : β} (h : Reads action image value) (h' : Reads (f value) image' value') :
    Reads (action >>= f) (image ++ image') value' := by
  intro before after hlimit
  have hfirst := h before (image' ++ after) (by simpa [Nat.add_assoc] using hlimit)
  have hsecond := h' (before ++ image) after (by simpa [Nat.add_assoc] using hlimit)
  simp only [List.append_assoc] at hfirst hsecond ⊢
  rw [bind_apply, hfirst]
  exact hsecond

/-- The second action reads nothing. -/
theorem bindEmpty {action : DecoderM α} {f : α → DecoderM β} {image : List UInt8} {value : α}
    {value' : β} (h : Reads action image value) (h' : Reads (f value) [] value') :
    Reads (action >>= f) image value' := by
  have hboth := h.bind h'
  rwa [List.append_nil] at hboth

theorem congr {action : DecoderM α} {image image' : List UInt8} {value value' : α}
    (h : Reads action image value) (himage : image = image') (hvalue : value = value') :
    Reads action image' value' := himage ▸ hvalue ▸ h

/-- An action on the value that another one reads. -/
theorem map {action : DecoderM α} {image : List UInt8} {value : α} (f : α → β)
    (h : Reads action image value) : Reads (do return f (← action)) image (f value) :=
  (h.bind (pure (f value))).congr (List.append_nil _) rfl

/-- A counted loop reads the images of a list of items one after the other, when every round can
read the next item. `fits` says which items an accumulator can still take. -/
theorem repeatM {step : σ → DecoderM σ} {image : ι → List UInt8} {next : σ → ι → σ}
    (fits : σ → List ι → Prop)
    (hstep : ∀ acc item rest, fits acc (item :: rest) →
      Reads (step acc) (image item) (next acc item) ∧ fits (next acc item) rest)
    (items : List ι) (acc : σ) (hfits : fits acc items) :
    Reads (Sukari.repeatM step items.length acc) (items.flatMap image)
      (items.foldl next acc) := by
  induction items generalizing acc with
  | nil => exact pure acc
  | cons item rest ih =>
    obtain ⟨hread, hrest⟩ := hstep acc item rest hfits
    exact hread.bind (ih _ hrest)

/-- A check that passes reads nothing. -/
theorem check {condition : Prop} [Decidable condition] (error : IoError) (h : ¬ condition) :
    Reads (failIf condition error) [] () := by
  intro before after _
  simp [failIf_apply, h]

/-- A check that passes in front of an action. -/
theorem checked {condition : Prop} [Decidable condition] {error : IoError} (h : ¬ condition)
    {action : DecoderM α} {image : List UInt8} {value : α} (haction : Reads action image value) :
    Reads (do failIf condition error; action) image value := (check error h).bind haction

end Reads

theorem take_reads (bytes : List UInt8) : Reads (take bytes.length) bytes bytes := by
  intro before after hlimit
  have hmax : maxRecordBodyLen < 2 ^ 64 := by decide
  simp only [List.length_append] at hlimit
  have hoverflow : ¬ 2 ^ 64 ≤ before.length + bytes.length := by omega
  have hshort : ¬ (before ++ bytes ++ after).length < before.length + bytes.length := by
    simp only [List.length_append]
    omega
  simp only [take, bind_apply, get_apply, failIf_apply, if_neg hoverflow, if_neg hshort, set_apply,
    pure_apply]
  simp

theorem getU8_reads (value : UInt8) : Reads getU8 [value] value :=
  (take_reads [value]).map fun bytes : List UInt8 ↦ bytes.headD 0

theorem getU32_reads {value : ℕ} (h : value < 2 ^ 32) : Reads getU32 (toLeBytes 4 value) value :=
  ((take_reads (toLeBytes 4 value)).map fromLeBytes).congr rfl
    (fromLeBytes_toLeBytes (by simpa using h))

theorem getU64_reads (value : UInt64) : Reads getU64 (u64Image value) value :=
  ((take_reads (toLeBytes 8 value.toNat)).map fun bytes ↦ UInt64.ofNat (fromLeBytes bytes)).congr
    rfl (by rw [fromLeBytes_toLeBytes (by simpa using value.toNat_lt), UInt64.ofNat_toNat])

theorem getBytes_reads (bytes : Bytes) : Reads getBytes (bytesImage bytes) bytes := by
  intro before after hlimit
  have hmax : maxRecordBodyLen < 2 ^ 32 := by decide
  have hlen : bytes.length ≤ maxRecordBodyLen := by
    simp only [bytesImage, List.length_append] at hlimit
    omega
  exact ((getU32_reads (hlen.trans_lt hmax)).bind
    ((take_reads bytes).checked (by omega))) before after hlimit

theorem decodeCount_reads {value : ℕ} (error : String) (h : value ≤ maxCountItems) :
    Reads (decodeCount error) (toLeBytes 4 value) value := by
  have hmax : maxCountItems < 2 ^ 32 := by decide
  exact ((getU32_reads (h.trans_lt hmax)).bind
    ((Reads.pure value).checked (by omega))).congr (by simp) rfl

/-! ### The decoders of the format -/

theorem decodeLogPosition_reads (position : LogPosition) :
    Reads decodeLogPosition (logPositionImage position) position :=
  (getU64_reads position.term).bind ((getU64_reads position.index).map (LogPosition.mk _))

theorem decodeOptionalNodeId_reads (nodeId : Option NodeId) :
    Reads decodeOptionalNodeId (optionalNodeIdImage nodeId) nodeId := by
  cases nodeId with
  | none => exact (getU8_reads 0).bind (Reads.pure none)
  | some nodeId => exact (getU8_reads 1).bind ((getU64_reads nodeId).map some)

theorem decodeNodeIdSet_reads {nodes : NodeIdSet} (h : nodes.size ≤ maxCountItems) :
    Reads decodeNodeIdSet (nodeIdSetImage nodes) nodes := by
  have hloop : Reads (repeatM decodeNodeIdInto nodes.toList.length ∅)
      (nodes.toList.flatMap u64Image) (nodes.toList.foldl Std.ExtTreeSet.insert ∅) := by
    refine Reads.repeatM (fun acc items ↦ items.Nodup ∧ ∀ item ∈ items, item ∉ acc)
      (fun acc item rest hfits ↦ ⟨?_, ?_, ?_⟩) _ _ ⟨?_, by simp⟩
    · refine ((getU64_reads item).bind ((Reads.pure _).checked ?_)).congr (by simp) rfl
      simpa using hfits.2 item (by simp)
    · exact (List.nodup_cons.mp hfits.1).2
    · intro item' hmem
      rw [Std.ExtTreeSet.mem_insert, not_or]
      refine ⟨?_, hfits.2 item' (by simp [hmem])⟩
      rintro hsame
      exact (List.nodup_cons.mp hfits.1).1 (Std.LawfulEqCmp.eq_of_compare hsame ▸ hmem)
    · exact nodes.distinct_toList.imp fun hne heq ↦ hne (by simp [heq])
  have hset : nodes.toList.foldl Std.ExtTreeSet.insert ∅ = nodes := by
    ext nodeId
    simp [mem_foldl_insert]
  rw [Std.ExtTreeSet.length_toList] at hloop
  exact (decodeCount_reads _ h).bind (hloop.congr rfl hset)

theorem decodeClusterConfig_reads {config : ClusterConfig} (h : ClusterConfigValid config) :
    Reads decodeClusterConfig (clusterConfigImage config) config :=
  ((decodeNodeIdSet_reads h.1).bind ((decodeNodeIdSet_reads h.2.1).bind
    ((decodeNodeIdSet_reads h.2.2).map (ClusterConfig.mk _ _)))).congr
      (by simp [clusterConfigImage]) rfl

theorem decodeLogEntry_reads {entry : LogEntry} (h : LogEntryValid entry) :
    Reads decodeLogEntry (logEntryImage entry) entry := by
  cases entry with
  | term term => exact (getU8_reads 0).bind ((getU64_reads term).map LogEntry.term)
  | clusterConfig config =>
    exact (getU8_reads 1).bind ((decodeClusterConfig_reads h).map LogEntry.clusterConfig)
  | command => exact (getU8_reads 2).bind (Reads.pure LogEntry.command)

theorem decodeLogEntries_reads {entries : N.LogEntries} (hlen : N.len entries ≤ maxCountItems)
    (hvalid : ∀ entry ∈ N.iter entries, LogEntryValid entry) :
    Reads (decodeLogEntries N) (logEntriesImage entries) entries := by
  -- Every push extends a prefix of the entries by the next one.
  have hloop : Reads (repeatM decodeLogEntryInto (N.iter entries).length
      (N.newEntries (N.prevPosition entries))) ((N.iter entries).flatMap logEntryImage)
      ((N.iter entries).foldl N.push (N.newEntries (N.prevPosition entries))) := by
    refine Reads.repeatM (fun acc items ↦ (∀ entry ∈ items, LogEntryValid entry) ∧
      (N.prevPosition acc).index.toNat + (N.iter acc).length + items.length < 2 ^ 64)
      (fun acc item rest hfits ↦ ⟨?_, ?_, ?_⟩) _ _ ⟨hvalid, ?_⟩
    · exact (decodeLogEntry_reads (hfits.1 item (by simp))).map (N.push acc)
    · exact fun entry hmem ↦ hfits.1 entry (by simp [hmem])
    · have hroom := hfits.2
      rw [List.length_cons] at hroom
      rw [N.prevPosition_push acc item (by omega), N.iter_push acc item (by omega),
        List.length_append, List.length_singleton]
      omega
    · simpa [N.prevPosition_new, N.iter_newEntries] using N.index_lt entries
  obtain ⟨hprev, hiter⟩ := N.foldl_push (N.iter entries) (N.newEntries (N.prevPosition entries))
    (by simpa [N.prevPosition_new, N.iter_newEntries] using N.index_lt entries)
  rw [N.prevPosition_new] at hprev
  rw [N.iter_newEntries, List.nil_append] at hiter
  have hindex : ((N.prevPosition entries).index.checkedAdd
      (UInt64.ofNat (N.len entries))).isNone = false := by
    have hroom := N.index_lt entries
    have hword : (UInt64.ofNat (N.len entries)).toNat = N.len entries := by
      rw [UInt64.toNat_ofNat', Nat.mod_eq_of_lt]
      exact (Nat.le_add_left _ _).trans_lt hroom
    simp only [LogIndex.checkedAdd, hword]
    rw [if_pos (by exact hroom), Option.isNone_some]
  refine ((decodeLogPosition_reads _).bind ((decodeCount_reads _ hlen).bind
    ((hloop.congr rfl (N.entries_ext _ _ hprev hiter)).checked (by simp [hindex])))).congr
      (by simp [logEntriesImage]) rfl

theorem decodeLogAppend_reads {append : LogAppend N} (h : LogAppendValid append) :
    Reads (decodeLogAppend N) (logAppendImage append) append := by
  obtain ⟨hvalidate, hlen, hentries, hcount⟩ := h
  have hloop : Reads (repeatM decodeCommandPayloadInto append.commandPayloads.toList.length ∅)
      (append.commandPayloads.toList.flatMap commandPayloadImage)
      (append.commandPayloads.toList.foldl (fun acc item ↦ acc.insert item.1 item.2) ∅) := by
    refine Reads.repeatM (fun acc items ↦ (items.map Prod.fst).Nodup ∧
      ∀ item ∈ items, item.1 ∉ acc) (fun acc item rest hfits ↦ ⟨?_, ?_, ?_⟩) _ _
        ⟨nodup_fst_toList _, by simp⟩
    · refine ((getU64_reads item.1).bind ((getU8_reads item.2.tag).bind
        ((getBytes_reads item.2.bytes).bind ((Reads.pure _).checked ?_)))).congr
          (by simp [commandPayloadImage]) rfl
      simpa using hfits.2 item (by simp)
    · exact (List.nodup_cons.mp hfits.1).2
    · intro item' hmem
      rw [Std.ExtTreeMap.mem_insert, not_or]
      refine ⟨?_, hfits.2 item' (by simp [hmem])⟩
      intro hsame
      refine (List.nodup_cons.mp hfits.1).1 ?_
      rw [Std.LawfulEqCmp.eq_of_compare hsame]
      exact List.mem_map_of_mem hmem
  have hmap : append.commandPayloads.toList.foldl
      (fun acc item ↦ acc.insert item.1 item.2) ∅ = append.commandPayloads := by
    ext index payload
    rw [getElem?_foldl_insert_eq_some (nodup_fst_toList _)]
    simp
  rw [Std.ExtTreeMap.length_toList] at hloop
  refine ((decodeLogEntries_reads hlen hentries).bind ((decodeCount_reads _ hcount).bind
    ((hloop.congr rfl hmap).bindEmpty ?_))).congr (by simp [logAppendImage]) rfl
  simp only [LogAppend.new, hvalidate]
  exact Reads.pure append

theorem decodeSnapshot_reads {snapshot : Snapshot} (h : ClusterConfigValid snapshot.config) :
    Reads decodeSnapshot (snapshotImage snapshot) snapshot :=
  ((decodeLogPosition_reads _).bind ((decodeClusterConfig_reads h).bind
    ((getBytes_reads _).map (Snapshot.mk _ _)))).congr (by simp [snapshotImage]) rfl

theorem decodeSnapshotCheckpoint_reads {checkpoint : SnapshotCheckpoint N}
    (h : SnapshotCheckpointValid checkpoint) :
    Reads (decodeSnapshotCheckpoint N) (snapshotCheckpointImage checkpoint) checkpoint := by
  obtain ⟨hvalidate, hconfig, hsuffix⟩ := h
  refine ((getU64_reads checkpoint.currentTerm).bind
    ((decodeOptionalNodeId_reads checkpoint.votedFor).bind ((decodeSnapshot_reads hconfig).bind
      ((decodeLogAppend_reads hsuffix).bindEmpty ?_)))).congr
        (by simp [snapshotCheckpointImage]) rfl
  simp only [hvalidate]
  exact Reads.pure checkpoint

theorem decodeRecord_reads {record : Record N} (h : RecordValid record) :
    Reads (decodeRecord N) (recordImage record) record := by
  cases record with
  | currentTerm term => exact (getU8_reads 0).bind ((getU64_reads term).map Record.currentTerm)
  | votedFor votedFor =>
    exact (getU8_reads 1).bind ((decodeOptionalNodeId_reads votedFor).map Record.votedFor)
  | append append => exact (getU8_reads 2).bind ((decodeLogAppend_reads h).map Record.append)
  | snapshotCheckpoint checkpoint =>
    exact (getU8_reads 3).bind
      ((decodeSnapshotCheckpoint_reads h).map Record.snapshotCheckpoint)

theorem decodeNodeId_bodyImage {nodeId : NodeId} {record : Record N}
    (hlimit : (bodyImage nodeId record).length ≤ maxRecordBodyLen) :
    decodeNodeId (.new (bodyImage nodeId record)) =
      (.ok nodeId, ⟨bodyImage nodeId record, (u64Image nodeId).length⟩) :=
  getU64_reads nodeId [] (recordImage record) hlimit

/-- The decoder reads the body that the encoder wrote. -/
theorem decodeNodeRecord_bodyImage {nodeId : NodeId} {record : Record N} (h : RecordValid record)
    (hlimit : (bodyImage nodeId record).length ≤ maxRecordBodyLen) :
    decodeNodeRecord N (bodyImage nodeId record) = .ok (nodeId, record) := by
  have hrecord : decodeRecord N ⟨bodyImage nodeId record, (u64Image nodeId).length⟩ =
      (.ok record, ⟨bodyImage nodeId record, (bodyImage nodeId record).length⟩) := by
    simpa [bodyImage] using
      decodeRecord_reads h (u64Image nodeId) [] (by simpa [bodyImage] using hlimit)
  simp only [decodeNodeRecord, bind_apply, decodeNodeId_bodyImage hlimit, hrecord, finish,
    get_apply, failIf_apply, pure_apply, ne_eq, not_true_eq_false, if_false]

theorem decodeRecordNodeId_bodyImage {nodeId : NodeId} {record : Record N}
    (hlimit : (bodyImage nodeId record).length ≤ maxRecordBodyLen) :
    decodeRecordNodeId (bodyImage nodeId record) = .ok nodeId := by
  rw [decodeRecordNodeId, decodeNodeId_bodyImage hlimit]

end Sukari
