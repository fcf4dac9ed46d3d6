import Sukari.Crc32c
import Sukari.Record

/-!
# The segment record codec

The encoder and the decoder of record bodies, the frame around a body, and the two readers of
frames: `readRecordBody` reads a whole body and checks it in one go, `scanRecordFrame` runs over
the body in chunks of 8192 bytes and keeps only the checksum. An open file at its read position is
a `Stream`. Both the encoder and the decoder keep their state when they fail, as the methods of the
source do.
-/

set_option autoImplicit false
set_option relaxedAutoImplicit false

namespace Sukari

open LittleEndian

def segmentRecordBaseHeaderLen : ℕ := 4
def segmentChecksumLen : ℕ := 4
def segmentRecordHeaderLen : ℕ := segmentRecordBaseHeaderLen + segmentChecksumLen
def maxCountItems : ℕ := 1000000
def maxRecordBodyLen : ℕ := 1024 * 1024 * 1024

variable {N : Noraft}

/-! ### The encoder -/

structure Encoder where
  bytes : List UInt8
  len : ℕ

abbrev EncoderM := ExceptT IoError (StateM Encoder)

namespace Encoder

def new : Encoder := ⟨[], 0⟩

def checkAppendLen (additional : ℕ) : EncoderM ℕ := do
  failIf (2 ^ 32 ≤ additional) (invalidInput "record is too large")
  let len := (← get).len + additional
  failIf (2 ^ 32 ≤ len) (invalidInput "record is too large")
  failIf (maxRecordBodyLen < len) (invalidInput "record is too large")
  return len

def putSlice (bytes : List UInt8) : EncoderM Unit := do
  let len ← checkAppendLen bytes.length
  modify fun encoder ↦ ⟨encoder.bytes ++ bytes, len⟩

def putU8 (value : UInt8) : EncoderM Unit := putSlice [value]

def putU32 (value : ℕ) : EncoderM Unit := putSlice (toLeBytes 4 value)

def putU64 (value : UInt64) : EncoderM Unit := putSlice (toLeBytes 8 value.toNat)

def putBytes (bytes : Bytes) : EncoderM Unit := do
  let len := bytes.length
  failIf (2 ^ 32 ≤ len) (invalidInput "byte slice is too large")
  failIf (maxRecordBodyLen < len) (invalidInput "byte slice is too large")
  let additional := 4 + bytes.length
  failIf (2 ^ 64 ≤ additional) (invalidInput "record is too large")
  let newLen ← checkAppendLen additional
  modify fun encoder ↦ ⟨encoder.bytes ++ toLeBytes 4 len ++ bytes, newLen⟩

end Encoder

open Encoder

def encodeCount (value : ℕ) (error : String) : EncoderM Unit := do
  failIf (2 ^ 32 ≤ value) (invalidInput error)
  failIf (maxCountItems < value) (invalidInput error)
  putU32 value

def encodeTerm (term : Term) : EncoderM Unit := putU64 term

def encodeNodeId (nodeId : NodeId) : EncoderM Unit := putU64 nodeId

def encodeLogIndex (index : LogIndex) : EncoderM Unit := putU64 index

def encodeLogPosition (position : LogPosition) : EncoderM Unit := do
  encodeTerm position.term
  encodeLogIndex position.index

def encodeOptionalNodeId : Option NodeId → EncoderM Unit
  | some nodeId => do
    putU8 1
    encodeNodeId nodeId
  | none => putU8 0

def encodeNodeIdSet (nodes : NodeIdSet) : EncoderM Unit := do
  encodeCount nodes.size "too many node IDs"
  nodes.toList.forM encodeNodeId

def encodeClusterConfig (config : ClusterConfig) : EncoderM Unit := do
  encodeNodeIdSet config.voters
  encodeNodeIdSet config.newVoters
  encodeNodeIdSet config.nonVoters

def encodeLogEntry : LogEntry → EncoderM Unit
  | .term term => do
    putU8 0
    encodeTerm term
  | .clusterConfig config => do
    putU8 1
    encodeClusterConfig config
  | .command => putU8 2

def encodeLogEntries (entries : N.LogEntries) : EncoderM Unit := do
  encodeLogPosition (N.prevPosition entries)
  encodeCount (N.len entries) "too many log entries"
  (N.iter entries).forM encodeLogEntry

/-- One round of the payload loop of `encode_log_append`. -/
def encodeCommandPayload (entry : LogIndex × CommandPayload) : EncoderM Unit := do
  encodeLogIndex entry.1
  putU8 entry.2.tag
  putBytes entry.2.bytes

def encodeLogAppend (append : LogAppend N) : EncoderM Unit := do
  (append.validate : Except IoError Unit)
  encodeLogEntries append.entries
  encodeCount append.commandPayloads.size "too many command payloads"
  append.commandPayloads.toList.forM encodeCommandPayload

def encodeSnapshot (snapshot : Snapshot) : EncoderM Unit := do
  encodeLogPosition snapshot.lastIncluded
  encodeClusterConfig snapshot.config
  putBytes snapshot.data

def encodeSnapshotCheckpoint (checkpoint : SnapshotCheckpoint N) : EncoderM Unit := do
  (checkpoint.validate : Except IoError Unit)
  encodeTerm checkpoint.currentTerm
  encodeOptionalNodeId checkpoint.votedFor
  encodeSnapshot checkpoint.snapshot
  encodeLogAppend checkpoint.suffix

def encodeRecord : Record N → EncoderM Unit
  | .currentTerm term => do
    putU8 0
    encodeTerm term
  | .votedFor votedFor => do
    putU8 1
    encodeOptionalNodeId votedFor
  | .append append => do
    putU8 2
    encodeLogAppend append
  | .snapshotCheckpoint checkpoint => do
    putU8 3
    encodeSnapshotCheckpoint checkpoint

/-- The encoder calls of `encode_record_frame`, from an empty encoder. -/
def encodeBody (nodeId : NodeId) (record : Record N) : Except IoError (List UInt8) :=
  let (result, encoder) := (do encodeNodeId nodeId; encodeRecord record : EncoderM Unit) .new
  result.map fun _ ↦ encoder.bytes

/-- The header of a frame: the length of the body and its checksum. -/
def frameHeader (body : List UInt8) : List UInt8 :=
  toLeBytes 4 body.length ++ toLeBytes 4 (Crc32c.crc32c body).toNat

def encodeRecordFrame (nodeId : NodeId) (record : Record N) : Except IoError (List UInt8) := do
  let body ← encodeBody nodeId record
  failIf (2 ^ 32 ≤ body.length) (invalidInput "record is too large")
  failIf (maxRecordBodyLen < body.length) (invalidInput "record is too large")
  return frameHeader body ++ body

/-! ### The decoder -/

structure Decoder where
  bytes : List UInt8
  position : ℕ

abbrev DecoderM := ExceptT IoError (StateM Decoder)

namespace Decoder

def new (bytes : List UInt8) : Decoder := ⟨bytes, 0⟩

def take (len : ℕ) : DecoderM (List UInt8) := do
  let decoder ← get
  let stop := decoder.position + len
  failIf (2 ^ 64 ≤ stop) (invalidData "record offset overflow")
  failIf (decoder.bytes.length < stop) (invalidData "record is too short")
  set (⟨decoder.bytes, stop⟩ : Decoder)
  return (decoder.bytes.drop decoder.position).take len

/-- The first byte of the slice of length one that `take` returns. -/
def getU8 : DecoderM UInt8 := do
  let bytes ← take 1
  return bytes.headD 0

def getU32 : DecoderM ℕ := do
  let bytes ← take 4
  return fromLeBytes bytes

def getU64 : DecoderM UInt64 := do
  let bytes ← take 8
  return UInt64.ofNat (fromLeBytes bytes)

def getBytes : DecoderM (List UInt8) := do
  let len ← getU32
  failIf (maxRecordBodyLen < len) (invalidData "byte slice is too large")
  take len

def finish : DecoderM Unit := do
  let decoder ← get
  failIf (decoder.position ≠ decoder.bytes.length) (invalidData "record has trailing bytes")

end Decoder

open Decoder

/-- A loop `for _ in 0..count` of the decoder that updates an accumulator. -/
def repeatM {σ : Type} (step : σ → DecoderM σ) : ℕ → σ → DecoderM σ
  | 0, acc => return acc
  | count + 1, acc => do repeatM step count (← step acc)

def decodeCount (error : String) : DecoderM ℕ := do
  let value ← getU32
  failIf (maxCountItems < value) (invalidData error)
  return value

def decodeTerm : DecoderM Term := getU64

def decodeNodeId : DecoderM NodeId := getU64

def decodeLogIndex : DecoderM LogIndex := getU64

def decodeLogPosition : DecoderM LogPosition := do
  let term ← decodeTerm
  let index ← decodeLogIndex
  return ⟨term, index⟩

def decodeOptionalNodeId : DecoderM (Option NodeId) := do
  match ← getU8 with
  | 0 => return none
  | 1 => return some (← decodeNodeId)
  | _ => throw (invalidData "invalid optional node ID tag")

/-- One round of the loop of `decode_node_id_set`. -/
def decodeNodeIdInto (nodes : NodeIdSet) : DecoderM NodeIdSet := do
  let nodeId ← decodeNodeId
  failIf (nodes.contains nodeId) (invalidData "duplicate node ID")
  return nodes.insert nodeId

def decodeNodeIdSet : DecoderM NodeIdSet := do
  let len ← decodeCount "too many node IDs"
  repeatM decodeNodeIdInto len ∅

def decodeClusterConfig : DecoderM ClusterConfig := do
  let voters ← decodeNodeIdSet
  let newVoters ← decodeNodeIdSet
  let nonVoters ← decodeNodeIdSet
  return ⟨voters, newVoters, nonVoters⟩

def decodeLogEntry : DecoderM LogEntry := do
  match ← getU8 with
  | 0 => return .term (← decodeTerm)
  | 1 => return .clusterConfig (← decodeClusterConfig)
  | 2 => return .command
  | _ => throw (invalidData "unknown log entry tag")

/-- One round of the loop of `decode_log_entries`. -/
def decodeLogEntryInto (entries : N.LogEntries) : DecoderM N.LogEntries := do
  let entry ← decodeLogEntry
  return N.push entries entry

variable (N) in
def decodeLogEntries : DecoderM N.LogEntries := do
  let prevPosition ← decodeLogPosition
  let len ← decodeCount "too many log entries"
  failIf ((prevPosition.index.checkedAdd (UInt64.ofNat len)).isNone)
    (invalidData "log entries overflow the log index space")
  repeatM decodeLogEntryInto len (N.newEntries prevPosition)

/-- One round of the loop of `decode_log_append`. -/
def decodeCommandPayloadInto (payloads : CommandPayloads) : DecoderM CommandPayloads := do
  let index ← decodeLogIndex
  let tag ← getU8
  let payload : CommandPayload := ⟨tag, ← getBytes⟩
  failIf (payloads.contains index) (invalidData "duplicate command payload index")
  return payloads.insert index payload

variable (N) in
def decodeLogAppend : DecoderM (LogAppend N) := do
  let entries ← decodeLogEntries N
  let commandCount ← decodeCount "too many command payloads"
  let commandPayloads ← repeatM decodeCommandPayloadInto commandCount ∅
  match LogAppend.new entries commandPayloads with
  | .ok append => return append
  | .error _ => throw (invalidData "invalid command payload mapping")

def decodeSnapshot : DecoderM Snapshot := do
  let lastIncluded ← decodeLogPosition
  let config ← decodeClusterConfig
  let data ← getBytes
  return ⟨lastIncluded, config, data⟩

variable (N) in
def decodeSnapshotCheckpoint : DecoderM (SnapshotCheckpoint N) := do
  let currentTerm ← decodeTerm
  let votedFor ← decodeOptionalNodeId
  let snapshot ← decodeSnapshot
  let suffix ← decodeLogAppend N
  let checkpoint : SnapshotCheckpoint N := ⟨currentTerm, votedFor, snapshot, suffix⟩
  match checkpoint.validate with
  | .ok _ => return checkpoint
  | .error _ => throw (invalidData "invalid snapshot checkpoint")

variable (N) in
/-- The match on the record tag in `decode_node_record`. -/
def decodeRecord : DecoderM (Record N) := do
  match ← getU8 with
  | 0 => return .currentTerm (← decodeTerm)
  | 1 => return .votedFor (← decodeOptionalNodeId)
  | 2 => return .append (← decodeLogAppend N)
  | 3 => return .snapshotCheckpoint (← decodeSnapshotCheckpoint N)
  | _ => throw (invalidData "unknown segment record tag")

variable (N) in
def decodeNodeRecord (bytes : List UInt8) : Except IoError (NodeId × Record N) :=
  let decode : DecoderM (NodeId × Record N) := do
    let nodeId ← decodeNodeId
    let record ← decodeRecord N
    finish
    return (nodeId, record)
  (decode (.new bytes)).1

def decodeRecordNodeId (bytes : List UInt8) : Except IoError NodeId :=
  (decodeNodeId (.new bytes)).1

/-! ### Frames in a file -/

/-- An open file at its read position: the position and the bytes from there on. -/
structure Stream where
  position : ℕ
  rest : List UInt8
  deriving DecidableEq

namespace Stream

/-- `Seek::seek` to an offset from the start of a file with the given bytes. -/
def seek (bytes : List UInt8) (offset : ℕ) : Stream := ⟨offset, bytes.drop offset⟩

/-- The stream after `len` more bytes. -/
def skip (stream : Stream) (len : ℕ) : Stream :=
  ⟨stream.position + len, stream.rest.drop len⟩

/-- `Read::read_exact`; the error `UnexpectedEof` is `none`. -/
def readExact (stream : Stream) (len : ℕ) : Option (List UInt8 × Stream) :=
  if len ≤ stream.rest.length then some (stream.rest.take len, stream.skip len) else none

end Stream

/-- The header of a frame as both readers read it: the length of the body and the checksum. -/
def readFrameHeader (stream : Stream) : Except IoError (Option ((ℕ × ℕ) × Stream)) :=
  match stream.readExact segmentRecordBaseHeaderLen with
  | none => return none
  | some (header, stream) =>
    let bodyLen := fromLeBytes header
    if maxRecordBodyLen < bodyLen then
      throw (invalidData "segment record is too large")
    else
      match stream.readExact segmentChecksumLen with
      | none => return none
      | some (checksum, stream) => return some ((bodyLen, fromLeBytes checksum), stream)

/-- `read_record_body`; `none` is the end-of-data result. -/
def readRecordBody (stream : Stream) : Except IoError (Option (List UInt8 × Stream)) := do
  match ← readFrameHeader stream with
  | none => return none
  | some ((bodyLen, expectedChecksum), stream) =>
    let body := stream.rest.take bodyLen
    if body.length ≠ bodyLen then
      return none
    else
      failIf ((Crc32c.crc32c body).toNat ≠ expectedChecksum)
        (invalidData "segment record checksum mismatch")
      return some (body, stream.skip bodyLen)

def scanBufferLen : ℕ := 8192

/-- The loop of `scan_record_frame` over the chunks of a body. A chunk has at least one byte, so
`remaining` rounds are enough. -/
def scanChunks : ℕ → ℕ → UInt32 → Stream → Option (UInt32 × Stream)
  | _, 0, crc, stream => some (crc, stream)
  | 0, _ + 1, _, _ => none
  | rounds + 1, remaining + 1, crc, stream =>
    let readLen := min (remaining + 1) scanBufferLen
    match stream.readExact readLen with
    | none => none
    | some (chunk, stream) =>
      scanChunks rounds (remaining + 1 - readLen) (Crc32c.update crc chunk) stream

def scanRecordFrame (stream : Stream) : Except IoError (Option (Unit × Stream)) := do
  match ← readFrameHeader stream with
  | none => return none
  | some ((bodyLen, expectedChecksum), stream) =>
    match scanChunks bodyLen bodyLen Crc32c.initial stream with
    | none => return none
    | some (crc, stream) =>
      failIf ((Crc32c.value crc).toNat ≠ expectedChecksum)
        (invalidData "segment record checksum mismatch")
      return some ((), stream)

end Sukari
