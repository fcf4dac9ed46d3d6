import Sukari.Codec
import Sukari.Effects.Program

/-!
# The decoder step by step

The decoder of record bodies once more, as a program that makes one request for every operation
that can panic: the slice of `Decoder::take`, the first byte of a slice, the conversion of a slice
into an array, and the push of a log entry. Every round of a counted loop is a request as well, and
so is every move of the position. An operation that panics stops the program. The decoders follow
the ones of `Sukari.Codec` line by line.
-/

set_option autoImplicit false
set_option relaxedAutoImplicit false

namespace Sukari

open LittleEndian Effects

/-- Why a decoder stops early. -/
inductive Stop
  | error (error : IoError)
  | panic

/-- What a decoder does to its input and to the entries it builds. -/
inductive DecodingOp (N : Noraft)
  | decoder
  | slice (start stop : ℕ)
  | advance (stop : ℕ)
  | first (slice : List UInt8)
  | array (width : ℕ) (slice : List UInt8)
  | round (index : ℕ)
  | push (entries : N.LogEntries) (entry : LogEntry)

/-- The replies; the operations that can panic reply `none` then. -/
def decoding (N : Noraft) : Signature where
  Op := DecodingOp N
  Reply
    | .decoder => Decoder
    | .slice _ _ => Option (List UInt8)
    | .advance _ => Unit
    | .first _ => Option UInt8
    | .array _ _ => Option (List UInt8)
    | .round _ => Unit
    | .push _ _ => Option N.LogEntries

/-- A slice panics when its range is not inside the input, a conversion when the slice does not
have the length of the array, and a push when the last index cannot be advanced. -/
def decodingMachine (N : Noraft) : Machine (decoding N) Decoder where
  reply
    | .decoder, decoder => decoder
    | .slice start stop, decoder =>
      if start ≤ stop ∧ stop ≤ decoder.bytes.length then
        some ((decoder.bytes.drop start).take (stop - start))
      else none
    | .advance _, _ => ()
    | .first slice, _ => slice.head?
    | .array width slice, _ => if slice.length = width then some slice else none
    | .round _, _ => ()
    | .push entries entry, _ =>
      if (N.lastPosition entries).index.toNat + 1 < 2 ^ 64 then some (N.push entries entry)
      else none
  after
    | .advance stop, decoder => ⟨decoder.bytes, stop⟩
    | _, decoder => decoder
  during _ _ := []

/-- Decoders that make their steps visible. -/
abbrev Decoding (N : Noraft) := ExceptT Stop (Program (decoding N))

namespace Decoding

variable {N : Noraft}

def request (op : DecodingOp N) : Decoding N ((decoding N).Reply op) :=
  ExceptT.lift (Program.perform (S := decoding N) op)

def fail {α : Type} (error : IoError) : Decoding N α := throw (.error error)

def failIf (condition : Prop) [Decidable condition] (error : IoError) : Decoding N Unit :=
  if condition then fail error else return ()

/-- Goes on with the reply of an operation that did not panic. -/
def expect {α : Type} : Option α → Decoding N α
  | some value => return value
  | none => throw .panic

/-! ### Operations -/

def decoder : Decoding N Decoder := request .decoder

/-- `&self.bytes[start..stop]`. -/
def slice (start stop : ℕ) : Decoding N (List UInt8) := do
  expect (← request (.slice start stop))

/-- `self.position = stop`. -/
def advance (stop : ℕ) : Decoding N Unit := request (.advance stop)

/-- `bytes[0]`. -/
def first (bytes : List UInt8) : Decoding N UInt8 := do
  expect (← request (.first bytes))

/-- `bytes.try_into().expect(..)`. -/
def array (width : ℕ) (bytes : List UInt8) : Decoding N (List UInt8) := do
  expect (← request (.array width bytes))

/-- The start of a round of a counted loop. -/
def round (index : ℕ) : Decoding N Unit := request (.round index)

/-- `LogEntries::push`. -/
def push (entries : N.LogEntries) (entry : LogEntry) : Decoding N N.LogEntries := do
  expect (← request (.push entries entry))

/-! ### The methods of `Decoder` -/

def take (len : ℕ) : Decoding N (List UInt8) := do
  let decoder ← decoder
  let stop := decoder.position + len
  failIf (2 ^ 64 ≤ stop) (invalidData "record offset overflow")
  failIf (decoder.bytes.length < stop) (invalidData "record is too short")
  let slice ← slice decoder.position stop
  advance stop
  return slice

def getU8 : Decoding N UInt8 := do
  let bytes ← take 1
  first bytes

def getU32 : Decoding N ℕ := do
  let bytes ← take 4
  return fromLeBytes (← array 4 bytes)

def getU64 : Decoding N UInt64 := do
  let bytes ← take 8
  return UInt64.ofNat (fromLeBytes (← array 8 bytes))

def getBytes : Decoding N (List UInt8) := do
  let len ← getU32
  failIf (maxRecordBodyLen < len) (invalidData "byte slice is too large")
  take len

def finish : Decoding N Unit := do
  let decoder ← decoder
  failIf (decoder.position ≠ decoder.bytes.length) (invalidData "record has trailing bytes")

/-! ### The decoders of the format -/

/-- A loop `for _ in 0..count`, from round `index` on. -/
def repeatM {σ : Type} (step : σ → Decoding N σ) : ℕ → ℕ → σ → Decoding N σ
  | _, 0, acc => return acc
  | index, count + 1, acc => do
    round index
    repeatM step (index + 1) count (← step acc)

def decodeCount (error : String) : Decoding N ℕ := do
  let value ← getU32
  failIf (maxCountItems < value) (invalidData error)
  return value

def decodeLogPosition : Decoding N LogPosition := do
  let term ← getU64
  let index ← getU64
  return ⟨term, index⟩

def decodeOptionalNodeId : Decoding N (Option NodeId) := do
  match ← getU8 with
  | 0 => return none
  | 1 => return some (← getU64)
  | _ => fail (invalidData "invalid optional node ID tag")

def decodeNodeIdInto (nodes : NodeIdSet) : Decoding N NodeIdSet := do
  let nodeId ← getU64
  failIf (nodes.contains nodeId) (invalidData "duplicate node ID")
  return nodes.insert nodeId

def decodeNodeIdSet : Decoding N NodeIdSet := do
  let len ← decodeCount "too many node IDs"
  repeatM decodeNodeIdInto 0 len ∅

def decodeClusterConfig : Decoding N ClusterConfig := do
  let voters ← decodeNodeIdSet
  let newVoters ← decodeNodeIdSet
  let nonVoters ← decodeNodeIdSet
  return ⟨voters, newVoters, nonVoters⟩

def decodeLogEntry : Decoding N LogEntry := do
  match ← getU8 with
  | 0 => return .term (← getU64)
  | 1 => return .clusterConfig (← decodeClusterConfig)
  | 2 => return .command
  | _ => fail (invalidData "unknown log entry tag")

def decodeLogEntryInto (entries : N.LogEntries) : Decoding N N.LogEntries := do
  let entry ← decodeLogEntry
  push entries entry

variable (N) in
def decodeLogEntries : Decoding N N.LogEntries := do
  let prevPosition ← decodeLogPosition
  let len ← decodeCount "too many log entries"
  failIf ((prevPosition.index.checkedAdd (UInt64.ofNat len)).isNone)
    (invalidData "log entries overflow the log index space")
  repeatM decodeLogEntryInto 0 len (N.newEntries prevPosition)

def decodeCommandPayloadInto (payloads : CommandPayloads) : Decoding N CommandPayloads := do
  let index ← getU64
  let tag ← getU8
  let payload : CommandPayload := ⟨tag, ← getBytes⟩
  failIf (payloads.contains index) (invalidData "duplicate command payload index")
  return payloads.insert index payload

variable (N) in
def decodeLogAppend : Decoding N (LogAppend N) := do
  let entries ← decodeLogEntries N
  let commandCount ← decodeCount "too many command payloads"
  let commandPayloads ← repeatM decodeCommandPayloadInto 0 commandCount ∅
  match LogAppend.new entries commandPayloads with
  | .ok append => return append
  | .error _ => fail (invalidData "invalid command payload mapping")

def decodeSnapshot : Decoding N Snapshot := do
  let lastIncluded ← decodeLogPosition
  let config ← decodeClusterConfig
  let data ← getBytes
  return ⟨lastIncluded, config, data⟩

variable (N) in
def decodeSnapshotCheckpoint : Decoding N (SnapshotCheckpoint N) := do
  let currentTerm ← getU64
  let votedFor ← decodeOptionalNodeId
  let snapshot ← decodeSnapshot
  let suffix ← decodeLogAppend N
  let checkpoint : SnapshotCheckpoint N := ⟨currentTerm, votedFor, snapshot, suffix⟩
  match checkpoint.validate with
  | .ok _ => return checkpoint
  | .error _ => fail (invalidData "invalid snapshot checkpoint")

variable (N) in
def decodeRecord : Decoding N (Record N) := do
  match ← getU8 with
  | 0 => return .currentTerm (← getU64)
  | 1 => return .votedFor (← decodeOptionalNodeId)
  | 2 => return .append (← decodeLogAppend N)
  | 3 => return .snapshotCheckpoint (← decodeSnapshotCheckpoint N)
  | _ => fail (invalidData "unknown segment record tag")

variable (N) in
def decodeNodeRecord : Decoding N (NodeId × Record N) := do
  let nodeId ← getU64
  let record ← decodeRecord N
  finish
  return (nodeId, record)

variable (N) in
def decodeRecordNodeId : Decoding N NodeId := getU64

end Decoding

end Sukari
