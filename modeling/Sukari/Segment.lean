import Sukari.FileSystem
import Sukari.Frame
import Mathlib.Data.List.Sort
import Mathlib.Data.Prod.Lex

/-!
# Append segments

Segment names and positions of records, the header of a segment file, and the writer of the active
segment. `SegmentWriter.append` writes a frame and first rotates to the next segment when the frame
would take the active one over the threshold. `SegmentWriter.sync` trusts two gauges of the metrics;
the other counters of the metrics are only ever written and are left out.
-/

set_option autoImplicit false
set_option relaxedAutoImplicit false

namespace Sukari

open Effects

variable {N : Noraft}

/-! ### Input and output -/

/-- A function that makes requests of the file system and may fail. -/
abbrev IoM := ExceptT IoError (Program fileSystem)

/-- A method that also changes a state of type `σ` through `&mut`. -/
abbrev MethodM (σ : Type) := ExceptT IoError (StateT σ (Program fileSystem))

def io (op : FsOp) : IoM op.Reply := ExceptT.lift (Program.perform (S := fileSystem) op)

def liftIo {σ α : Type} (action : IoM α) : MethodM σ α :=
  fun s ↦ action.run >>= fun result ↦ pure (result, s)

/-- An `if` without `else`. -/
def onlyIf {m : Type → Type} [Monad m] (condition : Prop) [Decidable condition]
    (action : m Unit) : m Unit :=
  if condition then action else pure ()

/-! ### Names and positions -/

def segmentFormatMagic : List UInt8 := [0x53, 0x4B, 0x52, 0x31]
def segmentFileHeaderLen : ℕ := 4

namespace SegmentName

def firstAppend : ℕ := 0

def nextAppend (name : ℕ) : Except IoError ℕ := do
  failIf (2 ^ 64 ≤ name + 1) (invalidData "segment ID overflow")
  return name + 1

def parseFileName (fileName : String) : Option ℕ := do
  let id ← fileName.toList.dropPrefix? "append-".toList
  let id ← id.dropSuffix? ".segment".toList
  if id = [] ∨ ¬ id.all Char.isDigit then none
  else if 1 < id.length ∧ id.head? = some '0' then none
  else parseU64 id

end SegmentName

/-- The position of a record: positions are ordered by segment, then by offset. -/
structure RecordPosition where
  segment : ℕ
  offset : ℕ
  deriving DecidableEq

instance : LinearOrder RecordPosition :=
  LinearOrder.lift' (fun position ↦ toLex (position.segment, position.offset))
    (fun first second h ↦ by cases first; cases second; simpa using h)

/-- The segments of a listing, in order. -/
def discoverSegments (entries : List DirEntry) : List ℕ :=
  ((entries.filter DirEntry.isFile).filterMap fun entry ↦
    SegmentName.parseFileName entry.fileName).insertionSort (· ≤ ·)

/-- `discover_segment_paths`. -/
def discoverSegmentPaths : IoM (List ℕ) := do
  let entries : List DirEntry ← io .readDir
  return discoverSegments entries

def selectActiveAppendSegment : IoM ℕ := do
  let segments ← discoverSegmentPaths
  return segments.max?.getD SegmentName.firstAppend

/-- `open` of a file that is read. -/
def openSegment (name : ℕ) : IoM (List UInt8) := do
  let contents : Option (List UInt8) ← io (.read name)
  match contents with
  | some bytes => return bytes
  | none => throw fileNotFound

/-- `read_segment_header`: says whether records follow. A partial header is cut off when the
segment is being recovered. -/
def readSegmentHeader (name : ℕ) (bytes : List UInt8)
    (allowPartial recoverPartial : Bool) : IoM Bool := do
  if bytes.length = 0 then
    if allowPartial then return false
    else throw (invalidData "missing segment header")
  else if bytes.length < segmentFileHeaderLen then
    if allowPartial ∧ recoverPartial then
      let _ : Unit ← io (.setLen name 0)
      return false
    else if allowPartial then return false
    else throw (invalidData "partial segment header in inactive segment")
  else if bytes.take segmentFileHeaderLen ≠ segmentFormatMagic then
    throw (invalidData "unsupported segment format")
  else return true

/-! ### The writer -/

/-- The gauges of `StorageMetrics` that the writer reads. -/
structure StorageMetrics where
  unsyncedRecords : ℕ
  unsyncedBytes : ℕ
  deriving DecidableEq

namespace StorageMetrics

/-- `StorageMetricsCounters::default`. -/
def default : StorageMetrics := ⟨0, 0⟩

/-- `increment`, which saturates. -/
def increment (counter value : ℕ) : ℕ := min (counter + value) (2 ^ 64 - 1)

def recordWritten (metrics : StorageMetrics) (bytes : ℕ) : StorageMetrics :=
  ⟨increment metrics.unsyncedRecords 1, increment metrics.unsyncedBytes bytes⟩

def segmentSynced (_ : StorageMetrics) : StorageMetrics := ⟨0, 0⟩

end StorageMetrics

structure SegmentWriter where
  activeSegment : ℕ
  segmentLen : ℕ
  maxSegmentLen : ℕ
  deriving DecidableEq

/-- A writer with the metrics that its methods update. -/
structure MeteredWriter where
  writer : SegmentWriter
  metrics : StorageMetrics
  deriving DecidableEq

abbrev WriterM := MethodM MeteredWriter

def writeAll (name : ℕ) (bytes : List UInt8) : IoM Unit := do
  let result : Except IoError Unit ← io (.writeAll name bytes)
  liftM result

def openActiveSegmentFile (name : ℕ) : IoM Unit := do
  let _ : Bool ← io (.create name)
  let len : ℕ ← io (.fileLen name)
  onlyIf (len = 0) (writeAll name segmentFormatMagic)

def createActiveSegmentFile (name : ℕ) : IoM Unit := do
  let new : Bool ← io (.create name)
  failIf (new = false) fileAlreadyExists
  writeAll name segmentFormatMagic

def syncDir : IoM Unit := io .syncDir

namespace SegmentWriter

/-- `SegmentWriter::open`. -/
def new (activeSegment : ℕ) (maxSegmentLen : ℕ) : IoM SegmentWriter := do
  let fileExisted : Bool ← io (.isFile activeSegment)
  openActiveSegmentFile activeSegment
  onlyIf (fileExisted = false) syncDir
  let segmentLen : ℕ ← io (.fileLen activeSegment)
  return ⟨activeSegment, segmentLen, maxSegmentLen⟩

def shouldRotate (writer : SegmentWriter) (writtenBytes : ℕ) : Bool :=
  if writer.segmentLen ≤ segmentFileHeaderLen then false
  else if 2 ^ 64 ≤ writer.segmentLen + writtenBytes then true
  else writer.maxSegmentLen < writer.segmentLen + writtenBytes

def syncCurrentSegment : WriterM Unit := do
  let active := (← get).writer.activeSegment
  let _ : Unit ← liftIo (io (.syncData active))
  modify fun s ↦ { s with metrics := s.metrics.segmentSynced }

def sync : WriterM Unit := do
  let metrics := (← get).metrics
  onlyIf (metrics.unsyncedRecords ≠ 0 ∨ metrics.unsyncedBytes ≠ 0) syncCurrentSegment

def rotate : WriterM Unit := do
  syncCurrentSegment
  let active := (← get).writer.activeSegment
  let nextSegment ← liftM (SegmentName.nextAppend active)
  liftIo (createActiveSegmentFile nextSegment)
  liftIo syncDir
  modify fun s ↦ { s with writer :=
    { s.writer with activeSegment := nextSegment, segmentLen := segmentFileHeaderLen } }

/-- The end of `append`: writes a frame at the end of the active segment. -/
def writeFrame (frame : List UInt8) : WriterM RecordPosition := do
  let writer := (← get).writer
  let recordPosition : RecordPosition := ⟨writer.activeSegment, writer.segmentLen⟩
  liftIo (writeAll writer.activeSegment frame)
  let segmentLen := writer.segmentLen + frame.length
  failIf (2 ^ 64 ≤ segmentLen) (invalidData "segment length overflow")
  modify fun s ↦ ⟨{ s.writer with segmentLen := segmentLen },
    s.metrics.recordWritten frame.length⟩
  return recordPosition

def append (nodeId : NodeId) (record : Record N) : WriterM RecordPosition := do
  let frame ← liftM (encodeRecordFrame nodeId record)
  let writer := (← get).writer
  onlyIf (writer.shouldRotate frame.length) rotate
  writeFrame frame

end SegmentWriter

end Sukari
