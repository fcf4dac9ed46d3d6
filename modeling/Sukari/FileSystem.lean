import Sukari.Effects.Program
import Sukari.Json
import Mathlib.Algebra.Group.Nat.Defs
import Std.Data.ExtTreeMap

/-!
# The storage directory

`Fs` is the content of a storage directory and `FsOp` the requests that the storage code makes of
it. A segment file is its bytes together with the part of it that is durable: `sync_data` makes all
bytes durable, and a directory sync makes the name of a new file durable. A removed segment stays
in `unlinked` until the next directory sync, because a power loss may bring it back. A JSON file is
written to a temporary file, synced and renamed; that is one request, `replaceJson`, and the rename
is durable after the next directory sync. Its content is the document that was printed;
`Sukari.FileTexts` shows that loading the printed text gives what loading the document gives.

The only requests that fail are writes behind the largest file length. Other errors of the operating
system (a read, sync, rename or removal that fails, a full disk) are not in `Fs`, and so the returns
of the source on such an error, in the middle of a rotation or of a garbage collection, are not in
the programs.

`Survivor fs fs'` says that the directory may be `fs'` after a power loss in `fs`. Who has the write
lock is no part of the directory. A `SegmentName` is its ID, a number; that IDs are `u64` values is
checked by the parser and by `next`.
-/

set_option autoImplicit false
set_option relaxedAutoImplicit false

namespace Sukari

open Effects

structure SegmentFile where
  bytes : List UInt8
  /-- The number of bytes that a power loss cannot take away. -/
  synced : ℕ
  /-- The name of the file is durable. -/
  linked : Bool
  deriving DecidableEq

/-- The JSON files of a storage directory. -/
inductive JsonName
  | checkpoints
  | nodes
  deriving DecidableEq

/-- The versions of a JSON file that a reader sees and that a power loss leaves. -/
structure JsonFile where
  current : Option Json
  durable : Option Json

structure Fs where
  segments : Std.ExtTreeMap ℕ SegmentFile
  /-- The segments removed since the last directory sync. -/
  unlinked : Std.ExtTreeMap ℕ SegmentFile
  checkpoints : JsonFile
  nodes : JsonFile

structure DirEntry where
  fileName : String
  isFile : Bool
  deriving DecidableEq

/-- `SegmentName::file_name`. -/
def SegmentName.fileName (name : ℕ) : String := "append-" ++ Nat.repr name ++ ".segment"

namespace Fs

def empty : Fs := ⟨∅, ∅, ⟨none, none⟩, ⟨none, none⟩⟩

def json (fs : Fs) : JsonName → JsonFile
  | .checkpoints => fs.checkpoints
  | .nodes => fs.nodes

def setJson (fs : Fs) : JsonName → JsonFile → Fs
  | .checkpoints, file => { fs with checkpoints := file }
  | .nodes, file => { fs with nodes := file }

/-- Changes the file of a segment, if there is one. -/
def modifySegment (fs : Fs) (name : ℕ) (f : SegmentFile → SegmentFile) : Fs :=
  { fs with segments := fs.segments.modify name f }

/-- What `read_dir` lists. -/
def entries (fs : Fs) : List DirEntry :=
  ⟨"write.lock", true⟩ :: (fs.nodes.current.toList.map fun _ ↦ ⟨"nodes.json", true⟩) ++
    (fs.checkpoints.current.toList.map fun _ ↦ ⟨"checkpoints.json", true⟩) ++
    fs.segments.keys.reverse.map fun name ↦ ⟨SegmentName.fileName name, true⟩

end Fs

/-- The largest file: offsets of a file are signed 64-bit values. -/
def maxFileLen : ℕ := 2 ^ 63 - 1

inductive FsOp
  /-- `read_dir`. -/
  | readDir
  /-- `metadata(path)?.is_file()`, with `false` for a file that does not exist. -/
  | isFile (name : ℕ)
  /-- Opens a segment for reading and reads it. -/
  | read (name : ℕ)
  /-- The length of an open file. -/
  | fileLen (name : ℕ)
  /-- `File::set_len`. -/
  | setLen (name : ℕ) (len : ℕ)
  /-- Opens a segment with the `create` flag; says whether the file is new. -/
  | create (name : ℕ)
  /-- `write_all` on a segment opened for appending. -/
  | writeAll (name : ℕ) (bytes : List UInt8)
  /-- `File::sync_data`. -/
  | syncData (name : ℕ)
  /-- `File::open(dir)?.sync_all()`. -/
  | syncDir
  /-- Reads a JSON file, if it exists. -/
  | readJson (name : JsonName)
  /-- Writes and syncs a temporary file and renames it. -/
  | replaceJson (name : JsonName) (document : Json)
  /-- `remove_file`; says whether the file existed. -/
  | remove (name : ℕ)

namespace FsOp

def Reply : FsOp → Type
  | readDir => List DirEntry
  | isFile _ => Bool
  | read _ => Option (List UInt8)
  | fileLen _ => ℕ
  | create _ => Bool
  | writeAll _ _ => Except IoError Unit
  | readJson _ => Option Json
  | remove _ => Bool
  | setLen _ _ | syncData _ | syncDir | replaceJson _ _ => Unit

end FsOp

/-- The requests of the storage code. -/
abbrev fileSystem : Signature := ⟨FsOp, FsOp.Reply⟩

namespace Fs

/-- A write that the file system takes: the file stays below the limit. -/
def accepts (fs : Fs) (name : ℕ) (bytes : List UInt8) : Bool :=
  match fs.segments[name]? with
  | some file => file.bytes.length + bytes.length ≤ maxFileLen
  | none => true

def fileLen (fs : Fs) (name : ℕ) : ℕ :=
  match fs.segments[name]? with
  | some file => file.bytes.length
  | none => 0

def reply : (op : FsOp) → Fs → op.Reply
  | .readDir, fs => fs.entries
  | .isFile name, fs => fs.segments.contains name
  | .read name, fs => fs.segments[name]?.map SegmentFile.bytes
  | .fileLen name, fs => fs.fileLen name
  | .setLen _ _, _ => ()
  | .create name, fs => !fs.segments.contains name
  | .writeAll name bytes, fs => if fs.accepts name bytes then .ok () else .error fileTooLarge
  | .syncData _, _ => ()
  | .syncDir, _ => ()
  | .readJson name, fs => (fs.json name).current
  | .replaceJson _ _, _ => ()
  | .remove name, fs => fs.segments.contains name

def setLen (fs : Fs) (name : ℕ) (len : ℕ) : Fs :=
  fs.modifySegment name fun file ↦
    { file with bytes := file.bytes.take len, synced := min file.synced len }

def create (fs : Fs) (name : ℕ) : Fs :=
  { fs with segments := fs.segments.insertIfNew name ⟨[], 0, false⟩ }

def append (fs : Fs) (name : ℕ) (bytes : List UInt8) : Fs :=
  fs.modifySegment name fun file ↦ { file with bytes := file.bytes ++ bytes }

def syncData (fs : Fs) (name : ℕ) : Fs :=
  fs.modifySegment name fun file ↦ { file with synced := file.bytes.length }

def syncDir (fs : Fs) : Fs where
  segments := fs.segments.map fun _ file ↦ { file with linked := true }
  unlinked := ∅
  checkpoints := ⟨fs.checkpoints.current, fs.checkpoints.current⟩
  nodes := ⟨fs.nodes.current, fs.nodes.current⟩

def replaceJson (fs : Fs) (name : JsonName) (document : Json) : Fs :=
  fs.setJson name { fs.json name with current := some document }

def remove (fs : Fs) (name : ℕ) : Fs :=
  match fs.segments[name]? with
  | some file =>
    { fs with segments := fs.segments.erase name, unlinked := fs.unlinked.insert name file }
  | none => fs

def after : FsOp → Fs → Fs
  | .setLen name len, fs => fs.setLen name len
  | .create name, fs => fs.create name
  | .writeAll name bytes, fs => if fs.accepts name bytes then fs.append name bytes else fs
  | .syncData name, fs => fs.syncData name
  | .syncDir, fs => fs.syncDir
  | .replaceJson name document, fs => fs.replaceJson name document
  | .remove name, fs => fs.remove name
  | .readDir, fs | .isFile _, fs | .read _, fs | .fileLen _, fs | .readJson _, fs => fs

/-- The states seen during a write: a part of the bytes is in the file. -/
def during : FsOp → Fs → List Fs
  | .writeAll name bytes, fs =>
    if fs.accepts name bytes then
      (List.range bytes.length).map fun len ↦ fs.append name (bytes.take len)
    else []
  | _, _ => []

end Fs

/-- The storage directory as a medium. -/
def directory : Machine fileSystem Fs := ⟨Fs.reply, Fs.after, Fs.during⟩

namespace Fs

theorem getElem?_modifySegment (fs : Fs) (name : ℕ) (f : SegmentFile → SegmentFile) (segment : ℕ) :
    (fs.modifySegment name f).segments[segment]? =
      if name = segment then fs.segments[segment]?.map f else fs.segments[segment]? := by
  rw [modifySegment, Std.ExtTreeMap.getElem?_modify]
  by_cases hname : name = segment <;> simp [hname]

@[simp] theorem mem_modifySegment (fs : Fs) (name : ℕ) (f : SegmentFile → SegmentFile)
    (segment : ℕ) : segment ∈ (fs.modifySegment name f).segments ↔ segment ∈ fs.segments :=
  Std.ExtTreeMap.mem_modify

theorem getElem?_syncDir (fs : Fs) (segment : ℕ) : fs.syncDir.segments[segment]? =
    fs.segments[segment]?.map fun file ↦ { file with linked := true } := by
  rw [syncDir, Std.ExtTreeMap.getElem?_map]

theorem mem_syncDir {fs : Fs} {segment : ℕ} :
    segment ∈ fs.syncDir.segments ↔ segment ∈ fs.segments := by
  rw [Std.ExtTreeMap.mem_iff_isSome_getElem?, getElem?_syncDir, Option.isSome_map,
    ← Std.ExtTreeMap.mem_iff_isSome_getElem?]

end Fs

/-! ### Power loss -/

/-- What a power loss leaves of a file: the durable bytes and some of the bytes after them. -/
def SegmentFile.Survivor (file file' : SegmentFile) : Prop :=
  ∃ len, file.synced ≤ len ∧ len ≤ file.bytes.length ∧ file' = ⟨file.bytes.take len, len, true⟩

/-- What a power loss leaves of a JSON file: a pending rename took effect or not. -/
def JsonFile.Survivor (file file' : JsonFile) : Prop :=
  (file' = ⟨file.current, file.current⟩) ∨ (file' = ⟨file.durable, file.durable⟩)

/-- What a power loss leaves of a directory. A new segment whose name is not durable may be
missing, and any of the segments removed since the last directory sync may be back. -/
structure Survivor (fs fs' : Fs) : Prop where
  kept : ∀ name file, fs.segments[name]? = some file →
    (∃ file', fs'.segments[name]? = some file' ∧ file.Survivor file') ∨
      (file.linked = false ∧ name ∉ fs'.segments)
  back : ∀ name file', name ∉ fs.segments → fs'.segments[name]? = some file' →
    ∃ file, fs.unlinked[name]? = some file ∧ file.Survivor file'
  unlinked : fs'.unlinked = ∅
  checkpoints : fs.checkpoints.Survivor fs'.checkpoints
  nodes : fs.nodes.Survivor fs'.nodes

end Sukari
