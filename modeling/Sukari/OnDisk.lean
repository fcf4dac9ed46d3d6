import Sukari.Recoverable
import Sukari.Survey

/-!
# Records on disk

A record is on disk at a position when the segment file of the position is there and the frame that
starts at its offset holds the record. The records on disk are the entries of the journal whose
segments are there (`Stored.hasRecord_iff`).
-/

set_option autoImplicit false
set_option relaxedAutoImplicit false

namespace Sukari

variable {N : Noraft} {journal : Journal N} {fs : Fs}

/-- A complete record of a node starts at a position. -/
def Fs.HasRecord (fs : Fs) (position : RecordPosition) (nodeRecord : NodeId × Record N) : Prop :=
  ∃ file : SegmentFile, fs.segments[position.segment]? = some file ∧
    (position.offset, nodeRecord) ∈ segmentRecords N file.bytes

variable (N) in
/-- A complete checkpoint of a node starts at a position. -/
def Fs.HasCheckpoint (fs : Fs) (nodeId : NodeId) (position : RecordPosition) : Prop :=
  ∃ checkpoint : SnapshotCheckpoint N,
    fs.HasRecord position (nodeId, .snapshotCheckpoint checkpoint)

/-- Which names are durable does not matter for the records on disk. -/
@[simp] theorem Fs.hasRecord_syncDir {position : RecordPosition} {nodeRecord : NodeId × Record N} :
    fs.syncDir.HasRecord position nodeRecord ↔ fs.HasRecord position nodeRecord := by
  unfold Fs.HasRecord
  rw [Fs.getElem?_syncDir]
  cases fs.segments[position.segment]? <;> simp

@[simp] theorem Fs.hasCheckpoint_syncDir {nodeId : NodeId} {position : RecordPosition} :
    fs.syncDir.HasCheckpoint N nodeId position ↔ fs.HasCheckpoint N nodeId position := by
  unfold Fs.HasCheckpoint
  simp only [hasRecord_syncDir]

theorem Stored.hasRecord_iff (h : Stored journal fs) {position : RecordPosition}
    {nodeRecord : NodeId × Record N} : fs.HasRecord position nodeRecord ↔
      position.segment ∈ fs.segments ∧ ∃ entry ∈ journal.entries, entry.position = position ∧
        entry.frame.nodeRecord = nodeRecord := by
  have hsegment {file : SegmentFile} (hfile : fs.segments[position.segment]? = some file) :
      (position.offset, nodeRecord) ∈ segmentRecords N file.bytes ↔
        ∃ entry ∈ journal.entries, entry.position = position ∧
          entry.frame.nodeRecord = nodeRecord := by
    obtain ⟨frames, hframes, hcontents⟩ := h.contents hfile
    rw [segmentRecords_eq position.segment hcontents, List.mem_map]
    constructor
    · rintro ⟨entry, hentry, hrecord⟩
      obtain ⟨hoffset, hrecord⟩ := Prod.mk.inj hrecord
      have hname := segment_of_mem_placedFrom hentry
      refine ⟨entry, Journal.mem_entries.mpr ?_, ?_, hrecord⟩
      · rwa [Journal.inSegment, hname, hframes]
      · cases hposition : entry.position
        simp_all
    · rintro ⟨entry, hentry, rfl, hrecord⟩
      rw [Journal.mem_entries, Journal.inSegment, hframes] at hentry
      exact ⟨entry, hentry, by rw [hrecord]⟩
  constructor
  · rintro ⟨file, hfile, hrecord⟩
    exact ⟨mem_iff_exists_getElem?.mpr ⟨file, hfile⟩, (hsegment hfile).mp hrecord⟩
  · rintro ⟨hpresent, hentry⟩
    obtain ⟨file, hfile⟩ := mem_iff_exists_getElem?.mp hpresent
    exact ⟨file, hfile, (hsegment hfile).mpr hentry⟩

theorem isCheckpointOf_iff {entry : Entry N} {nodeId : NodeId} :
    entry.isCheckpointOf nodeId = true ↔
      ∃ checkpoint, entry.frame.nodeRecord = (nodeId, .snapshotCheckpoint checkpoint) := by
  obtain ⟨position, frame⟩ := entry
  obtain ⟨node, record, valid, fits⟩ := frame
  cases record <;> simp [Entry.isCheckpointOf, Record.isCheckpoint, Frame.nodeRecord]

theorem Stored.hasCheckpoint_iff (h : Stored journal fs) {nodeId : NodeId}
    {position : RecordPosition} : fs.HasCheckpoint N nodeId position ↔
      position.segment ∈ fs.segments ∧ ∃ entry ∈ journal.entries, entry.position = position ∧
        entry.isCheckpointOf nodeId = true := by
  simp only [Fs.HasCheckpoint, h.hasRecord_iff, isCheckpointOf_iff]
  constructor
  · rintro ⟨checkpoint, hpresent, entry, hentry, hposition, hrecord⟩
    exact ⟨hpresent, entry, hentry, hposition, checkpoint, hrecord⟩
  · rintro ⟨hpresent, entry, hentry, hposition, checkpoint, hrecord⟩
    exact ⟨checkpoint, hpresent, entry, hentry, hposition, hrecord⟩

/-- An entry of a segment ends before a later one starts. -/
theorem end_le_of_lt {segment offset : ℕ} {frames : List (Frame N)} {first second : Entry N}
    (hfirst : first ∈ placedFrom segment offset frames)
    (hsecond : second ∈ placedFrom segment offset frames) (hlt : first.position < second.position) :
    first.position.offset + first.frame.bytes.length ≤ second.position.offset := by
  have hoffset : first.position.offset < second.position.offset := by
    rcases RecordPosition.lt_def.mp hlt with hsegment | ⟨-, hoffset⟩
    · rw [segment_of_mem_placedFrom hfirst, segment_of_mem_placedFrom hsecond] at hsegment
      exact absurd hsegment (lt_irrefl _)
    · exact hoffset
  induction frames generalizing offset with
  | nil => nomatch hfirst
  | cons frame rest ih =>
    rcases List.mem_cons.mp hfirst with rfl | hfirst
    · rcases List.mem_cons.mp hsecond with rfl | hsecond
      · exact absurd hoffset (lt_irrefl _)
      · exact (offset_of_mem_placedFrom hsecond).1
    · rcases List.mem_cons.mp hsecond with rfl | hsecond
      · have hstart := (offset_of_mem_placedFrom hfirst).1
        simp only at hoffset
        omega
      · exact ih hfirst hsecond

/-- An older entry is durable when a later one is. -/
theorem Durable.of_lt {first second : Entry N} (h : Durable journal fs second)
    (hfirst : first ∈ journal.entries) (hsecond : second ∈ journal.entries)
    (hlt : first.position < second.position) : Durable journal fs first := by
  have hle := RecordPosition.segment_le hlt.le
  rcases h with hsealed | ⟨file, hfile, hsynced⟩
  · exact .inl (by omega)
  · by_cases hsame : first.position.segment = second.position.segment
    · refine .inr ⟨file, by rw [hsame]; exact hfile, ?_⟩
      rw [Journal.mem_entries, Journal.inSegment] at hfirst hsecond
      rw [hsame] at hfirst
      have hend := end_le_of_lt hfirst hsecond hlt
      omega
    · have hbound := Journal.segment_lt_of_mem hsecond
      exact .inl (by omega)

end Sukari
