import Sukari.OnDisk
import Sukari.Recovery

/-!
# Positions and rotation

The writer keeps the length of the active segment apart from the file and goes on to the next
segment when a frame would take a segment that has records over the threshold. Over every run of
appends and clean reopens, its length is the one of the file, each position it returns is where the
frame starts, and the segments are numbered without gaps, hold whole frames, and hold several of
them only below the threshold (`wellPlaced_of_appends`).
-/

set_option autoImplicit false
set_option relaxedAutoImplicit false

namespace Sukari

open Effects

variable {N : Noraft} {journal : Journal N} {fs fs' : Fs} {s s' : MeteredWriter}

/-! ### Directories that hold a journal -/

/-- The segment files hold exactly the frames of the journal. -/
def Written (journal : Journal N) (fs : Fs) : Prop :=
  ∀ segment : ℕ, fs.segments[segment]?.map SegmentFile.bytes = journal[segment]?.map segmentBytes

theorem Written.file (h : Written journal fs) {segment : ℕ} {file : SegmentFile}
    (hfile : fs.segments[segment]? = some file) :
    ∃ frames, journal[segment]? = some frames ∧ file.bytes = segmentBytes frames := by
  have hbytes := h segment
  rw [hfile, Option.map_some, eq_comm, Option.map_eq_some_iff] at hbytes
  obtain ⟨frames, hframes, hbytes⟩ := hbytes
  exact ⟨frames, hframes, hbytes.symm⟩

theorem Written.exists_file (h : Written journal fs) {segment : ℕ} {frames : List (Frame N)}
    (hframes : journal[segment]? = some frames) :
    ∃ file, fs.segments[segment]? = some file ∧ file.bytes = segmentBytes frames := by
  have hbytes := h segment
  rw [hframes, Option.map_some, Option.map_eq_some_iff] at hbytes
  exact hbytes

theorem Written.mem_iff (h : Written journal fs) (segment : ℕ) :
    segment ∈ fs.segments ↔ segment < journal.length := by
  have hbytes := congrArg Option.isSome (h segment)
  rw [Option.isSome_map, Option.isSome_map] at hbytes
  rw [Std.ExtTreeMap.mem_iff_isSome_getElem?, hbytes]
  simp

theorem Written.congr (h : Written journal fs)
    (hsame : ∀ segment : ℕ, fs'.segments[segment]?.map SegmentFile.bytes =
      fs.segments[segment]?.map SegmentFile.bytes) : Written journal fs' :=
  fun segment ↦ (hsame segment).trans (h segment)

theorem Written.syncData (h : Written journal fs) (name : ℕ) : Written journal (fs.syncData name) :=
  h.congr fun segment ↦ by
    rw [Fs.syncData, Fs.getElem?_modifySegment]
    split
    · rw [Option.map_map]
      rfl
    · rfl

theorem Written.syncDir (h : Written journal fs) : Written journal fs.syncDir :=
  h.congr fun segment ↦ by
    rw [Fs.getElem?_syncDir, Option.map_map]
    rfl

/-- A frame was appended to the active segment. -/
theorem Written.append (h : Written journal fs) {active : ℕ} (hactive : active + 1 = journal.length)
    (frame : Frame N) : Written (journal.write frame) (fs.append active frame.bytes) := by
  intro segment
  have hbytes := h segment
  have hne : journal ≠ [] := List.length_pos_iff.mp (by omega)
  rw [Fs.append, Fs.getElem?_modifySegment]
  rcases Nat.lt_trichotomy segment active with hlt | rfl | hgt
  · rw [if_neg (by omega), Journal.getElem?_write_of_lt frame (by omega)]
    exact hbytes
  · have hframes := List.getElem?_eq_getElem (show segment < journal.length by omega)
    rw [if_pos rfl, Journal.getElem?_write_last frame hactive hframes, Option.map_some,
      Option.map_map]
    obtain ⟨file, hfile, hwhole⟩ := h.exists_file hframes
    rw [hfile, Option.map_some]
    simp [hwhole, segmentBytes]
  · have hlength := Journal.length_write hne frame
    rw [if_neg (by omega),
      List.getElem?_eq_none (show (journal.write frame).length ≤ segment by omega)]
    rw [List.getElem?_eq_none (show journal.length ≤ segment by omega)] at hbytes
    exact hbytes

/-- A new segment was created. -/
theorem Written.newSegment (h : Written journal fs) :
    Written journal.newSegment
      ((fs.create journal.length).append journal.length segmentFormatMagic) := by
  intro segment
  have hbytes := h segment
  have hfresh : journal.length ∉ fs.segments := fun hmem ↦
    absurd ((h.mem_iff _).mp hmem) (lt_irrefl _)
  rw [Fs.append, Fs.getElem?_modifySegment, Fs.getElem?_create hfresh, Journal.newSegment]
  by_cases hsame : journal.length = segment
  · subst hsame
    simp [segmentBytes]
  · rw [if_neg hsame, if_neg hsame, hbytes]
    rcases Nat.lt_or_gt_of_ne hsame with hlt | hgt
    · rw [List.getElem?_eq_none hlt.le, List.getElem?_eq_none (by
        rw [List.length_append, List.length_singleton]
        exact hlt)]
    · rw [List.getElem?_append_left hgt]

/-! ### The writer -/

/-- The writer is at the end of the journal. -/
structure AtEnd (maxSegmentLen : ℕ) (s : MeteredWriter) (journal : Journal N) (fs : Fs) : Prop where
  files : Written journal fs
  active : s.writer.activeSegment + 1 = journal.length
  segmentLen : ∀ frames, journal[s.writer.activeSegment]? = some frames →
    s.writer.segmentLen = (segmentBytes frames).length
  maxSegmentLen : s.writer.maxSegmentLen = maxSegmentLen
  names : journal.length ≤ 2 ^ 64

theorem run_liftIo {σ α : Type} {action : IoM α} {result : Except IoError α} {m : σ}
    (h : directory.run action.run fs = (result, fs')) :
    directory.run ((liftIo action).run m) fs = ((result, m), fs') := by
  refine (Machine.run_bind directory _ _ fs).trans ?_
  rw [h]
  rfl

theorem run_writeAll (name : ℕ) (bytes : List UInt8) :
    directory.run (writeAll name bytes).run fs =
      if fs.accepts name bytes then (.ok (), fs.append name bytes)
        else (.error fileTooLarge, fs) := by
  refine (Machine.run_bindExcept_ok (run_io (.writeAll name bytes) fs)).trans ?_
  cases haccepts : fs.accepts name bytes <;>
    simp only [Fs.reply, Fs.after, haccepts, if_true, if_false, Bool.false_eq_true] <;> rfl

/-- Creating the next segment file. -/
theorem run_createActiveSegmentFile {name : ℕ} (h : name ∉ fs.segments) :
    directory.run (createActiveSegmentFile name).run fs =
      (.ok (), (fs.create name).append name segmentFormatMagic) := by
  have hnew : (!fs.segments.contains name) = true := by
    rwa [Bool.not_eq_true', Bool.eq_false_iff, ne_eq, Std.ExtTreeMap.contains_iff_mem]
  have haccepts : (fs.create name).accepts name segmentFormatMagic = true := by
    have hfile := Fs.getElem?_create h name
    rw [if_pos rfl] at hfile
    simp [Fs.accepts, hfile, segmentFormatMagic, maxFileLen]
  refine (Machine.run_bindExcept_ok (run_io (.create name) fs)).trans ?_
  simp only [Fs.reply, hnew]
  refine (run_writeAll name segmentFormatMagic).trans ?_
  simp only [Fs.after, haccepts, if_true]

/-- A rotation that succeeds goes on in a new segment. -/
theorem AtEnd.rotate {maxSegmentLen : ℕ} (h : AtEnd maxSegmentLen s journal fs)
    (hrun : directory.run (SegmentWriter.rotate.run s) fs = ((.ok (), s'), fs')) :
    AtEnd maxSegmentLen s' journal.newSegment fs' := by
  have hsync : directory.run (SegmentWriter.syncCurrentSegment.run s) fs =
      ((.ok (), ⟨s.writer, s.metrics.segmentSynced⟩), fs.syncData s.writer.activeSegment) := rfl
  have hfiles := h.files.syncData s.writer.activeSegment
  have hactive := h.active
  have hfresh : journal.length ∉ (fs.syncData s.writer.activeSegment).segments := fun hmem ↦
    absurd ((hfiles.mem_iff _).mp hmem) (lt_irrefl _)
  by_cases hlarge : 2 ^ 64 ≤ s.writer.activeSegment + 1
  · have hnext : SegmentName.nextAppend s.writer.activeSegment =
        .error (invalidData "segment ID overflow") := by
      rw [SegmentName.nextAppend, failIf, if_pos hlarge]
      rfl
    have hfails : directory.run (SegmentWriter.rotate.run s) fs =
        ((.error (invalidData "segment ID overflow"), ⟨s.writer, s.metrics.segmentSynced⟩),
          fs.syncData s.writer.activeSegment) := by
      refine (Machine.run_bindMethod_ok hsync).trans ?_
      change directory.run ((liftM (SegmentName.nextAppend s.writer.activeSegment) >>= _ :
        WriterM Unit).run _) _ = _
      rw [hnext]
      rfl
    rw [hfails] at hrun
    cases hrun
  · have hnext : SegmentName.nextAppend s.writer.activeSegment = .ok journal.length := by
      rw [SegmentName.nextAppend, failIf, if_neg hlarge, ← hactive]
      rfl
    have hcreate := @run_liftIo _ _ MeteredWriter _ _ _ ⟨s.writer, s.metrics.segmentSynced⟩
      (run_createActiveSegmentFile hfresh)
    have hrotate : directory.run (SegmentWriter.rotate.run s) fs =
        ((.ok (),
          ⟨{ s.writer with activeSegment := journal.length, segmentLen := segmentFileHeaderLen },
          s.metrics.segmentSynced⟩),
          (((fs.syncData s.writer.activeSegment).create journal.length).append journal.length
            segmentFormatMagic).syncDir) := by
      refine (Machine.run_bindMethod_ok hsync).trans ?_
      change directory.run ((liftM (SegmentName.nextAppend s.writer.activeSegment) >>= _ :
        WriterM Unit).run _) _ = _
      rw [hnext]
      exact Machine.run_bindMethod_ok hcreate
    rw [hrotate] at hrun
    obtain ⟨hs', hfs'⟩ := Prod.mk.inj hrun
    obtain ⟨-, rfl⟩ := Prod.mk.inj hs'
    subst hfs'
    refine ⟨hfiles.newSegment.syncDir, ?_, fun frames hframes ↦ ?_, h.maxSegmentLen, ?_⟩
    · simp
    · simp only [Journal.newSegment, List.getElem?_concat_length, Option.some.injEq] at hframes
      subst hframes
      rfl
    · rw [Journal.length_newSegment]
      omega

/-- A frame that is written goes to the end of the active segment. -/
theorem AtEnd.writeFrame {maxSegmentLen : ℕ} (h : AtEnd maxSegmentLen s journal fs)
    (frame : Frame N)
    {position : RecordPosition}
    (hrun : directory.run ((SegmentWriter.writeFrame frame.bytes).run s) fs =
      ((.ok position, s'), fs')) :
    AtEnd maxSegmentLen s' (journal.write frame) fs' ∧
      position = ⟨s.writer.activeSegment, s.writer.segmentLen⟩ := by
  have hactive := h.active
  have hne : journal ≠ [] := List.length_pos_iff.mp (by omega)
  have hlength := Journal.length_write hne frame
  have hframes := List.getElem?_eq_getElem (show s.writer.activeSegment < journal.length by omega)
  have hrest : directory.run ((SegmentWriter.writeFrame frame.bytes).run s) fs = directory.run
      ((do
        liftIo (writeAll s.writer.activeSegment frame.bytes)
        let segmentLen := s.writer.segmentLen + frame.bytes.length
        failIf (2 ^ 64 ≤ segmentLen) (invalidData "segment length overflow")
        modify fun s ↦ ⟨{ s.writer with segmentLen := segmentLen },
          s.metrics.recordWritten frame.bytes.length⟩
        return ⟨s.writer.activeSegment, s.writer.segmentLen⟩ : WriterM RecordPosition).run s)
          fs := rfl
  rw [hrest] at hrun
  cases haccepts : fs.accepts s.writer.activeSegment frame.bytes with
  | false =>
    have hfails : directory.run (writeAll s.writer.activeSegment frame.bytes).run fs =
        (.error fileTooLarge, fs) := by
      rw [run_writeAll, haccepts]
      rfl
    rw [Machine.run_bindMethod_error (run_liftIo hfails)] at hrun
    cases hrun
  | true =>
    have hwrite : directory.run (writeAll s.writer.activeSegment frame.bytes).run fs =
        (.ok (), fs.append s.writer.activeSegment frame.bytes) := by
      rw [run_writeAll, haccepts]
      rfl
    rw [Machine.run_bindMethod_ok (run_liftIo hwrite)] at hrun
    by_cases hlarge : 2 ^ 64 ≤ s.writer.segmentLen + frame.bytes.length
    · simp only [failIf, if_pos hlarge] at hrun
      cases hrun
    · simp only [failIf, if_neg hlarge] at hrun
      obtain ⟨hs', hfs'⟩ := Prod.mk.inj hrun
      obtain ⟨hposition, rfl⟩ := Prod.mk.inj hs'
      obtain rfl := hfs'
      refine ⟨⟨h.files.append hactive frame, hlength ▸ hactive, fun frames' hframes' ↦ ?_,
        h.maxSegmentLen, hlength ▸ h.names⟩, (Except.ok.inj hposition).symm⟩
      change (journal.write frame)[s.writer.activeSegment]? = some frames' at hframes'
      rw [Journal.getElem?_write_last frame hactive hframes, Option.some.injEq] at hframes'
      subst hframes'
      change s.writer.segmentLen + frame.bytes.length = _
      rw [h.segmentLen _ hframes]
      simp [segmentBytes, Nat.add_assoc]

/-! ### Rotation -/

/-- Inactive segments have frames, and a segment longer than the threshold has at most one. -/
structure Rotated (maxSegmentLen : ℕ) (journal : Journal N) : Prop where
  filled : ∀ segment frames, segment + 1 < journal.length → journal[segment]? = some frames →
    frames ≠ []
  limited : ∀ (segment : ℕ) (frames : List (Frame N)), journal[segment]? = some frames →
    maxSegmentLen < (segmentBytes frames).length → frames.length ≤ 1

theorem Rotated.newSegment {maxSegmentLen : ℕ} (h : Rotated maxSegmentLen journal) {active : ℕ}
    (hactive : active + 1 = journal.length) {frames : List (Frame N)}
    (hframes : journal[active]? = some frames) (hfilled : frames ≠ []) :
    Rotated maxSegmentLen journal.newSegment := by
  have hold {segment : ℕ} (hlt : segment < journal.length) :
      journal.newSegment[segment]? = journal[segment]? := List.getElem?_append_left hlt
  constructor
  · intro segment frames' hlt hframes'
    rw [Journal.length_newSegment] at hlt
    rw [hold (by omega)] at hframes'
    by_cases hlast : segment = active
    · rw [hlast, hframes, Option.some.injEq] at hframes'
      rwa [← hframes']
    · exact h.filled segment frames' (by omega) hframes'
  · intro segment frames' hframes' hlong
    by_cases hlt : segment < journal.length
    · exact h.limited segment frames' (by rwa [hold hlt] at hframes') hlong
    · have hmem := List.mem_of_getElem? hframes'
      have hlt' := (List.getElem?_eq_some_iff.mp hframes').1
      rw [Journal.length_newSegment] at hlt'
      obtain rfl : segment = journal.length := by omega
      rw [Journal.newSegment, List.getElem?_concat_length, Option.some.injEq] at hframes'
      rw [← hframes']
      exact Nat.zero_le 1

theorem Rotated.write {maxSegmentLen : ℕ} (h : Rotated maxSegmentLen journal) {active : ℕ}
    (hactive : active + 1 = journal.length) {frames : List (Frame N)}
    (hframes : journal[active]? = some frames) {frame : Frame N}
    (hroom : frames = [] ∨ (segmentBytes frames).length + frame.bytes.length ≤ maxSegmentLen) :
    Rotated maxSegmentLen (journal.write frame) := by
  have hne : journal ≠ [] := List.length_pos_iff.mp (by omega)
  have hlength := Journal.length_write hne frame
  constructor
  · intro segment frames' hlt hframes'
    rw [hlength] at hlt
    rw [Journal.getElem?_write_of_lt frame hlt] at hframes'
    exact h.filled segment frames' hlt hframes'
  · intro segment frames' hframes' hlong
    have hlt := (List.getElem?_eq_some_iff.mp hframes').1
    by_cases hlast : segment = active
    · rw [hlast, Journal.getElem?_write_last frame hactive hframes, Option.some.injEq] at hframes'
      subst hframes'
      rcases hroom with rfl | hroom
      · exact le_rfl
      · rw [length_segmentBytes] at hlong hroom
        simp only [framesBytes_append, framesBytes_cons, framesBytes_nil, List.append_nil,
          List.length_append] at hlong
        omega
    · rw [Journal.getElem?_write_of_lt frame (by omega)] at hframes'
      exact h.limited segment frames' hframes' hlong

/-- The frame of a record stands behind the entries before it. -/
theorem AtEnd.entries_write {maxSegmentLen : ℕ} (h : AtEnd maxSegmentLen s journal fs)
    (frame : Frame N) : (journal.write frame).entries =
      journal.entries ++ [⟨⟨s.writer.activeSegment, s.writer.segmentLen⟩, frame⟩] := by
  have hactive := h.active
  have hframes := List.getElem?_eq_getElem (show s.writer.activeSegment < journal.length by omega)
  rw [Journal.entries_write frame hactive hframes, h.segmentLen _ hframes, length_segmentBytes]

/-- Without rotation there is room for the frame, or the active segment has no frames. -/
theorem AtEnd.room {maxSegmentLen : ℕ} (h : AtEnd maxSegmentLen s journal fs) {len : ℕ}
    (hstays : s.writer.shouldRotate len = false) {frames : List (Frame N)}
    (hframes : journal[s.writer.activeSegment]? = some frames) :
    frames = [] ∨ (segmentBytes frames).length + len ≤ maxSegmentLen := by
  have hlen := h.segmentLen frames hframes
  rw [SegmentWriter.shouldRotate, h.maxSegmentLen] at hstays
  split at hstays
  · next hempty =>
    left
    rw [hlen, length_segmentBytes] at hempty
    cases frames with
    | nil => rfl
    | cons frame rest =>
      have hpos := length_bytes_pos frame
      rw [framesBytes_cons, List.length_append] at hempty
      omega
  · split at hstays
    · nomatch hstays
    · right
      rw [← hlen]
      exact Nat.not_lt.mp (of_decide_eq_false hstays)

/-- Before a rotation the active segment has frames. -/
theorem AtEnd.filled {maxSegmentLen : ℕ} (h : AtEnd maxSegmentLen s journal fs) {len : ℕ}
    (hrotates : s.writer.shouldRotate len = true) {frames : List (Frame N)}
    (hframes : journal[s.writer.activeSegment]? = some frames) : frames ≠ [] := by
  rintro rfl
  rw [SegmentWriter.shouldRotate, h.segmentLen _ hframes, if_pos (by simp [length_segmentBytes])]
    at hrotates
  nomatch hrotates

/-- What an append that succeeds does. -/
theorem AtEnd.appendRecord {maxSegmentLen : ℕ} (h : AtEnd maxSegmentLen s journal fs)
    (hrotated : Rotated maxSegmentLen journal) {nodeId : NodeId} {record : Record N}
    {position : RecordPosition}
    (hrun : directory.run ((SegmentWriter.append nodeId record).run s) fs =
      ((.ok position, s'), fs')) :
    ∃ journal' frame, frame.nodeRecord = (nodeId, record) ∧ AtEnd maxSegmentLen s' journal' fs' ∧
      Rotated maxSegmentLen journal' ∧
        journal'.entries = journal.entries ++ [⟨position, frame⟩] := by
  have hactive := h.active
  have hframes := List.getElem?_eq_getElem (show s.writer.activeSegment < journal.length by omega)
  cases hencode : encodeRecordFrame nodeId record with
  | error error =>
    have hfails : directory.run ((SegmentWriter.append nodeId record).run s) fs =
        ((.error error, s), fs) := by
      refine Machine.run_bindMethod_error ?_
      rw [hencode]
      rfl
    rw [hfails] at hrun
    cases hrun
  | ok bytes =>
    obtain ⟨frame, rfl, rfl, rfl⟩ := encodeRecordFrame_eq_ok_iff.mp hencode
    have hrest : directory.run ((SegmentWriter.append frame.nodeId frame.record).run s) fs =
        directory.run ((do
          onlyIf (s.writer.shouldRotate frame.bytes.length) SegmentWriter.rotate
          SegmentWriter.writeFrame frame.bytes : WriterM RecordPosition).run s) fs := by
      have hencoded : directory.run ((liftM (encodeRecordFrame frame.nodeId frame.record) :
          WriterM (List UInt8)).run s) fs = ((.ok frame.bytes, s), fs) := by
        rw [hencode]
        rfl
      exact Machine.run_bindMethod_ok hencoded
    rw [hrest] at hrun
    cases hrotate : s.writer.shouldRotate frame.bytes.length with
    | false =>
      rw [hrotate] at hrun
      obtain ⟨hend, rfl⟩ := h.writeFrame frame hrun
      exact ⟨_, frame, rfl, hend, hrotated.write hactive hframes (h.room hrotate hframes),
        h.entries_write frame⟩
    | true =>
      rw [hrotate, onlyIf, if_pos rfl] at hrun
      rcases hturn : directory.run (SegmentWriter.rotate.run s) fs with ⟨⟨result, s₁⟩, fs₁⟩
      cases result with
      | error error =>
        rw [Machine.run_bindMethod_error hturn] at hrun
        cases hrun
      | ok value =>
        rw [Machine.run_bindMethod_ok hturn] at hrun
        have hend₁ := h.rotate hturn
        have hrotated₁ := hrotated.newSegment hactive hframes (h.filled hrotate hframes)
        have hempty : journal.newSegment[s₁.writer.activeSegment]? = some [] := by
          have hactive₁ := hend₁.active
          rw [Journal.length_newSegment] at hactive₁
          rw [show s₁.writer.activeSegment = journal.length by omega, Journal.newSegment,
            List.getElem?_concat_length]
        obtain ⟨hend, rfl⟩ := hend₁.writeFrame frame hrun
        refine ⟨_, frame, rfl, hend, hrotated₁.write hend₁.active hempty (.inl rfl), ?_⟩
        rw [hend₁.entries_write frame, Journal.entries_newSegment]

/-! ### Runs of appends and reopens -/

/-- The runs of appends that succeed and clean reopens, with the positions that were returned. -/
inductive Appends (N : Noraft) (maxSegmentLen : ℕ) :
    List (RecordPosition × NodeId × Record N) → StorageEngine → Fs → Prop
  | start {engine : StorageEngine} {fs : Fs}
      (hopen : directory.run (StorageEngine.withMaxSegmentLen N maxSegmentLen).run .empty =
        (.ok engine, fs)) : Appends N maxSegmentLen [] engine fs
  | append {placed : List (RecordPosition × NodeId × Record N)} {engine engine' : StorageEngine}
      {fs fs' : Fs} {nodeId : NodeId} {record : Record N} {position : RecordPosition}
      (h : Appends N maxSegmentLen placed engine fs)
      (happend : directory.run
        ((StorageEngine.onWriter (SegmentWriter.append nodeId record)).run engine) fs =
          ((.ok position, engine'), fs')) :
      Appends N maxSegmentLen (placed ++ [(position, nodeId, record)]) engine' fs'
  | reopen {placed : List (RecordPosition × NodeId × Record N)} {engine engine' : StorageEngine}
      {fs fs' : Fs} (h : Appends N maxSegmentLen placed engine fs)
      (hopen : directory.run (StorageEngine.withMaxSegmentLen N maxSegmentLen).run fs =
        (.ok engine', fs')) : Appends N maxSegmentLen placed engine' fs'

/-- The frame of a record starts at a position of its segment. -/
def StartsAt (fs : Fs) (position : RecordPosition) (nodeRecord : NodeId × Record N) : Prop :=
  ∃ file frame, fs.segments[position.segment]? = some file ∧
    encodeRecordFrame nodeRecord.1 nodeRecord.2 = .ok frame ∧
    frame <+: file.bytes.drop position.offset ∧ fs.HasRecord position nodeRecord

/-- The positions that the writer has returned, and the segments that it has written. -/
structure WellPlaced (maxSegmentLen : ℕ) (placed : List (RecordPosition × NodeId × Record N))
    (writer : SegmentWriter) (fs : Fs) : Prop where
  segmentLen : ∃ file, fs.segments[writer.activeSegment]? = some file ∧
    writer.segmentLen = file.bytes.length
  starts : ∀ position nodeRecord, (position, nodeRecord) ∈ placed → StartsAt fs position nodeRecord
  increasing : (placed.map Prod.fst).Pairwise (· < ·)
  consecutive : ∀ segment, segment ∈ fs.segments ↔ segment ≤ writer.activeSegment
  inactive : ∀ (segment : ℕ) (file : SegmentFile), fs.segments[segment]? = some file →
    segment ≠ writer.activeSegment →
      ∃ frames : List (Frame N), frames ≠ [] ∧ file.bytes = segmentBytes frames
  long : ∀ (segment : ℕ) (file : SegmentFile), fs.segments[segment]? = some file →
    maxSegmentLen < file.bytes.length → (segmentRecords N file.bytes).length ≤ 1

theorem maxSegmentLen_ne_zero {maxSegmentLen : ℕ} {engine : StorageEngine}
    (h : directory.run (StorageEngine.withMaxSegmentLen N maxSegmentLen).run fs =
      (.ok engine, fs')) :
    maxSegmentLen ≠ 0 := by
  rintro rfl
  nomatch h

theorem run_open_empty (N : Noraft) {maxSegmentLen : ℕ} (hmax : maxSegmentLen ≠ 0) :
    directory.run (StorageEngine.withMaxSegmentLen N maxSegmentLen).run .empty =
      (.ok ⟨.default, .default, .default, ⟨0, segmentFileHeaderLen, maxSegmentLen⟩⟩,
        ((Fs.empty.create 0).append 0 segmentFormatMagic).syncDir) := by
  have hpasses : directory.run (failIf (maxSegmentLen = 0)
      (invalidInput "max segment length must be non-zero") : IoM Unit).run .empty =
        (.ok (), .empty) := by
    rw [failIf, if_neg hmax]
    rfl
  exact Machine.run_bindExcept_ok hpasses

/-- A clean reopen leaves the directory as it is, with the writer at its end. -/
theorem AtEnd.reopen {maxSegmentLen : ℕ} (h : AtEnd maxSegmentLen s journal fs)
    {engine : StorageEngine} (hopen : directory.run
      (StorageEngine.withMaxSegmentLen N maxSegmentLen).run fs = (.ok engine, fs')) :
    AtEnd maxSegmentLen ⟨engine.writer, engine.metrics⟩ journal fs' := by
  have hactive := h.active
  have hlast : IsActive fs s.writer.activeSegment := by
    refine ⟨fun segment hsegment ↦ ?_, (h.files.mem_iff _).mpr (by omega),
      fun segment hsegment ↦ ?_⟩
    · have hlt := (h.files.mem_iff segment).mp hsegment
      have hnames := h.names
      omega
    · have hlt := (h.files.mem_iff segment).mp hsegment
      omega
  have hframes := List.getElem?_eq_getElem (show s.writer.activeSegment < journal.length by omega)
  obtain ⟨file, hfile, hbytes⟩ := h.files.exists_file hframes
  have hscan := run_scanSegment_torn hfile torn_nil (hbytes.trans (List.append_nil _).symm) true
  rcases @run_withMaxSegmentLen N fs _ hlast maxSegmentLen (maxSegmentLen_ne_zero hopen) with
    ⟨-, error, -, hall⟩ | ⟨-, hall⟩
  · rw [hall fs (.refl _ fs)] at hopen
    nomatch hopen
  · rw [hall fs (.refl _ fs), Machine.run_bindExcept_ok hscan] at hopen
    have hne : file.bytes ≠ [] := by
      rw [hbytes]
      exact nofun
    obtain ⟨hsame, -, hwriter⟩ := @run_openRecovered N fs _ file hfile hne maxSegmentLen
    rw [hopen] at hsame hwriter
    obtain rfl : fs' = fs := hsame
    have hengine := hwriter engine rfl
    refine ⟨h.files, ?_, fun frames hframes' ↦ ?_, ?_, h.names⟩
    · rw [hengine]
      exact hactive
    · rw [hengine] at hframes' ⊢
      rw [hframes, Option.some.injEq] at hframes'
      rw [← hframes', ← hbytes]
    · rw [hengine]

theorem run_onWriter {α : Type} {action : WriterM α} {engine engine' : StorageEngine}
    {result : Except IoError α}
    (h : directory.run ((StorageEngine.onWriter action).run engine) fs = ((result, engine'), fs')) :
    directory.run (action.run ⟨engine.writer, engine.metrics⟩) fs =
      ((result, ⟨engine'.writer, engine'.metrics⟩), fs') := by
  have hrun : directory.run ((StorageEngine.onWriter action).run engine) fs = _ :=
    Machine.run_bind directory (action.run ⟨engine.writer, engine.metrics⟩) _ fs
  rw [hrun] at h
  obtain ⟨hout, hfs⟩ := Prod.mk.inj h
  obtain ⟨hresult, hengine⟩ := Prod.mk.inj hout
  rw [← hresult, ← hengine, ← hfs]

/-- The writer of an engine is at the end of a journal with the records that were appended. -/
theorem Appends.atEnd {maxSegmentLen : ℕ} {placed : List (RecordPosition × NodeId × Record N)}
    {engine : StorageEngine} (h : Appends N maxSegmentLen placed engine fs) :
    ∃ journal : Journal N, AtEnd maxSegmentLen ⟨engine.writer, engine.metrics⟩ journal fs ∧
      Rotated maxSegmentLen journal ∧
      journal.entries.map (fun entry ↦ (entry.position, entry.frame.nodeRecord)) = placed := by
  induction h with
  | start hopen =>
    rw [run_open_empty N (maxSegmentLen_ne_zero hopen)] at hopen
    obtain ⟨hengine, rfl⟩ := Prod.mk.inj hopen
    obtain rfl := Except.ok.inj hengine
    have hempty : Written ([] : Journal N) .empty := fun segment ↦ by simp [Fs.empty]
    refine ⟨Journal.newSegment [], ⟨hempty.newSegment.syncDir, rfl, ?_, rfl, ?_⟩, ⟨?_, ?_⟩, ?_⟩
    · rintro frames hframes
      obtain rfl : [] = frames := Option.some.inj hframes
      rfl
    · rw [Journal.length_newSegment]
      exact Nat.one_le_two_pow
    · intro segment frames hlt
      rw [Journal.length_newSegment] at hlt
      exact absurd hlt (by simp)
    · intro segment frames hframes
      have hmem := List.mem_of_getElem? hframes
      simp only [Journal.newSegment, List.nil_append, List.mem_singleton] at hmem
      simp [hmem]
    · rw [Journal.entries_newSegment]
      rfl
  | append h happend ih =>
    obtain ⟨journal, hend, hrotated, hplaced⟩ := ih
    obtain ⟨journal', frame, hframe, hend', hrotated', hentries⟩ :=
      hend.appendRecord hrotated (run_onWriter happend)
    exact ⟨journal', hend', hrotated', by simp [hentries, hplaced, hframe]⟩
  | reopen h hopen ih =>
    obtain ⟨journal, hend, hrotated, hplaced⟩ := ih
    exact ⟨journal, hend.reopen hopen, hrotated, hplaced⟩

/-- An entry of the journal starts at its position. -/
theorem Written.startsAt (h : Written journal fs) {entry : Entry N}
    (hentry : entry ∈ journal.entries) : StartsAt fs entry.position entry.frame.nodeRecord := by
  have hsegment := Journal.mem_entries.mp hentry
  have hlt := Journal.segment_lt_of_mem hentry
  have hframes := List.getElem?_eq_getElem hlt
  obtain ⟨file, hfile, hbytes⟩ := h.exists_file hframes
  rw [Journal.inSegment, hframes, Option.getD_some] at hsegment
  obtain ⟨before, after, hsplit, hposition⟩ := exists_of_mem_placedFrom hsegment
  have hoffset := congrArg RecordPosition.offset hposition
  refine ⟨file, entry.frame.bytes, hfile,
    encodeRecordFrame_eq_ok_iff.mpr ⟨entry.frame, rfl, rfl, rfl⟩, ⟨framesBytes after, ?_⟩,
      file, hfile,
    ?_⟩
  · have hdrop : file.bytes =
        (segmentBytes before) ++ (entry.frame.bytes ++ framesBytes after) := by
      rw [hbytes, hsplit]
      simp [segmentBytes]
    rw [hoffset, hdrop]
    exact (List.drop_left' (length_segmentBytes before)).symm
  · rw [segmentRecords_eq entry.position.segment (hbytes ▸ contents_segmentBytes _), List.mem_map]
    exact ⟨entry, hsegment, rfl⟩

/-- Over every run of appends and clean reopens, positions and segments are as they should be. -/
theorem wellPlaced_of_appends {maxSegmentLen : ℕ}
    {placed : List (RecordPosition × NodeId × Record N)} {engine : StorageEngine}
    (h : Appends N maxSegmentLen placed engine fs) :
    WellPlaced maxSegmentLen placed engine.writer fs := by
  obtain ⟨journal, hend, hrotated, rfl⟩ := h.atEnd
  have hactive : engine.writer.activeSegment + 1 = journal.length := hend.active
  have hframes := List.getElem?_eq_getElem
    (show engine.writer.activeSegment < journal.length by omega)
  obtain ⟨active, hfile, hbytes⟩ := hend.files.exists_file hframes
  refine ⟨⟨active, hfile, hbytes ▸ hend.segmentLen _ hframes⟩, fun position nodeRecord hmem ↦ ?_,
    ?_, fun segment ↦ ?_, fun segment file hfile' hother ↦ ?_, fun segment file hfile' hlong ↦ ?_⟩
  · obtain ⟨entry, hentry, heq⟩ := List.mem_map.mp hmem
    obtain ⟨rfl, rfl⟩ := Prod.mk.inj heq
    exact hend.files.startsAt hentry
  · rw [List.map_map, List.pairwise_map]
    exact journal.pairwise_entries
  · rw [hend.files.mem_iff]
    omega
  · obtain ⟨frames, hframes', hbytes'⟩ := hend.files.file hfile'
    have hlt := (List.getElem?_eq_some_iff.mp hframes').1
    exact ⟨frames, hrotated.filled segment frames (by omega) hframes', hbytes'⟩
  · obtain ⟨frames, hframes', hbytes'⟩ := hend.files.file hfile'
    rw [length_segmentRecords (hbytes' ▸ contents_segmentBytes frames)]
    exact hrotated.limited segment frames hframes' (hbytes' ▸ hlong)

/-- Two records that do not fit into one segment, with a reopen between them. -/
theorem wellPlaced_of_appends_reopened :
    ∃ (placed : List (RecordPosition × NodeId × Record Noraft.ofLists)) (engine : StorageEngine)
      (fs : Fs), placed.map Prod.fst = [⟨0, segmentFileHeaderLen⟩, ⟨1, segmentFileHeaderLen⟩] ∧
        WellPlaced 1 placed engine.writer fs := by
  let append (state : StorageEngine × Fs) := directory.run ((StorageEngine.onWriter
    (@SegmentWriter.append Noraft.ofLists 1 (.currentTerm 2))).run state.1) state.2
  let opened (fs : Fs) := directory.run (StorageEngine.withMaxSegmentLen Noraft.ofLists 1).run fs
  have hruns : (opened .empty).1.toOption.any (fun engine ↦
      let first := append (engine, (opened .empty).2)
      first.1.1.toOption.any fun position ↦ decide (position = ⟨0, segmentFileHeaderLen⟩) &&
        (opened first.2).1.toOption.any fun engine ↦
          (append (engine, (opened first.2).2)).1.1.toOption.any fun position ↦
            decide (position = ⟨1, segmentFileHeaderLen⟩)) = true := by
    decide +kernel
  simp only [Option.any_eq_true, toOption_eq_some_iff, Bool.and_eq_true, decide_eq_true_eq] at hruns
  obtain ⟨engine, hopen, position, hfirst, rfl, engine', hreopen, position', hsecond, rfl⟩ := hruns
  have hpair {α β : Type} {pair : α × β} {first : α} (h : pair.1 = first) :
      pair = (first, pair.2) := by
    rw [← h]
  have hrun := (((Appends.start (hpair hopen)).append (hpair (hpair hfirst))).reopen
    (hpair hreopen)).append (hpair (hpair hsecond))
  exact ⟨_, _, _, rfl, wellPlaced_of_appends hrun⟩

end Sukari
