import Sukari.RoundTrip

/-!
# Recovery of a torn segment

A segment file that was cut anywhere is recovered to exactly the records that lie wholly before the
cut (`scanSegment_cut`): they are kept at their offsets, and a replay applies them in order. A
segment that is not the active one is never changed; it is accepted only if the cut is at the end of
a frame.
-/

set_option autoImplicit false
set_option relaxedAutoImplicit false

namespace Sukari

open Effects

variable {N : Noraft} {fs : Fs} {segment : ℕ} {file : SegmentFile}

/-! ### Recovery as a function of the bytes -/

theorem run_io (op : FsOp) (fs : Fs) :
    directory.run (io op).run fs = (.ok (Fs.reply op fs), Fs.after op fs) := rfl

theorem run_openSegment (hfile : fs.segments[segment]? = some file) :
    directory.run (openSegment segment).run fs = (.ok file.bytes, fs) := by
  have hreply : Fs.reply (.read segment) fs = some file.bytes := by
    change fs.segments[segment]?.map SegmentFile.bytes = _
    rw [hfile, Option.map_some]
  refine (Machine.run_bindExcept_ok (run_io (.read segment) fs)).trans ?_
  rw [hreply]
  rfl

/-- What recovery does to a segment file with a whole header. -/
theorem run_scanSegment_records (hfile : fs.segments[segment]? = some file) {rest : List UInt8}
    (hbytes : file.bytes = segmentFormatMagic ++ rest) (allowPartial : Bool) :
    directory.run (scanSegment segment allowPartial).run fs =
      match recordLoop scanRecordFrame (fun _ _ _ ↦ pure ()) allowPartial file.bytes.length
        (file.bytes.length + 1) ⟨segmentFileHeaderLen, rest⟩ () with
      | .ok (_, none) => (.ok (), fs)
      | .ok (_, some recordStart) => (.ok (), fs.setLen segment recordStart)
      | .error error => (.error error, fs) := by
  have hseek : Stream.seek file.bytes segmentFileHeaderLen = ⟨segmentFileHeaderLen, rest⟩ := by
    rw [Stream.seek, hbytes]
    rfl
  rw [scanSegment, passSegment, Machine.run_bindExcept_ok (run_openSegment hfile)]
  have hheader : (readSegmentHeader segment file.bytes allowPartial true).run =
      .done (.ok true) := by
    rw [hbytes]
    exact readSegmentHeader_whole segment rest allowPartial true
  have hrun : directory.run (readSegmentHeader segment file.bytes allowPartial true).run fs =
      (.ok true, fs) := by
    rw [hheader]
    rfl
  rw [Machine.run_bindExcept_ok hrun]
  simp only [if_true, fromHeader]
  have hstart :
      directory.run (liftM (pure segmentFileHeaderLen : Except IoError ℕ) : IoM ℕ).run fs =
      (.ok segmentFileHeaderLen, fs) := rfl
  rw [Machine.run_bindExcept_ok hstart, hseek]
  cases hloop : recordLoop scanRecordFrame (fun _ _ _ ↦ pure ()) allowPartial file.bytes.length
      (file.bytes.length + 1) ⟨segmentFileHeaderLen, rest⟩ () with
  | error error => rfl
  | ok out =>
    obtain ⟨⟨⟩, _ | recordStart⟩ := out
    · rfl
    · rfl

/-- What recovery does to a segment file that ends before its header does. -/
theorem run_scanSegment_short (hfile : fs.segments[segment]? = some file)
    (hshort : file.bytes.length < segmentFileHeaderLen) :
    directory.run (scanSegment segment true).run fs =
        (.ok (), if file.bytes.length = 0 then fs else fs.setLen segment 0) ∧
      ∃ error, error.kind = .invalidData ∧
        directory.run (scanSegment segment false).run fs = (.error error, fs) := by
  have hscan (allowPartial : Bool) : directory.run (scanSegment segment allowPartial).run fs = _ :=
    Machine.run_bindExcept_ok (run_openSegment hfile)
  rw [hscan, hscan]
  by_cases hlength : file.bytes.length = 0
  · simp only [readSegmentHeader, if_pos hlength, if_true]
    exact ⟨rfl, _, rfl, rfl⟩
  · simp only [readSegmentHeader, if_neg hlength, if_pos hshort]
    exact ⟨rfl, _, rfl, rfl⟩

/-- Recovery runs over whole frames, whatever comes after them. -/
theorem recordLoop_skip (frames : List (Frame N)) (tail : List UInt8) (allowPartial : Bool)
    (fileLen rounds position : ℕ) :
    recordLoop scanRecordFrame (fun _ _ _ ↦ pure ()) allowPartial fileLen (frames.length + rounds)
        ⟨position, framesBytes frames ++ tail⟩ () =
      recordLoop scanRecordFrame (fun _ _ _ ↦ pure ()) allowPartial fileLen rounds
        ⟨position + (framesBytes frames).length, tail⟩ () := by
  induction frames generalizing position with
  | nil => simp
  | cons frame rest ih =>
    have hread := (readsFrames_scanRecordFrame (N := N)).frame frame position
      (framesBytes rest ++ tail)
    have hrounds : (frame :: rest).length + rounds = rest.length + rounds + 1 := by
      simp only [List.length_cons]
      omega
    rw [hrounds, framesBytes_cons, List.append_assoc, recordLoop, hread]
    refine (ih (position + frame.bytes.length)).trans ?_
    rw [List.length_append, Nat.add_assoc]

/-- Recovery of a segment file that ends with a part of a frame. -/
theorem run_scanSegment_torn (hfile : fs.segments[segment]? = some file) {frames : List (Frame N)}
    {tail : List UInt8} (htail : Torn N tail) (hbytes : file.bytes = segmentBytes frames ++ tail)
    (allowPartial : Bool) : directory.run (scanSegment segment allowPartial).run fs =
      if tail = [] then (.ok (), fs)
      else if allowPartial then (.ok (), fs.setLen segment (segmentBytes frames).length)
      else (.error (invalidData "partial record in inactive segment"), fs) := by
  have hlength : file.bytes.length =
      segmentFileHeaderLen + (framesBytes frames).length + tail.length := by
    rw [hbytes, List.length_append, length_segmentBytes]
  have hrounds : frames.length < file.bytes.length + 1 := by
    have := length_le_length_framesBytes frames
    omega
  have hvisit (entries : List (Entry N)) : entries.foldlM
      (fun _ _ ↦ (pure () : Except IoError Unit)) () = .ok () := by
    induction entries with
    | nil => rfl
    | cons entry rest ih => exact ih
  rw [segmentBytes, List.append_assoc] at hbytes
  rw [run_scanSegment_records hfile hbytes,
    recordLoop_frames readsFrames_scanRecordFrame segment htail allowPartial hrounds hlength,
      hvisit,
    length_segmentBytes]
  by_cases hcut : tail = []
  · simp only [hcut, if_true]
    rfl
  · cases allowPartial <;> simp only [hcut, if_false] <;> rfl

/-! ### Cut segments -/

/-- The end of the first `count` frames of a segment. -/
def frameEnd (encoded : List (List UInt8)) (count : ℕ) : ℕ :=
  segmentFileHeaderLen + (encoded.take count).flatten.length

/-- The frames that lie wholly within the first `cut` bytes of a segment are the first `count`. -/
structure LastWhole (encoded : List (List UInt8)) (cut count : ℕ) : Prop where
  le : count ≤ encoded.length
  fits : count = 0 ∨ frameEnd encoded count ≤ cut
  last : ∀ n ≤ encoded.length, frameEnd encoded n ≤ cut → n ≤ count

theorem frameEnd_map_bytes (frames : List (Frame N)) (count : ℕ) :
    frameEnd (frames.map Frame.bytes) count =
      segmentFileHeaderLen + (framesBytes (frames.take count)).length := by
  rw [frameEnd, ← List.map_take]
  rfl

theorem frameEnd_mono (encoded : List (List UInt8)) : Monotone (frameEnd encoded) := by
  intro first second hle
  refine Nat.add_le_add_left ?_ _
  rw [← List.take_append_drop first (encoded.take second), List.take_take, Nat.min_eq_left hle,
    List.flatten_append, List.length_append]
  exact Nat.le_add_right _ _

/-- The offsets of frames are the ends of the frames before them. -/
theorem map_offset_placedFrom (segment offset : ℕ) (frames : List (Frame N)) :
    (placedFrom segment offset frames).map (fun entry ↦ entry.position.offset) =
      (List.range frames.length).map fun n ↦ offset + (framesBytes (frames.take n)).length := by
  induction frames generalizing offset with
  | nil => rfl
  | cons frame rest ih =>
    rw [placedFrom, List.map_cons, ih, List.length_cons, List.range_succ_eq_map, List.map_cons,
      List.map_map]
    simp [Function.comp_def, Nat.add_assoc]

/-- The records of a segment that was built from the first frames of a list. -/
theorem segmentRecords_take (frames : List (Frame N)) {count : ℕ} (hcount : count ≤ frames.length) :
    segmentRecords N (segmentBytes (frames.take count)) =
      ((List.range count).map (frameEnd (frames.map Frame.bytes))).zip
        ((frames.map Frame.nodeRecord).take count) := by
  have hoffsets : (placedFrom 0 segmentFileHeaderLen (frames.take count)).map
      (fun entry ↦ entry.position.offset) =
        (List.range count).map (frameEnd (frames.map Frame.bytes)) := by
    rw [map_offset_placedFrom, List.length_take, Nat.min_eq_left hcount]
    refine List.map_congr_left fun n hn ↦ ?_
    rw [frameEnd_map_bytes, List.take_take, Nat.min_eq_left (List.mem_range.mp hn).le]
  have hrecords : (placedFrom 0 segmentFileHeaderLen (frames.take count)).map
      (fun entry ↦ entry.frame.nodeRecord) = (frames.map Frame.nodeRecord).take count := by
    rw [← List.map_take, ← map_frame_placedFrom 0 segmentFileHeaderLen (frames.take count),
      List.map_map, map_frame_placedFrom]
    rfl
  rw [segmentRecords_eq 0 (contents_segmentBytes _), ← hoffsets, ← hrecords, List.zip_map']

/-- A cut behind the header leaves whole frames and a part of one more. -/
theorem exists_take_segmentBytes (frames : List (Frame N)) {cut : ℕ}
    (hheader : segmentFileHeaderLen ≤ cut) : ∃ count tail,
      LastWhole (frames.map Frame.bytes) cut count ∧ Torn N tail ∧
        (segmentBytes frames).take cut = segmentBytes (frames.take count) ++ tail := by
  obtain ⟨count, tail, hcount, htail, htake, hlast⟩ :=
    exists_take_framesBytes frames torn_nil (cut - segmentFileHeaderLen)
  have hmagic : segmentFormatMagic.length = segmentFileHeaderLen := rfl
  refine ⟨count, tail, ⟨by simpa using hcount, .inr ?_, fun n hn hend ↦ ?_⟩, htail, ?_⟩
  · have hlength := congrArg List.length htake
    simp only [List.length_take, List.length_append] at hlength
    rw [frameEnd_map_bytes]
    omega
  · rw [frameEnd_map_bytes] at hend
    exact hlast n (by simpa using hn) (by omega)
  · rw [List.append_nil] at htake
    rw [segmentBytes, List.take_append, hmagic, List.take_of_length_le (hmagic ▸ hheader), htake,
      segmentBytes, List.append_assoc]

/-- The part of a frame behind the whole ones is empty if the cut is at the end of a frame. -/
theorem tail_eq_nil_iff {frames : List (Frame N)} {cut count : ℕ} {tail : List UInt8}
    (hheader : segmentFileHeaderLen ≤ cut) (hcut : cut ≤ (segmentBytes frames).length)
    (hcount : LastWhole (frames.map Frame.bytes) cut count)
    (htake : (segmentBytes frames).take cut = segmentBytes (frames.take count) ++ tail) :
    tail = [] ↔ ∃ n ≤ (frames.map Frame.bytes).length, cut =
      frameEnd (frames.map Frame.bytes) n := by
  have hlength : cut = frameEnd (frames.map Frame.bytes) count + tail.length := by
    have := congrArg List.length htake
    rw [List.length_take, Nat.min_eq_left hcut, List.length_append, length_segmentBytes] at this
    rwa [frameEnd_map_bytes]
  rw [← List.length_eq_zero_iff]
  constructor
  · intro hnil
    exact ⟨count, hcount.le, by omega⟩
  · rintro ⟨n, hn, rfl⟩
    have hmono := frameEnd_mono (frames.map Frame.bytes) (hcount.last n hn le_rfl)
    omega

/-- The visitor of a replay of all nodes applies the records. -/
theorem foldlM_replayRecord (segment : ℕ) (entries : List (Entry N)) (replay : ReplayState N) :
    entries.foldlM (fun replay entry ↦ replayRecord segment none ∅ replay entry.position.offset
      entry.frame.body) replay = (entries.map fun entry ↦ entry.frame.nodeRecord).foldlM
        (fun replay (nodeId, record) ↦ replay.apply nodeId record) replay := by
  rw [List.foldlM_map]
  congr 1
  funext replay entry
  simp only [replayRecord, entry.frame.decodeRecordNodeId_body, entry.frame.decodeNodeRecord_body,
    Std.ExtTreeMap.getElem?_empty]
  rfl

theorem run_replaySegment_empty (hfile : fs.segments[segment]? = some file)
    (hempty : file.bytes = []) (recoverPartial : Bool) (replay : ReplayState N) :
    (directory.run (replaySegment segment true none ∅ recoverPartial replay).run fs).1 =
      .ok replay := by
  rw [replaySegment, passSegment, Machine.run_bindExcept_ok (run_openSegment hfile), hempty]
  rfl

/-- A replay of all nodes applies the records of a segment. -/
theorem run_replaySegment (hfile : fs.segments[segment]? = some file) {frames : List (Frame N)}
    (hbytes : file.bytes = segmentBytes frames) (recoverPartial : Bool) (replay : ReplayState N) :
    (directory.run (replaySegment segment true none ∅ recoverPartial replay).run fs).1 =
      (frames.map Frame.nodeRecord).foldlM
        (fun replay (nodeId, record) ↦ replay.apply nodeId record) replay := by
  have hcontents : Contents ([] ++ frames) file.bytes := hbytes ▸ contents_segmentBytes frames
  have hsees : directory.Sees (fun _ ↦ fs) _
      (replaySegment segment true none ∅ recoverPartial replay).run 0 :=
    passSegment_sees readsFrames_readRecordBody hfile hcontents (fun _ ↦ hbytes) fun _ ↦ rfl
  obtain ⟨-, -, -, hresult⟩ := hsees.run
  rw [hresult, foldlM_replayRecord]
  congr 1
  rw [← map_frame_placedFrom segment
    (segmentFileHeaderLen + (framesBytes ([] : List (Frame N))).length)
    frames, List.map_map, map_frame_placedFrom]
  rfl

/-- What recovery of a segment that was cut leaves in the file. -/
structure Recovered (records : List (NodeId × Record N)) (encoded : List (List UInt8)) (cut : ℕ)
    (segment : ℕ) (file : SegmentFile) (fs' : Fs) : Prop where
  file : ∃ count file', LastWhole encoded cut count ∧ fs'.segments[segment]? = some file' ∧
    file'.bytes <+: file.bytes ∧
    file'.bytes.length = (if cut < segmentFileHeaderLen then 0 else frameEnd encoded count) ∧
    segmentRecords N file'.bytes =
      ((List.range count).map (frameEnd encoded)).zip (records.take count) ∧
    ∀ recoverPartial replay,
      (directory.run (replaySegment segment true none ∅ recoverPartial replay).run fs').1 =
        (records.take count).foldlM
          (fun replay (nodeId, record) ↦ replay.apply nodeId record) replay

theorem getElem?_setLen (hfile : fs.segments[segment]? = some file) (len : ℕ) :
    (fs.setLen segment len).segments[segment]? =
      some { file with bytes := file.bytes.take len, synced := min file.synced len } := by
  rw [Fs.setLen, Fs.getElem?_modifySegment, if_pos rfl, hfile, Option.map_some]

theorem recovered_empty {records : List (NodeId × Record N)} {encoded : List (List UInt8)} {cut : ℕ}
    (hshort : cut < segmentFileHeaderLen) {file' : SegmentFile}
    (hfile' : fs.segments[segment]? = some file') (hempty : file'.bytes = []) :
    Recovered records encoded cut segment file fs := by
  refine ⟨0, file', ⟨Nat.zero_le _, .inl rfl, fun n _ hend ↦ ?_⟩, hfile', ?_, ?_, ?_, ?_⟩
  · rw [frameEnd] at hend
    omega
  · exact hempty ▸ List.nil_prefix
  · rw [hempty, if_pos hshort]
    rfl
  · rw [hempty]
    rfl
  · exact fun recoverPartial replay ↦ run_replaySegment_empty hfile' hempty recoverPartial replay

theorem recovered_frames {frames : List (Frame N)} {cut count : ℕ}
    (hheader : segmentFileHeaderLen ≤ cut) (hcount : LastWhole (frames.map Frame.bytes) cut count)
    {file' : SegmentFile} (hfile' : fs.segments[segment]? = some file')
    (hbytes' : file'.bytes = segmentBytes (frames.take count))
    (hstarts : file'.bytes <+: file.bytes) : Recovered (frames.map Frame.nodeRecord)
      (frames.map Frame.bytes) cut segment file fs := by
  refine ⟨count, file', hcount, hfile', hstarts, ?_, ?_, fun recoverPartial replay ↦ ?_⟩
  · rw [if_neg (Nat.not_lt.mpr hheader), hbytes', length_segmentBytes, frameEnd_map_bytes]
  · rw [hbytes', segmentRecords_take frames (by simpa using hcount.le)]
  · rw [run_replaySegment hfile' hbytes', List.map_take]

/-- A segment that was cut is recovered to exactly the records that lie wholly before the cut. -/
theorem scanSegment_cut {records : List (NodeId × Record N)} {encoded : List (List UInt8)}
    (hencoded : encodeRecordFrames records = .ok encoded) {cut : ℕ}
    (hcut : cut ≤ (segmentFormatMagic ++ encoded.flatten).length)
    (hfile : fs.segments[segment]? = some file)
    (hbytes : file.bytes = (segmentFormatMagic ++ encoded.flatten).take cut) :
    (∃ fs', directory.run (scanSegment segment true).run fs = (.ok (), fs') ∧
      Recovered records encoded cut segment file fs') ∧
    ∃ result, directory.run (scanSegment segment false).run fs = (result, fs) ∧
      (result = .ok () ↔ segmentFileHeaderLen ≤ cut ∧ ∃ n ≤ encoded.length,
        cut = frameEnd encoded n) ∧
      ∀ error, result = .error error → error.kind = .invalidData := by
  obtain ⟨frames, rfl, hflatten, rfl⟩ := exists_frames_of_encodeRecordFrames hencoded
  rw [← hflatten] at hcut hbytes
  change cut ≤ (segmentBytes frames).length at hcut
  change file.bytes = (segmentBytes frames).take cut at hbytes
  have hlength : file.bytes.length = cut := by
    rw [hbytes, List.length_take, Nat.min_eq_left hcut]
  by_cases hshort : cut < segmentFileHeaderLen
  · obtain ⟨hrun, error, hkind, hrefused⟩ := run_scanSegment_short hfile (hlength ▸ hshort)
    refine ⟨⟨_, hrun, ?_⟩, _, hrefused, ?_, ?_⟩
    · split
      · next hzero => exact recovered_empty hshort hfile (List.length_eq_zero_iff.mp hzero)
      · exact recovered_empty hshort (getElem?_setLen hfile 0) rfl
    · exact ⟨nofun, fun h ↦ absurd h.1 (Nat.not_le.mpr hshort)⟩
    · exact fun _ hsame ↦ Except.error.inj hsame ▸ hkind
  · have hheader := Nat.le_of_not_lt hshort
    obtain ⟨count, tail, hcount, htail, htake⟩ := exists_take_segmentBytes frames hheader
    have hboundary := tail_eq_nil_iff hheader hcut hcount htake
    have hrun := run_scanSegment_torn hfile htail (hbytes.trans htake)
    rw [hrun true, hrun false]
    by_cases hnil : tail = []
    · have hwhole : file.bytes = segmentBytes (frames.take count) := by
        rw [hbytes, htake, hnil, List.append_nil]
      rw [if_pos hnil, if_pos hnil]
      exact ⟨⟨fs, rfl, recovered_frames hheader hcount hfile hwhole List.prefix_rfl⟩, _, rfl,
        ⟨fun _ ↦ ⟨hheader, hboundary.mp hnil⟩, fun _ ↦ rfl⟩, nofun⟩
    · rw [if_neg hnil, if_neg hnil]
      refine ⟨⟨_, rfl, recovered_frames hheader hcount (getElem?_setLen hfile _) ?_
        (List.take_prefix _ _)⟩, _, rfl, ⟨nofun, fun h ↦ absurd (hboundary.mpr h.2) hnil⟩, ?_⟩
      · simp only [hbytes, htake, List.take_left]
      · exact fun _ hsame ↦ Except.error.inj hsame ▸ rfl

/-- A segment with two records that was cut in the second one. -/
theorem scanSegment_cut_second : ∃ fs : Fs, ∃ file encoded,
    (∃ fs', directory.run (scanSegment 0 true).run fs = (.ok (), fs') ∧
      Recovered (N := Noraft.ofLists) [(1, .currentTerm 7), (1, .votedFor none)] encoded 30
        0 file fs') ∧
    ∃ result, directory.run (scanSegment 0 false).run fs = (result, fs) ∧
      (result = .ok () ↔ segmentFileHeaderLen ≤ 30 ∧ ∃ n ≤ encoded.length,
        30 = frameEnd encoded n) ∧
      ∀ error, result = .error error → error.kind = .invalidData :=
  ⟨(Fs.empty.create 0).append 0 ((segmentFormatMagic ++ List.flatten _).take 30), _, _,
    scanSegment_cut (show encodeRecordFrames (N := Noraft.ofLists)
      [(1, .currentTerm 7), (1, .votedFor none)] = .ok _ from rfl) (by decide) rfl rfl⟩

end Sukari
