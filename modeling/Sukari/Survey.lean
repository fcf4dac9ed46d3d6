import Sukari.Stored

/-!
# The records on disk

`segmentRecords` lists the complete records of a segment file with their offsets, and
`Fs.recordCount` counts those of a segment of a directory. For a file that holds frames they are
these frames (`segmentRecords_eq`), also when the file ends in the middle of a frame. A cut through
a file leaves the records that end before the cut (`exists_contents_take`).
-/

set_option autoImplicit false
set_option relaxedAutoImplicit false

namespace Sukari

variable (N : Noraft)

/-- Adds a record to a list of records with their offsets. -/
def surveyRecord (records : List (ℕ × NodeId × Record N)) (recordStart : ℕ) (body : List UInt8) :
    Except IoError (List (ℕ × NodeId × Record N)) := do
  let nodeRecord ← decodeNodeRecord N body
  return records ++ [(recordStart, nodeRecord)]

/-- The complete records of a segment file, with their offsets. -/
def segmentRecords (bytes : List UInt8) : List (ℕ × NodeId × Record N) :=
  if bytes.take segmentFileHeaderLen = segmentFormatMagic then
    match recordLoop readRecordBody (surveyRecord N) true bytes.length (bytes.length + 1)
      (.seek bytes segmentFileHeaderLen) [] with
    | .ok (records, _) => records
    | .error _ => []
  else []

/-- The number of complete records in the file of a segment. -/
def Fs.recordCount (fs : Fs) (name : ℕ) : ℕ :=
  match fs.segments[name]? with
  | some file => (segmentRecords N file.bytes).length
  | none => 0

/-- The number of records that the segments of a directory have lost in another one. -/
def lostRecords (fs fs' : Fs) : ℕ :=
  (fs.segments.keys.map fun name ↦ fs.recordCount N name - fs'.recordCount N name).sum

variable {N}

theorem foldlM_surveyRecord (entries : List (Entry N)) (records : List (ℕ × NodeId × Record N)) :
    entries.foldlM (fun records entry ↦
      surveyRecord N records entry.position.offset entry.frame.body) records =
        .ok
          (records ++ entries.map fun entry ↦ (entry.position.offset, entry.frame.nodeRecord)) := by
  induction entries generalizing records with
  | nil => simp [pure, Except.pure]
  | cons entry rest ih =>
    have hstep : surveyRecord N records entry.position.offset entry.frame.body =
        .ok (records ++ [(entry.position.offset, entry.frame.nodeRecord)]) := by
      simp only [surveyRecord, entry.frame.decodeNodeRecord_body]
      rfl
    rw [List.foldlM_cons, hstep]
    refine (ih _).trans ?_
    simp

/-- The records of a file are the frames that it holds. -/
theorem segmentRecords_eq {frames : List (Frame N)} {bytes : List UInt8} (segment : ℕ)
    (h : Contents frames bytes) : segmentRecords N bytes =
      (placedFrom segment segmentFileHeaderLen frames).map
        fun entry ↦ (entry.position.offset, entry.frame.nodeRecord) := by
  cases h with
  | partialHeader _ hempty hstarts hcut =>
    have hshort := length_lt_of_cut hstarts hcut
    rw [segmentRecords, List.take_of_length_le hshort.le, if_neg hcut, hempty]
    rfl
  | records tail htail =>
    have hmagic : (segmentBytes frames ++ tail).take segmentFileHeaderLen = segmentFormatMagic := by
      rw [segmentBytes, List.append_assoc]
      rfl
    have hseek : Stream.seek (segmentBytes frames ++ tail) segmentFileHeaderLen =
        ⟨segmentFileHeaderLen, framesBytes frames ++ tail⟩ := by
      rw [Stream.seek, segmentBytes, List.append_assoc]
      rfl
    have hlength : (segmentBytes frames ++ tail).length =
        segmentFileHeaderLen + (framesBytes frames).length + tail.length := by
      rw [List.length_append, length_segmentBytes]
    have hrounds : frames.length < (segmentBytes frames ++ tail).length + 1 := by
      have := length_le_length_framesBytes frames
      omega
    rw [segmentRecords, if_pos hmagic, hseek,
      recordLoop_frames readsFrames_readRecordBody segment htail true hrounds hlength,
      foldlM_surveyRecord, List.nil_append]
    by_cases hcut : tail = []
    · simp only [hcut, if_true]
      rfl
    · simp only [hcut, if_false]
      rfl

/-- A segment file that was built from frames is read back as these frames. -/
theorem map_segmentRecords {frames : List (Frame N)} {bytes : List UInt8}
    (h : Contents frames bytes) :
    (segmentRecords N bytes).map Prod.snd = frames.map Frame.nodeRecord := by
  rw [segmentRecords_eq 0 h, List.map_map, ← map_frame_placedFrom 0 segmentFileHeaderLen frames,
    List.map_map, map_frame_placedFrom]
  rfl

theorem length_segmentRecords {frames : List (Frame N)} {bytes : List UInt8}
    (h : Contents frames bytes) : (segmentRecords N bytes).length = frames.length := by
  rw [← List.length_map Prod.snd, map_segmentRecords h, List.length_map]

/-! ### Cuts -/

/-- A cut through frames leaves the frames before it and a part of the next one. -/
theorem exists_take_framesBytes (frames : List (Frame N)) {tail : List UInt8} (htail : Torn N tail)
    (len : ℕ) : ∃ count tail', count ≤ frames.length ∧ Torn N tail' ∧
      (framesBytes frames ++ tail).take len = framesBytes (frames.take count) ++ tail' ∧
      ∀ n ≤ frames.length, (framesBytes (frames.take n)).length ≤ len → n ≤ count := by
  induction frames generalizing len with
  | nil => exact ⟨0, tail.take len, le_rfl, htail.take len, rfl, fun n hn _ ↦ hn⟩
  | cons frame rest ih =>
    by_cases hfits : frame.bytes.length ≤ len
    · obtain ⟨count, tail', hcount, htail', htake, hkept⟩ := ih (len - frame.bytes.length)
      refine ⟨count + 1, tail', Nat.succ_le_succ hcount, htail', ?_, fun n hn hlen ↦ ?_⟩
      · rw [framesBytes_cons, List.append_assoc, List.take_append, List.take_of_length_le hfits,
          htake, List.take_succ_cons, framesBytes_cons, List.append_assoc]
      · cases n with
        | zero => exact Nat.zero_le _
        | succ n =>
          simp only [List.take_succ_cons, framesBytes_cons, List.length_append,
            List.length_cons] at hlen hn
          exact Nat.succ_le_succ (hkept n (by omega) (by omega))
    · refine ⟨0, frame.bytes.take len, Nat.zero_le _, torn_take frame (by omega), ?_,
        fun n hn hlen ↦ ?_⟩
      · rw [framesBytes_cons, List.append_assoc, List.take_append,
          Nat.sub_eq_zero_of_le (by omega), List.take_zero, List.append_nil]
        rfl
      · cases n with
        | zero => exact le_rfl
        | succ n =>
          simp only [List.take_succ_cons, framesBytes_cons, List.length_append] at hlen
          omega

/-- A cut through a file leaves the frames that end before it. -/
theorem exists_contents_take {frames : List (Frame N)} {bytes : List UInt8}
    (h : Contents frames bytes) (len : ℕ) : ∃ count ≤ frames.length,
      Contents (frames.take count) (bytes.take len) ∧ ∀ n ≤ frames.length, frames ≠ [] →
        segmentFileHeaderLen + (framesBytes (frames.take n)).length ≤ len → n ≤ count := by
  cases h with
  | partialHeader _ hempty hstarts hcut =>
    refine ⟨0, Nat.zero_le _, .partialHeader _ rfl ((List.take_prefix _ _).trans hstarts) ?_,
      fun n _ hne ↦ absurd hempty hne⟩
    intro heq
    refine hcut (hstarts.eq_of_length_le ?_)
    rw [← heq]
    exact List.length_take_le' _ _
  | records tail htail =>
    by_cases hheader : len < segmentFileHeaderLen
    · refine ⟨0, Nat.zero_le _, .partialHeader _ rfl ?_ fun heq ↦ ?_, fun n _ _ hlen ↦ by omega⟩
      · rw [segmentBytes, List.append_assoc, List.take_append_of_le_length hheader.le]
        exact List.take_prefix _ _
      · have hlength := congrArg List.length heq
        rw [List.length_take] at hlength
        have hmagic : segmentFormatMagic.length = segmentFileHeaderLen := rfl
        omega
    · obtain ⟨count, tail', hcount, htail', htake, hkept⟩ :=
        exists_take_framesBytes frames htail (len - segmentFileHeaderLen)
      refine ⟨count, hcount, ?_, fun n hn _ hlen ↦ hkept n hn (by omega)⟩
      have hsplit : (segmentBytes frames ++ tail).take len =
          segmentBytes (frames.take count) ++ tail' := by
        have hmagic : segmentFormatMagic.length = segmentFileHeaderLen := rfl
        rw [segmentBytes, List.append_assoc, List.take_append, hmagic,
          List.take_of_length_le (by omega), htake, segmentBytes, List.append_assoc]
      rw [hsplit]
      exact .records tail' htail'

end Sukari
