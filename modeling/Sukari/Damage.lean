import Sukari.BurstDetection
import Sukari.Recovery
import Sukari.Runs

/-!
# Damaged active segments

What opening does to an active segment is decided by the frames that the bytes of the file announce,
one behind the other. `EndsInside` says that the first of them that cannot be read is one that runs
beyond the end of the file. Then, and only then, the file is cut off (`run_open_records`).
-/

set_option autoImplicit false
set_option relaxedAutoImplicit false

namespace Sukari

open Effects

variable {N : Noraft} {fs : Fs} {active : ℕ} {file : SegmentFile}

/-- The frames of a stream can be read up to one that runs beyond the end of the stream. -/
inductive EndsInside : Stream → Prop
  | cut {stream : Stream} (h : readRecordBody stream = .ok none) (hrest : stream.rest ≠ []) :
      EndsInside stream
  | next {stream stream' : Stream} {body : List UInt8}
      (h : readRecordBody stream = .ok (some (body, stream'))) (hnext : EndsInside stream') :
      EndsInside stream

theorem endsInside_of_error {stream : Stream} {error : IoError}
    (h : readRecordBody stream = .error error) : ¬ EndsInside stream := by
  rintro (⟨hcut, -⟩ | ⟨hnext, -⟩)
  · rw [h] at hcut
    nomatch hcut
  · rw [h] at hnext
    nomatch hnext

theorem endsInside_of_none {stream : Stream} (h : readRecordBody stream = .ok none) :
    EndsInside stream ↔ stream.rest ≠ [] := by
  refine ⟨?_, .cut h⟩
  rintro (⟨-, hrest⟩ | ⟨hnext, -⟩)
  · exact hrest
  · rw [h] at hnext
    nomatch hnext

theorem endsInside_of_some {stream stream' : Stream} {body : List UInt8}
    (h : readRecordBody stream = .ok (some (body, stream'))) :
    EndsInside stream ↔ EndsInside stream' := by
  refine ⟨?_, .next h⟩
  rintro (⟨hcut, -⟩ | ⟨hnext, hinside⟩)
  · rw [h] at hcut
    nomatch hcut
  · rw [h] at hnext
    obtain rfl := (Prod.mk.inj (Option.some.inj (Except.ok.inj hnext))).2
    exact hinside

/-- A frame that was read takes its bytes from the stream. -/
theorem length_of_readRecordBody {stream stream' : Stream} {body : List UInt8}
    (h : readRecordBody stream = .ok (some (body, stream'))) :
    stream'.position = stream.position + (8 + body.length) ∧
      stream.rest.length = 8 + body.length + stream'.rest.length := by
  obtain ⟨hlen, rfl, -⟩ := skip_of_readRecordBody h
  refine ⟨rfl, ?_⟩
  rw [Stream.skip, List.length_drop, Nat.add_sub_cancel' hlen]

/-- Recovery of the frames of the active segment: it stops at the frame that runs beyond the end, if
there is one, and otherwise it accepts the file or refuses it as invalid. -/
theorem recordLoop_verdict {fileLen rounds : ℕ} {stream : Stream}
    (hrounds : stream.rest.length < rounds)
    (hlen : fileLen = stream.position + stream.rest.length) :
    (EndsInside stream ∧ ∃ start, stream.position ≤ start ∧ start < fileLen ∧
      recordLoop scanRecordFrame (fun _ _ _ ↦ pure ()) true fileLen rounds stream () =
        .ok ((), some start)) ∨
    ¬ EndsInside stream ∧
      (recordLoop scanRecordFrame (fun _ _ _ ↦ pure ()) true fileLen rounds stream () =
        .ok ((), none) ∨
      ∃ error, error.kind = .invalidData ∧
        recordLoop scanRecordFrame (fun _ _ _ ↦ pure ()) true fileLen rounds stream () =
          .error error) := by
  induction rounds generalizing stream with
  | zero => omega
  | succ rounds ih =>
    rw [recordLoop, scanRecordFrame_eq]
    cases hread : readRecordBody stream with
    | error error =>
      exact .inr
        ⟨endsInside_of_error hread, .inr ⟨error, onlyInvalid_readRecordBody _ _ hread, rfl⟩⟩
    | ok found =>
      cases found with
      | none =>
        rw [endsInside_of_none hread]
        by_cases hend : stream.rest = []
        · have hlast : stream.position = fileLen := by
            rw [hlen, hend]
            rfl
          refine .inr ⟨not_not.mpr hend, .inl ?_⟩
          simp only [Except.map, Option.map, bind, Except.bind, hlast, if_true]
          rfl
        · have hpos := List.length_pos_iff.mpr hend
          have hbefore : stream.position ≠ fileLen := by omega
          refine .inl ⟨hend, stream.position, le_rfl, by omega, ?_⟩
          simp only [Except.map, Option.map, bind, Except.bind, hbefore, if_false, if_true]
          rfl
      | some found =>
        obtain ⟨body, stream'⟩ := found
        obtain ⟨hposition, hlength⟩ := length_of_readRecordBody hread
        rw [endsInside_of_some hread]
        rcases ih (by omega) (show fileLen = stream'.position + stream'.rest.length by omega) with
          ⟨hinside, start, hstart, hlt, hresult⟩ | hother
        · exact .inl ⟨hinside, start, by omega, hlt, hresult⟩
        · exact .inr hother

/-! ### Opening -/

/-- What opening leaves of the active segment, and what it reports. -/
def opened (N : Noraft) (maxSegmentLen : ℕ) (fs : Fs) : Except IoError StorageEngine × Fs :=
  directory.run (StorageEngine.withMaxSegmentLen N maxSegmentLen).run fs

/-- Opening a directory whose active segment has a whole header. -/
theorem run_open_records (h : IsActive fs active) (hfile : fs.segments[active]? = some file)
    {rest : List UInt8} (hbytes : file.bytes = segmentFormatMagic ++ rest) {maxSegmentLen : ℕ}
    (hmax : maxSegmentLen ≠ 0) :
    (RefusesBefore fs active ∧ ∃ error, error.kind = .invalidData ∧
      opened N maxSegmentLen fs = (.error error, fs)) ∨
    ¬ RefusesBefore fs active ∧
      ((EndsInside ⟨segmentFileHeaderLen, rest⟩ ∧ ∃ start, segmentFileHeaderLen ≤ start ∧
        start < file.bytes.length ∧
          directory.run (scanSegment active true).run fs = (.ok (), fs.setLen active start) ∧
          (opened N maxSegmentLen fs).2 = fs.setLen active start) ∨
      ¬ EndsInside ⟨segmentFileHeaderLen, rest⟩ ∧ (opened N maxSegmentLen fs).2 = fs ∧
        OnlyInvalid (opened N maxSegmentLen fs).1) := by
  rcases @run_withMaxSegmentLen N fs active h maxSegmentLen hmax with
    ⟨hrefused, error, hkind, hopen⟩ | ⟨hpassed, hopen⟩
  · exact .inl ⟨hrefused, error, hkind, hopen fs (.refl active fs)⟩
  refine .inr ⟨hpassed, ?_⟩
  have hopen : opened N maxSegmentLen fs = directory.run (do
      scanSegment active true
      openRecovered N active maxSegmentLen : IoM StorageEngine).run fs :=
    hopen fs (.refl active fs)
  have hlength : file.bytes.length = segmentFileHeaderLen + rest.length := by
    rw [hbytes, List.length_append]
    rfl
  have hscan := run_scanSegment_records hfile hbytes true
  rcases @recordLoop_verdict file.bytes.length (file.bytes.length + 1)
    ⟨segmentFileHeaderLen, rest⟩ (by simp only; omega) hlength with
    ⟨hinside, start, hstart, hlt, hloop⟩ | ⟨hnot, hloop | ⟨error, hkind, hloop⟩⟩
  · rw [hloop] at hscan
    refine .inl ⟨hinside, start, hstart, hlt, hscan, ?_⟩
    rw [hopen, Machine.run_bindExcept_ok hscan]
    refine (run_openRecovered (getElem?_setLen hfile start) ?_ maxSegmentLen).1
    intro hnil
    have hzero := congrArg List.length hnil
    simp only [segmentFileHeaderLen] at hstart hlength
    rw [List.length_take, List.length_nil] at hzero
    omega
  · rw [hloop] at hscan
    rw [hopen, Machine.run_bindExcept_ok hscan]
    have hopened := @run_openRecovered N fs active file hfile (hbytes ▸ List.cons_ne_nil _ _)
      maxSegmentLen
    exact .inr ⟨hnot, hopened.1, hopened.2.1⟩
  · rw [hloop] at hscan
    rw [hopen, Machine.run_bindExcept_error hscan]
    refine .inr ⟨hnot, rfl, fun error' hsame ↦ ?_⟩
    obtain rfl := Except.error.inj hsame
    exact hkind

/-- Opening a directory whose active segment does not start with the magic. -/
theorem run_open_magic (h : IsActive fs active) (hfile : fs.segments[active]? = some file)
    (hlong : segmentFileHeaderLen ≤ file.bytes.length)
    (hmagic : file.bytes.take segmentFileHeaderLen ≠ segmentFormatMagic) {maxSegmentLen : ℕ}
    (hmax : maxSegmentLen ≠ 0) : (opened N maxSegmentLen fs).2 = fs ∧
      OnlyInvalid (opened N maxSegmentLen fs).1 := by
  have hrefused : directory.run (scanSegment active true).run fs =
      (.error (invalidData "unsupported segment format"), fs) := by
    refine (Machine.run_bindExcept_ok (run_openSegment hfile)).trans ?_
    refine Machine.run_bindExcept_error ?_
    have hempty : ¬ file.bytes.length = 0 := by
      simp only [segmentFileHeaderLen] at hlong
      omega
    rw [readSegmentHeader, if_neg hempty, if_neg (Nat.not_lt.mpr hlong), if_pos hmagic]
    rfl
  rcases @run_withMaxSegmentLen N fs active h maxSegmentLen hmax with
    ⟨-, error, hkind, hopen⟩ | ⟨-, hopen⟩
  · rw [opened, hopen fs (.refl active fs)]
    refine ⟨rfl, fun error' hsame ↦ ?_⟩
    obtain rfl := Except.error.inj hsame
    exact hkind
  · rw [opened, hopen fs (.refl active fs), Machine.run_bindExcept_error hrefused]
    exact ⟨rfl, onlyInvalid_invalidData _⟩

/-- Whole frames do not change where a stream ends. -/
theorem endsInside_frames (frames : List (Frame N)) (tail : List UInt8) (position : ℕ) :
    EndsInside ⟨position, framesBytes frames ++ tail⟩ ↔
      EndsInside ⟨position + (framesBytes frames).length, tail⟩ := by
  induction frames generalizing position with
  | nil => simp
  | cons frame rest ih =>
    rw [framesBytes_cons, List.append_assoc,
      endsInside_of_some (readRecordBody_bytes frame position _),
      ih, List.length_append, Nat.add_assoc]

theorem IsActive.modifySegment (h : IsActive fs active) (name : ℕ)
    (f : SegmentFile → SegmentFile) : IsActive (fs.modifySegment name f) active :=
  ⟨fun segment hsegment ↦ h.names segment ((fs.mem_modifySegment name f segment).mp hsegment),
    (fs.mem_modifySegment name f active).mpr h.present,
    fun segment hsegment ↦ h.le segment ((fs.mem_modifySegment name f segment).mp hsegment)⟩

/-! ### A directory with one record -/

/-- The directory of an application that created a node. -/
def createdDir : Fs := (directory.run (performEvents creatingEvents .closed) .empty).2

/-- The record that it has written. -/
def creatingRecord : NodeId × Record Noraft.ofLists :=
  (1, .snapshotCheckpoint (initialCheckpoint Noraft.ofLists))

theorem exists_createdDir : ∃ encoded file, encodeRecordFrames [creatingRecord] = .ok encoded ∧
    IsActive createdDir 0 ∧ createdDir.segments[0]? = some file ∧
    file.bytes = segmentFormatMagic ++ encoded.flatten := by
  have hencoded := (Option.any_eq_true _ _).mp (by decide +kernel :
    (encodeRecordFrames [creatingRecord]).toOption.any (fun encoded ↦
      decide (createdDir.segments.keys = [0]) &&
      createdDir.segments[0]?.any fun file ↦
        decide (file.bytes = segmentFormatMagic ++ encoded.flatten)) = true)
  obtain ⟨encoded, hencoded, h⟩ := hencoded
  rw [Bool.and_eq_true, decide_eq_true_eq] at h
  obtain ⟨file, hfile, hbytes⟩ := (Option.any_eq_true _ _).mp h.2
  exact ⟨encoded, file, toOption_eq_some_iff.mp hencoded, isActive_of_keys h.1 (by decide), hfile,
    of_decide_eq_true hbytes⟩

end Sukari
