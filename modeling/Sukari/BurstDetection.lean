import Sukari.CrcReference
import Sukari.TornTail

/-!
# Short damage is detected

The checksum of a body changes whenever the body changes only within four consecutive bytes. A frame
with such a body is refused as invalid by both readers of frames, whatever follows it, and recovery
neither accepts it nor cuts the segment off at it (`burst_detected`).
-/

set_option autoImplicit false
set_option relaxedAutoImplicit false

namespace Sukari

open LittleEndian ShiftRegister Crc32c

/-- A body of the same length that differs only within four consecutive bytes. -/
structure Burst (body damaged : List UInt8) : Prop where
  length : damaged.length = body.length
  ne : damaged ≠ body
  window : ∃ start, ∀ i, i < start ∨ start + 4 ≤ i → damaged[i]? = body[i]?

/-! ### The checksum -/

theorem reference_injective (data : List UInt8) : Function.Injective (reference · data) := by
  induction data with
  | nil => exact fun _ _ h ↦ h
  | cons byte rest ih =>
    intro first second h
    have hbytes : referenceByte first byte = referenceByte second byte := ih h
    rw [← UInt32.toBitVec_inj, toBitVec_referenceByte, toBitVec_referenceByte] at hbytes
    have hstates := shifts_injective poly (by decide) 8 hbytes
    exact UInt32.toBitVec_inj.mp ((BitVec.xor_left_inj _).mp hstates)

theorem fromLeBytes_injective {first second : List UInt8} (hlength : first.length = second.length)
    (h : fromLeBytes first = fromLeBytes second) : first = second := by
  induction first generalizing second with
  | nil => exact (List.length_eq_zero_iff.mp hlength.symm).symm
  | cons byte rest ih =>
    obtain ⟨byte', rest', rfl⟩ := List.exists_cons_of_length_eq_add_one hlength.symm
    simp only [fromLeBytes] at h
    have hbyte := byte.toNat_lt
    have hbyte' := byte'.toNat_lt
    rw [ih (by simpa using hlength) (by omega),
      UInt8.toNat_inj.mp (show byte.toNat = byte'.toNat by omega)]

/-- Four bytes are fed into the register without loss. -/
theorem reference_window {first second : List UInt8} (hlength : first.length = second.length)
    (hwindow : first.length ≤ 4) {crc : UInt32} (h : reference crc first = reference crc second) :
    first = second := by
  rw [← UInt32.toBitVec_inj, toBitVec_reference hwindow, toBitVec_reference (hlength ▸ hwindow),
    hlength] at h
  have hwords := (BitVec.xor_right_inj _).mp (shifts_injective poly (by decide) _ h)
  have hlt (data : List UInt8) (hdata : data.length ≤ 4) : fromLeBytes data < 2 ^ 32 :=
    (fromLeBytes_lt data).trans_le (Nat.pow_le_pow_right (by decide) hdata)
  have hnumbers := congrArg BitVec.toNat hwords
  rw [BitVec.toNat_ofNat, BitVec.toNat_ofNat, Nat.mod_eq_of_lt (hlt first hwindow),
    Nat.mod_eq_of_lt (hlt second (hlength ▸ hwindow))] at hnumbers
  exact fromLeBytes_injective hlength hnumbers

theorem crc32c_append_window {before first second after : List UInt8}
    (hlength : first.length = second.length) (hwindow : first.length ≤ 4)
    (h : crc32c (before ++ (first ++ after)) = crc32c (before ++ (second ++ after))) :
    first = second := by
  have hvalue : update initial (before ++ (first ++ after)) =
      update initial (before ++ (second ++ after)) := by
    simpa [crc32c, value] using h
  simp only [update_eq_reference, reference_append] at hvalue
  exact reference_window hlength hwindow (reference_injective after hvalue)

/-- A window splits a body and its damaged version alike. -/
theorem Burst.split {body damaged : List UInt8} (h : Burst body damaged) :
    ∃ before first second after, body = before ++ (first ++ after) ∧
      damaged = before ++ (second ++ after) ∧ first.length = second.length ∧ first.length ≤ 4 := by
  obtain ⟨start, hsame⟩ := h.window
  have hsplit (data : List UInt8) :
      data = data.take start ++ ((data.drop start).take 4 ++ data.drop (start + 4)) := by
    rw [← List.drop_drop, List.take_append_drop, List.take_append_drop]
  have hbefore : damaged.take start = body.take start := by
    refine List.ext_getElem? fun i ↦ ?_
    simp only [List.getElem?_take]
    split
    · next hi => exact hsame i (.inl hi)
    · rfl
  have hafter : damaged.drop (start + 4) = body.drop (start + 4) := by
    refine List.ext_getElem? fun i ↦ ?_
    simp only [List.getElem?_drop]
    exact hsame _ (.inr (Nat.le_add_right _ _))
  refine ⟨body.take start, (body.drop start).take 4, (damaged.drop start).take 4,
    body.drop (start + 4), hsplit body, ?_, ?_, List.length_take_le _ _⟩
  · rw [← hbefore, ← hafter]
    exact hsplit damaged
  · simp only [List.length_take, List.length_drop, h.length]

theorem Burst.crc32c_ne {body damaged : List UInt8} (h : Burst body damaged) :
    crc32c damaged ≠ crc32c body := by
  obtain ⟨before, first, second, after, rfl, rfl, hlength, hwindow⟩ := h.split
  intro hsame
  exact h.ne (by rw [crc32c_append_window hlength hwindow hsame.symm])

/-! ### The readers -/

/-- A frame whose body does not have the checksum that its header states. -/
theorem readRecordBody_damaged {body damaged : List UInt8} (hlength : damaged.length = body.length)
    (hcrc : crc32c damaged ≠ crc32c body) (hword : body.length < 2 ^ 32)
    (rest : List UInt8) : ∃ error, error.kind = .invalidData ∧ ∀ position,
      readRecordBody ⟨position, frameHeader body ++ (damaged ++ rest)⟩ = .error error := by
  by_cases hfits : body.length ≤ maxRecordBodyLen
  · refine ⟨invalidData "segment record checksum mismatch", rfl, fun position ↦ ?_⟩
    have htake : (damaged ++ rest).take body.length = damaged := by
      rw [← hlength, List.take_left]
    have hchecksum : (crc32c damaged).toNat ≠ (crc32c body).toNat :=
      fun h ↦ hcrc (UInt32.toNat_inj.mp h)
    simp only [readRecordBody, readFrameHeader_frameHeader hfits, bind, Except.bind, htake, hlength,
      ne_eq, not_true_eq_false, if_false, failIf, hchecksum, not_false_eq_true, if_true]
    rfl
  · refine ⟨invalidData "segment record is too large", rfl, fun position ↦ ?_⟩
    have hheader : readFrameHeader ⟨position, frameHeader body ++ (damaged ++ rest)⟩ =
        .error (invalidData "segment record is too large") := by
      simp only [readFrameHeader, frameHeader, List.append_assoc, segmentRecordBaseHeaderLen]
      rw [readExact_append (length_toLeBytes 4 _)]
      simp only [fromLeBytes_toLeBytes (show body.length < 256 ^ 4 from hword),
        if_pos (Nat.lt_of_not_le hfits)]
      rfl
    simp only [readRecordBody, hheader]
    rfl

/-- Recovery stops at a frame that is invalid and changes nothing. -/
theorem run_scanSegment_invalid {N : Noraft} {fs : Fs} {segment : ℕ} {file : SegmentFile}
    {frames : List (Frame N)} {tail : List UInt8} (hfile : fs.segments[segment]? = some file)
    (hbytes : file.bytes = segmentBytes frames ++ tail) {error : IoError}
    (htail : ∀ position, scanRecordFrame ⟨position, tail⟩ = .error error) (allowPartial : Bool) :
    directory.run (scanSegment segment allowPartial).run fs = (.error error, fs) := by
  have hlength : frames.length ≤ file.bytes.length := by
    have := length_le_length_framesBytes frames
    rw [hbytes, List.length_append, length_segmentBytes]
    omega
  have hrounds : file.bytes.length + 1 =
      frames.length + (file.bytes.length - frames.length + 1) := by
    omega
  rw [segmentBytes, List.append_assoc] at hbytes
  rw [run_scanSegment_records hfile hbytes, hrounds, recordLoop_skip, recordLoop, htail]
  rfl

/-- Short damage to a body is detected by both readers and by recovery. -/
theorem burst_detected {body damaged : List UInt8} (h : Burst body damaged) :
    crc32c damaged ≠ crc32c body ∧ (body.length < 2 ^ 32 → ∀ rest : List UInt8,
      ∃ error, error.kind = .invalidData ∧
        (∀ position, readRecordBody ⟨position, frameHeader body ++ (damaged ++ rest)⟩ =
          .error error) ∧
        (∀ position, scanRecordFrame ⟨position, frameHeader body ++ (damaged ++ rest)⟩ =
          .error error) ∧
        ∀ (N : Noraft) (frames : List (Frame N)) (fs : Fs) (segment : ℕ) (file : SegmentFile)
          (allowPartial : Bool), fs.segments[segment]? = some file →
          file.bytes = segmentBytes frames ++ (frameHeader body ++ (damaged ++ rest)) →
            directory.run (scanSegment segment allowPartial).run fs = (.error error, fs)) := by
  refine ⟨h.crc32c_ne, fun hword rest ↦ ?_⟩
  obtain ⟨error, hkind, hread⟩ := readRecordBody_damaged h.length h.crc32c_ne hword rest
  have hscan (position : ℕ) :
      scanRecordFrame ⟨position, frameHeader body ++ (damaged ++ rest)⟩ = .error error := by
    rw [scanRecordFrame_eq, hread]
    rfl
  exact ⟨error, hkind, hread, hscan, fun N frames fs segment file allowPartial hfile hbytes ↦
    run_scanSegment_invalid hfile hbytes hscan allowPartial⟩

theorem burst_detected_byte : crc32c [1, 2, 7] ≠ crc32c [1, 2, 3] ∧
    ∃ error, error.kind = .invalidData ∧ ∀ position,
      scanRecordFrame ⟨position, frameHeader [1, 2, 3] ++ ([1, 2, 7] ++ [9])⟩ = .error error := by
  have hburst : Burst [1, 2, 3] [1, 2, 7] := ⟨rfl, by decide, 2, fun i hi ↦ by
    rcases i with _ | _ | _ | i
    · rfl
    · rfl
    · omega
    · rfl⟩
  obtain ⟨hcrc, hreaders⟩ := burst_detected hburst
  obtain ⟨error, hkind, -, hscan, -⟩ := hreaders (by decide) [9]
  exact ⟨hcrc, error, hkind, hscan⟩

end Sukari
