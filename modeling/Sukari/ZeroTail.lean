import Sukari.Damage
import Sukari.SameBytes

/-!
# A tail of zero bytes

A file system may extend a file before a crash and write nothing into it. The checksum of the empty
body is zero, so eight zero bytes are a frame with an empty body, and recovery keeps them: it cuts
off only what is left of the zero bytes after as many such frames as fit (`run_scanSegment_zeros`).
Fewer than eight zero bytes are an unfinished record and go, and then every node loads as if they
had never been there. With more of them the zero bytes stay in the file, in front of the records of
later calls (`open_zeroTail_iff`).
-/

set_option autoImplicit false
set_option relaxedAutoImplicit false

namespace Sukari

open Effects LittleEndian

variable {N : Noraft} {fs : Fs} {active segment : ℕ} {file : SegmentFile}

/-! ### Frames of zero bytes -/

/-- Eight zero bytes are a frame with an empty body. -/
theorem readRecordBody_zeros (position zeros : ℕ) :
    readRecordBody ⟨position, List.replicate (8 + zeros) 0⟩ =
      .ok (some ([], ⟨position + 8, List.replicate zeros 0⟩)) := by
  have hsplit : List.replicate (8 + zeros) (0 : UInt8) =
      frameHeader [] ++ List.replicate zeros 0 := by
    rw [List.replicate_add]
    rfl
  have hheader := @readFrameHeader_frameHeader position [] (List.replicate zeros 0) (Nat.zero_le _)
  simp only [hsplit, readRecordBody, hheader, bind, Except.bind, List.length_nil, List.take_zero,
    ne_eq, not_true_eq_false, if_false]
  simp [failIf, pure, Except.pure, Stream.skip]

/-- Fewer zero bytes are the beginning of a frame. -/
theorem readRecordBody_zeros_short (position : ℕ) {zeros : ℕ} (h : zeros < 8) :
    readRecordBody ⟨position, List.replicate zeros 0⟩ = .ok none := by
  have hheader : readFrameHeader ⟨position, List.replicate zeros 0⟩ = .ok none := by
    interval_cases zeros <;> rfl
  rw [readRecordBody, hheader]
  rfl

/-- Recovery keeps as many frames of zero bytes as fit. -/
theorem recordLoop_zeros {fileLen rounds position zeros : ℕ} (hrounds : zeros < rounds)
    (hlen : fileLen = position + zeros) :
    recordLoop scanRecordFrame (fun _ _ _ ↦ pure ()) true fileLen rounds
        ⟨position, List.replicate zeros 0⟩ () =
      .ok ((), if zeros % 8 = 0 then none else some (position + (zeros - zeros % 8))) := by
  induction rounds generalizing position zeros with
  | zero => omega
  | succ rounds ih =>
    rw [recordLoop, scanRecordFrame_eq]
    by_cases hshort : zeros < 8
    · rw [readRecordBody_zeros_short position hshort, Nat.mod_eq_of_lt hshort]
      by_cases hnone : zeros = 0
      · have hend : position = fileLen := by omega
        simp only [Except.map, Option.map, bind, Except.bind, hend, hnone, if_true]
        rfl
      · have hbefore : position ≠ fileLen := by omega
        simp only [Except.map, Option.map, bind, Except.bind, hbefore, hnone, if_false, if_true,
          Nat.sub_self]
        rfl
    · obtain ⟨more, rfl⟩ := Nat.exists_eq_add_of_le (Nat.not_lt.mp hshort)
      rw [readRecordBody_zeros]
      refine (@ih (position + 8) more (by omega) (by omega)).trans ?_
      have hmod : (8 + more) % 8 = more % 8 := by omega
      have hcut : position + 8 + (more - more % 8) = position + (8 + more - more % 8) := by omega
      rw [hmod, hcut]

/-- Recovery of a segment that ends with zero bytes. -/
theorem run_scanSegment_zeros (hfile : fs.segments[segment]? = some file)
    {frames : List (Frame N)} {zeros : ℕ}
    (hbytes : file.bytes = segmentBytes frames ++ List.replicate zeros 0) :
    directory.run (scanSegment segment true).run fs = (.ok (), if zeros % 8 = 0 then fs
      else fs.setLen segment ((segmentBytes frames).length + (zeros - zeros % 8))) := by
  have hlength : file.bytes.length =
      segmentFileHeaderLen + (framesBytes frames).length + zeros := by
    rw [hbytes, List.length_append, length_segmentBytes, List.length_replicate]
  have hrounds : file.bytes.length + 1 =
      frames.length + (file.bytes.length + 1 - frames.length) := by
    have := length_le_length_framesBytes frames
    omega
  have hmore : zeros < file.bytes.length + 1 - frames.length := by
    have := length_le_length_framesBytes frames
    simp only [segmentFileHeaderLen] at hlength
    omega
  rw [segmentBytes, List.append_assoc] at hbytes
  rw [run_scanSegment_records hfile hbytes, hrounds, recordLoop_skip,
    recordLoop_zeros hmore hlength, length_segmentBytes]
  by_cases hwhole : zeros % 8 = 0
  · simp only [hwhole, if_true]
  · simp only [hwhole, if_false]

/-! ### Opening -/

/-- After opening, the segment holds what was written and the zero bytes are gone, and every active
node loads as from the segment without the zero bytes. -/
structure DropsTail (N : Noraft) (fs : Fs) (active : ℕ) (whole : List UInt8) (maxSegmentLen : ℕ)
    (engine : StorageEngine) (fs' : Fs) : Prop where
  bytes : fs'.segments[active]?.map SegmentFile.bytes = some whole
  loads : ∃ engine₀ fs₀,
    opened N maxSegmentLen (fs.setLen active whole.length) = (.ok engine₀, fs₀) ∧
      ∀ nodeId, engine.registry.isActive nodeId = true →
        (directory.run ((StorageEngine.load N nodeId).run engine) fs').1.1 =
          (directory.run ((StorageEngine.load N nodeId).run engine₀) fs₀).1.1

/-- Directories whose active segments have the same bytes. -/
theorem sameBytes_setLen (hfile : fs.segments[active]? = some file) :
    SameBytes fs (fs.setLen active file.bytes.length) := by
  refine ⟨fun segment ↦ ?_, rfl, rfl⟩
  rw [Fs.setLen, Fs.getElem?_modifySegment]
  split
  · next hsame =>
    subst hsame
    rw [hfile]
    simp only [Option.map_some, List.take_length]
  · rfl

theorem sameInactive_setLen (fs : Fs) (active len : ℕ) :
    SameInactive active fs (fs.setLen active len) := by
  refine ⟨?_, fun segment hsegment ↦ ?_⟩
  · exact keys_eq_of_mem_iff fun segment ↦ fs.mem_modifySegment active _ segment
  · rw [Fs.setLen, Fs.getElem?_modifySegment, if_neg hsegment.symm]

/-- When opening succeeds, the zero bytes at the end of the active segment are dropped exactly if
they are fewer than the header of a frame. -/
theorem open_zeroTail_iff {records : List (NodeId × Record N)} {encoded : List (List UInt8)}
    (hencoded : encodeRecordFrames records = .ok encoded) {zeros : ℕ} (hactive : IsActive fs active)
    (hfile : fs.segments[active]? = some file)
    (hbytes : file.bytes = segmentFormatMagic ++ encoded.flatten ++ List.replicate zeros 0)
    {maxSegmentLen : ℕ} (hmax : maxSegmentLen ≠ 0) {engine : StorageEngine} {fs' : Fs}
    (hopen : opened N maxSegmentLen fs = (.ok engine, fs')) :
    DropsTail N fs active (segmentFormatMagic ++ encoded.flatten) maxSegmentLen engine fs' ↔
      zeros < 8 := by
  obtain ⟨frames, -, hframes, -⟩ := exists_frames_of_encodeRecordFrames hencoded
  rw [← hframes] at hbytes ⊢
  change file.bytes = segmentBytes frames ++ List.replicate zeros 0 at hbytes
  change DropsTail N fs active (segmentBytes frames) maxSegmentLen engine fs' ↔ zeros < 8
  set whole := (segmentBytes frames).length with hwhole
  have hlength : file.bytes.length = whole + zeros := by
    rw [hbytes, List.length_append, List.length_replicate]
  have htake : file.bytes.take whole = segmentBytes frames := by rw [hbytes, List.take_left]
  rcases @run_withMaxSegmentLen N fs active hactive maxSegmentLen hmax with
    ⟨-, error, -, hall⟩ | ⟨-, hall⟩
  · rw [opened, hall fs (.refl active fs)] at hopen
    cases hopen
  -- With and without the zero bytes, opening goes on in the directory that recovery leaves.
  have hfile₀ := getElem?_setLen hfile whole
  have hopen₀ : opened N maxSegmentLen (fs.setLen active whole) =
      directory.run (openRecovered N active maxSegmentLen).run (fs.setLen active whole) := by
    rw [opened, hall _ (sameInactive_setLen fs active whole)]
    exact Machine.run_bindExcept_ok (@run_scanSegment_zeros N _ _ _ hfile₀ frames 0
      (by simpa using htake))
  have hscan := run_scanSegment_zeros hfile hbytes
  rw [opened, hall fs (.refl active fs), Machine.run_bindExcept_ok hscan, ← hwhole] at hopen
  set left :=
    if zeros % 8 = 0 then fs else fs.setLen active (whole + (zeros - zeros % 8)) with hleft
  have hkept : ∃ kept : SegmentFile, left.segments[active]? = some kept ∧
      kept.bytes = file.bytes.take (whole + (zeros - zeros % 8)) := by
    rw [hleft]
    split
    · exact ⟨file, hfile, (List.take_of_length_le (by omega)).symm⟩
    · exact ⟨_, getElem?_setLen hfile _, rfl⟩
  obtain ⟨kept, hkept, hkeptBytes⟩ := hkept
  have hheader : segmentFileHeaderLen ≤ whole := by
    rw [hwhole, length_segmentBytes]
    exact Nat.le_add_right _ _
  have hne {bytes : List UInt8} (hle : segmentFileHeaderLen ≤ bytes.length) : bytes ≠ [] := by
    rintro rfl
    cases hle
  have hkeptLength : kept.bytes.length = whole + (zeros - zeros % 8) := by
    rw [hkeptBytes, List.length_take, hlength]
    omega
  obtain rfl : left = fs' := by
    have hsame := (@run_openRecovered N left active kept hkept (hne (by omega)) maxSegmentLen).1
    rw [hopen] at hsame
    exact hsame.symm
  constructor
  · rintro ⟨hdropped, -⟩
    rw [hkept, Option.map_some, Option.some.injEq] at hdropped
    rw [hdropped, ← hwhole] at hkeptLength
    omega
  · intro hfew
    have hcut : zeros - zeros % 8 = 0 := by omega
    have hsame : SameBytes left (fs.setLen active whole) := by
      rw [hleft, hcut, Nat.add_zero]
      split
      · obtain rfl : zeros = 0 := by omega
        rw [← Nat.add_zero whole, ← hlength]
        exact sameBytes_setLen hfile
      · exact .refl _
    obtain ⟨hengine, hafter⟩ :=
      bisimulation_sameBytes.run (openRecovered N active maxSegmentLen).run hsame
    rw [hopen] at hengine hafter
    refine ⟨?_, engine, (opened N maxSegmentLen (fs.setLen active whole)).2,
      Prod.ext ((congrArg Prod.fst hopen₀).trans hengine.symm) rfl, fun nodeId _ ↦ ?_⟩
    · rw [hkept, Option.map_some, hkeptBytes, hcut, Nat.add_zero, htake]
    · have hload :=
        bisimulation_sameBytes.run ((StorageEngine.load N nodeId).run engine) hafter
      rw [hopen₀, hload.1]

/-- The directory of an application that created a node, with zero bytes at the end of the
segment. -/
def zeroTailed (zeros : ℕ) : Fs := createdDir.append 0 (List.replicate zeros 0)

theorem exists_zeroTailed (zeros : ℕ) : ∃ encoded file,
    encodeRecordFrames [creatingRecord] = .ok encoded ∧ IsActive (zeroTailed zeros) 0 ∧
    (zeroTailed zeros).segments[0]? = some file ∧
    file.bytes = segmentFormatMagic ++ encoded.flatten ++ List.replicate zeros 0 := by
  obtain ⟨encoded, file, hencoded, hactive, hfile, hbytes⟩ := exists_createdDir
  refine ⟨encoded, { file with bytes := file.bytes ++ List.replicate zeros 0 }, hencoded,
    hactive.modifySegment _ _, ?_, by rw [hbytes]⟩
  rw [zeroTailed, Fs.append, Fs.getElem?_modifySegment, if_pos rfl, hfile, Option.map_some]

theorem exists_opened_zeroTailed {zeros : ℕ} {p : StorageEngine → Fs → Bool}
    (h : ((opened Noraft.ofLists 64 (zeroTailed zeros)).1.toOption.any fun engine ↦
      p engine (opened Noraft.ofLists 64 (zeroTailed zeros)).2) = true) :
    ∃ engine fs', opened Noraft.ofLists 64 (zeroTailed zeros) = (.ok engine, fs') ∧
      p engine fs' = true := by
  obtain ⟨engine, hopen, hp⟩ := (Option.any_eq_true _ _).mp h
  refine ⟨engine, _, ?_, hp⟩
  rw [← toOption_eq_some_iff.mp hopen]

/-- Eight zero bytes stay in the segment, and the node does not load any more. -/
theorem open_zeroTail_kept : ∃ encoded file engine fs',
    encodeRecordFrames [creatingRecord] = .ok encoded ∧ IsActive (zeroTailed 8) 0 ∧
    (zeroTailed 8).segments[0]? = some file ∧
    file.bytes = segmentFormatMagic ++ encoded.flatten ++ List.replicate 8 0 ∧
    opened Noraft.ofLists 64 (zeroTailed 8) = (.ok engine, fs') ∧
    engine.registry.isActive 1 = true ∧
    ¬ Succeeds (directory.run ((StorageEngine.load Noraft.ofLists 1).run engine) fs').1.1 ∧
    ¬ DropsTail Noraft.ofLists (zeroTailed 8) 0 (segmentFormatMagic ++ encoded.flatten) 64 engine
      fs' := by
  obtain ⟨encoded, file, hencoded, hactive, hfile, hbytes⟩ := exists_zeroTailed 8
  obtain ⟨engine, fs', hopen, hkept⟩ := @exists_opened_zeroTailed 8 (fun engine fs ↦
    decide (fs.fileLen 0 = (zeroTailed 8).fileLen 0) &&
    engine.registry.isActive 1 && !decide (Succeeds
      (directory.run ((StorageEngine.load Noraft.ofLists 1).run engine) fs).1.1))
        (by decide +kernel)
  simp only [Bool.and_eq_true, Bool.not_eq_true', decide_eq_false_iff_not,
    decide_eq_true_eq] at hkept
  refine ⟨encoded, file, engine, fs', hencoded, hactive, hfile, hbytes, hopen, hkept.1.2, hkept.2,
    fun hdrops ↦ ?_⟩
  obtain ⟨file', hfile', hbytes'⟩ := Option.map_eq_some_iff.mp hdrops.bytes
  have hlength := hkept.1.1
  simp only [Fs.fileLen, hfile, hfile', hbytes, hbytes', List.length_append,
    List.length_replicate] at hlength
  omega

/-- Three zero bytes are dropped. -/
theorem open_zeroTail_iff_three : ∃ encoded engine fs',
    encodeRecordFrames [creatingRecord] = .ok encoded ∧
    opened Noraft.ofLists 64 (zeroTailed 3) = (.ok engine, fs') ∧
    engine.registry.isActive 1 = true ∧
    DropsTail Noraft.ofLists (zeroTailed 3) 0 (segmentFormatMagic ++ encoded.flatten) 64 engine
      fs' := by
  obtain ⟨encoded, file, hencoded, hactive, hfile, hbytes⟩ := exists_zeroTailed 3
  obtain ⟨engine, fs', hopen, hnode⟩ := @exists_opened_zeroTailed 3
    (fun engine _ ↦ engine.registry.isActive 1) (by decide +kernel)
  exact ⟨encoded, engine, fs', hencoded, hopen, hnode,
    (open_zeroTail_iff hencoded hactive hfile hbytes (by decide) hopen).mpr (by decide)⟩

end Sukari
