import Sukari.Damage

/-!
# One damaged bit

A bit of the active segment flips. In the magic, a checksum or a body the damage is found: opening
fails with `InvalidData` and leaves the file as it is. The length field of a frame has no checksum
of its own, and the end of the data serves both for an unfinished last write and for a length that
runs beyond the end of the file. So opening keeps the segment unless the bit lies in a length field
and reading on from that frame ends inside a frame (`open_flipBit_iff`); then it cuts off the frame
and every frame after it.
-/

set_option autoImplicit false
set_option relaxedAutoImplicit false

namespace Sukari

open Effects LittleEndian

variable {N : Noraft} {fs : Fs} {active : ℕ} {file : SegmentFile}

/-! ### Flipped bits -/

/-- The bytes with one bit of the byte at a position flipped. -/
def flipBit (bytes : List UInt8) (position bit : ℕ) : List UInt8 :=
  bytes.modify position fun byte ↦ byte ^^^ UInt8.ofNat (2 ^ bit)

@[simp] theorem length_flipBit (bytes : List UInt8) (position bit : ℕ) :
    (flipBit bytes position bit).length = bytes.length :=
  List.length_modify _ _ _

theorem flipBit_append_left {first : List UInt8} {position : ℕ} (h : position < first.length)
    (second : List UInt8) (bit : ℕ) :
    flipBit (first ++ second) position bit = flipBit first position bit ++ second := by
  refine List.ext_getElem? fun i ↦ ?_
  by_cases hi : i < first.length
  · simp [flipBit, List.getElem?_modify, List.getElem_modify, List.getElem?_append, hi]
  · have hne : position ≠ i := by omega
    simp [flipBit, List.getElem?_append, hi, hne]

theorem flipBit_append_right {first : List UInt8} {position : ℕ} (h : first.length ≤ position)
    (second : List UInt8) (bit : ℕ) : flipBit (first ++ second) position bit =
      first ++ flipBit second (position - first.length) bit := by
  refine List.ext_getElem? fun i ↦ ?_
  by_cases hi : i < first.length
  · have hne : position ≠ i := by omega
    simp [flipBit, List.getElem?_append, hi, hne]
  · have hsame : position - first.length = i - first.length ↔ position = i := by omega
    simp [flipBit, List.getElem?_modify, List.getElem?_append, hi, hsame]

theorem flipBit_ne {bytes : List UInt8} {position bit : ℕ} (h : position < bytes.length)
    (hbit : bit < 8) : flipBit bytes position bit ≠ bytes := by
  intro hsame
  have hbyte : bytes[position] ^^^ UInt8.ofNat (2 ^ bit) = bytes[position] ^^^ 0 := by
    have hbytes := congrArg (·[position]?) hsame
    simpa [flipBit, h] using hbytes
  have hzero : UInt8.ofNat (2 ^ bit) = 0 := (UInt8.xor_right_inj _).mp hbyte
  interval_cases bit <;> exact absurd hzero (by decide)

theorem burst_flipBit {body : List UInt8} {position bit : ℕ} (h : position < body.length)
    (hbit : bit < 8) : Burst body (flipBit body position bit) := by
  refine ⟨length_flipBit _ _ _, flipBit_ne h hbit, position, fun i hi ↦ ?_⟩
  exact List.getElem?_modify_ne _ _ (by omega)

/-- A frame with a flipped bit outside its length field is invalid. -/
theorem readRecordBody_flipBit (frame : Frame N) {position bit : ℕ}
    (hlength : segmentRecordBaseHeaderLen ≤ position) (hposition : position < frame.bytes.length)
    (hbit : bit < 8) (rest : List UInt8) : ∃ error, ∀ start,
      readRecordBody ⟨start, flipBit frame.bytes position bit ++ rest⟩ = .error error := by
  have hheader : (frameHeader frame.body).length = 8 := by simp [frameHeader]
  have hword : maxRecordBodyLen < 256 ^ 4 := by decide
  by_cases hbody : 8 ≤ position
  · -- The checksum of the body catches the flipped bit.
    have hinside : position - 8 < frame.body.length := by
      rw [Frame.length_bytes] at hposition
      omega
    obtain ⟨error, -, herror⟩ :=
      readRecordBody_damaged (length_flipBit frame.body (position - 8) bit)
      (burst_flipBit hinside hbit).crc32c_ne (frame.length_body_le.trans_lt hword) rest
    refine ⟨error, fun start ↦ ?_⟩
    rw [Frame.bytes, flipBit_append_right (by omega), hheader, List.append_assoc]
    exact herror start
  · -- The stored checksum is another one.
    set stored := toLeBytes 4 (Crc32c.crc32c frame.body).toNat with hstored
    have hlen : stored.length = 4 := length_toLeBytes 4 _
    have hflip : flipBit frame.bytes position bit =
        toLeBytes 4 frame.body.length ++ (flipBit stored (position - 4) bit ++ frame.body) := by
      simp only [segmentRecordBaseHeaderLen] at hlength
      rw [Frame.bytes, frameHeader, List.append_assoc,
        flipBit_append_right (by rwa [length_toLeBytes]), length_toLeBytes,
        flipBit_append_left (by rw [length_toLeBytes]; omega)]
    have hchecksum : (Crc32c.crc32c frame.body).toNat ≠
        fromLeBytes (flipBit stored (position - 4) bit) := by
      intro hsame
      rw [← fromLeBytes_toLeBytes (show (Crc32c.crc32c frame.body).toNat < 256 ^ 4 from
        (Crc32c.crc32c frame.body).toNat_lt), ← hstored] at hsame
      exact flipBit_ne (by omega) hbit (fromLeBytes_injective (by simp) hsame).symm
    refine ⟨invalidData "segment record checksum mismatch", fun start ↦ ?_⟩
    have htake : (frame.body ++ rest).take frame.body.length = frame.body := List.take_left
    have hread : readFrameHeader ⟨start, flipBit frame.bytes position bit ++ rest⟩ =
        .ok (some ((frame.body.length, fromLeBytes (flipBit stored (position - 4) bit)),
          ⟨start + 4 + 4, frame.body ++ rest⟩)) := by
      rw [hflip]
      simp only [readFrameHeader, List.append_assoc, segmentRecordBaseHeaderLen, segmentChecksumLen]
      rw [readExact_append (length_toLeBytes 4 _)]
      simp only [fromLeBytes_toLeBytes (frame.length_body_le.trans_lt hword),
        if_neg (Nat.not_lt.mpr frame.length_body_le)]
      rw [readExact_append (by simp [hlen])]
      rfl
    simp only [readRecordBody, hread, bind, Except.bind, htake, ne_eq, not_true_eq_false, if_false,
      failIf, hchecksum, not_false_eq_true, if_true]
    rfl

/-! ### Opening -/

/-- The flipped bit lies in the length field of a frame, and reading on from that frame ends inside
a frame. -/
def MisreadLength (encoded : List (List UInt8)) (position bit : ℕ) : Prop :=
  ∃ count < encoded.length, frameEnd encoded count ≤ position ∧
    position < frameEnd encoded count + segmentRecordBaseHeaderLen ∧
    EndsInside (.seek (flipBit (segmentFormatMagic ++ encoded.flatten) position bit)
      (frameEnd encoded count))

/-- The frame that an offset lies in. -/
theorem exists_frame_at {frames : List (Frame N)} {offset : ℕ}
    (h : offset < (framesBytes frames).length) : ∃ before frame after,
      frames = before ++ frame :: after ∧ (framesBytes before).length ≤ offset ∧
      offset < (framesBytes before).length + frame.bytes.length := by
  induction frames generalizing offset with
  | nil => nomatch h
  | cons frame rest ih =>
    by_cases hfirst : offset < frame.bytes.length
    · exact ⟨[], frame, rest, rfl, Nat.zero_le _, by simpa using hfirst⟩
    · rw [framesBytes_cons, List.length_append] at h
      obtain ⟨before, found, after, hsplit, hle, hlt⟩ :=
        @ih (offset - frame.bytes.length) (by omega)
      refine ⟨frame :: before, found, after, by rw [hsplit]; rfl, ?_, ?_⟩
      · rw [framesBytes_cons, List.length_append]
        omega
      · rw [framesBytes_cons, List.length_append]
        omega

/-- A flipped bit leaves the frames before it as they are. -/
theorem flipBit_segmentBytes (before after : List (Frame N)) {position : ℕ}
    (h : (segmentBytes before).length ≤ position) (bit : ℕ) :
    flipBit (segmentBytes (before ++ after)) position bit = segmentFormatMagic ++
      (framesBytes before ++
        flipBit (framesBytes after) (position - (segmentBytes before).length) bit) := by
  have hsplit : segmentBytes (before ++ after) = segmentBytes before ++ framesBytes after := by
    rw [segmentBytes, framesBytes_append, ← List.append_assoc]
    rfl
  rw [hsplit, flipBit_append_right h, segmentBytes, List.append_assoc]

theorem seek_flipBit (before after : List (Frame N)) {position : ℕ}
    (h : (segmentBytes before).length ≤ position) (bit : ℕ) :
    Stream.seek (flipBit (segmentBytes (before ++ after)) position bit)
        (segmentBytes before).length =
      ⟨(segmentBytes before).length,
        flipBit (framesBytes after) (position - (segmentBytes before).length) bit⟩ := by
  rw [flipBit_segmentBytes before after h, ← List.append_assoc, Stream.seek]
  exact congrArg _ List.drop_left

/-- Reading a segment with a flipped bit ends inside a frame exactly if the bit makes the length of
a frame unreadable. -/
theorem endsInside_flipBit_iff (frames : List (Frame N)) {position bit : ℕ}
    (hheader : segmentFileHeaderLen ≤ position)
    (hposition : position < (segmentBytes frames).length) (hbit : bit < 8) {rest : List UInt8}
    (hrest : flipBit (segmentBytes frames) position bit = segmentFormatMagic ++ rest) :
    EndsInside ⟨segmentFileHeaderLen, rest⟩ ↔
      MisreadLength (frames.map Frame.bytes) position bit := by
  -- Reading gets to every frame at or before the flipped bit.
  have hreach (before after : List (Frame N)) (hframes : frames = before ++ after)
      (hle : (segmentBytes before).length ≤ position) :
      EndsInside ⟨segmentFileHeaderLen, rest⟩ ↔
        EndsInside (.seek (flipBit (segmentBytes frames) position bit)
          (segmentBytes before).length) := by
    subst hframes
    have htail := List.append_cancel_left (hrest.symm.trans
      (flipBit_segmentBytes before after hle bit))
    rw [htail, endsInside_frames, ← length_segmentBytes, seek_flipBit before after hle]
  have hend (before after : List (Frame N)) (hframes : frames = before ++ after) :
      frameEnd (frames.map Frame.bytes) before.length = (segmentBytes before).length := by
    rw [frameEnd_map_bytes, hframes, List.take_left, length_segmentBytes]
  constructor
  · intro hinside
    have hoffset : position - segmentFileHeaderLen < (framesBytes frames).length := by
      rw [length_segmentBytes] at hposition
      omega
    obtain ⟨before, frame, after, hframes, hle, hlt⟩ := exists_frame_at hoffset
    have hstart : (segmentBytes before).length ≤ position := by
      rw [length_segmentBytes]
      omega
    rw [hreach before _ hframes hstart] at hinside
    refine ⟨before.length, ?_, ?_, ?_, ?_⟩
    · rw [List.length_map, hframes, List.length_append, List.length_cons]
      omega
    · rwa [hend before _ hframes]
    · rw [hend before _ hframes]
      by_contra hafter
      have hfield : segmentRecordBaseHeaderLen ≤ position - (segmentBytes before).length := by
        omega
      have hin : position - (segmentBytes before).length < frame.bytes.length := by
        rw [length_segmentBytes]
        omega
      obtain ⟨error, herror⟩ := readRecordBody_flipBit frame hfield hin hbit (framesBytes after)
      rw [hframes, seek_flipBit before _ hstart, framesBytes_cons,
        flipBit_append_left hin] at hinside
      exact endsInside_of_error (herror _) hinside
    · rwa [hend before _ hframes]
  · rintro ⟨count, hcount, hle, -, hinside⟩
    rw [List.length_map] at hcount
    have hframes : frames = frames.take count ++ frames.drop count :=
      (List.take_append_drop count frames).symm
    have hlength : (frames.take count).length = count := by
      rw [List.length_take, Nat.min_eq_left hcount.le]
    have hstart := hend (frames.take count) _ hframes
    rw [hlength] at hstart
    rw [hreach (frames.take count) _ hframes (hstart ▸ hle), ← hstart]
    exact hinside

/-- Opening leaves the active segment as it is, and reports nothing but invalid data. -/
structure KeepsSegment (fs : Fs) (active : ℕ) (result : Except IoError StorageEngine × Fs) :
    Prop where
  bytes : result.2.segments[active]?.map SegmentFile.bytes =
    fs.segments[active]?.map SegmentFile.bytes
  invalid : OnlyInvalid result.1

theorem keepsSegment_of_eq {result : Except IoError StorageEngine × Fs} (h : result.2 = fs)
    (hinvalid : OnlyInvalid result.1) : KeepsSegment fs active result :=
  ⟨by rw [h], hinvalid⟩

/-- Opening a directory whose active segment has a flipped bit leaves the segment as it is exactly
if another segment is refused first or the bit does not make the length of a frame unreadable. -/
theorem open_flipBit_iff {records : List (NodeId × Record N)} {encoded : List (List UInt8)}
    (hencoded : encodeRecordFrames records = .ok encoded) {position bit : ℕ}
    (hposition : position < (segmentFormatMagic ++ encoded.flatten).length) (hbit : bit < 8)
    (hactive : IsActive fs active) (hfile : fs.segments[active]? = some file)
    (hbytes : file.bytes = flipBit (segmentFormatMagic ++ encoded.flatten) position bit)
    {maxSegmentLen : ℕ} (hmax : maxSegmentLen ≠ 0) :
    KeepsSegment fs active (opened N maxSegmentLen fs) ↔
      RefusesBefore fs active ∨ ¬ MisreadLength encoded position bit := by
  obtain ⟨frames, -, hframes, rfl⟩ := exists_frames_of_encodeRecordFrames hencoded
  rw [← hframes] at hposition hbytes
  change position < (segmentBytes frames).length at hposition
  change file.bytes = flipBit (segmentBytes frames) position bit at hbytes
  by_cases hheader : segmentFileHeaderLen ≤ position
  · have hrest := flipBit_segmentBytes [] frames (by simpa [length_segmentBytes] using hheader) bit
    rw [List.nil_append, framesBytes_nil, List.nil_append] at hrest
    rw [← endsInside_flipBit_iff frames hheader hposition hbit hrest]
    rcases @run_open_records N fs active file hactive hfile _ (hbytes.trans hrest)
      maxSegmentLen hmax
      with ⟨hrefused, error, hkind, hopen⟩ |
        ⟨hpassed, ⟨hinside, start, -, hlt, -, hopen⟩ | ⟨hnot, hopen, hinvalid⟩⟩
    · refine ⟨fun _ ↦ .inl hrefused, fun _ ↦ keepsSegment_of_eq (by rw [hopen]) ?_⟩
      rw [hopen]
      exact fun _ hsame ↦ Except.error.inj hsame ▸ hkind
    · refine ⟨fun hkeeps ↦ ?_, fun h ↦ (h.elim hpassed (· hinside)).elim⟩
      have hcut := hkeeps.bytes
      rw [hopen, getElem?_setLen hfile, hfile, Option.map_some, Option.map_some,
        Option.some.injEq] at hcut
      have hlength := congrArg List.length hcut
      rw [List.length_take] at hlength
      omega
    · exact ⟨fun _ ↦ .inr hnot, fun _ ↦ keepsSegment_of_eq hopen hinvalid⟩
  · have hlong : segmentFileHeaderLen ≤ file.bytes.length := by
      rw [hbytes, length_flipBit, length_segmentBytes]
      exact Nat.le_add_right _ _
    have hmagic : file.bytes.take segmentFileHeaderLen ≠ segmentFormatMagic := by
      have hin : position < segmentFormatMagic.length := Nat.not_le.mp hheader
      have htake : (flipBit segmentFormatMagic position bit ++ framesBytes frames).take
          segmentFileHeaderLen = flipBit segmentFormatMagic position bit :=
        List.take_left' (length_flipBit _ _ _)
      rw [hbytes, segmentBytes, flipBit_append_left hin, htake]
      exact flipBit_ne hin hbit
    have hkept := run_open_magic (N := N) hactive hfile hlong hmagic hmax
    refine ⟨fun _ ↦ .inr ?_, fun _ ↦ keepsSegment_of_eq hkept.1 hkept.2⟩
    rintro ⟨count, -, hle, -, -⟩
    exact hheader ((Nat.le_add_right _ _).trans hle)

/-- The directory of an application that created a node, with one bit of the segment flipped. -/
def flippedDir (position bit : ℕ) : Fs :=
  createdDir.modifySegment 0 fun file ↦ { file with bytes := flipBit file.bytes position bit }

theorem exists_flippedDir (position bit : ℕ) : ∃ encoded file,
    encodeRecordFrames [creatingRecord] = .ok encoded ∧ IsActive (flippedDir position bit) 0 ∧
    (flippedDir position bit).segments[0]? = some file ∧
    file.bytes = flipBit (segmentFormatMagic ++ encoded.flatten) position bit ∧
    (segmentFormatMagic ++ encoded.flatten).length = createdDir.fileLen 0 := by
  obtain ⟨encoded, file, hencoded, hactive, hfile, hbytes⟩ := exists_createdDir
  refine ⟨encoded, { file with bytes := flipBit file.bytes position bit }, hencoded,
    hactive.modifySegment _ _, ?_, by rw [hbytes], ?_⟩
  · rw [flippedDir, Fs.getElem?_modifySegment, if_pos rfl, hfile, Option.map_some]
  · rw [Fs.fileLen, hfile, ← hbytes]

/-- A flipped bit of the length of the only record: the record is cut off. -/
theorem open_flipBit_truncates : ∃ encoded file,
    encodeRecordFrames [creatingRecord] = .ok encoded ∧
    5 < (segmentFormatMagic ++ encoded.flatten).length ∧ IsActive (flippedDir 5 0) 0 ∧
    (flippedDir 5 0).segments[0]? = some file ∧
    file.bytes = flipBit (segmentFormatMagic ++ encoded.flatten) 5 0 ∧
    ¬ KeepsSegment (flippedDir 5 0) 0 (opened Noraft.ofLists 64 (flippedDir 5 0)) := by
  obtain ⟨encoded, file, hencoded, hactive, hfile, hbytes, hlength⟩ := exists_flippedDir 5 0
  have hlong : 5 < createdDir.fileLen 0 := by decide +kernel
  have hcut : (opened Noraft.ofLists 64 (flippedDir 5 0)).2.fileLen 0 ≠
      (flippedDir 5 0).fileLen 0 := by
    decide +kernel
  refine ⟨encoded, file, hencoded, hlength ▸ hlong, hactive, hfile, hbytes, fun hkeeps ↦ hcut ?_⟩
  have hlengths := congrArg (Option.map List.length) hkeeps.bytes
  rw [hfile, Option.map_some, Option.map_some, Option.map_map, Option.map_eq_some_iff] at hlengths
  obtain ⟨file', hfile', hsame⟩ := hlengths
  rw [Fs.fileLen, Fs.fileLen, hfile, hfile']
  exact hsame

/-- A flipped bit in the body of the only record: the segment is kept. -/
theorem open_flipBit_iff_body : ∃ encoded, encodeRecordFrames [creatingRecord] = .ok encoded ∧
    KeepsSegment (flippedDir 20 3) 0 (opened Noraft.ofLists 64 (flippedDir 20 3)) := by
  obtain ⟨encoded, file, hencoded, hactive, hfile, hbytes, hlength⟩ := exists_flippedDir 20 3
  have hlong : 20 < createdDir.fileLen 0 := by decide +kernel
  refine ⟨encoded, hencoded, (open_flipBit_iff hencoded (hlength ▸ hlong) (by decide) hactive hfile
    hbytes (by decide)).mpr (.inr ?_)⟩
  rintro ⟨count, hcount, -, hlt, -⟩
  obtain ⟨frames, hrecords, -, rfl⟩ := exists_frames_of_encodeRecordFrames hencoded
  have hsingle : frames.length = 1 := by simpa using congrArg List.length hrecords
  obtain rfl : count = 0 := by simpa [hsingle] using hcount
  simp only [frameEnd, List.take_zero, List.flatten_nil, List.length_nil, segmentFileHeaderLen,
    segmentRecordBaseHeaderLen] at hlt
  omega

end Sukari
