import Sukari.RecordFormat

/-!
# Frames

A `Frame` is a record that the encoder accepts for a node: validity and the body limit are fields,
so every frame has bytes, and `encodeRecordFrame_eq_ok_iff` says that the encoder succeeds exactly
with the bytes of a frame. Both readers of frames return a frame that stands at their position and
go on behind it (`readRecordBody_bytes`, `scanRecordFrame_bytes`), and both report the end of the
data on a frame that is cut short (`readRecordBody_cut`, `scanRecordFrame_cut`).
-/

set_option autoImplicit false
set_option relaxedAutoImplicit false

namespace Sukari

open LittleEndian

/-- A record that can be written for a node. -/
structure Frame (N : Noraft) where
  nodeId : NodeId
  record : Record N
  valid : RecordValid record
  fits : (bodyImage nodeId record).length ≤ maxRecordBodyLen

variable {N : Noraft}

namespace Frame

/-- The record with its node. -/
def nodeRecord (frame : Frame N) : NodeId × Record N := (frame.nodeId, frame.record)

def body (frame : Frame N) : List UInt8 := bodyImage frame.nodeId frame.record

/-- The bytes of a frame in a segment file. -/
def bytes (frame : Frame N) : List UInt8 := frameHeader frame.body ++ frame.body

theorem length_bytes (frame : Frame N) : frame.bytes.length = 8 + frame.body.length := by
  simp only [bytes, frameHeader, List.length_append, length_toLeBytes]

theorem length_body_le (frame : Frame N) : frame.body.length ≤ maxRecordBodyLen := frame.fits

theorem length_bytes_le (frame : Frame N) : frame.bytes.length ≤ 8 + maxRecordBodyLen := by
  rw [length_bytes]
  exact Nat.add_le_add_left frame.fits 8

theorem decodeRecordNodeId_body (frame : Frame N) :
    decodeRecordNodeId frame.body = .ok frame.nodeId := decodeRecordNodeId_bodyImage frame.fits

theorem decodeNodeRecord_body (frame : Frame N) :
    decodeNodeRecord N frame.body = .ok (frame.nodeId, frame.record) :=
  decodeNodeRecord_bodyImage frame.valid frame.fits

end Frame

/-- The encoder succeeds exactly with the bytes of a frame. -/
theorem encodeRecordFrame_eq_ok_iff {nodeId : NodeId} {record : Record N} {bytes : List UInt8} :
    encodeRecordFrame nodeId record = .ok bytes ↔
      ∃ frame : Frame N, frame.nodeId = nodeId ∧ frame.record = record ∧ frame.bytes = bytes := by
  have hword : maxRecordBodyLen < 2 ^ 32 := by decide
  simp only [encodeRecordFrame, bind_eq_ok_iff, encodeBody_eq_ok_iff, failIf_eq_ok_iff, not_le,
    not_lt]
  constructor
  · rintro ⟨body, ⟨hvalid, hfits, rfl⟩, -, -, -, -, hbytes⟩
    exact ⟨⟨nodeId, record, hvalid, hfits⟩, rfl, rfl, Except.ok.inj hbytes⟩
  · rintro ⟨frame, rfl, rfl, rfl⟩
    exact ⟨frame.body, ⟨frame.valid, frame.fits, rfl⟩, (), frame.fits.trans_lt hword, (),
      frame.fits, rfl⟩

/-! ### Reading frames -/

theorem readExact_append {position : ℕ} {bytes rest : List UInt8} {len : ℕ}
    (h : bytes.length = len) : Stream.readExact ⟨position, bytes ++ rest⟩ len =
      some (bytes, ⟨position + len, rest⟩) := by
  subst h
  simp [Stream.readExact, Stream.skip]

theorem readExact_short {stream : Stream} {len : ℕ} (h : stream.rest.length < len) :
    stream.readExact len = none := if_neg (Nat.not_le.mpr h)

/-- The two words in front of a body. -/
theorem readFrameHeader_frameHeader {position : ℕ} {body rest : List UInt8}
    (hfits : body.length ≤ maxRecordBodyLen) :
    readFrameHeader ⟨position, frameHeader body ++ rest⟩ =
      .ok (some ((body.length, (Crc32c.crc32c body).toNat), ⟨position + 8, rest⟩)) := by
  have hword : maxRecordBodyLen < 256 ^ 4 := by decide
  have hcrc : (Crc32c.crc32c body).toNat < 256 ^ 4 := (Crc32c.crc32c body).toNat_lt
  simp only [readFrameHeader, frameHeader, List.append_assoc, segmentRecordBaseHeaderLen,
    segmentChecksumLen]
  rw [readExact_append (length_toLeBytes 4 _)]
  simp only [fromLeBytes_toLeBytes (hfits.trans_lt hword), if_neg (Nat.not_lt.mpr hfits)]
  rw [readExact_append (length_toLeBytes 4 _)]
  simp only [fromLeBytes_toLeBytes hcrc]
  rfl

theorem readRecordBody_bytes (frame : Frame N) (position : ℕ) (rest : List UInt8) :
    readRecordBody ⟨position, frame.bytes ++ rest⟩ =
      .ok (some (frame.body, ⟨position + frame.bytes.length, rest⟩)) := by
  have hlength := frame.length_bytes
  have htake : (frame.body ++ rest).take frame.body.length = frame.body := by simp
  simp only [readRecordBody, Frame.bytes, List.append_assoc, bind, Except.bind,
    readFrameHeader_frameHeader frame.length_body_le, htake, ne_eq, not_true_eq_false,
    if_false, Stream.skip, List.drop_left]
  rw [← Frame.bytes, hlength]
  simp [failIf, pure, Except.pure, Nat.add_assoc]

/-- A stream that ends before the frame does holds no record. -/
theorem readRecordBody_cut (frame : Frame N) (position : ℕ) {tail : List UInt8}
    (hstarts : tail <+: frame.bytes) (hcut : tail ≠ frame.bytes) :
    readRecordBody ⟨position, tail⟩ = .ok none := by
  have hlength : tail.length < frame.bytes.length :=
    lt_of_le_of_ne hstarts.length_le fun h ↦ hcut (hstarts.eq_of_length h)
  rw [Frame.length_bytes] at hlength
  have hword : maxRecordBodyLen < 256 ^ 4 := by decide
  have htake (len : ℕ) (hlen : len ≤ tail.length) : tail.take len = frame.bytes.take len := by
    rw [List.prefix_iff_eq_take.mp hstarts, List.take_take, Nat.min_eq_left hlen]
  by_cases hheader : tail.length < 8
  · have hnone : readFrameHeader ⟨position, tail⟩ = .ok none := by
      unfold readFrameHeader
      by_cases hbase : tail.length < segmentRecordBaseHeaderLen
      · rw [readExact_short hbase]
        rfl
      · have hfirst : tail.take 4 = toLeBytes 4 frame.body.length := by
          rw [htake 4 (Nat.not_lt.mp hbase), Frame.bytes, frameHeader, List.append_assoc,
            List.take_left' (length_toLeBytes 4 _)]
        have hread : Stream.readExact ⟨position, tail⟩ segmentRecordBaseHeaderLen =
            some (toLeBytes 4 frame.body.length, ⟨position + 4, tail.drop 4⟩) := by
          rw [← hfirst]
          exact if_pos (Nat.not_lt.mp hbase)
        have hshort : (tail.drop 4).length < segmentChecksumLen := by
          rw [List.length_drop, segmentChecksumLen]
          omega
        rw [hread]
        simp only [fromLeBytes_toLeBytes (frame.fits.trans_lt hword), Frame.body,
          if_neg (Nat.not_lt.mpr frame.fits)]
        rw [readExact_short hshort]
        rfl
    rw [readRecordBody, hnone]
    rfl
  · obtain ⟨rest, hrest⟩ : ∃ rest, tail = frameHeader frame.body ++ rest := by
      have hlen : (frameHeader frame.body).length = 8 := by simp [frameHeader]
      refine ⟨tail.drop 8, ?_⟩
      have hfirst : tail.take 8 = frameHeader frame.body := by
        rw [htake 8 (Nat.not_lt.mp hheader), Frame.bytes, List.take_left' hlen]
      rw [← hfirst, List.take_append_drop]
    subst hrest
    have hshort : (rest.take frame.body.length).length ≠ frame.body.length := by
      simp only [frameHeader, List.length_append, length_toLeBytes] at hlength
      rw [List.length_take]
      omega
    rw [readRecordBody, readFrameHeader_frameHeader frame.length_body_le]
    simp only [bind, Except.bind, if_pos hshort]
    rfl

/-! ### The two readers agree -/

/-- The chunked loop computes the checksum of the whole body, or finds the stream too short. -/
theorem scanChunks_eq {rounds remaining : ℕ} (hrounds : remaining ≤ rounds) (crc : UInt32)
    (stream : Stream) : scanChunks rounds remaining crc stream =
      if remaining ≤ stream.rest.length then
        some (Crc32c.update crc (stream.rest.take remaining), stream.skip remaining)
      else none := by
  induction rounds generalizing remaining crc stream with
  | zero =>
    have hzero : remaining = 0 := Nat.le_zero.mp hrounds
    subst hzero
    simp [scanChunks, Stream.skip, Crc32c.update, Crc32c.updateBytes]
  | succ rounds ih =>
    cases remaining with
    | zero => simp [scanChunks, Stream.skip, Crc32c.update, Crc32c.updateBytes]
    | succ remaining =>
      have hbuffer : 0 < scanBufferLen := by decide
      simp only [scanChunks]
      generalize hread : min (remaining + 1) scanBufferLen = readLen
      have hpos : 0 < readLen := by omega
      have hle : readLen ≤ remaining + 1 := by omega
      by_cases hlen : readLen ≤ stream.rest.length
      · have hchunk : Stream.readExact stream readLen =
            some (stream.rest.take readLen, stream.skip readLen) := if_pos hlen
        rw [hchunk]
        simp only
        rw [ih (by omega)]
        simp only [Stream.skip, List.length_drop, List.drop_drop]
        have hiff : remaining + 1 - readLen ≤ stream.rest.length - readLen ↔
            remaining + 1 ≤ stream.rest.length := by omega
        simp only [hiff]
        have hsplit : stream.rest.take (remaining + 1) = stream.rest.take readLen ++
            (stream.rest.drop readLen).take (remaining + 1 - readLen) := by
          rw [← List.take_add, Nat.add_sub_cancel' hle]
        split
        · have hupdate : Crc32c.update crc (stream.rest.take (remaining + 1)) =
              Crc32c.update (Crc32c.update crc (stream.rest.take readLen))
                ((stream.rest.drop readLen).take (remaining + 1 - readLen)) := by
            by_cases hlast : readLen = remaining + 1
            · -- The last chunk may have any length, and nothing follows it.
              rw [hlast, Nat.sub_self, List.take_zero]
              rfl
            · rw [hsplit]
              have hfull : readLen = 16 * 512 := by
                have : scanBufferLen = 8192 := rfl
                omega
              exact Crc32c.update_append 512 (by rw [List.length_take, hfull]; omega) _ _
          rw [hupdate]
          have hskip : readLen + (remaining + 1 - readLen) = remaining + 1 := by omega
          simp only [Nat.add_assoc, hskip]
        · rfl
      · rw [readExact_short (Nat.not_le.mp hlen), if_neg (by omega)]

/-- Recovery and replay reach the same verdict on a frame. -/
theorem scanRecordFrame_eq (stream : Stream) : scanRecordFrame stream =
    (readRecordBody stream).map (Option.map fun found ↦ ((), found.2)) := by
  unfold scanRecordFrame readRecordBody
  rcases readFrameHeader stream with error | _ | ⟨⟨bodyLen, expectedChecksum⟩, stream⟩
  · rfl
  · rfl
  · simp only [bind, Except.bind]
    rw [scanChunks_eq le_rfl]
    by_cases hlen : bodyLen ≤ stream.rest.length
    · have hbody : ¬ (stream.rest.take bodyLen).length ≠ bodyLen := by
        rw [List.length_take]
        omega
      rw [if_pos hlen, if_neg hbody]
      have hvalue : Crc32c.crc32c (stream.rest.take bodyLen) =
          Crc32c.value (Crc32c.update Crc32c.initial (stream.rest.take bodyLen)) := rfl
      simp only [hvalue]
      cases (failIf ((Crc32c.value (Crc32c.update Crc32c.initial
        (stream.rest.take bodyLen))).toNat ≠ expectedChecksum)
          (invalidData "segment record checksum mismatch") : Except IoError Unit) <;> rfl
    · have hbody : (stream.rest.take bodyLen).length ≠ bodyLen := by
        rw [List.length_take]
        omega
      rw [if_neg hlen, if_pos hbody]
      rfl

/-- A frame that was read takes its bytes from the stream. -/
theorem skip_of_readRecordBody {stream stream' : Stream} {body : List UInt8}
    (h : readRecordBody stream = .ok (some (body, stream'))) :
    8 + body.length ≤ stream.rest.length ∧ stream' = stream.skip (8 + body.length) ∧
      body.length ≤ maxRecordBodyLen := by
  have hexact {stream stream' : Stream} {len : ℕ} {bytes : List UInt8}
      (h : stream.readExact len = some (bytes, stream')) :
      len ≤ stream.rest.length ∧ stream' = stream.skip len := by
    unfold Stream.readExact at h
    split at h
    · next hlen => exact ⟨hlen, (Prod.mk.inj (Option.some.inj h)).2.symm⟩
    · cases h
  have hskip (stream : Stream) (first second : ℕ) :
      (stream.skip first).skip second = stream.skip (first + second) := by
    simp only [Stream.skip, Nat.add_assoc, List.drop_drop]
  rw [readRecordBody, bind_eq_ok_iff] at h
  obtain ⟨header, hheader, h⟩ := h
  cases header with
  | none => cases h
  | some found =>
    obtain ⟨⟨bodyLen, checksum⟩, behind⟩ := found
    have hwords : 8 ≤ stream.rest.length ∧ behind = stream.skip 8 ∧ bodyLen ≤ maxRecordBodyLen := by
      unfold readFrameHeader at hheader
      split at hheader
      · cases hheader
      · next hlength =>
        dsimp only at hheader
        split at hheader
        · cases hheader
        · next hlimit =>
          split at hheader
          · cases hheader
          · next hchecksum =>
            obtain ⟨hwords, rfl⟩ := Prod.mk.inj (Option.some.inj (Except.ok.inj hheader))
            obtain rfl := (Prod.mk.inj hwords).1
            obtain ⟨hfirst, rfl⟩ := hexact hlength
            obtain ⟨hsecond, rfl⟩ := hexact hchecksum
            simp only [Stream.skip, List.length_drop, segmentRecordBaseHeaderLen,
              segmentChecksumLen] at hfirst hsecond
            exact ⟨by omega, hskip _ _ _, Nat.not_lt.mp hlimit⟩
    obtain ⟨hheaderLen, rfl, hlimit⟩ := hwords
    dsimp only at h
    split at h
    · cases h
    · next hbody =>
      rw [check_bind_eq_ok_iff] at h
      obtain ⟨rfl, rfl⟩ := Prod.mk.inj (Option.some.inj (Except.ok.inj h.2))
      have hlen : ((stream.skip 8).rest.take bodyLen).length = bodyLen := not_not.mp hbody
      have hle := List.length_take_le' bodyLen (stream.skip 8).rest
      rw [hlen] at hle ⊢
      simp only [Stream.skip, List.length_drop] at hle
      exact ⟨by omega, hskip _ _ _, hlimit⟩

theorem readExact_eq_some_iff {stream behind : Stream} {len : ℕ} {bytes : List UInt8} :
    stream.readExact len = some (bytes, behind) ↔
      len ≤ stream.rest.length ∧ bytes = stream.rest.take len ∧ behind = stream.skip len := by
  unfold Stream.readExact
  split
  · next hlen =>
    rw [Option.some.injEq, Prod.mk.injEq, eq_comm, @eq_comm _ (stream.skip len)]
    exact ⟨fun h ↦ ⟨hlen, h⟩, And.right⟩
  · next hlen =>
    constructor
    · intro h
      cases h
    · exact fun h ↦ absurd h.1 hlen

/-- The frames that are read are those with the length and the checksum of their body in front. -/
theorem readRecordBody_eq_some_iff {position : ℕ} {bytes body : List UInt8} {behind : Stream} :
    readRecordBody ⟨position, bytes⟩ = .ok (some (body, behind)) ↔
      body.length ≤ maxRecordBodyLen ∧ bytes = frameHeader body ++ (body ++ behind.rest) ∧
        behind.position = position + (8 + body.length) := by
  constructor
  · intro h
    obtain ⟨-, rfl, hfits⟩ := skip_of_readRecordBody h
    refine ⟨hfits, ?_, rfl⟩
    rw [readRecordBody, bind_eq_ok_iff] at h
    obtain ⟨header, hheader, h⟩ := h
    cases header with
    | none => cases h
    | some found =>
      obtain ⟨⟨bodyLen, checksum⟩, inner⟩ := found
      unfold readFrameHeader at hheader
      split at hheader
      · cases hheader
      · next lenBytes afterLen hlength =>
        dsimp only at hheader
        split at hheader
        · cases hheader
        · split at hheader
          · cases hheader
          · next checksumBytes afterChecksum hchecksum =>
            obtain ⟨hwords, rfl⟩ := Prod.mk.inj (Option.some.inj (Except.ok.inj hheader))
            obtain ⟨rfl, rfl⟩ := Prod.mk.inj hwords
            obtain ⟨hfirst, rfl, rfl⟩ := readExact_eq_some_iff.mp hlength
            obtain ⟨hsecond, rfl, rfl⟩ := readExact_eq_some_iff.mp hchecksum
            simp only [Stream.skip, segmentRecordBaseHeaderLen, segmentChecksumLen,
              List.drop_drop, Nat.reduceAdd] at h hfirst hsecond ⊢
            split at h
            · cases h
            · next hbody =>
              rw [check_bind_eq_ok_iff, failIf_eq_ok_iff, not_not] at h
              obtain ⟨hcrc, h⟩ := h
              obtain ⟨hbodyBytes, -⟩ := Prod.mk.inj (Option.some.inj (Except.ok.inj h))
              rw [not_not, hbodyBytes] at hbody
              rw [hbodyBytes] at hcrc
              have hwhole : body ++ bytes.drop (8 + body.length) = bytes.drop 8 := by
                rw [← List.drop_drop, hbody]
                nth_rewrite 1 [← hbodyBytes]
                exact List.take_append_drop _ _
              have hlenWord : toLeBytes 4 body.length = bytes.take 4 := by
                have hword := toLeBytes_fromLeBytes (bytes.take 4)
                rwa [List.length_take, Nat.min_eq_left hfirst, ← hbody] at hword
              have hcrcWord : toLeBytes 4 (Crc32c.crc32c body).toNat = (bytes.drop 4).take 4 := by
                have hword := toLeBytes_fromLeBytes ((bytes.drop 4).take 4)
                rwa [List.length_take, Nat.min_eq_left hsecond, ← hcrc] at hword
              rw [hwhole, frameHeader, hlenWord, hcrcWord, List.append_assoc]
              have height : bytes.drop 8 = (bytes.drop 4).drop 4 := by rw [List.drop_drop]
              rw [height, List.take_append_drop, List.take_append_drop]
  · rintro ⟨hfits, rfl, hposition⟩
    obtain ⟨place, rest⟩ := behind
    obtain rfl : place = position + (8 + body.length) := hposition
    simp only [readRecordBody, bind, Except.bind, readFrameHeader_frameHeader hfits,
      List.take_left, ne_eq, not_true_eq_false, if_false, Stream.skip, List.drop_left]
    simp [failIf, pure, Except.pure, Nat.add_assoc]

/-- A frame is read in the same way if the file ends somewhere behind it. -/
theorem readRecordBody_take {position len : ℕ} {bytes body : List UInt8} {behind : Stream}
    (h : readRecordBody ⟨position, bytes⟩ = .ok (some (body, behind)))
    (hlen : 8 + body.length ≤ len) :
    readRecordBody ⟨position, bytes.take len⟩ =
      .ok (some (body, ⟨behind.position, behind.rest.take (len - (8 + body.length))⟩)) := by
  obtain ⟨hfits, rfl, hposition⟩ := readRecordBody_eq_some_iff.mp h
  refine readRecordBody_eq_some_iff.mpr ⟨hfits, ?_, hposition⟩
  have hheader : (frameHeader body).length = 8 := by simp [frameHeader, length_toLeBytes]
  rw [List.take_append, List.take_append, List.take_of_length_le (by omega),
    List.take_of_length_le (by omega), hheader, Nat.sub_sub]

end Sukari
