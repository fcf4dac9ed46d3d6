import Sukari.Survey

/-!
# Encoded records are read back

Every record that the encoder accepts is read back from its frame, whatever follows the frame, and
the decoder returns exactly the record and its node. A segment that was built from a list of frames
is read back as the list of their records (`decode_encodeRecordFrame`).
-/

set_option autoImplicit false
set_option relaxedAutoImplicit false

namespace Sukari

variable {N : Noraft}

/-- The bytes are a frame around a body that the reader returns and the decoder understands. -/
def ReadsBack (nodeId : NodeId) (record : Record N) (bytes : List UInt8) : Prop :=
  ∃ body, bytes = frameHeader body ++ body ∧
    (∀ position rest, readRecordBody ⟨position, bytes ++ rest⟩ =
      .ok (some (body, ⟨position + bytes.length, rest⟩))) ∧
    decodeRecordNodeId body = .ok nodeId ∧ decodeNodeRecord N body = .ok (nodeId, record)

/-- The frames of records that are written one after the other. -/
def encodeRecordFrames (records : List (NodeId × Record N)) : Except IoError (List (List UInt8)) :=
  records.mapM fun (nodeId, record) ↦ encodeRecordFrame nodeId record

theorem Frame.readsBack (frame : Frame N) : ReadsBack frame.nodeId frame.record frame.bytes :=
  ⟨frame.body, rfl, fun position rest ↦ readRecordBody_bytes frame position rest,
    frame.decodeRecordNodeId_body, frame.decodeNodeRecord_body⟩

/-- Records that were encoded are the records of frames. -/
theorem exists_frames_of_encodeRecordFrames {records : List (NodeId × Record N)}
    {encoded : List (List UInt8)} (h : encodeRecordFrames records = .ok encoded) :
    ∃ frames : List (Frame N), frames.map Frame.nodeRecord = records ∧
      framesBytes frames = encoded.flatten ∧ frames.map Frame.bytes = encoded := by
  induction records generalizing encoded with
  | nil =>
    obtain rfl : [] = encoded := Except.ok.inj h
    exact ⟨[], rfl, rfl, rfl⟩
  | cons item rest ih =>
    obtain ⟨nodeId, record⟩ := item
    simp only [encodeRecordFrames, List.mapM_cons, bind_eq_ok_iff] at h
    obtain ⟨bytes, hbytes, encoded', hrest, hencoded⟩ := h
    obtain rfl : bytes :: encoded' = encoded := Except.ok.inj hencoded
    obtain ⟨frame, rfl, rfl, rfl⟩ := encodeRecordFrame_eq_ok_iff.mp hbytes
    obtain ⟨frames, hrecords, hflatten, hframes⟩ := ih hrest
    refine ⟨frame :: frames, ?_, ?_, ?_⟩
    · rw [List.map_cons, hrecords]
      rfl
    · rw [framesBytes_cons, hflatten, List.flatten_cons]
    · rw [List.map_cons, hframes]

/-- Decoding undoes encoding, for a record and for the records of a segment. -/
theorem decode_encodeRecordFrame :
    (∀ (nodeId : NodeId) (record : Record N) (bytes : List UInt8),
      encodeRecordFrame nodeId record = .ok bytes → ReadsBack nodeId record bytes) ∧
    ∀ (records : List (NodeId × Record N)) (encoded : List (List UInt8)),
      encodeRecordFrames records = .ok encoded →
        (segmentRecords N (segmentFormatMagic ++ encoded.flatten)).map Prod.snd = records := by
  constructor
  · intro nodeId record bytes h
    obtain ⟨frame, rfl, rfl, rfl⟩ := encodeRecordFrame_eq_ok_iff.mp h
    exact frame.readsBack
  · intro records encoded h
    obtain ⟨frames, hrecords, hflatten, -⟩ := exists_frames_of_encodeRecordFrames h
    rw [← hflatten, ← hrecords]
    exact map_segmentRecords (contents_segmentBytes frames)

/-- A vote after a term, in one segment. -/
theorem decode_encodeRecordFrame_vote : ∃ bytes encoded,
    ReadsBack (N := Noraft.ofLists) 1 (.votedFor (some 2)) bytes ∧
      (segmentRecords Noraft.ofLists (segmentFormatMagic ++ List.flatten encoded)).map Prod.snd =
        [(1, .currentTerm 7), (1, .votedFor (some 2))] :=
  ⟨_, _, decode_encodeRecordFrame.1 1 (.votedFor (some 2)) _ rfl,
    decode_encodeRecordFrame.2 [(1, .currentTerm 7), (1, .votedFor (some 2))] _ rfl⟩

end Sukari
