import Sukari.Effects.Fallible
import Sukari.Journal
import Sukari.Replay

/-!
# What a pass sees in a segment file

`Contents frames bytes` says that a segment file with the given bytes holds the frames: behind the
header stand the frames and then, possibly, a part of one more frame, or the file holds no frames
and ends before the header does. A pass over such a file applies its visitor to the frames, in
order and with their positions (`passSegment_sees`). It ignores an incomplete end where it is told
to, and it asks for nothing but the bytes unless it has something to cut off.
-/

set_option autoImplicit false
set_option relaxedAutoImplicit false

namespace Sukari

open Effects

variable {N : Noraft}

/-- Some frame exists: one that sets the term of a node. -/
def Frame.someTerm (N : Noraft) : Frame N := ⟨0, .currentTerm 0, trivial, by
  simp [bodyImage, recordImage, u64Image, maxRecordBodyLen]⟩

variable (N) in
/-- A part of a frame that ends before the frame does. -/
def Torn (tail : List UInt8) : Prop := ∃ frame : Frame N, tail <+: frame.bytes ∧ tail ≠ frame.bytes

theorem torn_nil : Torn N [] := by
  refine ⟨.someTerm N, List.nil_prefix, fun h ↦ ?_⟩
  have hpos := length_bytes_pos (Frame.someTerm N)
  rw [← h] at hpos
  simp at hpos

theorem torn_take (frame : Frame N) {len : ℕ} (h : len < frame.bytes.length) :
    Torn N (frame.bytes.take len) := by
  refine ⟨frame, List.take_prefix _ _, fun heq ↦ ?_⟩
  have hlength := congrArg List.length heq
  rw [List.length_take] at hlength
  omega

theorem Torn.take {tail : List UInt8} (h : Torn N tail) (len : ℕ) : Torn N (tail.take len) := by
  obtain ⟨frame, hstarts, hne⟩ := h
  refine ⟨frame, (List.take_prefix _ _).trans hstarts, fun heq ↦ hne ?_⟩
  exact hstarts.eq_of_length_le (heq ▸ List.length_take_le' _ _)

/-- The bytes of a segment file that holds the frames and nothing else. -/
def segmentBytes (frames : List (Frame N)) : List UInt8 := segmentFormatMagic ++ framesBytes frames

theorem length_segmentBytes (frames : List (Frame N)) :
    (segmentBytes frames).length = segmentFileHeaderLen + (framesBytes frames).length := by
  rw [segmentBytes, List.length_append]
  rfl

/-- The file of a segment with the frames, whole or cut short by one write. -/
inductive Contents (frames : List (Frame N)) : List UInt8 → Prop
  | partialHeader (bytes : List UInt8) (hframes : frames = [])
      (hstarts : bytes <+: segmentFormatMagic) (hcut : bytes ≠ segmentFormatMagic) :
      Contents frames bytes
  | records (tail : List UInt8) (htail : Torn N tail) :
    Contents frames (segmentBytes frames ++ tail)

theorem contents_segmentBytes (frames : List (Frame N)) :
    Contents frames (segmentBytes frames) := by
  have hwhole : Contents frames (segmentBytes frames ++ []) := .records [] torn_nil
  simpa using hwhole

/-- A file that holds frames holds their bytes. -/
theorem length_le_of_contents {frames : List (Frame N)} {bytes : List UInt8}
    (h : Contents frames bytes) (hne : frames ≠ []) :
    segmentFileHeaderLen + (framesBytes frames).length ≤ bytes.length := by
  cases h with
  | partialHeader _ hframes => exact absurd hframes hne
  | records tail htail =>
    rw [List.length_append, length_segmentBytes]
    exact Nat.le_add_right _ _

/-! ### The loop over the frames -/

/-- A reader that returns a view of a frame and goes on behind it. -/
structure ReadsFrames {β : Type} (readFrame : Stream → Except IoError (Option (β × Stream)))
    (view : Frame N → β) : Prop where
  frame : ∀ (frame : Frame N) (position : ℕ) (rest : List UInt8),
    readFrame ⟨position, frame.bytes ++ rest⟩ =
      .ok (some (view frame, ⟨position + frame.bytes.length, rest⟩))
  torn : ∀ (position : ℕ) (tail : List UInt8), Torn N tail →
    readFrame ⟨position, tail⟩ = .ok none

theorem readsFrames_readRecordBody :
    ReadsFrames readRecordBody (Frame.body : Frame N → List UInt8) where
  frame frame position rest := readRecordBody_bytes frame position rest
  torn position _ h := by
    obtain ⟨frame, hstarts, hcut⟩ := h
    exact readRecordBody_cut frame position hstarts hcut

theorem readsFrames_scanRecordFrame :
    ReadsFrames scanRecordFrame (fun _ : Frame N ↦ ()) where
  frame frame position rest := by
    rw [scanRecordFrame_eq, readRecordBody_bytes]
    rfl
  torn position _ h := by
    obtain ⟨frame, hstarts, hcut⟩ := h
    rw [scanRecordFrame_eq, readRecordBody_cut frame position hstarts hcut]
    rfl

section Pass

variable {β σ : Type} {readFrame : Stream → Except IoError (Option (β × Stream))}
  {view : Frame N → β} {visit : σ → ℕ → β → Except IoError σ}

/-- The loop visits the frames one after the other, then it judges what is left. -/
theorem recordLoop_frames (hread : ReadsFrames readFrame view) (segment : ℕ)
    {frames : List (Frame N)} {tail : List UInt8} (htail : Torn N tail) (allowPartial : Bool)
    {position rounds fileLen : ℕ} (hrounds : frames.length < rounds)
    (hlen : fileLen = position + (framesBytes frames).length + tail.length) (acc : σ) :
    recordLoop readFrame visit allowPartial fileLen rounds ⟨position, framesBytes frames ++ tail⟩
      acc = (do
        let acc ← (placedFrom segment position frames).foldlM
          (fun acc entry ↦ visit acc entry.position.offset (view entry.frame)) acc
        if tail = [] then return (acc, none)
        else if allowPartial then return (acc, some (position + (framesBytes frames).length))
        else throw (invalidData "partial record in inactive segment")) := by
  induction frames generalizing position rounds acc with
  | nil =>
    obtain ⟨rounds, rfl⟩ := Nat.exists_eq_add_of_lt hrounds
    have hend : position = fileLen ↔ tail = [] := by
      rw [← List.length_eq_zero_iff]
      simp only [framesBytes_nil, List.length_nil] at hlen
      omega
    simp only [List.length_nil, Nat.zero_add, framesBytes_nil, List.nil_append, recordLoop,
      hread.torn position tail htail, placedFrom, List.foldlM_nil, List.length_nil, Nat.add_zero,
      hend]
    rfl
  | cons frame rest ih =>
    obtain ⟨rounds, rfl⟩ : ∃ n, rounds = n + 1 := ⟨rounds - 1, by omega⟩
    simp only [recordLoop, framesBytes_cons, List.append_assoc, hread.frame, placedFrom,
      List.foldlM_cons]
    cases hvisit : visit acc position (view frame) with
    | error error => simp only [bind, Except.bind, hvisit]
    | ok acc' =>
      simp only [framesBytes_cons, List.length_append] at hlen
      have hnext := @ih (position + frame.bytes.length) rounds (by simpa using hrounds)
        (by omega) acc'
      simp only [bind, Except.bind, hvisit, List.length_append, ← Nat.add_assoc] at hnext ⊢
      exact hnext

end Pass

/-! ### Requests that change nothing -/

section Sees

variable {world : ℕ → Fs} {t : ℕ}

theorem sees_io {op : FsOp} (hinquiry : directory.Inquiry op)
    {Q : Except IoError op.Reply → ℕ → Prop}
    (h : Q (.ok (Fs.reply op (world t))) (t + 1)) : directory.Sees world Q (io op).run t :=
  ⟨hinquiry, h⟩

theorem sees_liftM {α : Type} {result : Except IoError α} {Q : Except IoError α → ℕ → Prop}
    (h : Q result t) : directory.Sees world Q (liftM result : IoM α).run t := by
  cases result <;> exact h

theorem sees_failIf {condition : Prop} [Decidable condition] {error : IoError}
    {Q : Except IoError Unit → ℕ → Prop} (hfails : condition → Q (.error error) t)
    (h : ¬ condition → Q (.ok ()) t) :
    directory.Sees world Q (failIf condition error : IoM Unit).run t := by
  unfold failIf
  split
  · next hcondition => exact hfails hcondition
  · next hcondition => exact h hcondition

theorem inquiry_readDir : directory.Inquiry .readDir := fun _ ↦ ⟨rfl, rfl⟩
theorem inquiry_isFile (name : ℕ) : directory.Inquiry (.isFile name) := fun _ ↦ ⟨rfl, rfl⟩
theorem inquiry_read (name : ℕ) : directory.Inquiry (.read name) := fun _ ↦ ⟨rfl, rfl⟩
theorem inquiry_fileLen (name : ℕ) : directory.Inquiry (.fileLen name) :=
  fun _ ↦ ⟨rfl, rfl⟩
theorem inquiry_readJson (name : JsonName) : directory.Inquiry (.readJson name) :=
  fun _ ↦ ⟨rfl, rfl⟩

theorem sees_openSegment {segment : ℕ} {Q : Except IoError (List UInt8) → ℕ → Prop}
    (h : Q (match (world t).segments[segment]? with
      | some file => .ok file.bytes
      | none => .error fileNotFound) (t + 1)) :
    directory.Sees world Q (openSegment segment).run t := by
  refine .bindExcept (sees_io (inquiry_read segment) ?_)
  have hreply : Fs.reply (.read segment) (world t) =
      (world t).segments[segment]?.map SegmentFile.bytes := rfl
  rw [hreply]
  cases hfile : (world t).segments[segment]? with
  | none => simpa [hfile] using h
  | some file => simpa [hfile] using h

end Sees

/-! ### The header -/

theorem readSegmentHeader_whole (segment : ℕ) (rest : List UInt8)
    (allowPartial recoverPartial : Bool) :
    (readSegmentHeader segment (segmentFormatMagic ++ rest) allowPartial recoverPartial).run =
      .done (.ok true) := by
  have hlength : ¬ (segmentFormatMagic ++ rest).length = 0 := by simp [segmentFormatMagic]
  have hheader : ¬ (segmentFormatMagic ++ rest).length < segmentFileHeaderLen := by
    simp [segmentFormatMagic, segmentFileHeaderLen]
  have hmagic : ¬ (segmentFormatMagic ++ rest).take segmentFileHeaderLen ≠ segmentFormatMagic := by
    simp [segmentFormatMagic, segmentFileHeaderLen]
  simp only [readSegmentHeader, if_neg hlength, if_neg hheader, if_neg hmagic]
  rfl

theorem readSegmentHeader_short {segment : ℕ} {bytes : List UInt8}
    (h : bytes.length < segmentFileHeaderLen) :
    (readSegmentHeader segment bytes true false).run = .done (.ok false) := by
  by_cases hlength : bytes.length = 0
  · simp only [readSegmentHeader, if_pos hlength]
    rfl
  · simp only [readSegmentHeader, if_neg hlength, if_pos h]
    rfl

/-- A proper prefix of the magic is shorter than the header. -/
theorem length_lt_of_cut {bytes : List UInt8} (hstarts : bytes <+: segmentFormatMagic)
    (hcut : bytes ≠ segmentFormatMagic) : bytes.length < segmentFileHeaderLen :=
  lt_of_le_of_ne hstarts.length_le fun h ↦ hcut (hstarts.eq_of_length h)

theorem length_le_length_framesBytes (frames : List (Frame N)) :
    frames.length ≤ (framesBytes frames).length := by
  induction frames with
  | nil => exact le_rfl
  | cons frame rest ih =>
    have hpos := length_bytes_pos frame
    simp only [framesBytes_cons, List.length_append, List.length_cons]
    omega

section Pass

variable {β σ : Type} {readFrame : Stream → Except IoError (Option (β × Stream))}
  {view : Frame N → β} {visit : σ → ℕ → β → Except IoError σ} {world : ℕ → Fs} {t : ℕ}

/-- A pass over a segment that starts at one of its frames. The pass is told to expect an
incomplete end unless there is none, and it recovers a segment only if there is none. -/
theorem passSegment_sees (hread : ReadsFrames readFrame view) {start : ℕ → Except IoError ℕ}
    {segment : ℕ} {allowPartial recoverPartial : Bool} {acc : σ} {file : SegmentFile}
    {skipped rest : List (Frame N)} (hfile : (world t).segments[segment]? = some file)
    (hcontents : Contents (skipped ++ rest) file.bytes)
    (hwhole : allowPartial = false ∨ recoverPartial = true →
      file.bytes = segmentBytes (skipped ++ rest))
    (hstart : segmentFileHeaderLen ≤ file.bytes.length →
      start file.bytes.length = .ok (segmentFileHeaderLen + (framesBytes skipped).length)) :
    directory.Sees world (fun result t' ↦ t' = t + 1 ∧ result =
      (placedFrom segment (segmentFileHeaderLen + (framesBytes skipped).length) rest).foldlM
        (fun acc entry ↦ visit acc entry.position.offset (view entry.frame)) acc)
      (passSegment readFrame visit start segment allowPartial recoverPartial acc).run t := by
  refine .bindExcept (sees_openSegment ?_)
  rw [hfile]
  simp only
  generalize file.bytes = contents at hcontents hwhole hstart ⊢
  cases hcontents with
  | partialHeader bytes hframes hstarts hcut =>
    obtain ⟨rfl, rfl⟩ := List.append_eq_nil_iff.mp hframes
    have hshort := length_lt_of_cut hstarts hcut
    have hpartial : ¬ (allowPartial = false ∨ recoverPartial = true) := fun h ↦ hcut (by
      rw [hwhole h]
      exact List.append_nil _)
    obtain ⟨rfl, rfl⟩ : allowPartial = true ∧ recoverPartial = false := by simpa using hpartial
    refine .bindExcept ?_
    rw [readSegmentHeader_short hshort]
    exact ⟨rfl, rfl⟩
  | records tail htail =>
    have hoffset : (Stream.seek (segmentBytes (skipped ++ rest) ++ tail)
        (segmentFileHeaderLen + (framesBytes skipped).length)) =
        ⟨segmentFileHeaderLen + (framesBytes skipped).length, framesBytes rest ++ tail⟩ := by
      have hsplit : segmentBytes (skipped ++ rest) ++ tail =
          segmentBytes skipped ++ (framesBytes rest ++ tail) := by simp [segmentBytes]
      rw [Stream.seek, hsplit, ← length_segmentBytes, List.drop_left]
    have hrounds : rest.length < (segmentBytes (skipped ++ rest) ++ tail).length + 1 := by
      have hle := length_le_length_framesBytes (skipped ++ rest)
      simp only [List.length_append, length_segmentBytes] at hle ⊢
      omega
    have hlen : (segmentBytes (skipped ++ rest) ++ tail).length =
        segmentFileHeaderLen + (framesBytes skipped).length + (framesBytes rest).length +
          tail.length := by
      simp only [List.length_append, length_segmentBytes, framesBytes_append, Nat.add_assoc]
    have hheader : (readSegmentHeader segment (segmentBytes (skipped ++ rest) ++ tail) allowPartial
        recoverPartial).run = .done (.ok true) := by
      rw [segmentBytes, List.append_assoc]
      exact readSegmentHeader_whole _ _ _ _
    refine .bindExcept ?_
    rw [hheader]
    refine .bindExcept (sees_liftM ?_)
    rw [hstart (by omega)]
    refine .bindExcept (sees_liftM ?_)
    rw [hoffset, recordLoop_frames hread segment htail allowPartial hrounds hlen]
    cases hfold : (placedFrom segment (segmentFileHeaderLen + (framesBytes skipped).length)
        rest).foldlM (fun acc entry ↦ visit acc entry.position.offset (view entry.frame)) acc with
    | error error => exact ⟨rfl, rfl⟩
    | ok acc =>
      by_cases htail' : tail = []
      · simp only [bind, Except.bind, if_pos htail']
        exact ⟨rfl, rfl⟩
      · have hcut : ¬ (allowPartial = false ∨ recoverPartial = true) := fun h ↦ htail' (by
          simpa using hwhole h)
        obtain ⟨rfl, rfl⟩ : allowPartial = true ∧ recoverPartial = false := by simpa using hcut
        simp only [bind, Except.bind, if_neg htail', if_true]
        exact ⟨rfl, rfl⟩

end Pass

end Sukari
