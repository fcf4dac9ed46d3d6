import Sukari.Damage
import Sukari.Reserved
import Sukari.Rotation
import Sukari.SameBytes

/-!
# Opening a directory again

The segment files of a directory may hold any bytes. Whatever they are, an opening that is
interrupted at any request, or in the middle of one, leaves a directory that opens as the whole one:
with the same error, or with the same registry, checkpoint index, writer and gauges of what is
unsynced, and with the same bytes afterwards (`open_restartable`). The counters are no part of the
result: a truncation is counted by the opening that makes it. An opening destroys no whole frame and
no metadata either, and it leaves the segments before the last one alone (`open_keeps_records`).
Both are inductions on the directories that an opening goes through (`OpeningState`).
-/

set_option autoImplicit false
set_option relaxedAutoImplicit false

namespace Sukari

open Effects

variable {N : Noraft} {fs fs' : Fs} {active maxSegmentLen : ℕ} {file : SegmentFile}

/-! ### A segment that was cut -/

/-- A file that is cut where recovery cuts it can be read to its end. -/
theorem recordLoop_cut {fileLen rounds start : ℕ} {stream : Stream}
    (h : recordLoop scanRecordFrame (fun _ _ _ ↦ pure ()) true fileLen rounds stream () =
      .ok ((), some start)) :
    stream.position ≤ start ∧ ∀ rounds', start - stream.position < rounds' →
      recordLoop scanRecordFrame (fun _ _ _ ↦ pure ()) true start rounds'
        ⟨stream.position, stream.rest.take (start - stream.position)⟩ () = .ok ((), none) := by
  induction rounds generalizing stream with
  | zero => cases h
  | succ rounds ih =>
    rw [recordLoop, scanRecordFrame_eq] at h
    cases hread : readRecordBody stream with
    | error error =>
      rw [hread] at h
      cases h
    | ok found =>
      cases found with
      | none =>
        simp only [hread, Except.map, Option.map, bind, Except.bind] at h
        split at h
        · cases h
        · obtain rfl : stream.position = start :=
            Option.some.inj (Prod.mk.inj (Except.ok.inj h)).2
          refine ⟨le_rfl, fun rounds' hrounds ↦ ?_⟩
          obtain ⟨rest, rfl⟩ : ∃ rest, rounds' = rest + 1 := ⟨rounds' - 1, by omega⟩
          have hempty : readRecordBody ⟨stream.position, []⟩ = .ok none := rfl
          rw [Nat.sub_self, List.take_zero, recordLoop, scanRecordFrame_eq, hempty]
          simp only [Except.map, Option.map, bind, Except.bind, if_true]
          rfl
      | some found =>
        obtain ⟨body, behind⟩ := found
        simp only [hread, Except.map, Option.map, bind, Except.bind, pure, Except.pure] at h
        obtain ⟨hle, hrest⟩ := ih h
        obtain ⟨hposition, -⟩ := length_of_readRecordBody hread
        refine ⟨by omega, fun rounds' hrounds ↦ ?_⟩
        obtain ⟨fewer, rfl⟩ : ∃ fewer, rounds' = fewer + 1 := ⟨rounds' - 1, by omega⟩
        have hcut := readRecordBody_take hread
          (show 8 + body.length ≤ start - stream.position by omega)
        have hbehind : start - stream.position - (8 + body.length) = start - behind.position := by
          omega
        rw [recordLoop, scanRecordFrame_eq, hcut, hbehind]
        exact hrest fewer (by omega)

/-! ### Whole frames -/

/-- A frame with the length and the checksum of its body. The body need not be a record. -/
structure WholeFrame where
  body : List UInt8
  fits : body.length ≤ maxRecordBodyLen

def WholeFrame.bytes (frame : WholeFrame) : List UInt8 := frameHeader frame.body ++ frame.body

/-- The beginning of a segment file with the frames. -/
def wholeFrames (frames : List WholeFrame) : List UInt8 :=
  segmentFormatMagic ++ frames.flatMap WholeFrame.bytes

theorem length_wholeFrames (frames : List WholeFrame) : (wholeFrames frames).length =
    segmentFileHeaderLen + (frames.flatMap WholeFrame.bytes).length := by
  rw [wholeFrames, List.length_append]
  rfl

theorem length_le_length_wholeFrames (frames : List WholeFrame) :
    frames.length ≤ (frames.flatMap WholeFrame.bytes).length := by
  induction frames with
  | nil => exact le_rfl
  | cons frame rest ih =>
    simp only [List.flatMap_cons, List.length_append, List.length_cons, WholeFrame.bytes,
      frameHeader, LittleEndian.length_toLeBytes]
    omega

theorem scanRecordFrame_wholeFrame (frame : WholeFrame) (position : ℕ) (rest : List UInt8) :
    scanRecordFrame ⟨position, frame.bytes ++ rest⟩ =
      .ok (some ((), ⟨position + frame.bytes.length, rest⟩)) := by
  have hlength : frame.bytes.length = 8 + frame.body.length := by
    simp only [WholeFrame.bytes, frameHeader, List.length_append, LittleEndian.length_toLeBytes]
  have hread : readRecordBody ⟨position, frame.bytes ++ rest⟩ =
      .ok (some (frame.body, ⟨position + frame.bytes.length, rest⟩)) :=
    readRecordBody_eq_some_iff.mpr
      ⟨frame.fits, by rw [WholeFrame.bytes, List.append_assoc], by rw [hlength]⟩
  rw [scanRecordFrame_eq, hread]
  rfl

/-- Recovery runs over whole frames, whatever is in them. -/
theorem recordLoop_wholeFrames (frames : List WholeFrame) (tail : List UInt8)
    (fileLen rounds position : ℕ) :
    recordLoop scanRecordFrame (fun _ _ _ ↦ pure ()) true fileLen (frames.length + rounds)
        ⟨position, frames.flatMap WholeFrame.bytes ++ tail⟩ () =
      recordLoop scanRecordFrame (fun _ _ _ ↦ pure ()) true fileLen rounds
        ⟨position + (frames.flatMap WholeFrame.bytes).length, tail⟩ () := by
  induction frames generalizing position with
  | nil => simp
  | cons frame rest ih =>
    have hread := scanRecordFrame_wholeFrame frame position
      (rest.flatMap WholeFrame.bytes ++ tail)
    have hrounds : (frame :: rest).length + rounds = rest.length + rounds + 1 := by
      simp only [List.length_cons]
      omega
    rw [hrounds, List.flatMap_cons, List.append_assoc, recordLoop, hread]
    refine (ih (position + frame.bytes.length)).trans ?_
    rw [List.length_append, Nat.add_assoc]

/-- Whole frames at the beginning of a stream are in front of the place where it is cut. -/
theorem le_of_recordLoop {fileLen start : ℕ} {rest : List UInt8} {frames : List WholeFrame}
    (hlen : rest.length ≤ fileLen) (hframes : frames.flatMap WholeFrame.bytes <+: rest)
    (h : recordLoop scanRecordFrame (fun _ _ _ ↦ pure ()) true fileLen (fileLen + 1)
      ⟨segmentFileHeaderLen, rest⟩ () = .ok ((), some start)) :
    (wholeFrames frames).length ≤ start := by
  obtain ⟨tail, rfl⟩ := hframes
  have hcount := length_le_length_wholeFrames frames
  obtain ⟨rounds, hrounds⟩ : ∃ rounds, fileLen + 1 = frames.length + rounds :=
    ⟨fileLen + 1 - frames.length, by rw [List.length_append] at hlen; omega⟩
  rw [hrounds, recordLoop_wholeFrames] at h
  rw [length_wholeFrames]
  exact (recordLoop_cut h).1

/-! ### What recovery does to the active segment -/

/-- Recovery of the active segment finds nothing to cut off. -/
def Clean (fs : Fs) (active : ℕ) : Prop :=
  directory.run (scanSegment active true).run fs = (.ok (), fs)

/-- Recovery cuts the active segment off, behind all whole frames and not in the header. -/
structure CutAt (fs : Fs) (active : ℕ) (file : SegmentFile) (start : ℕ) : Prop where
  scan : directory.run (scanSegment active true).run fs = (.ok (), fs.setLen active start)
  clean : Clean (fs.setLen active start) active
  header : start < segmentFileHeaderLen → file.bytes.length < segmentFileHeaderLen
  records : ∀ frames : List WholeFrame, wholeFrames frames <+: file.bytes →
    (wholeFrames frames).length ≤ start

/-- What recovery of the active segment comes to. -/
inductive Scanned (fs : Fs) (active : ℕ) (file : SegmentFile) :
    Except IoError Unit → Fs → Prop
  | refused {error : IoError} (h : error.kind = .invalidData) :
      Scanned fs active file (.error error) fs
  | clean (h : Clean fs active) : Scanned fs active file (.ok ()) fs
  | cut {start : ℕ} (h : CutAt fs active file start) :
      Scanned fs active file (.ok ()) (fs.setLen active start)

/-- A part of a header is cut off as a whole. -/
theorem clean_of_empty (hfile : fs.segments[active]? = some file) (hempty : file.bytes = []) :
    Clean fs active := by
  have hscan := (run_scanSegment_short hfile (by rw [hempty]; decide)).1
  rwa [hempty, List.length_nil, if_pos rfl] at hscan

theorem clean_of_cut (hfile : fs.segments[active]? = some file) {rest : List UInt8}
    (hbytes : file.bytes = segmentFormatMagic ++ rest) {start rounds : ℕ}
    (hstart : start ≤ file.bytes.length)
    (h : recordLoop scanRecordFrame (fun _ _ _ ↦ pure ()) true file.bytes.length rounds
      ⟨segmentFileHeaderLen, rest⟩ () = .ok ((), some start)) :
    Clean (fs.setLen active start) active := by
  obtain ⟨hle, hloop⟩ := recordLoop_cut h
  have htake : file.bytes.take start =
      segmentFormatMagic ++ rest.take (start - segmentFileHeaderLen) := by
    rw [hbytes, List.take_append, List.take_of_length_le hle]
    rfl
  have hscan := run_scanSegment_records (getElem?_setLen hfile start) htake true
  have hlength : (file.bytes.take start).length = start := by
    rw [List.length_take, Nat.min_eq_left hstart]
  simp only [hlength] at hscan
  rwa [hloop (start + 1) (by omega)] at hscan

/-- Recovery of the active segment asks, and then cuts it off at most once. -/
theorem refines_scanActive (hfile : fs.segments[active]? = some file) {J : Fs → Prop} (hJ : J fs)
    (hcut : ∀ start, CutAt fs active file start → J (fs.setLen active start)) :
    (directory.always J).Refines (fun result _ fs' ↦ Scanned fs active file result fs' ∧ J fs')
      (scanSegment active true).run () fs := by
  have hopen : directory.Sees (fun _ ↦ fs) (fun result _ ↦ result = .ok file.bytes)
      (openSegment active).run 0 := sees_openSegment (by rw [hfile])
  refine .bindExcept ((Refinement.Refines.of_sees (fun _ _ _ _ ↦ trivial) hJ hopen).mono ?_)
  rintro _ ⟨⟩ fs ⟨-, rfl, -, rfl⟩
  refine .bindExcept ?_
  by_cases hempty : file.bytes.length = 0
  · rw [readSegmentHeader, if_pos hempty, if_pos rfl]
    exact ⟨.clean (clean_of_empty hfile (List.length_eq_zero_iff.mp hempty)), hJ⟩
  rw [readSegmentHeader, if_neg hempty]
  by_cases hshort : file.bytes.length < segmentFileHeaderLen
  · rw [if_pos hshort, if_pos ⟨rfl, rfl⟩]
    have hscan := (run_scanSegment_short hfile hshort).1
    rw [if_neg hempty] at hscan
    have hcutAt : CutAt fs active file 0 := by
      refine ⟨hscan, clean_of_empty (getElem?_setLen hfile 0) rfl, fun _ ↦ hshort,
        fun frames hframes ↦ ?_⟩
      have hlength := length_wholeFrames frames
      have hle := hframes.length_le
      omega
    exact .bindExcept (refines_io () (fun _ h ↦ by cases h) trivial (hcut 0 hcutAt)
      ⟨.cut hcutAt, hcut 0 hcutAt⟩)
  rw [if_neg hshort]
  by_cases hmagic : file.bytes.take segmentFileHeaderLen = segmentFormatMagic
  · rw [if_neg (not_not.mpr hmagic)]
    have hbytes : file.bytes = segmentFormatMagic ++ file.bytes.drop segmentFileHeaderLen := by
      rw [← hmagic, List.take_append_drop]
    have hscan := run_scanSegment_records hfile hbytes true
    have hlength : file.bytes.length =
        segmentFileHeaderLen + (file.bytes.drop segmentFileHeaderLen).length := by
      rw [List.length_drop]
      omega
    have hseek : Stream.seek file.bytes segmentFileHeaderLen =
        ⟨segmentFileHeaderLen, file.bytes.drop segmentFileHeaderLen⟩ := rfl
    refine .bindExcept (refines_liftExcept (.bindExcept (refines_liftExcept ?_)))
    rw [hseek]
    rcases @recordLoop_verdict file.bytes.length (file.bytes.length + 1)
      ⟨segmentFileHeaderLen, file.bytes.drop segmentFileHeaderLen⟩ (by dsimp only; omega)
        hlength with
      ⟨-, start, hstart, hlt, hloop⟩ | ⟨-, hloop | ⟨error, hkind, hloop⟩⟩
    · rw [hloop] at hscan ⊢
      have hcutAt : CutAt fs active file start := by
        refine ⟨hscan, clean_of_cut hfile hbytes hlt.le hloop,
          fun hbefore ↦ absurd hstart (Nat.not_le.mpr hbefore), fun frames hframes ↦ ?_⟩
        rw [hbytes, wholeFrames, List.prefix_append_right_inj] at hframes
        exact le_of_recordLoop (by omega) hframes hloop
      exact .bindExcept (refines_io () (fun _ h ↦ by cases h) trivial (hcut start hcutAt)
        ⟨.cut hcutAt, hcut start hcutAt⟩)
    · rw [hloop] at hscan ⊢
      exact ⟨.clean hscan, hJ⟩
    · rw [hloop]
      exact ⟨.refused hkind, hJ⟩
  · rw [if_pos hmagic]
    exact ⟨.refused rfl, hJ⟩

/-- Recovery of a segment that is not the active one only asks. -/
theorem sees_scanSegment_inactive {segment t : ℕ} (hpresent : segment ∈ fs.segments) :
    directory.Sees (fun _ ↦ fs) (fun result _ ↦ OnlyInvalid result)
      (scanSegment segment false).run t := by
  obtain ⟨file, hfile⟩ := mem_iff_exists_getElem?.mp hpresent
  refine .bindExcept (sees_openSegment ?_)
  rw [hfile]
  refine .bindExcept ?_
  obtain ⟨header, hinvalid, hheader⟩ := readSegmentHeader_inactive segment file.bytes true
  rw [hheader]
  rcases header with error | _ | _
  · exact hinvalid.of_error
  · exact .ok _
  · refine .bindExcept (sees_liftM (.bindExcept (sees_liftM ?_)))
    have hloop := @onlyInvalid_recordLoop false file.bytes.length (file.bytes.length + 1)
      (.seek file.bytes segmentFileHeaderLen)
    cases hresult : recordLoop scanRecordFrame (fun _ _ _ ↦ pure ()) false file.bytes.length
        (file.bytes.length + 1) (.seek file.bytes segmentFileHeaderLen) () with
    | error error =>
      rw [hresult] at hloop
      exact hloop.of_error
    | ok out =>
      obtain ⟨⟨⟩, partialStart⟩ := out
      obtain rfl := recordLoop_inactive hresult
      exact .ok _

theorem sees_scanInactive {segments : List ℕ} {t : ℕ}
    (h : ∀ segment ∈ segments, segment ≠ active ∧ segment ∈ fs.segments) :
    directory.Sees (fun _ ↦ fs) (fun result _ ↦ OnlyInvalid result)
      (segments.forM fun segment ↦ scanSegment segment (segment == active) : IoM Unit).run t := by
  induction segments generalizing t with
  | nil => exact .ok ()
  | cons segment rest ih =>
    obtain ⟨hne, hpresent⟩ := h segment (List.mem_cons_self ..)
    have hfirst : directory.Sees (fun _ ↦ fs) (fun result _ ↦ OnlyInvalid result)
        (scanSegment segment (segment == active)).run t := by
      rw [beq_false_of_ne hne]
      exact sees_scanSegment_inactive hpresent
    refine .bindExcept (hfirst.mono fun result t' hresult ↦ ?_)
    cases result with
    | error error => exact hresult
    | ok value => exact ih fun segment hsegment ↦ h segment (List.mem_cons_of_mem _ hsegment)

/-! ### Directories that open alike -/

theorem SameBytes.symm (h : SameBytes fs fs') : SameBytes fs' fs :=
  ⟨fun segment ↦ (h.bytes segment).symm, h.checkpoints.symm, h.nodes.symm⟩

theorem SameBytes.trans {fs'' : Fs} (h : SameBytes fs fs') (h' : SameBytes fs' fs'') :
    SameBytes fs fs'' :=
  ⟨fun segment ↦ (h.bytes segment).trans (h'.bytes segment), h.checkpoints.trans h'.checkpoints,
    h.nodes.trans h'.nodes⟩

/-- The second directory opens with the result of the first one, the counters aside, and then holds
the same bytes. -/
structure Reopens (N : Noraft) (maxSegmentLen : ℕ) (fs fs' : Fs) : Prop where
  result : (opened N maxSegmentLen fs').1 = (opened N maxSegmentLen fs).1
  bytes : SameBytes (opened N maxSegmentLen fs).2 (opened N maxSegmentLen fs').2

namespace Reopens

theorem of_eq (h : opened N maxSegmentLen fs' = opened N maxSegmentLen fs) :
    Reopens N maxSegmentLen fs fs' := by
  constructor
  · rw [h]
  · rw [h]
    exact .refl _

theorem refl (fs : Fs) : Reopens N maxSegmentLen fs fs := .of_eq rfl

theorem trans {fs'' : Fs} (h : Reopens N maxSegmentLen fs fs')
    (h' : Reopens N maxSegmentLen fs' fs'') :
    Reopens N maxSegmentLen fs fs'' :=
  ⟨h'.result.trans h.result, h.bytes.trans h'.bytes⟩

theorem of_sameBytes (h : SameBytes fs fs') : Reopens N maxSegmentLen fs fs' := by
  obtain ⟨hresult, hbytes⟩ := bisimulation_sameBytes.run
    (StorageEngine.withMaxSegmentLen N maxSegmentLen).run h
  exact ⟨hresult.symm, hbytes⟩

end Reopens

/-! ### Metadata -/

/-- Every file that holds something is in the second directory, and so is the metadata. -/
structure Filled (fs fs' : Fs) : Prop where
  bytes : ∀ (segment : ℕ) (file : SegmentFile), fs.segments[segment]? = some file →
    file.bytes ≠ [] →
    fs'.segments[segment]?.map SegmentFile.bytes = some file.bytes
  checkpoints : fs'.checkpoints.current = fs.checkpoints.current
  nodes : fs'.nodes.current = fs.nodes.current

variable (N) in
/-- What the check of a position says about the file of its segment. -/
def positionVerdict (header : List UInt8 → Except IoError Bool) (nodeId : NodeId) (offset : ℕ) :
    Option (List UInt8) → Except IoError Unit
  | none => throw (invalidData "checkpoint index segment does not exist")
  | some bytes => do
    let _ ← header bytes
    checkCheckpointRecord N nodeId offset bytes

variable (N) in
/-- A position is valid because of the file of its segment, and that one has a header. -/
theorem exists_positionVerdict (nodeId : NodeId) (position : RecordPosition) :
    ∃ header, (∀ contents, positionVerdict N header nodeId position.offset contents = .ok () →
        ∃ bytes, contents = some bytes ∧ bytes ≠ []) ∧
      ∀ fs : Fs, directory.run (validateCheckpointPosition N nodeId position).run fs =
        (positionVerdict N header nodeId position.offset
          (fs.segments[position.segment]?.map SegmentFile.bytes), fs) := by
  choose header _ hheader using fun bytes ↦ readSegmentHeader_inactive position.segment bytes false
  refine ⟨header, fun contents hverdict ↦ ?_, fun fs ↦ ?_⟩
  · cases contents with
    | none => cases hverdict
    | some bytes =>
      refine ⟨bytes, rfl, fun hempty ↦ ?_⟩
      subst hempty
      have hrefused : header [] = .error (invalidData "missing segment header") :=
        (Program.done.inj (hheader [])).symm
      rw [positionVerdict, hrefused] at hverdict
      cases hverdict
  · refine (Machine.run_bindExcept_ok (run_io (.isFile position.segment) fs)).trans ?_
    have hreply : Fs.reply (.isFile position.segment) fs =
        fs.segments.contains position.segment := rfl
    rw [hreply]
    cases hfile : fs.segments[position.segment]? with
    | none =>
      have hmissing : fs.segments.contains position.segment = false := by
        rw [Std.ExtTreeMap.contains_eq_isSome_getElem?, hfile]
        rfl
      rw [hmissing]
      rfl
    | some file =>
      have hexists : fs.segments.contains position.segment = true := by
        rw [Std.ExtTreeMap.contains_eq_isSome_getElem?, hfile]
        rfl
      rw [hexists]
      refine (Machine.run_bindExcept_ok (run_openSegment hfile)).trans ?_
      have hrun : directory.run (readSegmentHeader position.segment file.bytes false false).run fs =
          (header file.bytes, fs) := by
        rw [hheader]
        rfl
      rw [Option.map_some, positionVerdict]
      cases hresult : header file.bytes with
      | error error => exact Machine.run_bindExcept_error (hrun.trans (by rw [hresult]))
      | ok records =>
        refine (Machine.run_bindExcept_ok (hrun.trans (by rw [hresult]))).trans ?_
        cases checkCheckpointRecord N nodeId position.offset file.bytes <;> rfl

/-- What is valid stays valid when files are added or empty files are filled. -/
theorem Filled.valid (h : Filled fs fs') {nodeId : NodeId}
    {position : RecordPosition} (hvalid : directory.run
      (validateCheckpointPosition N nodeId position).run fs = (.ok (), fs)) :
    directory.run (validateCheckpointPosition N nodeId position).run fs' = (.ok (), fs') := by
  obtain ⟨header, hpresent, hrun⟩ := exists_positionVerdict N nodeId position
  have hverdict := (Prod.mk.inj ((hrun fs).symm.trans hvalid)).1
  obtain ⟨bytes, hbytes, hne⟩ := hpresent _ hverdict
  obtain ⟨file, hfile, rfl⟩ := Option.map_eq_some_iff.mp hbytes
  rw [hrun fs', h.bytes position.segment file hfile hne, ← hverdict, hbytes]

theorem Filled.allValid (h : Filled fs fs') {items : List (NodeId × RecordPosition)}
    (hvalid : directory.run (items.forM fun item ↦
      validateCheckpointPosition N item.1 item.2 : IoM Unit).run fs = (.ok (), fs)) :
    directory.run (items.forM fun item ↦
      validateCheckpointPosition N item.1 item.2 : IoM Unit).run fs' = (.ok (), fs') := by
  induction items with
  | nil => rfl
  | cons item rest ih =>
    obtain ⟨header, -, hrun⟩ := exists_positionVerdict N item.1 item.2
    have hitem := hrun fs
    cases hverdict : positionVerdict N header item.1 item.2.offset
        (fs.segments[item.2.segment]?.map SegmentFile.bytes) with
    | error error =>
      rw [hverdict] at hitem
      cases hvalid.symm.trans (Machine.run_bindExcept_error hitem)
    | ok value =>
      rw [hverdict] at hitem
      refine (Machine.run_bindExcept_ok (h.valid hitem)).trans (ih ?_)
      exact (Machine.run_bindExcept_ok hitem).symm.trans hvalid

theorem Filled.loadIndex (h : Filled fs fs') {registry : NodeRegistry} {index : CheckpointIndex}
    (hload : directory.run (CheckpointIndex.load N registry).run fs = (.ok index, fs)) :
    directory.run (CheckpointIndex.load N registry).run fs' = (.ok index, fs') := by
  have hread (fs : Fs) : directory.run (CheckpointIndex.load N registry).run fs = _ :=
    Machine.run_bindExcept_ok (run_io (.readJson .checkpoints) fs)
  have hreply (fs : Fs) : Fs.reply (.readJson .checkpoints) fs = fs.checkpoints.current := rfl
  have hafter (fs : Fs) : Fs.after (.readJson .checkpoints) fs = fs := rfl
  rw [hread, hreply, hafter] at hload ⊢
  rw [h.checkpoints]
  cases hdocument : fs.checkpoints.current with
  | none =>
    rw [hdocument] at hload
    exact Prod.ext (Prod.mk.inj hload).1 rfl
  | some document =>
    rw [hdocument] at hload
    dsimp only at hload ⊢
    cases hparse : parseCheckpointIndex document with
    | error error =>
      rw [hparse] at hload
      cases hload
    | ok stored =>
      rw [hparse] at hload
      dsimp only at hload ⊢
      have hsame := (@sees_forM fs _ (stored.retainActive registry).nodes.toList _ 0 fun item t ↦
        sees_validateCheckpointPosition (N := N) item.1 item.2).run.1
      cases hvalid :
        directory.run ((stored.retainActive registry).validateCheckpointPositions N).run
          fs with
      | mk result fs₁ =>
        obtain rfl : fs₁ = fs := (congrArg Prod.snd hvalid).symm.trans hsame
        cases result with
        | error error => cases hload.symm.trans (Machine.run_bindExcept_error hvalid)
        | ok value =>
          have hindex := hload.symm.trans (Machine.run_bindExcept_ok hvalid)
          obtain rfl := Except.ok.inj (Prod.mk.inj hindex).1
          exact Machine.run_bindExcept_ok (h.allValid hvalid)

/-! ### After recovery -/

/-- The metadata can be loaded. -/
def Loads (N : Noraft) (fs : Fs) (registry : NodeRegistry) (index : CheckpointIndex) : Prop :=
  directory.run NodeRegistry.load.run fs = (.ok registry, fs) ∧
    directory.run (CheckpointIndex.load N registry).run fs = (.ok index, fs)

theorem Filled.loads (h : Filled fs fs') {registry : NodeRegistry} {index : CheckpointIndex}
    (hloads : Loads N fs registry index) : Loads N fs' registry index := by
  refine ⟨?_, h.loadIndex hloads.2⟩
  have hread (fs : Fs) : directory.run NodeRegistry.load.run fs =
      (NodeRegistry.ofFile fs.nodes.current, fs) := by
    refine (Machine.run_bindExcept_ok (run_io (.readJson .nodes) fs)).trans ?_
    have hreply : Fs.reply (.readJson .nodes) fs = fs.nodes.current := rfl
    rw [hreply]
    cases NodeRegistry.ofFile fs.nodes.current <;> rfl
  rw [hread, h.nodes, (Prod.mk.inj ((hread fs).symm.trans hloads.1)).1]

theorem run_openRecovered_of_loads {registry : NodeRegistry} {index : CheckpointIndex}
    (h : Loads N fs registry index) {writer : SegmentWriter}
    (hnew : directory.run (SegmentWriter.new active maxSegmentLen).run fs = (.ok writer, fs')) :
    directory.run (openRecovered N active maxSegmentLen).run fs =
      (.ok ⟨.default, registry, index, writer⟩, fs') := by
  rw [openRecovered, Machine.run_bindExcept_ok h.1, Machine.run_bindExcept_ok h.2,
    Machine.run_bindExcept_ok hnew]
  rfl

/-- The new writer of an empty or a new file writes the header. -/
theorem run_newWriter_header (hfile : (fs.create active).segments[active]? = some file)
    (hempty : file.bytes = []) (maxSegmentLen : ℕ) :
    directory.run (SegmentWriter.new active maxSegmentLen).run fs =
      (.ok ⟨active, segmentFileHeaderLen, maxSegmentLen⟩,
        if fs.segments.contains active then (fs.create active).append active segmentFormatMagic
        else ((fs.create active).append active segmentFormatMagic).syncDir) := by
  have hlen : (fs.create active).fileLen active = 0 := by simp [Fs.fileLen, hfile, hempty]
  have haccepts : (fs.create active).accepts active segmentFormatMagic = true := by
    simp [Fs.accepts, hfile, hempty, segmentFormatMagic, maxFileLen]
  have hopen : directory.run (openActiveSegmentFile active).run fs =
      (.ok (), (fs.create active).append active segmentFormatMagic) := by
    refine (Machine.run_bindExcept_ok (run_io (.create active) fs)).trans ?_
    refine (Machine.run_bindExcept_ok (run_io (.fileLen active) (fs.create active))).trans ?_
    have hreply : Fs.reply (.fileLen active) (fs.create active) =
        (fs.create active).fileLen active :=
      rfl
    rw [hreply, hlen, onlyIf, if_pos rfl, run_writeAll]
    exact if_pos haccepts
  have hfile' : ((fs.create active).append active segmentFormatMagic).segments[active]? =
      some { file with bytes := file.bytes ++ segmentFormatMagic } := by
    rw [Fs.append, Fs.getElem?_modifySegment, if_pos rfl, hfile]
    rfl
  refine (Machine.run_bindExcept_ok (run_io (.isFile active) fs)).trans ?_
  refine (Machine.run_bindExcept_ok hopen).trans ?_
  have hreply : Fs.reply (.isFile active) fs = fs.segments.contains active := rfl
  rw [hreply]
  generalize (fs.create active).append active segmentFormatMagic = fs' at hfile' ⊢
  cases fs.segments.contains active with
  | true =>
    have hlen' : Fs.reply (.fileLen active) fs' = segmentFileHeaderLen := by
      simp only [Fs.reply, Fs.fileLen, hfile', hempty]
      rfl
    refine (Machine.run_bindExcept_ok (run_io (.fileLen active) fs')).trans ?_
    rw [hlen']
    rfl
  | false =>
    have hlen' : Fs.reply (.fileLen active) fs'.syncDir = segmentFileHeaderLen := by
      simp only [Fs.reply, Fs.fileLen, Fs.getElem?_syncDir, hfile', hempty]
      rfl
    refine (Machine.run_bindExcept_ok (run_io .syncDir fs')).trans ?_
    refine (Machine.run_bindExcept_ok (run_io (.fileLen active) fs'.syncDir)).trans ?_
    rw [hlen']
    rfl

/-- A new writer creates its file if there is none, and writes the header if there is nothing. -/
theorem always_newWriter {J : Fs → Prop} (hJ : J fs) (hcreate : J (fs.create active))
    (hheader : (fs.create active).fileLen active = 0 → ∀ len,
      J ((fs.create active).append active (segmentFormatMagic.take len)))
    (hsync : ∀ fs, J fs → J fs.syncDir) :
    (directory.always J).Refines (fun _ _ _ ↦ True)
      (SegmentWriter.new active maxSegmentLen).run () fs := by
  have hasked {op : FsOp} (hop : directory.Inquiry op) {fs : Fs} (hJ : J fs)
      {Q : Except IoError op.Reply → Unit → Fs → Prop} (hQ : Q (.ok (Fs.reply op fs)) () fs) :
      (directory.always J).Refines Q (io op).run () fs := by
    obtain ⟨hafter, hduring⟩ := hop fs
    have hsame : Fs.after op fs = fs := hafter
    refine refines_io () (fun fs' h ↦ ?_) trivial ?_ ?_
    · rw [show Fs.during op fs = [] from hduring] at h
      cases h
    · rwa [hsame]
    · rwa [hsame]
  have hopens : (directory.always J).Refines (fun _ _ fs' ↦ J fs')
      (openActiveSegmentFile active).run () fs := by
    refine .bindExcept (refines_io () (fun _ h ↦ by cases h) trivial hcreate ?_)
    refine .bindExcept (hasked (inquiry_fileLen active) hcreate ?_)
    have hreply : Fs.reply (.fileLen active) (fs.create active) =
        (fs.create active).fileLen active :=
      rfl
    rw [hreply]
    refine refines_onlyIfExcept (fun hlen ↦ ?_) fun _ ↦ hcreate
    have hwhole := hheader hlen segmentFormatMagic.length
    rw [List.take_length] at hwhole
    refine .bindExcept (refines_io () (fun fs' h ↦ ?_) trivial ?_ ?_)
    · simp only [Fs.during] at h
      split at h
      · obtain ⟨len, -, rfl⟩ := List.mem_map.mp h
        exact hheader hlen len
      · cases h
    · simp only [Fs.after]
      split
      · exact hwhole
      · exact hcreate
    · refine refines_liftExcept ?_
      simp only [Fs.after]
      split
      · exact hwhole
      · exact hcreate
  refine .bindExcept (hasked (inquiry_isFile active) hJ (.bindExcept (hopens.mono ?_)))
  rintro result ⟨⟩ fs' hJ'
  cases result with
  | error error => trivial
  | ok value =>
    have hreply : Fs.reply (.isFile active) fs = fs.segments.contains active := rfl
    rw [hreply]
    refine .bindExcept (refines_onlyIfExcept (fun _ ↦ ?_) fun _ ↦ ?_)
    · exact refines_io () (fun _ h ↦ by cases h) trivial (hsync _ hJ')
        (.bindExcept (hasked (inquiry_fileLen active) (hsync _ hJ') trivial))
    · exact .bindExcept (hasked (inquiry_fileLen active) hJ' trivial)

/-! ### Interrupted openings -/

/-- The opening comes to the active segment. -/
def ComesTo (N : Noraft) (maxSegmentLen : ℕ) (fs : Fs) (active : ℕ) : Prop :=
  ∀ fs', SameInactive active fs fs' → opened N maxSegmentLen fs' = directory.run (do
    scanSegment active true
    openRecovered N active maxSegmentLen : IoM StorageEngine).run fs'

theorem SameInactive.modifySegment (fs : Fs) (active : ℕ) (f : SegmentFile → SegmentFile) :
    SameInactive active fs (fs.modifySegment active f) := by
  refine ⟨keys_eq_of_mem_iff fun segment ↦ fs.mem_modifySegment active f segment,
    fun segment hsegment ↦ ?_⟩
  rw [Fs.getElem?_modifySegment, if_neg hsegment.symm]

theorem ComesTo.opened_eq (h : ComesTo N maxSegmentLen fs active)
    (hsame : SameInactive active fs fs')
    {fs'' : Fs} (hscan : directory.run (scanSegment active true).run fs' = (.ok (), fs'')) :
    opened N maxSegmentLen fs' = directory.run (openRecovered N active maxSegmentLen).run fs'' :=
  (h fs' hsame).trans (Machine.run_bindExcept_ok hscan)

/-- A directory in which the active segment was cut off opens as it did before. -/
theorem ComesTo.reopens_cut (h : ComesTo N maxSegmentLen fs active) {start : ℕ}
    (hscan : directory.run (scanSegment active true).run fs = (.ok (), fs.setLen active start))
    (hclean : Clean (fs.setLen active start) active) :
    Reopens N maxSegmentLen fs (fs.setLen active start) :=
  .of_eq ((h.opened_eq (.modifySegment fs active _) hclean).trans
    (h.opened_eq (.refl active fs) hscan).symm)

/-- A directory in which a part of the header of the active segment was written opens as before. -/
theorem ComesTo.reopens_header (h : ComesTo N maxSegmentLen fs active)
    (hfile : fs.segments[active]? = some file) (hempty : file.bytes = []) {registry : NodeRegistry}
    {index : CheckpointIndex} (hloads : Loads N fs registry index) (len : ℕ) :
    Reopens N maxSegmentLen fs (fs.append active (segmentFormatMagic.take len)) := by
  have hpresent : active ∈ fs.segments := mem_iff_exists_getElem?.mpr ⟨file, hfile⟩
  have hclean := clean_of_empty hfile hempty
  have hfile' : (fs.append active (segmentFormatMagic.take len)).segments[active]? =
      some { file with bytes := segmentFormatMagic.take len } := by
    rw [Fs.append, Fs.getElem?_modifySegment, if_pos rfl, hfile, Option.map_some, hempty]
    rfl
  have hinactive : SameInactive active fs (fs.append active (segmentFormatMagic.take len)) :=
    .modifySegment fs active _
  have hnew : directory.run (SegmentWriter.new active maxSegmentLen).run fs =
      (.ok ⟨active, segmentFileHeaderLen, maxSegmentLen⟩, fs.append active segmentFormatMagic) := by
    have hcreate := Fs.create_of_mem hpresent
    have hrun := run_newWriter_header (hcreate.symm ▸ hfile) hempty maxSegmentLen
    rwa [if_pos (Std.ExtTreeMap.contains_iff_mem.mpr hpresent), hcreate] at hrun
  have hopened := (h.opened_eq (.refl active fs) hclean).trans
    (run_openRecovered_of_loads hloads hnew)
  by_cases hlen : len < segmentFileHeaderLen
  · -- A part of the header is cut off again, and then the bytes are those of the whole opening.
    have hscan := (run_scanSegment_short hfile' (show (segmentFormatMagic.take len).length < _ by
      rw [List.length_take]; omega)).1
    have hsame : SameBytes fs (if (segmentFormatMagic.take len).length = 0
        then fs.append active (segmentFormatMagic.take len)
        else (fs.append active (segmentFormatMagic.take len)).setLen active 0) := by
      refine ⟨fun segment ↦ ?_, by split <;> rfl, by split <;> rfl⟩
      by_cases hsegment : active = segment
      · subst hsegment
        split
        · next hzero => rw [hfile', hfile, Option.map_some, Option.map_some,
            List.length_eq_zero_iff.mp hzero, hempty]
        · rw [getElem?_setLen hfile', hfile, Option.map_some, Option.map_some, hempty]
          rfl
      · split <;>
          simp only [Fs.setLen, Fs.append, Fs.getElem?_modifySegment, if_neg hsegment]
    obtain ⟨hresult, hbytes⟩ :=
      bisimulation_sameBytes.run (openRecovered N active maxSegmentLen).run
      hsame
    rw [← h.opened_eq (.refl active fs) hclean, ← h.opened_eq hinactive hscan] at hresult hbytes
    exact ⟨hresult.symm, hbytes⟩
  · have hwhole : segmentFormatMagic.take len = segmentFormatMagic :=
      List.take_of_length_le (Nat.not_lt.mp hlen)
    rw [hwhole] at hfile' hinactive ⊢
    have hscan : directory.run (scanSegment active true).run (fs.append active segmentFormatMagic) =
        (.ok (), fs.append active segmentFormatMagic) :=
      run_scanSegment_records hfile' (List.append_nil _).symm true
    have hfilled : Filled fs (fs.append active segmentFormatMagic) := by
      refine ⟨fun segment other hother hne ↦ ?_, rfl, rfl⟩
      have hsegment : active ≠ segment := by
        rintro rfl
        obtain rfl := Option.some.inj (hfile.symm.trans hother)
        exact hne hempty
      rw [Fs.append, Fs.getElem?_modifySegment, if_neg hsegment, hother, Option.map_some]
    have hagain := run_newWriter hfile' (List.cons_ne_nil _ _) maxSegmentLen
    refine .of_eq (((h.opened_eq hinactive hscan).trans
      (run_openRecovered_of_loads (hfilled.loads hloads) hagain)).trans hopened.symm)

theorem sameBytes_syncDir (fs : Fs) : SameBytes fs fs.syncDir := by
  refine ⟨fun segment ↦ ?_, rfl, rfl⟩
  rw [Fs.getElem?_syncDir, Option.map_map]
  rfl

theorem Reopens.syncDir (h : Reopens N maxSegmentLen fs fs') :
    Reopens N maxSegmentLen fs fs'.syncDir :=
  h.trans (.of_sameBytes (sameBytes_syncDir fs'))

/-! ### A directory without segments -/

section Created

theorem getElem?_created (hnone : ∀ segment, segment ∉ fs.segments) :
    (fs.create 0).segments[0]? = some ⟨[], 0, false⟩ := by
  rw [Fs.getElem?_create (hnone 0), if_pos rfl]

theorem eq_zero_of_created (hnone : ∀ segment, segment ∉ fs.segments) {segment : ℕ}
    (hsegment : segment ∈ (fs.create 0).segments) : segment = 0 := by
  obtain ⟨file, hsegment⟩ := mem_iff_exists_getElem?.mp hsegment
  rw [Fs.getElem?_create (hnone 0)] at hsegment
  split at hsegment
  · next hzero => exact hzero.symm
  · exact absurd (mem_iff_exists_getElem?.mpr ⟨file, hsegment⟩) (hnone segment)

theorem isActive_created (hnone : ∀ segment, segment ∉ fs.segments) : IsActive (fs.create 0) 0 where
  names := fun _ hsegment ↦ eq_zero_of_created hnone hsegment ▸ by decide
  present := mem_iff_exists_getElem?.mpr ⟨_, getElem?_created hnone⟩
  le := fun _ hsegment ↦ (eq_zero_of_created hnone hsegment).le

theorem comesTo_created (hnone : ∀ segment, segment ∉ fs.segments) (hmax : maxSegmentLen ≠ 0) :
    ComesTo N maxSegmentLen (fs.create 0) 0 := by
  rcases @run_withMaxSegmentLen N _ _ (isActive_created hnone) maxSegmentLen hmax with
    ⟨⟨segment, hsegment, hne, -⟩, -⟩ | ⟨-, hopen⟩
  · exact absurd (eq_zero_of_created hnone hsegment) hne
  · exact hopen

theorem filled_created (hnone : ∀ segment, segment ∉ fs.segments) : Filled fs (fs.create 0) where
  bytes := fun segment file hsegment _ ↦
    absurd (mem_iff_exists_getElem?.mpr ⟨file, hsegment⟩) (hnone segment)
  checkpoints := rfl
  nodes := rfl

theorem run_discoverSegmentPaths_empty (hnone : ∀ segment, segment ∉ fs.segments) :
    directory.run discoverSegmentPaths.run fs = (.ok [], fs) := by
  have hkeys : fs.segments.keys = [] := List.eq_nil_iff_forall_not_mem.mpr fun segment hsegment ↦
    hnone segment (Std.ExtTreeMap.mem_keys.mp hsegment)
  have hentries : discoverSegments (Fs.reply .readDir fs) = fs.segments.keys :=
    discoverSegments_entries fun segment hsegment ↦ absurd hsegment (hnone segment)
  refine (Machine.run_bindExcept_ok (run_io .readDir fs)).trans ?_
  rw [hentries, hkeys]
  rfl

theorem opened_of_empty (hnone : ∀ segment, segment ∉ fs.segments) (hmax : maxSegmentLen ≠ 0) :
    opened N maxSegmentLen fs = directory.run (openRecovered N 0 maxSegmentLen).run fs := by
  have hfound := run_discoverSegmentPaths_empty hnone
  have hchecked : directory.run (failIf (maxSegmentLen = 0)
      (invalidInput "max segment length must be non-zero") : IoM Unit).run fs = (.ok (), fs) := by
    rw [failIf, if_neg hmax]
    rfl
  have hselect : directory.run selectActiveAppendSegment.run fs = (.ok 0, fs) :=
    Machine.run_bindExcept_ok hfound
  have hrecover : directory.run (recoverStorageDir 0).run fs = (.ok (), fs) :=
    Machine.run_bindExcept_ok hfound
  refine (Machine.run_bindExcept_ok hchecked).trans ?_
  refine (Machine.run_bindExcept_ok hselect).trans ?_
  exact Machine.run_bindExcept_ok hrecover

theorem reopens_created (hnone : ∀ segment, segment ∉ fs.segments) (hmax : maxSegmentLen ≠ 0)
    {registry : NodeRegistry} {index : CheckpointIndex} (hloads : Loads N fs registry index) :
    Reopens N maxSegmentLen fs (fs.create 0) := by
  have hfile := getElem?_created hnone
  have hpresent := (isActive_created hnone).present
  have hcreate := Fs.create_of_mem hpresent
  have hnew := run_newWriter_header hfile rfl maxSegmentLen
  have hagain := run_newWriter_header (hcreate.symm ▸ hfile) rfl maxSegmentLen
  rw [if_neg (mt Std.ExtTreeMap.contains_iff_mem.mp (hnone 0))] at hnew
  rw [if_pos (Std.ExtTreeMap.contains_iff_mem.mpr hpresent), hcreate] at hagain
  have hfirst := (opened_of_empty hnone hmax).trans (run_openRecovered_of_loads hloads hnew)
  have hsecond := ((comesTo_created hnone hmax).opened_eq (.refl 0 _)
    (clean_of_empty hfile rfl)).trans
      (run_openRecovered_of_loads ((filled_created hnone).loads hloads) hagain)
  constructor
  · rw [hfirst, hsecond]
  · rw [hfirst, hsecond]
    exact (sameBytes_syncDir _).symm

end Created

/-! ### All states of an opening -/

section Always

variable {J : Fs → Prop} {α : Type}

theorem always_asks {action : IoM α} {Q : Except IoError α → ℕ → Prop} {t : ℕ} (hJ : J fs)
    (h : directory.Sees (fun _ ↦ fs) Q action.run t) :
    (directory.always J).Refines (fun result _ fs' ↦ directory.run action.run fs = (result, fs') ∧
      fs' = fs) action.run () fs :=
  (Refinement.Refines.of_sees (fun _ _ _ _ ↦ trivial) hJ h).returned.mono
    fun _ _ _ hasked ↦ ⟨hasked.1, hasked.2.2.1⟩

/-- After recovery the metadata is loaded, and then the writer may write a header. -/
theorem always_openRecovered (hJ : J fs) (hnew : ∀ registry index, Loads N fs registry index →
      (directory.always J).Refines (fun _ _ _ ↦ True)
        (SegmentWriter.new active maxSegmentLen).run () fs) :
    (directory.always J).Refines (fun _ _ _ ↦ True)
      (openRecovered N active maxSegmentLen).run () fs := by
  refine .bindExcept ((always_asks hJ (sees_loadRegistry (t := 0))).mono ?_)
  rintro result ⟨⟩ _ ⟨hregistry, rfl⟩
  cases result with
  | error error => trivial
  | ok registry =>
    refine .bindExcept ((always_asks hJ (sees_loadIndex registry (t := 0))).mono ?_)
    rintro result ⟨⟩ _ ⟨hindex, rfl⟩
    cases result with
    | error error => trivial
    | ok index =>
      refine .bindExcept ((hnew registry index ⟨hregistry, hindex⟩).mono fun result _ _ _ ↦ ?_)
      cases result <;> trivial

end Always

/-- The directories that an opening goes through. -/
inductive OpeningState (N : Noraft) (maxSegmentLen : ℕ) (fs : Fs) : Fs → Prop
  | start : OpeningState N maxSegmentLen fs fs
  | created {registry : NodeRegistry} {index : CheckpointIndex}
      (hnone : ∀ segment, segment ∉ fs.segments) (hloads : Loads N fs registry index)
      (hmax : maxSegmentLen ≠ 0) : OpeningState N maxSegmentLen fs (fs.create 0)
  | cut {active start : ℕ} {file : SegmentFile} (hactive : IsActive fs active)
      (hcomes : ComesTo N maxSegmentLen fs active) (hfile : fs.segments[active]? = some file)
      (hcut : CutAt fs active file start) :
      OpeningState N maxSegmentLen fs (fs.setLen active start)
  | header {fs' : Fs} {active : ℕ} {file : SegmentFile} {registry : NodeRegistry}
      {index : CheckpointIndex} (h : OpeningState N maxSegmentLen fs fs')
      (hactive : IsActive fs' active) (hcomes : ComesTo N maxSegmentLen fs' active)
      (hfile : fs'.segments[active]? = some file) (hempty : file.bytes = [])
      (hloads : Loads N fs' registry index) (len : ℕ) :
      OpeningState N maxSegmentLen fs (fs'.append active (segmentFormatMagic.take len))
  | synced {fs' : Fs} (h : OpeningState N maxSegmentLen fs fs') :
      OpeningState N maxSegmentLen fs fs'.syncDir

theorem ComesTo.of_sameInactive (h : ComesTo N maxSegmentLen fs active)
    (hsame : SameInactive active fs fs') : ComesTo N maxSegmentLen fs' active := by
  refine fun fs'' hsame' ↦ h fs'' ⟨hsame'.keys.trans hsame.keys, fun segment hsegment ↦ ?_⟩
  exact (hsame'.bytes segment hsegment).trans (hsame.bytes segment hsegment)

theorem ComesTo.always_openRecovered {start : Fs} (hactive : IsActive fs active)
    (hcomes : ComesTo N maxSegmentLen fs active) (hfile : fs.segments[active]? = some file)
    (h : OpeningState N maxSegmentLen start fs) :
    (directory.always (OpeningState N maxSegmentLen start)).Refines (fun _ _ _ ↦ True)
      (openRecovered N active maxSegmentLen).run () fs := by
  have hcreate : fs.create active = fs := Fs.create_of_mem hactive.present
  refine Sukari.always_openRecovered h fun registry index hloads ↦
    always_newWriter h (hcreate.symm ▸ h) (fun hlen len ↦ ?_) fun _ hfs ↦ hfs.synced
  rw [hcreate] at hlen ⊢
  have hempty : file.bytes = [] := by
    simpa only [Fs.fileLen, hfile, List.length_eq_zero_iff] using hlen
  exact h.header hactive hcomes hfile hempty hloads len

/-- A directory with segments. -/
theorem always_open_active (h : IsActive fs active) (hmax : maxSegmentLen ≠ 0) :
    (directory.always (OpeningState N maxSegmentLen fs)).Refines (fun _ _ _ ↦ True)
      (StorageEngine.withMaxSegmentLen N maxSegmentLen).run () fs := by
  have hstart := @OpeningState.start N maxSegmentLen fs
  refine .bindExcept (refines_failIfExcept (fun hzero ↦ absurd hzero hmax) fun _ ↦ ?_)
  have hselect : directory.Sees (fun _ ↦ fs) (fun _ _ ↦ True) selectActiveAppendSegment.run 0 :=
    .bindExcept (.bindExcept (sees_io inquiry_readDir trivial))
  refine .bindExcept ((always_asks hstart hselect).mono ?_)
  rintro result ⟨⟩ fs ⟨hrun, rfl⟩
  rw [run_selectActiveAppendSegment h] at hrun
  obtain rfl := (Prod.mk.inj hrun).1
  obtain ⟨inactive, hkeys, hinactive⟩ := h.exists_keys
  obtain ⟨verdict, -, hrefused, hscans⟩ := run_scanInactive (fun segment hsegment ↦
    (hinactive segment hsegment).2) fun segment hsegment ↦ (hinactive segment hsegment).1
  have hdiscover : directory.Sees (fun _ ↦ fs) (fun _ _ ↦ True) discoverSegmentPaths.run 0 :=
    .bindExcept (sees_io inquiry_readDir trivial)
  refine .bindExcept (.bindExcept ((always_asks hstart hdiscover).mono ?_))
  rintro result ⟨⟩ fs ⟨hrun, rfl⟩
  rw [run_discoverSegmentPaths h] at hrun
  obtain rfl := (Prod.mk.inj hrun).1
  have happend (step : ℕ → IoM Unit) :
      (inactive ++ [active]).forM step = (do inactive.forM step; step active) := by
    refine List.forM_append.trans ?_
    simp
  rw [hkeys]
  dsimp only
  rw [happend]
  refine .bindExcept ((always_asks hstart (sees_scanInactive hinactive (t := 0))).mono ?_)
  rintro result ⟨⟩ fs ⟨hrun, rfl⟩
  rw [hscans fs (.refl active fs)] at hrun
  obtain rfl := (Prod.mk.inj hrun).1
  cases verdict with
  | error error => trivial
  | ok value =>
    have hcomes : ComesTo N maxSegmentLen fs active := by
      rcases @run_withMaxSegmentLen N fs active h maxSegmentLen hmax with
        ⟨⟨segment, hsegment, hne, hrefuses⟩, -⟩ | ⟨-, hopen⟩
      · rw [← Std.ExtTreeMap.mem_keys, hkeys, List.mem_append, List.mem_singleton] at hsegment
        exact absurd trivial (hrefused.mpr ⟨segment, hsegment.resolve_right hne, hrefuses⟩)
      · exact hopen
    obtain ⟨file, hfile⟩ := mem_iff_exists_getElem?.mp h.present
    rw [beq_self_eq_true]
    refine (refines_scanActive hfile hstart fun start hcut ↦
      .cut h hcomes hfile hcut).mono ?_
    rintro result ⟨⟩ fs' ⟨hscanned, hstate⟩
    cases hscanned with
    | refused error => trivial
    | clean hclean => exact hcomes.always_openRecovered h hfile hstate
    | cut hcut =>
      exact (hcomes.of_sameInactive (.modifySegment fs active _)).always_openRecovered
        (h.of_sameInactive (.modifySegment fs active _)) (getElem?_setLen hfile _) hstate

/-- A directory without segments, in which the first one is created. -/
theorem always_open_empty (hnone : ∀ segment, segment ∉ fs.segments) (hmax : maxSegmentLen ≠ 0) :
    (directory.always (OpeningState N maxSegmentLen fs)).Refines (fun _ _ _ ↦ True)
      (StorageEngine.withMaxSegmentLen N maxSegmentLen).run () fs := by
  have hstart := @OpeningState.start N maxSegmentLen fs
  have hfound := run_discoverSegmentPaths_empty hnone
  have hdiscovers : directory.Sees (fun _ ↦ fs) (fun _ _ ↦ True) discoverSegmentPaths.run 0 :=
    .bindExcept (sees_io inquiry_readDir trivial)
  refine .bindExcept (refines_failIfExcept (fun hzero ↦ absurd hzero hmax) fun _ ↦ ?_)
  refine .bindExcept (.bindExcept ((always_asks hstart hdiscovers).mono ?_))
  rintro result ⟨⟩ fs ⟨hrun, rfl⟩
  obtain rfl := (Prod.mk.inj (hrun.symm.trans hfound)).1
  refine .bindExcept (.bindExcept ((always_asks hstart hdiscovers).mono ?_))
  rintro result ⟨⟩ fs ⟨hrun, rfl⟩
  obtain rfl := (Prod.mk.inj (hrun.symm.trans hfound)).1
  refine always_openRecovered hstart fun registry index hloads ↦ ?_
  have hcreated := OpeningState.created hnone hloads hmax
  exact always_newWriter hstart hcreated (fun _ len ↦
    hcreated.header (isActive_created hnone) (comesTo_created hnone hmax) (getElem?_created hnone)
      rfl ((filled_created hnone).loads hloads) len) fun _ hfs ↦ hfs.synced

theorem exists_isActive (hnames : ∀ segment ∈ fs.segments, segment < 2 ^ 64)
    (hsome : ∃ segment, segment ∈ fs.segments) : ∃ active, IsActive fs active := by
  cases hmax : fs.segments.keys.max? with
  | none =>
    obtain ⟨segment, hsegment⟩ := hsome
    have hkey := Std.ExtTreeMap.mem_keys.mpr hsegment
    rw [List.max?_eq_none_iff.mp hmax] at hkey
    cases hkey
  | some active =>
    obtain ⟨hactive, hle⟩ := List.max?_eq_some_iff.mp hmax
    exact ⟨active, hnames, Std.ExtTreeMap.mem_keys.mp hactive, fun segment hsegment ↦
      hle segment (Std.ExtTreeMap.mem_keys.mpr hsegment)⟩

/-- Every directory that an opening goes through is one of these. -/
theorem openingState_of_states (hnames : ∀ segment ∈ fs.segments, segment < 2 ^ 64)
    {visit : Visit fileSystem Fs}
    (hvisit : visit ∈ states (StorageEngine.withMaxSegmentLen N maxSegmentLen).run fs) :
    OpeningState N maxSegmentLen fs visit.state := by
  have halways : (directory.always (OpeningState N maxSegmentLen fs)).Refines (fun _ _ _ ↦ True)
      (StorageEngine.withMaxSegmentLen N maxSegmentLen).run () fs := by
    by_cases hzero : maxSegmentLen = 0
    · exact .bindExcept (refines_failIfExcept (fun _ ↦ trivial) fun h ↦ absurd hzero h)
    · by_cases hnone : ∀ segment, segment ∉ fs.segments
      · exact always_open_empty hnone hzero
      · obtain ⟨active, hactive⟩ := exists_isActive hnames (not_forall_not.mp hnone)
        exact always_open_active hactive hzero
  rcases List.mem_cons.mp hvisit with rfl | htrace
  · exact .start
  · obtain ⟨ops, g, -, -, hstate⟩ := halways.visit htrace
    exact hstate

/-- A directory with the beginning of a file that is no segment. -/
def strayDir : Fs := (Fs.create .empty 5).append 5 [1, 2]

theorem lt_of_singleSegment (bytes : List UInt8) (segment : ℕ)
    (hsegment : segment ∈ ((Fs.create .empty 5).append 5 bytes).segments) : segment < 2 ^ 64 := by
  obtain ⟨file, hfile⟩ :=
    mem_iff_exists_getElem?.mp ((Fs.mem_modifySegment _ 5 _ segment).mp hsegment)
  rw [Fs.getElem?_create Std.ExtTreeMap.not_mem_empty] at hfile
  split at hfile
  · next heq => exact heq ▸ by decide
  · exact absurd hfile (by simp [Fs.empty])

/-- The file is cut off, and an opening that stops in the header has written some of it. -/
theorem exists_stray_visit : ∃ visit,
    visit ∈ states (StorageEngine.withMaxSegmentLen Noraft.ofLists 64).run strayDir ∧
      visit.state.fileLen 5 = 3 := by
  have hany : ((states (StorageEngine.withMaxSegmentLen Noraft.ofLists 64).run strayDir).any
      fun visit ↦ decide (visit.state.fileLen 5 = 3)) = true := by decide +kernel
  obtain ⟨visit, hvisit, hlen⟩ := List.any_eq_true.mp hany
  exact ⟨visit, hvisit, of_decide_eq_true hlen⟩

theorem OpeningState.reopens (h : OpeningState N maxSegmentLen fs fs') :
    Reopens N maxSegmentLen fs fs' := by
  induction h with
  | start => exact .refl fs
  | created hnone hloads hmax => exact reopens_created hnone hmax hloads
  | cut _ hcomes _ hcut => exact hcomes.reopens_cut hcut.scan hcut.clean
  | header _ _ hcomes hfile hempty hloads len ih =>
    exact ih.trans (hcomes.reopens_header hfile hempty hloads len)
  | synced _ ih => exact ih.syncDir

/-- An opening that is interrupted leaves a directory that opens as the whole one, whatever bytes
the files hold. -/
theorem open_restartable (hnames : ∀ segment ∈ fs.segments, segment < 2 ^ 64)
    {visit : Visit fileSystem Fs}
    (hvisit : visit ∈ states (StorageEngine.withMaxSegmentLen N maxSegmentLen).run fs) :
    Reopens N maxSegmentLen fs visit.state :=
  (openingState_of_states hnames hvisit).reopens

theorem open_restartable_stray :
    ∃ fs, fs.fileLen 5 = 3 ∧ Reopens Noraft.ofLists 64 strayDir fs := by
  obtain ⟨visit, hvisit, hlen⟩ := exists_stray_visit
  exact ⟨visit.state, hlen, open_restartable (lt_of_singleSegment [1, 2]) hvisit⟩

/-! ### What an opening keeps -/

/-- What an opening may do to the bytes of a file: it cuts off what is behind the whole frames, and
it writes a header where there was no whole one. -/
structure KeepsRecords (bytes bytes' : List UInt8) : Prop where
  shape : bytes' <+: bytes ∨
    bytes.length < segmentFileHeaderLen ∧ bytes' <+: segmentFormatMagic
  header : bytes'.length < segmentFileHeaderLen → bytes.length < segmentFileHeaderLen
  records : ∀ frames : List WholeFrame, wholeFrames frames <+: bytes →
    wholeFrames frames <+: bytes'

theorem KeepsRecords.refl (bytes : List UInt8) : KeepsRecords bytes bytes :=
  ⟨.inl (List.prefix_refl bytes), id, fun _ ↦ id⟩

theorem KeepsRecords.trans {bytes bytes' bytes'' : List UInt8} (h : KeepsRecords bytes bytes')
    (h' : KeepsRecords bytes' bytes'') : KeepsRecords bytes bytes'' := by
  refine ⟨?_, fun hshort ↦ h.header (h'.header hshort),
    fun frames hframes ↦ h'.records frames (h.records frames hframes)⟩
  rcases h'.shape with hpart | ⟨hshort, hmagic⟩
  · rcases h.shape with hbefore | ⟨hshort, hbefore⟩
    · exact .inl (hpart.trans hbefore)
    · exact .inr ⟨hshort, hpart.trans hbefore⟩
  · exact .inr ⟨h.header hshort, hmagic⟩

theorem CutAt.keepsRecords {start : ℕ} (h : CutAt fs active file start) :
    KeepsRecords file.bytes (file.bytes.take start) := by
  refine ⟨.inl (List.take_prefix ..), fun hshort ↦ ?_, fun frames hframes ↦ ?_⟩
  · rw [List.length_take, min_lt_iff] at hshort
    exact hshort.elim h.header id
  · exact List.prefix_take_iff.mpr ⟨hframes, h.records frames hframes⟩

theorem KeepsRecords.of_empty {bytes : List UInt8} (h : KeepsRecords bytes []) (len : ℕ) :
    KeepsRecords bytes (segmentFormatMagic.take len) := by
  have hshort := h.header (by decide)
  refine ⟨.inr ⟨hshort, List.take_prefix ..⟩, fun _ ↦ hshort, fun frames hframes ↦ ?_⟩
  have hlength := length_wholeFrames frames
  have hle := hframes.length_le
  omega

/-- What an opening keeps of a directory. -/
structure Retains (fs fs' : Fs) : Prop where
  files : ∀ (segment : ℕ) (file : SegmentFile), fs.segments[segment]? = some file →
    ∃ file', fs'.segments[segment]? = some file' ∧ KeepsRecords file.bytes file'.bytes ∧
      ((∃ later ∈ fs.segments, segment < later) → file'.bytes = file.bytes)
  added : ∀ segment ∈ fs'.segments, segment ∉ fs.segments →
    segment = 0 ∧ ∀ other, other ∉ fs.segments
  checkpoints : fs'.checkpoints.current = fs.checkpoints.current
  nodes : fs'.nodes.current = fs.nodes.current

theorem Retains.of_inactive {fs₁ : Fs} (h : Retains fs fs₁) (hactive : IsActive fs₁ active)
    (hfile : fs₁.segments[active]? = some file) (f : SegmentFile → SegmentFile)
    (hf : ∀ bytes, KeepsRecords bytes file.bytes → KeepsRecords bytes (f file).bytes) :
    Retains fs (fs₁.modifySegment active f) where
  files := by
    intro segment old hold
    obtain ⟨file₁, hfile₁, hkeeps, hinactive⟩ := h.files segment old hold
    rw [Fs.getElem?_modifySegment]
    by_cases hsegment : active = segment
    · subst hsegment
      obtain rfl := Option.some.inj (hfile.symm.trans hfile₁)
      rw [if_pos rfl, hfile]
      refine ⟨f file, rfl, hf old.bytes hkeeps, fun hlater ↦ ?_⟩
      obtain ⟨later, hmem, hlt⟩ := hlater
      obtain ⟨last, hlast⟩ := mem_iff_exists_getElem?.mp hmem
      obtain ⟨last₁, hlast₁, -⟩ := h.files later last hlast
      have hle := hactive.le later (mem_iff_exists_getElem?.mpr ⟨last₁, hlast₁⟩)
      exact absurd hlt (Nat.not_lt.mpr hle)
    · rw [if_neg hsegment]
      exact ⟨file₁, hfile₁, hkeeps, hinactive⟩
  added := by
    intro segment hsegment
    exact h.added segment ((Fs.mem_modifySegment fs₁ active f segment).mp hsegment)
  checkpoints := h.checkpoints
  nodes := h.nodes

theorem Retains.refl (fs : Fs) : Retains fs fs where
  files := fun _ file hfile ↦ ⟨file, hfile, .refl file.bytes, fun _ ↦ rfl⟩
  added := fun _ hsegment hnot ↦ absurd hsegment hnot
  checkpoints := rfl
  nodes := rfl

theorem OpeningState.retains (h : OpeningState N maxSegmentLen fs fs') : Retains fs fs' := by
  induction h with
  | start => exact .refl fs
  | created hnone hloads hmax =>
    refine ⟨fun segment file hfile ↦ ?_, fun segment hsegment _ ↦ ?_, rfl, rfl⟩
    · exact absurd (mem_iff_exists_getElem?.mpr ⟨file, hfile⟩) (hnone segment)
    · exact ⟨eq_zero_of_created hnone hsegment, hnone⟩
  | @cut active start file hactive hcomes hfile hcut =>
    refine (Retains.refl fs).of_inactive hactive hfile _ fun bytes hkeeps ↦ ?_
    exact hkeeps.trans hcut.keepsRecords
  | @header fs₁ active file _ _ _ hactive _ hfile hempty _ len ih =>
    refine ih.of_inactive hactive hfile _ fun bytes hkeeps ↦ ?_
    rw [hempty] at hkeeps ⊢
    exact hkeeps.of_empty len
  | synced _ ih =>
    refine ⟨fun segment file hfile ↦ ?_, fun segment hsegment ↦ ?_, ih.checkpoints, ih.nodes⟩
    · obtain ⟨file₁, hfile₁, hkeeps, hinactive⟩ := ih.files segment file hfile
      refine ⟨{ file₁ with linked := true }, ?_, hkeeps, hinactive⟩
      rw [Fs.getElem?_syncDir, hfile₁]
      rfl
    · obtain ⟨file, hfile⟩ := mem_iff_exists_getElem?.mp hsegment
      rw [Fs.getElem?_syncDir, Option.map_eq_some_iff] at hfile
      obtain ⟨file₁, hfile₁, -⟩ := hfile
      exact ih.added segment (mem_iff_exists_getElem?.mpr ⟨file₁, hfile₁⟩)

/-- An opening destroys no whole record and no metadata, whatever bytes the files hold, also when it
fails or is interrupted. -/
theorem open_keeps_records (hnames : ∀ segment ∈ fs.segments, segment < 2 ^ 64)
    {visit : Visit fileSystem Fs}
    (hvisit : visit ∈ states (StorageEngine.withMaxSegmentLen N maxSegmentLen).run fs) :
    Retains fs visit.state :=
  (openingState_of_states hnames hvisit).retains

/-- The term of a node, and a whole frame that holds no record. -/
def keptFrames : List WholeFrame :=
  [⟨[1, 0, 0, 0, 0, 0, 0, 0, 0, 7, 0, 0, 0, 0, 0, 0, 0], by decide⟩, ⟨[1, 2, 3], by decide⟩]

/-- A directory with two whole frames and a part of another one. -/
def tornDir : Fs := (Fs.create .empty 5).append 5 (wholeFrames keptFrames ++ [3, 0, 0])

/-- The part of a frame is cut off, and both whole frames are kept. -/
theorem open_keeps_records_torn : ∃ fs,
    fs.segments[5]?.map SegmentFile.bytes = some (wholeFrames keptFrames) ∧ Retains tornDir fs := by
  have hany : ((states (StorageEngine.withMaxSegmentLen Noraft.ofLists 64).run tornDir).any
      fun visit ↦ decide (visit.state.segments[5]?.map SegmentFile.bytes =
        some (wholeFrames keptFrames))) = true := by decide +kernel
  obtain ⟨visit, hvisit, hbytes⟩ := List.any_eq_true.mp hany
  exact ⟨visit.state, of_decide_eq_true hbytes, open_keeps_records (lt_of_singleSegment _) hvisit⟩

end Sukari
