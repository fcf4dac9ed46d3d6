import Sukari.TornTail
import Sukari.Opening

/-!
# Opening a directory with any contents

Recovery goes through the segments in order and stops at the first one that it refuses; only the
active segment, which comes last, is ever changed (`run_withMaxSegmentLen`). What comes after
recovery leaves the segments as they are (`run_openRecovered`). Everything that is refused on the
way is refused as invalid data.
-/

set_option autoImplicit false
set_option relaxedAutoImplicit false

namespace Sukari

open Effects

variable {N : Noraft} {fs fs' : Fs} {active : ℕ} {file : SegmentFile}

/-- The only errors are about invalid data. -/
def OnlyInvalid {α : Type} (result : Except IoError α) : Prop :=
  ∀ error, result = .error error → error.kind = .invalidData

theorem OnlyInvalid.ok {α : Type} (value : α) : OnlyInvalid (.ok value : Except IoError α) := nofun

theorem onlyInvalid_invalidData {α : Type} (message : String) :
    OnlyInvalid (.error (invalidData message) : Except IoError α) := by
  intro error h
  obtain rfl := Except.error.inj h
  rfl

theorem OnlyInvalid.of_error {α β : Type} {error : IoError}
    (h : OnlyInvalid (.error error : Except IoError α)) :
    OnlyInvalid (.error error : Except IoError β) := by
  intro error' hsame
  obtain rfl := Except.error.inj hsame
  exact h error rfl

theorem OnlyInvalid.bind {α β : Type} {result : Except IoError α} {next : α → Except IoError β}
    (h : OnlyInvalid result) (hnext : ∀ value, OnlyInvalid (next value)) :
    OnlyInvalid (result >>= next) := by
  intro error herror
  rcases bind_eq_error_iff.mp herror with hfirst | ⟨value, -, hsecond⟩
  · exact h error hfirst
  · exact hnext value error hsecond

theorem onlyInvalid_failIf {condition : Prop} [Decidable condition] (message : String) :
    OnlyInvalid (failIf condition (invalidData message) : Except IoError Unit) := by
  intro error h
  rw [← (failIf_eq_error_iff.mp h).2]
  rfl

/-! ### What the decoder refuses -/

/-- A decoder refuses data as invalid and in no other way. -/
def Rejects {α : Type} (action : DecoderM α) : Prop := ∀ decoder, OnlyInvalid (action decoder).1

namespace Rejects

variable {α β σ : Type}

theorem pure (value : α) : Rejects (pure value : DecoderM α) := fun _ ↦ .ok value

theorem throw (message : String) : Rejects (throw (invalidData message) : DecoderM α) :=
  fun _ ↦ onlyInvalid_invalidData message

theorem bind {action : DecoderM α} {next : α → DecoderM β} (h : Rejects action)
    (hnext : ∀ value, Rejects (next value)) : Rejects (action >>= next) := by
  intro decoder error herror
  rw [bind_apply] at herror
  have hfirst := h decoder
  cases hout : action decoder with
  | mk result decoder' =>
    rw [hout] at herror hfirst
    cases result with
    | error error' =>
      simp only at herror hfirst
      exact hfirst.of_error error herror
    | ok value => exact hnext value decoder' error herror

theorem failIf (condition : Prop) [Decidable condition] (message : String) :
    Rejects (failIf condition (invalidData message) : DecoderM Unit) := by
  unfold Sukari.failIf
  split
  · exact throw message
  · exact pure ()

theorem get : Rejects (get : DecoderM Decoder) := fun decoder ↦ .ok decoder

theorem set (decoder : Decoder) : Rejects (set decoder : DecoderM Unit) := fun _ ↦ .ok ()

theorem repeatM {step : σ → DecoderM σ} (h : ∀ acc, Rejects (step acc)) (count : ℕ) (acc : σ) :
    Rejects (repeatM step count acc) := by
  induction count generalizing acc with
  | zero => exact pure acc
  | succ count ih => exact (h acc).bind ih

theorem take (len : ℕ) : Rejects (Decoder.take len) :=
  get.bind fun _ ↦ (failIf _ _).bind fun _ ↦ (failIf _ _).bind fun _ ↦ (set _).bind fun _ ↦ pure _

theorem getU8 : Rejects Decoder.getU8 := (take 1).bind fun _ ↦ pure _

theorem getU32 : Rejects Decoder.getU32 := (take 4).bind fun _ ↦ pure _

theorem getU64 : Rejects Decoder.getU64 := (take 8).bind fun _ ↦ pure _

theorem getBytes : Rejects Decoder.getBytes :=
  getU32.bind fun _ ↦ (failIf _ _).bind fun _ ↦ take _

theorem finish : Rejects Decoder.finish := get.bind fun _ ↦ failIf _ _

theorem decodeCount (error : String) : Rejects (decodeCount error) :=
  getU32.bind fun _ ↦ (failIf _ _).bind fun _ ↦ pure _

theorem decodeLogPosition : Rejects decodeLogPosition :=
  getU64.bind fun _ ↦ getU64.bind fun _ ↦ pure _

theorem decodeOptionalNodeId : Rejects decodeOptionalNodeId := by
  refine getU8.bind fun tag ↦ ?_
  split
  · exact pure none
  · exact getU64.bind fun _ ↦ pure _
  · exact throw _

theorem decodeNodeIdSet : Rejects decodeNodeIdSet :=
  (decodeCount _).bind fun _ ↦ repeatM (fun _ ↦
    getU64.bind fun _ ↦ (failIf _ _).bind fun _ ↦ pure _) _ _

theorem decodeClusterConfig : Rejects decodeClusterConfig :=
  decodeNodeIdSet.bind fun _ ↦ decodeNodeIdSet.bind fun _ ↦ decodeNodeIdSet.bind fun _ ↦ pure _

theorem decodeLogEntry : Rejects decodeLogEntry := by
  refine getU8.bind fun tag ↦ ?_
  split
  · exact getU64.bind fun _ ↦ pure _
  · exact decodeClusterConfig.bind fun _ ↦ pure _
  · exact pure _
  · exact throw _

theorem decodeLogEntries : Rejects (decodeLogEntries N) :=
  decodeLogPosition.bind fun _ ↦ (decodeCount _).bind fun _ ↦ (failIf _ _).bind fun _ ↦
    repeatM (fun _ ↦ decodeLogEntry.bind fun _ ↦ pure _) _ _

theorem decodeLogAppend : Rejects (decodeLogAppend N) := by
  refine decodeLogEntries.bind fun entries ↦ (decodeCount _).bind fun _ ↦
    (repeatM (fun _ ↦ getU64.bind fun _ ↦ getU8.bind fun _ ↦ getBytes.bind fun _ ↦
      (failIf _ _).bind fun _ ↦ pure _) _ _).bind fun payloads ↦ ?_
  cases LogAppend.new entries payloads
  · exact throw _
  · exact pure _

theorem decodeSnapshot : Rejects decodeSnapshot :=
  decodeLogPosition.bind fun _ ↦ decodeClusterConfig.bind fun _ ↦ getBytes.bind fun _ ↦ pure _

theorem decodeSnapshotCheckpoint : Rejects (decodeSnapshotCheckpoint N) := by
  refine getU64.bind fun term ↦ decodeOptionalNodeId.bind fun vote ↦
    decodeSnapshot.bind fun snapshot ↦ decodeLogAppend.bind fun suffix ↦ ?_
  dsimp only
  cases SnapshotCheckpoint.validate (⟨term, vote, snapshot, suffix⟩ : SnapshotCheckpoint N)
  · exact throw _
  · exact pure _

theorem decodeRecord : Rejects (decodeRecord N) := by
  refine getU8.bind fun tag ↦ ?_
  split
  · exact getU64.bind fun _ ↦ pure _
  · exact decodeOptionalNodeId.bind fun _ ↦ pure _
  · exact decodeLogAppend.bind fun _ ↦ pure _
  · exact decodeSnapshotCheckpoint.bind fun _ ↦ pure _
  · exact throw _

end Rejects

theorem onlyInvalid_decodeNodeRecord (bytes : List UInt8) :
    OnlyInvalid (decodeNodeRecord N bytes) :=
  (Rejects.getU64.bind fun _ ↦ Rejects.decodeRecord.bind fun _ ↦ Rejects.finish.bind fun _ ↦
    .pure _) (.new bytes)

/-! ### What the readers of frames refuse -/

theorem onlyInvalid_readRecordBody (stream : Stream) : OnlyInvalid (readRecordBody stream) := by
  refine OnlyInvalid.bind ?_ fun header ↦ ?_
  · unfold readFrameHeader
    split
    · exact .ok none
    · dsimp only
      split
      · exact onlyInvalid_invalidData _
      · split
        · exact .ok none
        · exact .ok _
  · split
    · exact .ok none
    · dsimp only
      split
      · exact .ok none
      · exact (onlyInvalid_failIf _).bind fun _ ↦ .ok _

theorem onlyInvalid_checkCheckpointRecord (nodeId : NodeId) (offset : ℕ) (bytes : List UInt8) :
    OnlyInvalid (checkCheckpointRecord N nodeId offset bytes) := by
  refine (onlyInvalid_failIf _).bind fun _ ↦ (onlyInvalid_failIf _).bind fun _ ↦
    (onlyInvalid_readRecordBody _).bind fun found ↦ ?_
  split
  · exact onlyInvalid_invalidData _
  · exact (onlyInvalid_decodeNodeRecord _).bind fun _ ↦ (onlyInvalid_failIf _).bind fun _ ↦
      onlyInvalid_failIf _

/-! ### After recovery -/

variable (N) in
/-- What opening does when recovery is done. -/
def openRecovered (activeSegment maxSegmentLen : ℕ) : IoM StorageEngine := do
  let registry ← NodeRegistry.load
  let checkpointIndex ← CheckpointIndex.load N registry
  let writer ← SegmentWriter.new activeSegment maxSegmentLen
  return ⟨.default, registry, checkpointIndex, writer⟩

/-- The header of a segment that is not the active one is only read. -/
theorem readSegmentHeader_inactive (segment : ℕ) (bytes : List UInt8) (recoverPartial : Bool) :
    ∃ result, OnlyInvalid result ∧
      (readSegmentHeader segment bytes false recoverPartial).run = .done result := by
  unfold readSegmentHeader
  by_cases hempty : bytes.length = 0
  · rw [if_pos hempty]
    exact ⟨_, onlyInvalid_invalidData _, rfl⟩
  · rw [if_neg hempty]
    by_cases hshort : bytes.length < segmentFileHeaderLen
    · rw [if_pos hshort]
      exact ⟨_, onlyInvalid_invalidData _, rfl⟩
    · rw [if_neg hshort]
      by_cases hmagic : bytes.take segmentFileHeaderLen ≠ segmentFormatMagic
      · rw [if_pos hmagic]
        exact ⟨_, onlyInvalid_invalidData _, rfl⟩
      · rw [if_neg hmagic]
        exact ⟨_, .ok true, rfl⟩

theorem sees_validateCheckpointPosition (nodeId : NodeId) (position : RecordPosition) {t : ℕ} :
    directory.Sees (fun _ ↦ fs) (fun result _ ↦ OnlyInvalid result)
      (validateCheckpointPosition N nodeId position).run t := by
  refine .bindExcept (sees_io (inquiry_isFile _) ?_)
  have hreply : Fs.reply (.isFile position.segment) fs =
      fs.segments.contains position.segment := rfl
  rw [hreply]
  refine .bindExcept (sees_failIf (fun _ ↦ onlyInvalid_invalidData _) fun hexists ↦ ?_)
  obtain ⟨file, hfile⟩ := mem_iff_exists_getElem?.mp
    (Std.ExtTreeMap.contains_iff_mem.mp (Bool.of_not_eq_false hexists))
  refine .bindExcept (sees_openSegment ?_)
  rw [hfile]
  obtain ⟨header, hinvalid, hheader⟩ := readSegmentHeader_inactive position.segment file.bytes false
  refine .bindExcept ?_
  rw [hheader]
  cases header with
  | error error => exact hinvalid.of_error
  | ok records => exact sees_liftM (onlyInvalid_checkCheckpointRecord _ _ _)

theorem sees_forM {ι : Type} {items : List ι} {step : ι → IoM Unit} {t : ℕ}
    (h : ∀ item t, directory.Sees (fun _ ↦ fs) (fun result _ ↦ OnlyInvalid result)
      (step item).run t) :
    directory.Sees (fun _ ↦ fs) (fun result _ ↦ OnlyInvalid result) (items.forM step).run t := by
  induction items generalizing t with
  | nil => exact .ok ()
  | cons item rest ih =>
    refine .bindExcept ((h item t).mono fun result t' hresult ↦ ?_)
    cases result with
    | error error => exact hresult
    | ok value => exact ih

theorem onlyInvalid_registry (document : Option Json) :
    OnlyInvalid (NodeRegistry.ofFile document) := by
  cases document with
  | none => exact .ok _
  | some document =>
    unfold NodeRegistry.ofFile
    dsimp only
    split
    · exact .ok _
    · intro error h
      obtain rfl := Except.error.inj h
      rfl

theorem sees_loadIndex (registry : NodeRegistry) {t : ℕ} :
    directory.Sees (fun _ ↦ fs) (fun result _ ↦ OnlyInvalid result)
      (CheckpointIndex.load N registry).run t := by
  refine .bindExcept (sees_io (inquiry_readJson .checkpoints) ?_)
  have hreply : Fs.reply (.readJson .checkpoints) fs = fs.checkpoints.current := rfl
  rw [hreply]
  cases fs.checkpoints.current with
  | none => exact .ok _
  | some document =>
    dsimp only
    cases parseCheckpointIndex document with
    | error error =>
      intro error h
      obtain rfl := Except.error.inj h
      rfl
    | ok index =>
      refine .bindExcept ((sees_forM fun item t ↦
        sees_validateCheckpointPosition item.1 item.2).mono fun result t hresult ↦ ?_)
      cases result with
      | error error => exact hresult.of_error
      | ok value => exact .ok _

theorem sees_loadRegistry {t : ℕ} : directory.Sees (fun _ ↦ fs)
    (fun result _ ↦ OnlyInvalid result) NodeRegistry.load.run t := by
  refine .bindExcept (sees_io (inquiry_readJson .nodes) (sees_liftM ?_))
  exact onlyInvalid_registry _

/-- The writer opens an active segment that holds records without touching it. -/
theorem run_newWriter (hfile : fs.segments[active]? = some file) (hne : file.bytes ≠ [])
    (maxSegmentLen : ℕ) : directory.run (SegmentWriter.new active maxSegmentLen).run fs =
      (.ok ⟨active, file.bytes.length, maxSegmentLen⟩, fs) := by
  have hpresent : active ∈ fs.segments := mem_iff_exists_getElem?.mpr ⟨file, hfile⟩
  have hexisted : Fs.reply (.isFile active) fs = true := hpresent
  have hcreate : Fs.after (.create active) fs = fs := Fs.create_of_mem hpresent
  have hlen : Fs.reply (.fileLen active) fs = file.bytes.length := by
    simp only [Fs.reply, Fs.fileLen, hfile]
    rfl
  have hopen : directory.run (openActiveSegmentFile active).run fs = (.ok (), fs) := by
    refine (Machine.run_bindExcept_ok (run_io (.create active) fs)).trans ?_
    rw [hcreate]
    refine (Machine.run_bindExcept_ok (run_io (.fileLen active) fs)).trans ?_
    rw [hlen]
    simp only [onlyIf, List.length_eq_zero_iff, hne, if_false]
    rfl
  refine (Machine.run_bindExcept_ok (run_io (.isFile active) fs)).trans ?_
  rw [hexisted]
  refine (Machine.run_bindExcept_ok hopen).trans ?_
  have hskip : directory.run (onlyIf (true = false) syncDir : IoM Unit).run fs = (.ok (), fs) := rfl
  refine (Machine.run_bindExcept_ok hskip).trans ?_
  refine (Machine.run_bindExcept_ok (run_io (.fileLen active) fs)).trans ?_
  rw [hlen]
  rfl

/-- After recovery nothing changes any more, and the writer is at the end of the active segment. -/
theorem run_openRecovered (hfile : fs.segments[active]? = some file) (hne : file.bytes ≠ [])
    (maxSegmentLen : ℕ) :
    (directory.run (openRecovered N active maxSegmentLen).run fs).2 = fs ∧
      OnlyInvalid (directory.run (openRecovered N active maxSegmentLen).run fs).1 ∧
      ∀ engine, (directory.run (openRecovered N active maxSegmentLen).run fs).1 = .ok engine →
        engine.writer = ⟨active, file.bytes.length, maxSegmentLen⟩ := by
  obtain ⟨hsame, -, hregistry⟩ := (@sees_loadRegistry fs 0).run
  cases hrun : directory.run NodeRegistry.load.run fs with
  | mk result fs₁ =>
    rw [hrun] at hsame hregistry
    subst hsame
    cases result with
    | error error =>
      rw [openRecovered, Machine.run_bindExcept_error hrun]
      exact ⟨rfl, hregistry.of_error, nofun⟩
    | ok registry =>
      obtain ⟨hsame, -, hindex⟩ := (sees_loadIndex (N := N) registry (t := 0)).run
      rw [openRecovered, Machine.run_bindExcept_ok hrun]
      cases hrun' : directory.run (CheckpointIndex.load N registry).run fs₁ with
      | mk result fs₂ =>
        rw [hrun'] at hsame hindex
        subst hsame
        cases result with
        | error error =>
          rw [Machine.run_bindExcept_error hrun']
          exact ⟨rfl, hindex.of_error, nofun⟩
        | ok index =>
          rw [Machine.run_bindExcept_ok hrun',
            Machine.run_bindExcept_ok (run_newWriter hfile hne maxSegmentLen)]
          exact ⟨rfl, .ok _, fun engine hengine ↦ Except.ok.inj hengine ▸ rfl⟩

/-! ### Recovery of all segments -/

/-- Recovery of a frame loop is refused as invalid data, if it is refused. -/
theorem onlyInvalid_recordLoop {allowPartial : Bool} {fileLen rounds : ℕ} {stream : Stream} :
    OnlyInvalid (recordLoop scanRecordFrame (fun _ _ _ ↦ pure ()) allowPartial fileLen rounds stream
      ()) := by
  have hscan (stream : Stream) : OnlyInvalid (scanRecordFrame stream) := by
    rw [scanRecordFrame_eq]
    have hread := onlyInvalid_readRecordBody stream
    cases hfound : readRecordBody stream with
    | error error =>
      rw [hfound] at hread
      exact hread.of_error
    | ok found => exact .ok _
  induction rounds generalizing stream with
  | zero => exact .ok _
  | succ rounds ih =>
    refine (hscan stream).bind fun found ↦ ?_
    cases found with
    | none =>
      dsimp only
      split
      · exact .ok _
      · split
        · exact .ok _
        · exact onlyInvalid_invalidData _
    | some found => exact ih

/-- A segment that is not the active one is not cut off. -/
theorem recordLoop_inactive {fileLen rounds : ℕ} {stream : Stream} {partialStart : Option ℕ}
    (h : recordLoop scanRecordFrame (fun _ _ _ ↦ pure ()) false fileLen rounds stream () =
      .ok ((), partialStart)) : partialStart = none := by
  induction rounds generalizing stream with
  | zero => exact (Prod.mk.inj (Except.ok.inj h)).2.symm
  | succ rounds ih =>
    rw [recordLoop, bind_eq_ok_iff] at h
    obtain ⟨found, -, h⟩ := h
    cases found with
    | none =>
      dsimp only at h
      split at h
      · exact (Prod.mk.inj (Except.ok.inj h)).2.symm
      · cases h
    | some found => exact ih h

/-- Recovery of a segment that is not the active one is a verdict about its bytes. -/
theorem run_scanSegment_inactive {segment : ℕ} (hpresent : segment ∈ fs.segments) :
    ∃ verdict : Except IoError Unit, OnlyInvalid verdict ∧ ∀ fs' : Fs,
      fs'.segments[segment]?.map SegmentFile.bytes = fs.segments[segment]?.map SegmentFile.bytes →
        directory.run (scanSegment segment false).run fs' = (verdict, fs') := by
  obtain ⟨file, hfile⟩ := mem_iff_exists_getElem?.mp hpresent
  have hopened {fs' : Fs} (hsame : fs'.segments[segment]?.map SegmentFile.bytes =
      fs.segments[segment]?.map SegmentFile.bytes) :
      directory.run (openSegment segment).run fs' = (.ok file.bytes, fs') := by
    rw [hfile, Option.map_some, Option.map_eq_some_iff] at hsame
    obtain ⟨file', hfile', hbytes⟩ := hsame
    rw [run_openSegment hfile', hbytes]
  obtain ⟨header, hinvalid, hheader⟩ := readSegmentHeader_inactive segment file.bytes true
  have hrun (fs' : Fs) : directory.run (readSegmentHeader segment file.bytes false true).run fs' =
      (header, fs') := by rw [hheader]; rfl
  rcases header with error | _ | _
  · refine ⟨.error error, hinvalid.of_error, fun fs' hsame ↦ ?_⟩
    exact (Machine.run_bindExcept_ok (hopened hsame)).trans
      (Machine.run_bindExcept_error (hrun fs'))
  · refine ⟨.ok (), .ok _, fun fs' hsame ↦ ?_⟩
    refine (Machine.run_bindExcept_ok (hopened hsame)).trans ?_
    exact (Machine.run_bindExcept_ok (hrun fs')).trans rfl
  · have hloop := @onlyInvalid_recordLoop false file.bytes.length (file.bytes.length + 1)
      (.seek file.bytes segmentFileHeaderLen)
    have hstart (fs' : Fs) : directory.run (liftM (fromHeader file.bytes.length) : IoM ℕ).run fs' =
      (.ok segmentFileHeaderLen, fs') := rfl
    cases hresult : recordLoop scanRecordFrame (fun _ _ _ ↦ pure ()) false file.bytes.length
        (file.bytes.length + 1) (.seek file.bytes segmentFileHeaderLen) () with
    | error error =>
      rw [hresult] at hloop
      refine ⟨.error error, hloop.of_error, fun fs' hsame ↦ ?_⟩
      refine (Machine.run_bindExcept_ok (hopened hsame)).trans ?_
      refine (Machine.run_bindExcept_ok (hrun fs')).trans ?_
      refine (Machine.run_bindExcept_ok (hstart fs')).trans ?_
      rw [hresult]
      rfl
    | ok out =>
      obtain ⟨⟨⟩, partialStart⟩ := out
      obtain rfl := recordLoop_inactive hresult
      refine ⟨.ok (), .ok _, fun fs' hsame ↦ ?_⟩
      refine (Machine.run_bindExcept_ok (hopened hsame)).trans ?_
      refine (Machine.run_bindExcept_ok (hrun fs')).trans ?_
      refine (Machine.run_bindExcept_ok (hstart fs')).trans ?_
      rw [hresult]
      rfl

/-- The directories have the same segments, and only the bytes of the active one may differ. -/
structure SameInactive (active : ℕ) (fs fs' : Fs) : Prop where
  keys : fs'.segments.keys = fs.segments.keys
  bytes : ∀ segment, segment ≠ active →
    fs'.segments[segment]?.map SegmentFile.bytes = fs.segments[segment]?.map SegmentFile.bytes

theorem SameInactive.refl (active : ℕ) (fs : Fs) : SameInactive active fs fs := ⟨rfl, fun _ _ ↦ rfl⟩

/-- Recovery refuses the file of a segment that is not the active one. -/
def Refuses (fs : Fs) (segment : ℕ) : Prop :=
  ¬ Succeeds (directory.run (scanSegment segment false).run fs).1

/-- Recovery goes through the segments before the active one without changing any of them. -/
theorem run_scanInactive {segments : List ℕ}
    (hpresent : ∀ segment ∈ segments, segment ∈ fs.segments)
    (hinactive : ∀ segment ∈ segments, segment ≠ active) :
    ∃ verdict : Except IoError Unit, OnlyInvalid verdict ∧
      (¬ Succeeds verdict ↔ ∃ segment ∈ segments, Refuses fs segment) ∧
      ∀ fs', SameInactive active fs fs' →
        directory.run (segments.forM fun segment ↦ scanSegment segment (segment == active)).run
          fs' =
          (verdict, fs') := by
  induction segments with
  | nil => exact ⟨.ok (), .ok _, by simp [Succeeds], fun _ _ ↦ rfl⟩
  | cons segment rest ih =>
    obtain ⟨first, hfirst, hscan⟩ := run_scanSegment_inactive (hpresent segment (by simp))
    obtain ⟨verdict, hverdict, hrefused, hrest⟩ :=
      ih (fun other hother ↦ hpresent other (by simp [hother]))
        fun other hother ↦ hinactive other (by simp [hother])
    have hne := hinactive segment (by simp)
    have hsegment : Refuses fs segment ↔ ¬ Succeeds first := by rw [Refuses, hscan fs rfl]
    have hscan' (fs' : Fs) (hsame : SameInactive active fs fs') :
        directory.run (scanSegment segment (segment == active)).run fs' = (first, fs') := by
      rw [beq_false_of_ne hne]
      exact hscan fs' (hsame.bytes segment hne)
    cases first with
    | error error =>
      refine ⟨.error error, hfirst, ?_, fun fs' hsame ↦
        Machine.run_bindExcept_error (hscan' fs' hsame)⟩
      exact ⟨fun hnot ↦ ⟨segment, by simp, hsegment.mpr hnot⟩, fun _ ↦ not_false⟩
    | ok value =>
      refine ⟨verdict, hverdict, ?_, fun fs' hsame ↦
        (Machine.run_bindExcept_ok (hscan' fs' hsame)).trans (hrest fs' hsame)⟩
      rw [hrefused]
      have hpassed : ¬ Refuses fs segment := fun h ↦ hsegment.mp h trivial
      simp [hpassed]

/-- The greatest segment of a directory whose segment numbers are `u64` values. -/
structure IsActive (fs : Fs) (active : ℕ) : Prop where
  names : ∀ segment ∈ fs.segments, segment < 2 ^ 64
  present : active ∈ fs.segments
  le : ∀ segment ∈ fs.segments, segment ≤ active

theorem isActive_of_keys (h : fs.segments.keys = [active]) (hname : active < 2 ^ 64) :
    IsActive fs active := by
  have hmem (segment : ℕ) : segment ∈ fs.segments ↔ segment = active := by
    rw [← Std.ExtTreeMap.mem_keys, h, List.mem_singleton]
  exact ⟨fun segment hsegment ↦ (hmem segment).mp hsegment ▸ hname, (hmem active).mpr rfl,
    fun segment hsegment ↦ ((hmem segment).mp hsegment).le⟩

theorem IsActive.of_sameInactive {fs' : Fs} (h : IsActive fs active)
    (hsame : SameInactive active fs fs') : IsActive fs' active := by
  have hmem (segment : ℕ) : segment ∈ fs'.segments ↔ segment ∈ fs.segments := by
    rw [← Std.ExtTreeMap.mem_keys, hsame.keys, Std.ExtTreeMap.mem_keys]
  exact ⟨fun segment hsegment ↦ h.names segment ((hmem segment).mp hsegment),
    (hmem active).mpr h.present, fun segment hsegment ↦ h.le segment ((hmem segment).mp hsegment)⟩

/-- The active segment is the last one of a listing. -/
theorem IsActive.exists_keys (h : IsActive fs active) : ∃ inactive,
    fs.segments.keys = inactive ++ [active] ∧ ∀ segment ∈ inactive,
      segment ≠ active ∧ segment ∈ fs.segments := by
  have hsorted : fs.segments.keys.Pairwise (· < ·) :=
    fs.segments.ordered_keys.imp fun hlt ↦ Nat.compare_eq_lt.mp hlt
  obtain ⟨inactive, last, hkeys⟩ : ∃ inactive last, fs.segments.keys = inactive ++ [last] := by
    rcases List.eq_nil_or_concat fs.segments.keys with hnil | ⟨inactive, last, hkeys⟩
    · have hactive := Std.ExtTreeMap.mem_keys.mpr h.present
      simp [hnil] at hactive
    · exact ⟨inactive, last, by simpa using hkeys⟩
  have hmem (segment : ℕ) : segment ∈ fs.segments ↔ segment ∈ inactive ∨ segment = last := by
    rw [← Std.ExtTreeMap.mem_keys, hkeys, List.mem_append, List.mem_singleton]
  rw [hkeys, List.pairwise_append] at hsorted
  have hlt (segment : ℕ) (hsegment : segment ∈ inactive) : segment < last :=
    hsorted.2.2 segment hsegment last (by simp)
  have hlast : last ≤ active := h.le last ((hmem last).mpr (.inr rfl))
  obtain rfl : active = last := by
    rcases (hmem active).mp h.present with hinactive | heq
    · have := hlt active hinactive
      omega
    · exact heq
  exact ⟨inactive, hkeys, fun segment hsegment ↦
    ⟨(hlt segment hsegment).ne, (hmem segment).mpr (.inl hsegment)⟩⟩

theorem run_discoverSegmentPaths (h : IsActive fs active) :
    directory.run discoverSegmentPaths.run fs = (.ok fs.segments.keys, fs) := by
  refine (Machine.run_bindExcept_ok (run_io .readDir fs)).trans ?_
  have hentries : discoverSegments (Fs.reply .readDir fs) = fs.segments.keys :=
    discoverSegments_entries h.names
  exact congrArg (fun segments : List ℕ ↦ ((.ok segments : Except IoError (List ℕ)), fs)) hentries

theorem run_selectActiveAppendSegment (h : IsActive fs active) :
    directory.run selectActiveAppendSegment.run fs = (.ok active, fs) := by
  have hmax : fs.segments.keys.max? = some active :=
    List.max?_eq_some_iff.mpr ⟨Std.ExtTreeMap.mem_keys.mpr h.present, fun segment hsegment ↦
      h.le segment (Std.ExtTreeMap.mem_keys.mp hsegment)⟩
  refine (Machine.run_bindExcept_ok (run_discoverSegmentPaths h)).trans ?_
  rw [hmax]
  rfl

/-- Recovery stops before it comes to the active segment. -/
def RefusesBefore (fs : Fs) (active : ℕ) : Prop :=
  ∃ segment ∈ fs.segments, segment ≠ active ∧ Refuses fs segment

/-- Recovery comes to the active segment after a verdict about the segments before it. -/
theorem run_recoverStorageDir (h : IsActive fs active) : ∃ verdict : Except IoError Unit,
    OnlyInvalid verdict ∧ (¬ Succeeds verdict ↔ RefusesBefore fs active) ∧
    ∀ fs', SameInactive active fs fs' →
      directory.run (recoverStorageDir active).run fs' = match verdict with
        | .error error => (.error error, fs')
        | .ok () => directory.run (scanSegment active true).run fs' := by
  obtain ⟨inactive, hkeys, hinactive⟩ := h.exists_keys
  obtain ⟨verdict, hverdict, hrefused, hscan⟩ := run_scanInactive (fun segment hsegment ↦
    (hinactive segment hsegment).2) fun segment hsegment ↦ (hinactive segment hsegment).1
  have hbefore : (∃ segment ∈ inactive, Refuses fs segment) ↔ RefusesBefore fs active := by
    constructor
    · rintro ⟨segment, hsegment, hrefuses⟩
      exact ⟨segment, (hinactive segment hsegment).2, (hinactive segment hsegment).1, hrefuses⟩
    · rintro ⟨segment, hsegment, hne, hrefuses⟩
      rw [← Std.ExtTreeMap.mem_keys, hkeys, List.mem_append, List.mem_singleton] at hsegment
      exact ⟨segment, hsegment.resolve_right hne, hrefuses⟩
  refine ⟨verdict, hverdict, hrefused.trans hbefore, fun fs' hsame ↦ ?_⟩
  refine (Machine.run_bindExcept_ok
    (run_discoverSegmentPaths (h.of_sameInactive hsame))).trans ?_
  have happend (step : ℕ → IoM Unit) :
      (inactive ++ [active]).forM step = (do inactive.forM step; step active) := by
    refine List.forM_append.trans ?_
    simp
  rw [hsame.keys, hkeys, happend]
  cases verdict with
  | error error => exact Machine.run_bindExcept_error (hscan fs' hsame)
  | ok value =>
    refine (Machine.run_bindExcept_ok (hscan fs' hsame)).trans ?_
    rw [beq_self_eq_true]

/-- Opening a directory either fails before the active segment, as invalid and without a change, or
it comes to the active segment, and then the same in all directories that only differ there. -/
theorem run_withMaxSegmentLen (h : IsActive fs active) {maxSegmentLen : ℕ}
    (hmax : maxSegmentLen ≠ 0) :
    (RefusesBefore fs active ∧ ∃ error, error.kind = .invalidData ∧ ∀ fs',
      SameInactive active fs fs' →
      directory.run (StorageEngine.withMaxSegmentLen N maxSegmentLen).run fs' =
        (.error error, fs')) ∨
    ¬ RefusesBefore fs active ∧ ∀ fs', SameInactive active fs fs' →
      directory.run (StorageEngine.withMaxSegmentLen N maxSegmentLen).run fs' =
        directory.run (do
          scanSegment active true
          openRecovered N active maxSegmentLen : IoM StorageEngine).run fs' := by
  obtain ⟨verdict, hverdict, hrefused, hrecover⟩ := run_recoverStorageDir h
  have hopen (fs' : Fs) (hsame : SameInactive active fs fs') :
      directory.run (StorageEngine.withMaxSegmentLen N maxSegmentLen).run fs' =
        directory.run (do
          recoverStorageDir active
          openRecovered N active maxSegmentLen : IoM StorageEngine).run fs' := by
    have hchecked : directory.run (failIf (maxSegmentLen = 0)
        (invalidInput "max segment length must be non-zero") : IoM Unit).run fs' =
          (.ok (), fs') := by
      rw [failIf, if_neg hmax]
      rfl
    refine (Machine.run_bindExcept_ok hchecked).trans ?_
    exact Machine.run_bindExcept_ok (run_selectActiveAppendSegment (h.of_sameInactive hsame))
  cases verdict with
  | error error =>
    refine .inl ⟨hrefused.mp not_false, error, hverdict error rfl, fun fs' hsame ↦
      (hopen fs' hsame).trans ?_⟩
    exact Machine.run_bindExcept_error (hrecover fs' hsame)
  | ok value =>
    refine .inr ⟨fun h ↦ hrefused.mpr h trivial, fun fs' hsame ↦ (hopen fs' hsame).trans ?_⟩
    have hactive : directory.run (recoverStorageDir active).run fs' =
        directory.run (scanSegment active true).run fs' := hrecover fs' hsame
    rw [run_bindExcept, run_bindExcept, Machine.run_bind, Machine.run_bind, hactive]

end Sukari
