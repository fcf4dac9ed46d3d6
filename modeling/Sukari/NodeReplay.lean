import Sukari.Passes
import Sukari.PassFootprints
import Sukari.History

/-!
# The passes of a replay

What the checkpoint scan and the two replays make of the entries that they see. The scan notes the
last checkpoint of every node from its start position on (`findCheckpointPositionsFrom_sees`).
Replaying one node, or several nodes at once, folds the records of the nodes from their noted
checkpoints on (`replayNodePass_sees`, `replayPass_sees`).
-/

set_option autoImplicit false
set_option relaxedAutoImplicit false

namespace Sukari

open Effects

variable {N : Noraft} {world : ℕ → Fs} {journalAt : ℕ → Journal N} {recoverPartial : Bool}

/-! ### The visitors on entries -/

/-- The entry stands at the position or behind it, if there is a position. -/
def Entry.from (start : Option RecordPosition) (entry : Entry N) : Bool :=
  start.all fun position ↦ position ≤ entry.position

theorem noteCheckpoint_body (segment : ℕ) (nodeFilter : Option NodeIdSet)
    (checkpoints : CheckpointPositions) (recordStart : ℕ) (frame : Frame N) :
    noteCheckpoint N segment nodeFilter checkpoints recordStart frame.body =
      if inFilter nodeFilter frame.nodeId && frame.record.isCheckpoint then
        .ok (checkpoints.insert frame.nodeId ⟨segment, recordStart⟩)
      else .ok checkpoints := by
  simp only [noteCheckpoint, frame.decodeRecordNodeId_body, frame.decodeNodeRecord_body, bind,
    Except.bind, pure, Except.pure]
  by_cases hfilter : inFilter nodeFilter frame.nodeId = true
  · simp [hfilter]
  · simp [hfilter]

theorem replayRecord_body (segment : ℕ) (nodeFilter : Option NodeIdSet)
    (checkpointPositions : CheckpointPositions) (replay : ReplayState N) (recordStart : ℕ)
    (frame : Frame N) :
    replayRecord segment nodeFilter checkpointPositions replay recordStart frame.body =
      if inFilter nodeFilter frame.nodeId && (checkpointPositions[frame.nodeId]?.all fun position ↦
          position ≤ (⟨segment, recordStart⟩ : RecordPosition)) then
        replay.apply frame.nodeId frame.record
      else .ok replay := by
  simp only [replayRecord, frame.decodeRecordNodeId_body, frame.decodeNodeRecord_body, bind,
    Except.bind, pure, Except.pure]
  by_cases hfilter : inFilter nodeFilter frame.nodeId = true
  · cases hposition : checkpointPositions[frame.nodeId]? with
    | none => simp [hfilter]
    | some position =>
      by_cases hlt : (⟨segment, recordStart⟩ : RecordPosition) < position
      · simp [hfilter, hlt]
      · simp [hfilter, hlt, not_lt.mp hlt]
  · simp [hfilter]

theorem replayNodeRecord_body (segment : ℕ) (target : NodeId)
    (checkpointPosition : Option RecordPosition) (state : NodeState N) (recordStart : ℕ)
    (frame : Frame N) :
    replayNodeRecord segment target checkpointPosition state recordStart frame.body =
      if frame.nodeId = target && (checkpointPosition.all fun position ↦
          position ≤ (⟨segment, recordStart⟩ : RecordPosition)) then
        applyRecordToState state frame.record
      else .ok state := by
  simp only [replayNodeRecord, frame.decodeRecordNodeId_body, frame.decodeNodeRecord_body, bind,
    Except.bind, pure, Except.pure]
  by_cases htarget : frame.nodeId = target
  · cases checkpointPosition with
    | none => simp [htarget]
    | some position =>
      by_cases hlt : (⟨segment, recordStart⟩ : RecordPosition) < position
      · simp [htarget, hlt]
      · simp [htarget, hlt, not_lt.mp hlt]
  · simp [htarget]

/-! ### Passes over one segment -/

section IsPass

variable {β σ : Type} {readFrame : Stream → Except IoError (Option (β × Stream))}
  {view : Frame N → β} {select : Entry N → Bool} {visitEntry : σ → Entry N → Except IoError σ}

theorem foldlM_placedFrom {visit : σ → ℕ → β → Except IoError σ} {segment : ℕ}
    (hvisit : ∀ acc recordStart frame, visit acc recordStart (view frame) =
      if select ⟨⟨segment, recordStart⟩, frame⟩ then visitEntry acc ⟨⟨segment, recordStart⟩, frame⟩
      else .ok acc)
    (offset : ℕ) (frames : List (Frame N)) (acc : σ) :
    (placedFrom segment offset frames).foldlM
        (fun acc entry ↦ visit acc entry.position.offset (view entry.frame)) acc =
      ((placedFrom segment offset frames).filter select).foldlM visitEntry acc := by
  induction frames generalizing offset acc with
  | nil => rfl
  | cons frame rest ih =>
    rw [placedFrom, List.foldlM_cons, hvisit]
    by_cases hselect : select ⟨⟨segment, offset⟩, frame⟩ = true
    · rw [if_pos hselect, List.filter_cons_of_pos hselect, List.foldlM_cons]
      simp only [ih]
    · rw [if_neg hselect, List.filter_cons_of_neg hselect, ← ih]
      rfl

/-- A pass is described by its visitor and by the frames that it leaves out at its start. -/
theorem isPass_passSegment (hread : ReadsFrames readFrame view) {since : ℕ}
    {visit : ℕ → σ → ℕ → β → Except IoError σ} {start : ℕ → ℕ → Except IoError ℕ}
    {skip : ℕ → Bool} (visits : Entry N → Bool)
    (hvisit : ∀ segment acc recordStart frame, visit segment acc recordStart (view frame) =
      if visits ⟨⟨segment, recordStart⟩, frame⟩ then visitEntry acc ⟨⟨segment, recordStart⟩, frame⟩
      else .ok acc)
    (hstart : ∀ (t segment : ℕ) (file : SegmentFile) (frames : List (Frame N)), since ≤ t →
      skip segment = false → (world t).segments[segment]? = some file →
      (journalAt t)[segment]? = some frames → Contents frames file.bytes →
      ∃ skipped rest, frames = skipped ++ rest ∧
        (segmentFileHeaderLen ≤ file.bytes.length → start segment file.bytes.length =
          .ok (segmentFileHeaderLen + (framesBytes skipped).length)) ∧
        (∀ entry ∈ placedFrom segment segmentFileHeaderLen skipped, select entry = false) ∧
        ∀ entry ∈ placedFrom segment (segmentFileHeaderLen + (framesBytes skipped).length) rest,
          visits entry = select entry)
    (hskip : ∀ entry : Entry N, skip entry.position.segment = true → select entry = false) :
    IsPass world journalAt since (fun segment allowPartial acc ↦
      passSegment readFrame (visit segment) (start segment) segment allowPartial recoverPartial acc)
      skip select visitEntry recoverPartial where
  reads t segment file frames allowPartial acc hsince hkept hfile hframes hcontents hwhole := by
    obtain ⟨skipped, rest, rfl, hoffset, hskipped, hselect⟩ :=
      hstart t segment file frames hsince hkept hfile hframes hcontents
    refine (passSegment_sees hread hfile hcontents hwhole hoffset).mono ?_
    rintro result t' ⟨rfl, rfl⟩
    have hnone : (placedFrom segment segmentFileHeaderLen skipped).filter select = [] :=
      List.filter_eq_nil_iff.mpr fun entry hentry ↦ by simp [hskipped entry hentry]
    refine ⟨rfl, ?_⟩
    rw [foldlM_placedFrom (hvisit segment), placedFrom_append, List.filter_append, hnone,
      List.nil_append, List.filter_congr hselect]
  missing t segment allowPartial acc hfile := by
    refine .bindExcept (sees_openSegment ?_)
    rw [hfile]
    exact not_false
  skips := hskip

end IsPass

theorem isPass_scanCheckpointPositions {since : ℕ} {nodeFilter : Option NodeIdSet}
    {startPosition : Option RecordPosition}
    (hstart : ∀ position ∈ startPosition, ∀ t, since ≤ t →
      ∃ entry ∈ (journalAt t).entries, entry.position = position) :
    IsPass world journalAt since (fun segment allowPartial checkpoints ↦
      scanCheckpointPositions N segment allowPartial nodeFilter
        ((startPosition.filter fun start ↦ segment == start.segment).map RecordPosition.offset)
        recoverPartial checkpoints)
      (fun segment ↦ (startPosition.map RecordPosition.segment).any fun start ↦ segment < start)
      (fun entry ↦ entry.from startPosition &&
        (inFilter nodeFilter entry.frame.nodeId && entry.frame.record.isCheckpoint))
      (fun checkpoints entry ↦ .ok (checkpoints.insert entry.frame.nodeId entry.position))
      recoverPartial := by
  refine isPass_passSegment readsFrames_readRecordBody
    (fun entry ↦ inFilter nodeFilter entry.frame.nodeId && entry.frame.record.isCheckpoint)
    (fun segment checkpoints recordStart frame ↦ noteCheckpoint_body _ _ _ _ _) ?_ ?_
  · intro t segment file frames hsince hskip hfile hframes hcontents
    have hheader : segmentFileHeaderLen ≤ file.bytes.length →
        scanStart none file.bytes.length = .ok segmentFileHeaderLen := by
      intro hlength
      simp [scanStart, Nat.not_lt.mpr hlength, bind_eq_ok_iff]
      rfl
    cases startPosition with
    | none =>
      exact ⟨[], frames, rfl, fun hlength ↦ hheader hlength, by simp [placedFrom],
        fun entry _ ↦ by simp [Entry.from]⟩
    | some position =>
      have hle : position.segment ≤ segment := by simpa using hskip
      by_cases hsegment : segment = position.segment
      · obtain ⟨entry, hentry, rfl⟩ := hstart position rfl t hsince
        have hplaced := Journal.mem_entries.mp hentry
        rw [← hsegment, Journal.inSegment, hframes] at hplaced
        obtain ⟨before, after, rfl, hposition⟩ := exists_of_mem_placedFrom hplaced
        have hentryOffset : entry.position.offset =
            segmentFileHeaderLen + (framesBytes before).length := by rw [hposition]
        refine ⟨before, entry.frame :: after, rfl, fun _ ↦ ?_, fun other hother ↦ ?_,
          fun other hother ↦ ?_⟩
        · have hfits := length_le_of_contents hcontents
          rw [Option.filter_some, if_pos (by simpa using hsegment), Option.map_some, hentryOffset]
          simp only [scanStart, Option.getD_some, bind_eq_ok_iff, failIf_eq_ok_iff]
          refine ⟨(), by omega, (), ?_, rfl⟩
          have := hfits (by simp)
          simp only [framesBytes_append, List.length_append] at this
          omega
        · have hoffset := (offset_of_mem_placedFrom hother).2
          have hpos := length_bytes_pos other.frame
          have hlt : other.position < entry.position := RecordPosition.lt_def.mpr
            (.inr ⟨by rw [segment_of_mem_placedFrom hother, hsegment], by omega⟩)
          simp [Entry.from, hlt]
        · have hoffset := (offset_of_mem_placedFrom hother).1
          have hge : entry.position ≤ other.position := by
            by_contra hlt
            rcases RecordPosition.lt_def.mp (not_le.mp hlt) with h | ⟨-, h⟩
            · rw [segment_of_mem_placedFrom hother] at h
              omega
            · omega
          simp [Entry.from, hge]
      · refine ⟨[], frames, rfl, fun hlength ↦ ?_, by simp [placedFrom], fun other hother ↦ ?_⟩
        · rw [Option.filter_some, if_neg (by simpa using hsegment)]
          exact hheader hlength
        · have hlt : position < other.position := RecordPosition.lt_def.mpr
            (.inl (by rw [segment_of_mem_placedFrom hother]; omega))
          simp [Entry.from, hlt.le]
  · intro entry hskip
    cases startPosition with
    | none => simp at hskip
    | some position =>
      have hlt : entry.position < position :=
        RecordPosition.lt_def.mpr (.inl (by simpa using hskip))
      simp [Entry.from, hlt]

theorem isPass_replayNodeSegment {since : ℕ} {target : NodeId}
    {checkpointPosition : Option RecordPosition} :
    IsPass world journalAt since (fun segment allowPartial state ↦
      replayNodeSegment segment allowPartial target checkpointPosition recoverPartial state)
      (fun segment ↦ (checkpointPosition.map RecordPosition.segment).any fun start ↦
        segment < start)
      (fun entry ↦ entry.frame.nodeId = target && entry.from checkpointPosition)
      (fun (state : NodeState N) entry ↦ applyRecordToState state entry.frame.record)
      recoverPartial := by
  refine isPass_passSegment readsFrames_readRecordBody _
    (fun segment state recordStart frame ↦ replayNodeRecord_body _ _ _ _ _ _)
    (fun t segment file frames _ _ _ _ _ ↦ ⟨[], frames, rfl, fun _ ↦ rfl,
      by simp [placedFrom], fun _ _ ↦ rfl⟩) ?_
  intro entry hskip
  cases checkpointPosition with
  | none => simp at hskip
  | some position =>
    have hlt : entry.position.segment < position.segment := by simpa using hskip
    have hbefore : ¬ position ≤ entry.position := fun hle ↦
      absurd hlt (RecordPosition.segment_le hle).not_gt
    simp [Entry.from, hbefore]

theorem isPass_replaySegment {since : ℕ} {nodeFilter : Option NodeIdSet}
    {checkpointPositions : CheckpointPositions} {startSegment : Option ℕ}
    (hstart : ∀ start ∈ startSegment, ∀ (nodeId : NodeId), inFilter nodeFilter nodeId = true →
      ∃ position, checkpointPositions[nodeId]? = some position ∧ start ≤ position.segment) :
    IsPass world journalAt since (fun segment allowPartial replay ↦
      replaySegment segment allowPartial nodeFilter checkpointPositions recoverPartial replay)
      (fun segment ↦ startSegment.any fun start ↦ segment < start)
      (fun entry ↦ inFilter nodeFilter entry.frame.nodeId &&
        entry.from checkpointPositions[entry.frame.nodeId]?)
      (keyedStep (fun entry : Entry N ↦ entry.frame.nodeId)
        (fun state entry ↦ applyRecordToState state entry.frame.record) (.default N))
      recoverPartial := by
  refine isPass_passSegment readsFrames_readRecordBody _
    (fun segment replay recordStart frame ↦ replayRecord_body _ _ _ _ _ _)
    (fun t segment file frames _ _ _ _ _ ↦ ⟨[], frames, rfl, fun _ ↦ rfl,
      by simp [placedFrom], fun _ _ ↦ rfl⟩) ?_
  intro entry hskip
  cases hfilter : inFilter nodeFilter entry.frame.nodeId with
  | false => rfl
  | true =>
    cases startSegment with
    | none => simp at hskip
    | some start =>
      have hlt : entry.position.segment < start := by simpa using hskip
      obtain ⟨position, hposition, hle⟩ := hstart start rfl entry.frame.nodeId hfilter
      have hbefore : ¬ position ≤ entry.position := fun h ↦ by
        have := RecordPosition.segment_le h
        omega
      simp [Entry.from, hposition, hbefore]

/-! ### Checkpoints noted by a scan -/

def Entry.isCheckpointOf (nodeId : NodeId) (entry : Entry N) : Bool :=
  entry.frame.nodeId = nodeId && entry.frame.record.isCheckpoint

/-- The checkpoint records of a node among some entries, from a position on. -/
def checkpointsFrom (start : Option RecordPosition) (nodeId : NodeId) (entries : List (Entry N)) :
    List (Entry N) :=
  entries.filter fun entry ↦ entry.from start && entry.isCheckpointOf nodeId

/-- The checkpoint that a scan notes for a node: the last one from the start position on. -/
def notedCheckpoint (start : Option RecordPosition) (nodeId : NodeId)
    (entries : List (Entry N)) : Option RecordPosition :=
  (checkpointsFrom start nodeId entries).getLast?.map Entry.position

theorem getElem?_noteEntries {entries : List (Entry N)} {checkpoints : CheckpointPositions}
    (nodeId : NodeId) :
    (entries.foldl (fun checkpoints entry ↦
      checkpoints.insert entry.frame.nodeId entry.position) checkpoints)[nodeId]? =
      (((entries.filter (·.frame.nodeId = nodeId)).getLast?).map Entry.position).or
        checkpoints[nodeId]? := by
  induction entries generalizing checkpoints with
  | nil => simp
  | cons entry rest ih =>
    rw [List.foldl_cons, ih, Std.ExtTreeMap.getElem?_insert]
    by_cases hnode : entry.frame.nodeId = nodeId
    · rw [List.filter_cons_of_pos (by simpa using hnode), List.getLast?_cons]
      cases hlast : (rest.filter (·.frame.nodeId = nodeId)).getLast? <;> simp [hnode]
    · rw [List.filter_cons_of_neg (by simpa using hnode)]
      simp [hnode]

theorem foldlM_ok {ε ι σ : Type} (step : σ → ι → σ) (items : List ι) (acc : σ) :
    items.foldlM (fun acc item ↦ (.ok (step acc item) : Except ε σ)) acc =
      .ok (items.foldl step acc) := by
  induction items generalizing acc with
  | nil => rfl
  | cons item rest ih => exact ih _

/-- A noted checkpoint is a checkpoint of the node. -/
theorem exists_of_notedCheckpoint {start : Option RecordPosition} {nodeId : NodeId}
    {entries : List (Entry N)} {position : RecordPosition}
    (h : notedCheckpoint start nodeId entries = some position) : ∃ entry ∈ entries,
      entry.position = position ∧ entry.isCheckpointOf nodeId = true ∧
        entry.from start = true := by
  obtain ⟨entry, hlast, hposition⟩ := Option.map_eq_some_iff.mp h
  have hmem := List.mem_of_getLast? hlast
  simp only [checkpointsFrom, List.mem_filter, Bool.and_eq_true] at hmem
  exact ⟨entry, hmem.1, hposition, hmem.2.2, hmem.2.1⟩

variable (N) in
/-- The checkpoint scan notes the last checkpoint of every node in the filter. -/
theorem findCheckpointPositionsFrom_sees (hworld : Evolves world journalAt)
    (hclean : recoverPartial = true → ∀ u, Whole (journalAt u) (world u))
    (nodeFilter : Option NodeIdSet) {startPosition : Option RecordPosition} {t : ℕ}
    (hstart : ∀ position ∈ startPosition, ∀ u, t ≤ u →
      ∃ entry ∈ (journalAt u).entries, entry.position = position) (activeSegment : ℕ) :
    directory.Sees world (fun result stop ↦
      (∃ u, t ≤ u ∧ (∃ segment ∈ (world t).segments, segment ∉ (world u).segments) ∧
        ¬ Succeeds result) ∨
      ∃ u checkpoints, t ≤ u ∧ u ≤ stop ∧ result = .ok checkpoints ∧
        ∀ nodeId, checkpoints[nodeId]? = if inFilter nodeFilter nodeId then notedCheckpoint
          startPosition nodeId ((journalAt u).visible (world t).segments.keys) else none)
      (findCheckpointPositionsFrom N activeSegment nodeFilter startPosition recoverPartial).run
        t := by
  refine (passSegments_sees hworld hclean _ (isPass_scanCheckpointPositions hstart)).mono ?_
  rintro result stop (hgone | ⟨u, hu, hstop, hresult⟩)
  · exact .inl hgone
  · rw [foldlM_ok] at hresult
    refine .inr ⟨u, _, hu, hstop (by rw [hresult]; trivial), hresult, fun nodeId ↦ ?_⟩
    rw [getElem?_noteEntries, List.filter_filter, Std.ExtTreeMap.getElem?_empty, Option.or_none]
    by_cases hfilter : inFilter nodeFilter nodeId = true
    · rw [if_pos hfilter, notedCheckpoint, checkpointsFrom]
      congr 2
      refine List.filter_congr fun entry _ ↦ ?_
      by_cases hnode : entry.frame.nodeId = nodeId
      · simp [Entry.isCheckpointOf, hnode, hfilter]
      · simp [Entry.isCheckpointOf, hnode]
    · rw [if_neg hfilter, Option.map_eq_none_iff, List.getLast?_eq_none_iff,
        List.filter_eq_nil_iff]
      intro entry _
      by_cases hnode : entry.frame.nodeId = nodeId
      · simp [hnode, hfilter]
      · simp [hnode]

variable (N) in
/-- Replaying a node folds its records from the noted checkpoint on, in the segments that it lists
after the scan. -/
theorem replayNodeState_sees (hworld : Evolves world journalAt)
    (hclean : recoverPartial = true → ∀ u, Whole (journalAt u) (world u))
    {nodeId : NodeId} {checkpointHint : Option RecordPosition} {t : ℕ}
    (hhint : ∀ position ∈ checkpointHint, ∀ u, t ≤ u →
      ∃ entry ∈ (journalAt u).entries, entry.position = position) (activeSegment : ℕ) :
    directory.Sees world (fun result stop ↦
      (∃ u u', t ≤ u ∧ u ≤ u' ∧ (∃ segment ∈ (world u).segments, segment ∉ (world u').segments) ∧
        ¬ Succeeds result) ∨
      ∃ scanned listing replayed, t ≤ scanned ∧ scanned ≤ listing ∧ listing ≤ replayed ∧
        (Succeeds result → replayed ≤ stop) ∧
        directory.AsksLast world .readDir listing
          (replayNodeState N activeSegment nodeId checkpointHint recoverPartial).run t ∧
        result = (((journalAt replayed).visible (world listing).segments.keys).filter fun entry ↦
          entry.frame.nodeId = nodeId && entry.from (notedCheckpoint checkpointHint nodeId
            ((journalAt scanned).visible (world t).segments.keys))).foldlM
          (fun state entry ↦ applyRecordToState state entry.frame.record) (.default N))
      (replayNodeState N activeSegment nodeId checkpointHint recoverPartial).run t := by
  refine .bindExcept ((findCheckpointPositionsFrom_sees N hworld hclean _ hhint _).observed.mono ?_)
  rintro result stop ⟨hscan, ⟨u, hu, hgone, hresult⟩ |
    ⟨scanned, checkpoints, hscanned, hstop, rfl, hget⟩⟩
  · cases result with
    | ok value => exact absurd trivial hresult
    | error error => exact .inl ⟨t, u, le_rfl, hu, hgone, hresult⟩
  · have hnoted : checkpoints[nodeId]? = notedCheckpoint checkpointHint nodeId
        ((journalAt scanned).visible (world t).segments.keys) := by
      rw [hget, if_pos (by simp [inFilter])]
    have hlists : directory.AsksLast world .readDir stop
        (replayNodeState N activeSegment nodeId checkpointHint recoverPartial).run t :=
      Machine.asksLast_bindExcept hscan (asksLast_passSegments
        (fun _ _ _ ↦ within_passSegment _ _ _ _ _ _ _) _ _ _ _ _ _)
    simp only [hnoted]
    refine (passSegments_sees hworld hclean _ isPass_replayNodeSegment).mono ?_
    rintro result stop' (⟨u, hu, hgone, hresult⟩ | ⟨u, hu, hstop', hresult⟩)
    · exact .inl ⟨stop, u, by omega, hu, hgone, hresult⟩
    · exact .inr ⟨scanned, stop, u, hscanned, hstop, hu, hstop', hlists, hresult⟩

/-! ### Replaying several nodes at once -/

/-- Where the checkpoint scan of several nodes starts: at the oldest of their hints. -/
def oldestHint (checkpointHints : Option CheckpointPositions) : Option RecordPosition :=
  checkpointHints.bind fun positions ↦ (positions.toList.map Prod.snd).min?

/-- The position from which the records of a node are replayed. -/
def replayStart (checkpointHints : Option CheckpointPositions) (nodeId : NodeId)
    (entries : List (Entry N)) : Option RecordPosition :=
  (notedCheckpoint (oldestHint checkpointHints) nodeId entries).or
    (checkpointHints.bind fun positions ↦ positions[nodeId]?)

theorem oldestHint_le {positions : CheckpointPositions} {start : RecordPosition}
    (h : oldestHint (some positions) = some start) {nodeId : NodeId} {position : RecordPosition}
    (hposition : positions[nodeId]? = some position) : start ≤ position := by
  have hmin : (positions.toList.map Prod.snd).min? = some start := h
  refine (List.min?_eq_some_iff.mp hmin).2 position (List.mem_map.mpr ⟨(nodeId, position), ?_, rfl⟩)
  exact Std.ExtTreeMap.mem_toList_iff_getElem?_eq_some.mpr hposition

theorem exists_of_oldestHint {positions : CheckpointPositions} {start : RecordPosition}
    (h : oldestHint (some positions) = some start) :
    ∃ nodeId : NodeId, positions[nodeId]? = some start := by
  have hmin : (positions.toList.map Prod.snd).min? = some start := h
  obtain ⟨item, hitem, rfl⟩ := List.mem_map.mp (List.min?_mem hmin)
  exact ⟨item.1, Std.ExtTreeMap.mem_toList_iff_getElem?_eq_some.mp hitem⟩

/-- With hints for all nodes, no replay starts before the oldest hint. -/
theorem exists_replayStart_of_oldestHint {nodeIds : NodeIdSet}
    {checkpointHints : Option CheckpointPositions}
    (hcomplete : ∀ positions ∈ checkpointHints, ∀ nodeId ∈ nodeIds, nodeId ∈ positions)
    {start : RecordPosition} (hstart : oldestHint checkpointHints = some start) {nodeId : NodeId}
    (hnode : nodeId ∈ nodeIds) (entries : List (Entry N)) :
    ∃ position, replayStart checkpointHints nodeId entries = some position ∧ start ≤ position := by
  rw [replayStart, hstart]
  cases hnoted : notedCheckpoint (some start) nodeId entries with
  | some position =>
    obtain ⟨entry, -, rfl, -, hfrom⟩ := exists_of_notedCheckpoint hnoted
    exact ⟨entry.position, rfl, by simpa [Entry.from] using hfrom⟩
  | none =>
    cases checkpointHints with
    | none => simp [oldestHint] at hstart
    | some positions =>
      have hmem := hcomplete positions rfl nodeId hnode
      rw [Std.ExtTreeMap.mem_iff_isSome_getElem?, Option.isSome_iff_exists] at hmem
      obtain ⟨position, hposition⟩ := hmem
      exact ⟨position, hposition, oldestHint_le hstart hposition⟩

/-- No record that is to be replayed stands before the segment in which the replay starts. -/
theorem exists_position_of_oldestHint {nodeIds : NodeIdSet}
    {checkpointHints : Option CheckpointPositions} {positions : CheckpointPositions}
    {entries : List (Entry N)}
    (hcomplete : ∀ positions ∈ checkpointHints, ∀ nodeId ∈ nodeIds, nodeId ∈ positions)
    (hget : ∀ nodeId, inFilter (some nodeIds) nodeId = true →
      positions[nodeId]? = replayStart checkpointHints nodeId entries) :
    ∀ start ∈ (oldestHint checkpointHints).map RecordPosition.segment, ∀ nodeId,
      inFilter (some nodeIds) nodeId = true →
      ∃ position, positions[nodeId]? = some position ∧ start ≤ position.segment := by
  intro start hstart nodeId hfilter
  obtain ⟨oldest, holdest, rfl⟩ := Option.map_eq_some_iff.mp hstart
  obtain ⟨position, hposition, hle⟩ := exists_replayStart_of_oldestHint hcomplete holdest
    (by simpa [inFilter] using hfilter) entries
  exact ⟨position, by rw [hget nodeId hfilter, hposition], RecordPosition.segment_le hle⟩

variable (N) in
/-- Both ways of finding the positions for a replay scan from the oldest hint on. -/
theorem checkpointPositionsForReplay_sees (hworld : Evolves world journalAt)
    (hclean : recoverPartial = true → ∀ u, Whole (journalAt u) (world u))
    {nodeIds : NodeIdSet} (hne : ∃ nodeId, nodeId ∈ nodeIds)
    {checkpointHints : Option CheckpointPositions} {t : ℕ}
    (hcomplete : ∀ positions ∈ checkpointHints, ∀ nodeId ∈ nodeIds, nodeId ∈ positions)
    (hhints : ∀ positions ∈ checkpointHints, ∀ (nodeId : NodeId) (position : RecordPosition),
      positions[nodeId]? = some position →
      ∀ u, t ≤ u → ∃ entry ∈ (journalAt u).entries, entry.position = position)
    (activeSegment : ℕ) :
    directory.Sees world (fun result stop ↦
      (∃ u, t ≤ u ∧ (∃ segment ∈ (world t).segments, segment ∉ (world u).segments) ∧
        ¬ Succeeds result) ∨
      ∃ scanned positions, t ≤ scanned ∧ scanned ≤ stop ∧
        result = .ok (positions, (oldestHint checkpointHints).map RecordPosition.segment) ∧
        ∀ nodeId, inFilter (some nodeIds) nodeId = true → positions[nodeId]? =
          replayStart checkpointHints nodeId
            ((journalAt scanned).visible (world t).segments.keys))
      (checkpointPositionsForReplay N activeSegment (some nodeIds) checkpointHints
        recoverPartial).run t := by
  have hscanStart : ∀ position ∈ oldestHint checkpointHints, ∀ u, t ≤ u →
      ∃ entry ∈ (journalAt u).entries, entry.position = position := by
    intro position hposition
    cases checkpointHints with
    | none => simp [oldestHint] at hposition
    | some positions =>
      obtain ⟨nodeId, hnode⟩ := exists_of_oldestHint hposition
      exact hhints positions rfl nodeId position hnode
  have hscan := findCheckpointPositionsFrom_sees N hworld hclean (some nodeIds) hscanStart
    activeSegment
  cases checkpointHints with
  | none =>
    refine .bindExcept (hscan.mono ?_)
    rintro result stop (⟨u, hu, hgone, hresult⟩ | ⟨scanned, found, hscanned, hstop, rfl, hget⟩)
    · cases result with
      | ok value => exact absurd trivial hresult
      | error error => exact .inl ⟨u, hu, hgone, hresult⟩
    · refine .inr ⟨scanned, found, hscanned, hstop, rfl, fun nodeId hfilter ↦ ?_⟩
      rw [hget, if_pos hfilter, replayStart]
      simp
  | some positions =>
    cases hmin : (positions.toList.map Prod.snd).min? with
    | none =>
      obtain ⟨nodeId, hnode⟩ := hne
      have hempty := List.min?_eq_none_iff.mp hmin
      have hmem := hcomplete positions rfl nodeId hnode
      rw [Std.ExtTreeMap.mem_iff_isSome_getElem?, Option.isSome_iff_exists] at hmem
      obtain ⟨position, hposition⟩ := hmem
      have := Std.ExtTreeMap.mem_toList_iff_getElem?_eq_some.mpr hposition
      rw [List.map_eq_nil_iff.mp hempty] at this
      nomatch this
    | some start =>
      have holdest : oldestHint (some positions) = some start := hmin
      rw [holdest] at hscan
      simp only [checkpointPositionsForReplay, hmin]
      refine .bindExcept (hscan.mono ?_)
      rintro result stop (⟨u, hu, hgone, hresult⟩ | ⟨scanned, found, hscanned, hstop, rfl, hget⟩)
      · cases result with
        | ok value => exact absurd trivial hresult
        | error error => exact .inl ⟨u, hu, hgone, hresult⟩
      · refine .inr ⟨scanned, positions ∪ found, hscanned, hstop, by rw [holdest]; rfl,
          fun nodeId hfilter ↦ ?_⟩
        rw [Std.ExtTreeMap.getElem?_union, hget, if_pos hfilter, replayStart, holdest]
        rfl

variable (N) in
/-- Replaying several nodes folds the records of each of them from its checkpoint on, in the
segments that are listed after the scan. -/
theorem replayStorageDir_sees (hworld : Evolves world journalAt)
    (hclean : recoverPartial = true → ∀ u, Whole (journalAt u) (world u))
    {nodeIds : NodeIdSet} (hne : ∃ nodeId, nodeId ∈ nodeIds)
    {checkpointHints : Option CheckpointPositions} {t : ℕ}
    (hcomplete : ∀ positions ∈ checkpointHints, ∀ nodeId ∈ nodeIds, nodeId ∈ positions)
    (hhints : ∀ positions ∈ checkpointHints, ∀ (nodeId : NodeId) (position : RecordPosition),
      positions[nodeId]? = some position →
      ∀ u, t ≤ u → ∃ entry ∈ (journalAt u).entries, entry.position = position)
    (activeSegment : ℕ) :
    directory.Sees world (fun result stop ↦
      (∃ u u', t ≤ u ∧ u ≤ u' ∧ (∃ segment ∈ (world u).segments, segment ∉ (world u').segments) ∧
        ¬ Succeeds result) ∨
      ∃ scanned listing replayed, t ≤ scanned ∧ scanned ≤ listing ∧ listing ≤ replayed ∧
        (Succeeds result → replayed ≤ stop) ∧
        directory.AsksLast world .readDir listing
          (replayStorageDir N activeSegment (some nodeIds) checkpointHints recoverPartial).run t ∧
        result = (((journalAt replayed).visible (world listing).segments.keys).filter fun entry ↦
          inFilter (some nodeIds) entry.frame.nodeId && entry.from (replayStart checkpointHints
            entry.frame.nodeId ((journalAt scanned).visible (world t).segments.keys))).foldlM
          (keyedStep (fun entry ↦ entry.frame.nodeId)
            (fun state entry ↦ applyRecordToState state entry.frame.record) (.default N)) ∅)
      (replayStorageDir N activeSegment (some nodeIds) checkpointHints recoverPartial).run t := by
  refine .bindExcept ((checkpointPositionsForReplay_sees N hworld hclean hne hcomplete hhints
    activeSegment).observed.mono ?_)
  rintro result stop ⟨hscan, ⟨u, hu, hgone, hresult⟩ |
    ⟨scanned, positions, hscanned, hstop, rfl, hget⟩⟩
  · cases result with
    | ok value => exact absurd trivial hresult
    | error error => exact .inl ⟨t, u, le_rfl, hu, hgone, hresult⟩
  · have hstart := exists_position_of_oldestHint hcomplete hget
    have hlists : directory.AsksLast world .readDir stop
        (replayStorageDir N activeSegment (some nodeIds) checkpointHints recoverPartial).run t :=
      Machine.asksLast_bindExcept hscan (asksLast_passSegments
        (fun _ _ _ ↦ within_passSegment _ _ _ _ _ _ _) _ _ _ _ _ _)
    refine (passSegments_sees hworld hclean _ (isPass_replaySegment hstart)).mono ?_
    rintro result stop' (⟨u, hu, hgone, hresult⟩ | ⟨u, hu, hstop', hresult⟩)
    · exact .inl ⟨stop, u, by omega, hu, hgone, hresult⟩
    · refine .inr ⟨scanned, stop, u, hscanned, hstop, hu, hstop', hlists, ?_⟩
      rw [hresult]
      congr 1
      refine List.filter_congr fun entry _ ↦ ?_
      cases hfilter : inFilter (some nodeIds) entry.frame.nodeId with
      | false => rfl
      | true => rw [hget _ hfilter]

end Sukari
