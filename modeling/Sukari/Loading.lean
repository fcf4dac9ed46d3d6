import Sukari.Recoverable

/-!
# Reading the metadata and the states of nodes

What the read-only functions see in a directory that is recoverable at every time, while a writer
may be changing it. Loading the index succeeds unless the segment of an entry is removed meanwhile
(`checkpointIndex_load_sees`). In a directory that nobody changes, loading a node gives its
recovered state and loading all nodes gives the states of the active ones
(`replayNodeState_recovered`, `replayStorageDir_recovered`).
-/

set_option autoImplicit false
set_option relaxedAutoImplicit false

namespace Sukari

open Effects

variable {N : Noraft} {world : ℕ → Fs} {journalAt : ℕ → Journal N} {t : ℕ}

/-- The directory is recoverable at every time, and its journal only grows. -/
structure Tended (world : ℕ → Fs) (journalAt : ℕ → Journal N) : Prop where
  recoverable : ∀ t, Recoverable (journalAt t) (world t)
  mono : ∀ t t', t ≤ t' → (journalAt t).Extends (journalAt t')

theorem Tended.evolves (h : Tended world journalAt) : Evolves world journalAt :=
  ⟨fun t ↦ (h.recoverable t).toStored, h.mono⟩

/-- A directory that nobody changes. -/
theorem Recoverable.tended {journal : Journal N} {fs : Fs} (h : Recoverable journal fs) :
    Tended (fun _ ↦ fs) fun _ ↦ journal :=
  ⟨fun _ ↦ h, fun _ _ _ ↦ .refl journal⟩

theorem Tended.mem_entries (h : Tended world journalAt) {t' : ℕ} (ht : t ≤ t') {entry : Entry N}
    (hentry : entry ∈ (journalAt t).entries) : entry ∈ (journalAt t').entries :=
  (h.mono t t' ht).entries.subset hentry

/-! ### The metadata files -/

theorem nodeRegistry_load_sees : directory.Sees world
    (fun result t' ↦ t' = t + 1 ∧ result = NodeRegistry.ofFile (world t).nodes.current)
    NodeRegistry.load.run t :=
  .bindExcept (sees_io (inquiry_readJson .nodes) (sees_liftM ⟨rfl, rfl⟩))

/-- The check of an index entry accepts a checkpoint of its node. -/
theorem checkCheckpointRecord_entry {frames : List (Frame N)} {bytes : List UInt8} {segment : ℕ}
    {entry : Entry N} {nodeId : NodeId} (hcontents : Contents frames bytes)
    (hentry : entry ∈ placedFrom segment segmentFileHeaderLen frames)
    (hcheckpoint : entry.isCheckpointOf nodeId = true) :
    checkCheckpointRecord N nodeId entry.position.offset bytes = .ok () := by
  have hend := (offset_of_mem_placedFrom hentry)
  have hlength := length_le_of_contents hcontents fun hempty ↦ by
    simp [hempty, placedFrom] at hentry
  obtain ⟨before, after, rfl, hposition⟩ := exists_of_mem_placedFrom hentry
  simp only [Entry.isCheckpointOf, Bool.and_eq_true, decide_eq_true_eq] at hcheckpoint
  have hoffset : entry.position.offset = segmentFileHeaderLen + (framesBytes before).length := by
    rw [hposition]
  cases hcontents with
  | partialHeader _ hframes => simp at hframes
  | records tail htail =>
    have hseek : Stream.seek (segmentBytes (before ++ entry.frame :: after) ++ tail)
        entry.position.offset =
        ⟨entry.position.offset, entry.frame.bytes ++ (framesBytes after ++ tail)⟩ := by
      have hsplit : segmentBytes (before ++ entry.frame :: after) ++ tail =
          segmentBytes before ++ (entry.frame.bytes ++ (framesBytes after ++ tail)) := by
        simp [segmentBytes]
      rw [Stream.seek, hsplit, hoffset, ← length_segmentBytes, List.drop_left]
    have hlow : ¬ entry.position.offset < segmentFileHeaderLen := by omega
    have hhigh : ¬ (segmentBytes (before ++ entry.frame :: after) ++ tail).length <
        entry.position.offset := by omega
    simp only [checkCheckpointRecord, failIf, if_neg hlow, if_neg hhigh, hseek,
      readRecordBody_bytes, entry.frame.decodeNodeRecord_body, bind, Except.bind, pure,
      Except.pure, hcheckpoint.1, hcheckpoint.2]
    simp

/-- An index entry is found valid unless its segment is removed meanwhile. -/
theorem validateCheckpointPosition_sees (hworld : Tended world journalAt) {nodeId : NodeId}
    {position : RecordPosition} (hmarked : ∃ entry ∈ (journalAt t).entries,
      entry.isCheckpointOf nodeId = true ∧ entry.position = position) :
    directory.Sees world (fun result _ ↦ result = .ok () ∨
        ¬ Succeeds result ∧ ∃ u, t ≤ u ∧ position.segment ∉ (world u).segments)
      (validateCheckpointPosition N nodeId position).run t := by
  refine .bindExcept (sees_io (inquiry_isFile _) ?_)
  by_cases hpresent : position.segment ∈ (world t).segments
  · have hexisting : Fs.reply (.isFile position.segment) (world t) = true := hpresent
    rw [hexisting]
    refine .bindExcept (sees_failIf (fun hmissing ↦ nomatch hmissing) fun _ ↦ ?_)
    refine .bindExcept (sees_openSegment ?_)
    cases hfile : (world (t + 1)).segments[position.segment]? with
    | none =>
      refine .inr ⟨not_false, t + 1, Nat.le_succ t, ?_⟩
      rw [Std.ExtTreeMap.mem_iff_isSome_getElem?, hfile]
      exact Bool.false_ne_true
    | some file =>
      obtain ⟨entry, hentry, hcheckpoint, rfl⟩ := hmarked
      have hplaced := Journal.mem_entries.mp (hworld.mem_entries (Nat.le_succ t) hentry)
      obtain ⟨frames, hframes, hcontents⟩ := (hworld.evolves.stored (t + 1)).contents hfile
      rw [Journal.inSegment, hframes, Option.getD_some] at hplaced
      have hheader : (readSegmentHeader entry.position.segment file.bytes false false).run =
          .done (.ok true) := by
        have hbytes : ∃ rest, file.bytes = segmentFormatMagic ++ rest := by
          generalize hgiven : file.bytes = bytes at hcontents
          cases hcontents with
          | partialHeader _ hempty => simp [hempty, placedFrom] at hplaced
          | records tail htail => exact ⟨framesBytes frames ++ tail, by simp [segmentBytes]⟩
        obtain ⟨rest, hrest⟩ := hbytes
        rw [hrest]
        exact readSegmentHeader_whole _ _ _ _
      refine .bindExcept ?_
      rw [hheader]
      exact sees_liftM (.inl (checkCheckpointRecord_entry hcontents hplaced hcheckpoint))
  · have hexisting : Fs.reply (.isFile position.segment) (world t) = false :=
      Bool.eq_false_iff.mpr hpresent
    rw [hexisting]
    exact .bindExcept
      (sees_failIf (fun _ ↦ .inr ⟨not_false, t, le_rfl, hpresent⟩) fun hfound ↦ absurd rfl hfound)

/-- Loading the index keeps the entries of the active nodes, or it fails because the segment of
such an entry is removed meanwhile. -/
theorem checkpointIndex_load_sees (hworld : Tended world journalAt) (registry : NodeRegistry) :
    directory.Sees world (fun result stop ↦ ∃ stored : CheckpointIndex,
      CheckpointIndex.ofFile (world t).checkpoints.current = .ok stored ∧
      ((∃ index : CheckpointIndex, result = .ok index ∧ t ≤ stop ∧
          ∀ nodeId, index.checkpointPosition nodeId =
            if registry.isActive nodeId then stored.checkpointPosition nodeId else none) ∨
        ¬ Succeeds result ∧ ∃ nodeId position u, t ≤ u ∧ registry.isActive nodeId = true ∧
          stored.checkpointPosition nodeId = some position ∧
          position.segment ∉ (world u).segments))
      (CheckpointIndex.load N registry).run t := by
  obtain ⟨stored, hstored⟩ := (hworld.recoverable t).indexes _ (.inl rfl)
  refine .bindExcept (sees_io (inquiry_readJson .checkpoints) ?_)
  have hreply : Fs.reply (.readJson .checkpoints) (world t) = (world t).checkpoints.current := rfl
  rw [hreply]
  cases hdocument : (world t).checkpoints.current with
  | none =>
    rw [hdocument] at hstored
    have hdefault : CheckpointIndex.default = stored := Except.ok.inj hstored
    refine ⟨stored, hstored, .inl ⟨.default, rfl, Nat.le_succ t, fun nodeId ↦ ?_⟩⟩
    subst hdefault
    simp [CheckpointIndex.checkpointPosition, CheckpointIndex.default]
  | some document =>
    have hparsed : parseCheckpointIndex document = .ok stored := by
      rw [hdocument, CheckpointIndex.ofFile] at hstored
      cases hparse : parseCheckpointIndex document with
      | error error =>
        rw [hparse] at hstored
        cases hstored
      | ok index =>
        rw [hparse] at hstored
        exact congrArg Except.ok (Except.ok.inj hstored)
    simp only [hparsed]
    have hindex : (world t).HasIndex stored := ⟨_, .inl rfl, hstored⟩
    have hretained : ∀ item ∈ (stored.retainActive registry).nodes.toList,
        registry.isActive item.1 = true ∧ stored.checkpointPosition item.1 = some item.2 := by
      intro item hitem
      have hposition := CheckpointIndex.checkpointPosition_retainActive stored registry item.1
      rw [CheckpointIndex.checkpointPosition,
        Std.ExtTreeMap.mem_toList_iff_getElem?_eq_some.mp hitem] at hposition
      cases hactive : registry.isActive item.1 with
      | true => exact ⟨rfl, by simpa [hactive] using hposition.symm⟩
      | false => simp [hactive] at hposition
    -- Every entry is checked in turn.
    have hvalidate : ∀ (items : List (NodeId × RecordPosition)) (t' : ℕ), t ≤ t' →
        (∀ item ∈ items, registry.isActive item.1 = true ∧
          stored.checkpointPosition item.1 = some item.2) →
        directory.Sees world (fun result stop ↦ (result = .ok () ∧ t ≤ stop) ∨
          ¬ Succeeds result ∧ ∃ nodeId position u, t ≤ u ∧ registry.isActive nodeId = true ∧
            stored.checkpointPosition nodeId = some position ∧
            position.segment ∉ (world u).segments)
          (items.forM fun item ↦ validateCheckpointPosition N item.1 item.2 : IoM Unit).run t' := by
      intro items
      induction items with
      | nil => exact fun t' ht' _ ↦ .inl ⟨rfl, ht'⟩
      | cons item rest ih =>
        intro t' ht' hitems
        obtain ⟨hactive, hposition⟩ := hitems item (by simp)
        obtain ⟨entry, hentry, hat⟩ :=
          (hworld.recoverable t).marked stored item.1 item.2 hindex hposition
        refine .bindExcept ((Machine.Sees.le (validateCheckpointPosition_sees hworld
          ⟨entry, hworld.mem_entries ht' hentry.mem, hentry.checkpoint, hat⟩)).mono ?_)
        rintro result stop ⟨hstop, rfl | ⟨hfails, u, hu, hgone⟩⟩
        · exact ih stop (ht'.trans hstop) fun other hother ↦ hitems other (by simp [hother])
        · cases result with
          | error error =>
            exact .inr ⟨not_false, item.1, item.2, u, ht'.trans hu, hactive, hposition, hgone⟩
          | ok value => exact absurd trivial hfails
    refine .bindExcept ((hvalidate _ (t + 1) (Nat.le_succ t) hretained).mono ?_)
    rintro result stop (⟨rfl, hstop⟩ | ⟨hfails, hgone⟩)
    · exact ⟨stored, hdocument ▸ hstored, .inl ⟨_, rfl, hstop,
        CheckpointIndex.checkpointPosition_retainActive stored registry⟩⟩
    · cases result with
      | error error => exact ⟨stored, hdocument ▸ hstored, .inr ⟨not_false, hgone⟩⟩
      | ok value => exact absurd trivial hfails

/-! ### Loading from a directory that nobody changes -/

/-- Every hint is the position of a checkpoint of its node. -/
def HintsMarked (journal : Journal N) (index : CheckpointIndex) : Prop :=
  ∀ (nodeId : NodeId) (position : RecordPosition), index.checkpointPosition nodeId = some position →
    ∃ entry ∈ journal.entries, entry.isCheckpointOf nodeId = true ∧ entry.position = position

section Static

variable {journal : Journal N} {fs : Fs} {index : CheckpointIndex} {recoverPartial : Bool}

/-- Loading a node gives its recovered state. -/
theorem replayNodeState_recovered (h : Stored journal fs)
    (hwhole : recoverPartial = true → Whole journal fs) {nodeId : NodeId}
    (hanchored : AnchoredIn journal fs.segments.keys nodeId) (hmarked : HintsMarked journal index)
    (activeSegment : ℕ) :
    directory.Sees (fun _ ↦ fs)
      (fun result _ ↦ result = recoveredState (recordsOf nodeId journal.written))
      (replayNodeState N activeSegment nodeId (index.checkpointPosition nodeId) recoverPartial).run
      t := by
  have hhint : ∀ position ∈ index.checkpointPosition nodeId, ∃ entry ∈ journal.entries,
      entry.isCheckpointOf nodeId = true ∧ entry.position = position := hmarked nodeId
  refine (replayNodeState_sees N h.evolves (fun hrecover _ ↦ hwhole hrecover)
    (fun position hposition _ _ ↦ ?_) activeSegment).mono ?_
  · obtain ⟨entry, hentry, -, hat⟩ := hhint position hposition
    exact ⟨entry, hentry, hat⟩
  · rintro result stop (⟨u, u', -, -, hgone, -⟩ | ⟨scanned, listing, replayed, -, -, -, -, -, rfl⟩)
    · obtain ⟨segment, hpresent, hmissing⟩ := hgone
      exact absurd hpresent hmissing
    · refine foldlM_visible_eq_recoveredState hanchored (fun position hposition ↦ ?_) _
      obtain ⟨entry, hentry, hcheckpoint, hat⟩ := hhint position hposition
      exact ⟨entry, hentry, hcheckpoint, hat.ge⟩

/-- Loading several nodes gives the recovered states of all of them. -/
theorem replayStorageDir_recovered (h : Stored journal fs)
    (hwhole : recoverPartial = true → Whole journal fs) {nodeIds : NodeIdSet}
    (hne : nodeIds.isEmpty = false)
    (hanchored : ∀ nodeId ∈ nodeIds, AnchoredIn journal fs.segments.keys nodeId)
    (hmarked : HintsMarked journal index) (activeSegment : ℕ) :
    directory.Sees (fun _ ↦ fs) (fun result _ ↦
      LoadsAll nodeIds (fun nodeId ↦ recoveredState (recordsOf nodeId journal.written))
        (result.map fun replay ↦ StorageEngine.collectNodes replay nodeIds))
      (replayStorageDir N activeSegment (some nodeIds) (index.checkpointPositions nodeIds)
        recoverPartial).run t := by
  have hhints : ∀ positions ∈ index.checkpointPositions nodeIds, ∀ (nodeId : NodeId)
      (position : RecordPosition), positions[nodeId]? = some position → nodeId ∈ nodeIds ∧
      ∃ entry ∈ journal.entries, entry.isCheckpointOf nodeId = true ∧
        entry.position = position := by
    intro positions hpositions nodeId position hposition
    rw [CheckpointIndex.getElem?_checkpointPositions hpositions] at hposition
    split at hposition
    · next hnode => exact ⟨hnode, hmarked nodeId position hposition⟩
    · nomatch hposition
  refine (replayStorageDir_sees N h.evolves (fun hrecover _ ↦ hwhole hrecover)
    (exists_mem_of_isEmpty_eq_false hne)
    (fun positions hpositions ↦ CheckpointIndex.mem_of_checkpointPositions hpositions)
    (fun positions hpositions nodeId position hposition _ _ ↦ ?_) activeSegment).mono ?_
  · obtain ⟨-, entry, hentry, -, hat⟩ := hhints positions hpositions nodeId position hposition
    exact ⟨entry, hentry, hat⟩
  · rintro result stop
      (⟨u, u', -, -, hgone, -⟩ | ⟨scanned, listing, replayed, -, -, -, -, -, hresult⟩)
    · obtain ⟨segment, hpresent, hmissing⟩ := hgone
      exact absurd hpresent hmissing
    · refine loadsAll_collectNodes (fun nodeId ↦ replayStart
        (index.checkpointPositions nodeIds) nodeId (journal.visible fs.segments.keys)) hresult ?_
      intro nodeId hnode
      -- The scan from the oldest hint on notes a checkpoint of every node.
      have hscan : ∀ position ∈ oldestHint (index.checkpointPositions nodeIds),
          ∃ entry ∈ journal.entries, entry.isCheckpointOf nodeId = true ∧
            position ≤ entry.position := by
        intro position hposition
        cases hpositions : index.checkpointPositions nodeIds with
        | none => simp [hpositions, oldestHint] at hposition
        | some positions =>
          rw [hpositions] at hposition
          have hmem := CheckpointIndex.mem_of_checkpointPositions hpositions nodeId hnode
          rw [Std.ExtTreeMap.mem_iff_isSome_getElem?, Option.isSome_iff_exists] at hmem
          obtain ⟨hint, hhint⟩ := hmem
          obtain ⟨-, entry, hentry, hcheckpoint, hat⟩ :=
            hhints positions hpositions nodeId hint hhint
          exact ⟨entry, hentry, hcheckpoint, hat ▸ oldestHint_le hposition hhint⟩
      have hnoted : replayStart (index.checkpointPositions nodeIds) nodeId
          (journal.visible fs.segments.keys) =
          notedCheckpoint (oldestHint (index.checkpointPositions nodeIds)) nodeId
            (journal.visible fs.segments.keys) := by
        obtain ⟨before, last, after, hlast, hvisible⟩ := (hanchored nodeId hnode).lastCheckpoint
        rw [replayStart, hvisible.notedCheckpoint_eq _ fun position hposition ↦ ?_]
        · rfl
        · obtain ⟨entry, hentry, hcheckpoint, hle⟩ := hscan position hposition
          exact hle.trans (hlast.position_le hentry hcheckpoint)
      simp only [hnoted]
      exact foldlM_visible_eq_recoveredState (hanchored nodeId hnode) hscan _

end Static

end Sukari
