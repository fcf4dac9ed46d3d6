import Sukari.Loading

/-!
# Read-only access

What `load` and `loadAll` return. In a directory that nobody changes they return the recovered
states of the active nodes (`load_recovered`, `loadAll_recovered`). Beside a writer, a state that
they return is a replay of the records that were visible at some time during the call, from a
checkpoint of the node on or from the first visible record (`load_replayed`, `loadAll_replayed`).
If the node is anchored when its segments are listed, that is the recovered state of a journal of
that time or a later one (`Replayed.recovered`).
-/

set_option autoImplicit false
set_option relaxedAutoImplicit false

namespace Sukari

open Effects

variable {N : Noraft} {world : ℕ → Fs} {journalAt : ℕ → Journal N} {t : ℕ}

/-- Opening a directory reads the registry and then the index. -/
theorem readOnlyStorage_new_sees (hworld : Tended world journalAt) :
    directory.Sees world (fun result stop ↦ ∃ registry stored,
      NodeRegistry.ofFile (world t).nodes.current = .ok registry ∧
      CheckpointIndex.ofFile (world (t + 1)).checkpoints.current = .ok stored ∧
      ((∃ storage : ReadOnlyStorage, result = .ok storage ∧ t + 1 ≤ stop ∧
          storage.registry = registry ∧
          HintsMarked (journalAt (t + 1)) storage.checkpointIndex) ∨
        ¬ Succeeds result ∧ ∃ nodeId position u, t + 1 ≤ u ∧ registry.isActive nodeId = true ∧
          stored.checkpointPosition nodeId = some position ∧
          position.segment ∉ (world u).segments))
      (ReadOnlyStorage.new N).run t := by
  obtain ⟨registry, hregistry⟩ := (hworld.recoverable t).registries _ (.inl rfl)
  refine .bindExcept (nodeRegistry_load_sees.mono ?_)
  rintro result t' ⟨rfl, rfl⟩
  simp only [hregistry]
  refine .bindExcept ((checkpointIndex_load_sees hworld registry).mono ?_)
  rintro result stop ⟨stored, hstored, ⟨index, rfl, hstop, hindex⟩ | ⟨hfails, hgone⟩⟩
  · refine ⟨registry, stored, rfl, hstored, .inl ⟨_, rfl, hstop, rfl, ?_⟩⟩
    intro nodeId position hposition
    simp only [hindex] at hposition
    split at hposition
    · obtain ⟨entry, hentry, hat⟩ := (hworld.recoverable (t + 1)).marked stored nodeId position
        ⟨_, .inl rfl, hstored⟩ hposition
      exact ⟨entry, hentry.mem, hentry.checkpoint, hat⟩
    · nomatch hposition
  · cases result with
    | ok index => exact absurd trivial hfails
    | error error => exact ⟨registry, stored, rfl, hstored, .inr ⟨not_false, hgone⟩⟩

theorem selectActiveAppendSegment_sees : directory.Sees world
    (fun result t' ↦ t' = t + 1 ∧ ∃ activeSegment, result = .ok activeSegment)
    selectActiveAppendSegment.run t :=
  .bindExcept (.bindExcept (sees_io inquiry_readDir ⟨rfl, _, rfl⟩))

/-! ### Directories at rest -/

section Static

variable {journal : Journal N} {fs : Fs} {registry : NodeRegistry}

/-- What loading a node may return. -/
def LoadsNode (active : Bool) (state result : Except IoError (NodeState N)) : Prop :=
  if active then result = state else ¬ Succeeds result

theorem ensureNodeExists_error {nodeId : NodeId} (h : registry.isActive nodeId = false) :
    ¬ Succeeds (ensureNodeExists registry nodeId) := by
  intro hsucceeds
  obtain ⟨value, hvalue⟩ := succeeds_iff.mp hsucceeds
  rw [ensureNodeExists_eq_ok_iff.mp hvalue] at h
  nomatch h

variable (N) in
/-- Opening a directory at rest succeeds. -/
theorem readOnlyStorage_new_recovered (h : Recoverable journal fs)
    (hregistry : NodeRegistry.ofFile fs.nodes.current = .ok registry) :
    directory.Sees (fun _ ↦ fs) (fun result _ ↦ ∃ storage : ReadOnlyStorage, result = .ok storage ∧
      storage.registry = registry ∧ HintsMarked journal storage.checkpointIndex)
      (ReadOnlyStorage.new N).run t := by
  refine (readOnlyStorage_new_sees h.tended).mono ?_
  rintro result stop ⟨registry', stored, hregistry', hstored, hresult⟩
  simp only [hregistry, Except.ok.injEq] at hregistry'
  subst hregistry'
  rcases hresult with ⟨storage, rfl, -, hstorage, hmarked⟩ |
    ⟨-, nodeId, position, u, -, hactive, hposition, hgone⟩
  · exact ⟨storage, rfl, hstorage, hmarked⟩
  · exact absurd (h.markedPresent registry stored nodeId position ⟨_, .inl rfl, hregistry⟩
      ⟨_, .inl rfl, hstored⟩ hactive hposition) hgone

theorem load_recovered (h : Recoverable journal fs)
    (hregistry : NodeRegistry.ofFile fs.nodes.current = .ok registry) (nodeId : NodeId) :
    directory.Sees (fun _ ↦ fs) (fun result _ ↦ LoadsNode (registry.isActive nodeId)
      (recoveredState (recordsOf nodeId journal.written)) result) (load N nodeId).run t := by
  refine .bindExcept ((readOnlyStorage_new_recovered N h hregistry).mono ?_)
  rintro result stop ⟨storage, rfl, rfl, hmarked⟩
  refine .bindExcept (sees_liftM ?_)
  cases hactive : storage.registry.isActive nodeId with
  | false =>
    have hfails := ensureNodeExists_error hactive
    cases hexists : ensureNodeExists storage.registry nodeId with
    | ok value => exact absurd (hexists ▸ trivial) hfails
    | error error => exact fun hsucceeds ↦ hsucceeds
  | true =>
    rw [ensureNodeExists_eq_ok_iff.mpr hactive]
    refine .bindExcept (selectActiveAppendSegment_sees.mono ?_)
    rintro result stop ⟨rfl, activeSegment, rfl⟩
    have hwhole : false = true → Whole journal fs := nofun
    exact replayNodeState_recovered h.toStored hwhole
      (h.anchored _ nodeId ⟨_, .inl rfl, hregistry⟩ hactive).anchoredIn hmarked _

theorem loadAll_recovered (h : Recoverable journal fs)
    (hregistry : NodeRegistry.ofFile fs.nodes.current = .ok registry) :
    directory.Sees (fun _ ↦ fs) (fun result _ ↦ LoadsAll registry.activeNodeIds
      (fun nodeId ↦ recoveredState (recordsOf nodeId journal.written)) result)
      (loadAll N).run t := by
  refine .bindExcept ((readOnlyStorage_new_recovered N h hregistry).mono ?_)
  rintro result stop ⟨storage, rfl, rfl, hmarked⟩
  simp only [ReadOnlyStorage.loadAll]
  cases hempty : storage.registry.activeNodeIds.isEmpty with
  | true =>
    have hnone := Std.ExtTreeSet.isEmpty_iff.mp hempty
    refine ⟨fun nodeId hnode ↦ ?_, fun nodeId _ ↦ Std.ExtTreeMap.getElem?_empty⟩
    simp [hnone] at hnode
  | false =>
    refine .bindExcept (selectActiveAppendSegment_sees.mono ?_)
    rintro result stop ⟨rfl, activeSegment, rfl⟩
    have hwhole : false = true → Whole journal fs := nofun
    refine .bindExcept ((replayStorageDir_recovered h.toStored hwhole hempty
      (fun nodeId hnode ↦ ?_) hmarked _).mono ?_)
    · exact (h.anchored _ nodeId ⟨_, .inl rfl, hregistry⟩
        (NodeRegistry.mem_activeNodeIds.mp hnode)).anchoredIn
    · rintro result stop hloads
      cases result <;> exact hloads

end Static

/-! ### Directories that a writer is changing -/

/-- The state of a node as a replay finds it beside a writer: the fold over the records that are
visible in the listed segments at a later time, from a checkpoint of the node on, if one was found
before the listing. -/
structure Replayed (world : ℕ → Fs) (journalAt : ℕ → Journal N) (nodeId : NodeId)
    (state : NodeState N) (start : Option RecordPosition) (listing replayed : ℕ) : Prop where
  le : listing ≤ replayed
  marked : ∀ position ∈ start, ∃ entry ∈ (journalAt listing).entries,
    entry.isCheckpointOf nodeId = true ∧ entry.position = position
  fold : (((journalAt replayed).visible (world listing).segments.keys).filter fun entry ↦
    entry.frame.nodeId = nodeId && entry.from start).foldlM
      (fun state entry ↦ applyRecordToState state entry.frame.record) (.default N) = .ok state

/-- When the node is anchored in the listed segments, the replay finds a recovered state: that of
the records in these segments. -/
theorem Replayed.recovered (hworld : Tended world journalAt) {nodeId : NodeId}
    {state : NodeState N} {start : Option RecordPosition} {listing replayed : ℕ}
    (h : Replayed world journalAt nodeId state start listing replayed)
    (hanchored : AnchoredIn (journalAt listing) (world listing).segments.keys nodeId) :
    recoveredState (recordsOf nodeId (Journal.written
      ((journalAt replayed).take (journalAt listing).length))) = .ok state := by
  have hextends := (hworld.mono listing replayed h.le).take
  have hbound : ∀ segment ∈ (world listing).segments.keys, segment < (journalAt listing).length :=
    fun segment hsegment ↦ (hworld.evolves.stored listing).present segment
      (Std.ExtTreeMap.mem_keys.mp hsegment)
  have hfold := h.fold
  rw [← Journal.visible_take (Stored.pairwise_keys _) hbound fun segment hsegment ↦
    (hbound segment hsegment).trans_le (hworld.mono listing replayed h.le).length] at hfold
  refine recoveredState_of_foldlM_visible ?_ (fun position hposition ↦ ?_) hfold
  · obtain ⟨entry, hentry, hcheckpoint, hcovers⟩ := hanchored
    refine ⟨entry, hextends.entries.subset hentry, hcheckpoint, fun segment hsegment hlength ↦ ?_⟩
    exact hcovers segment hsegment (hlength.trans_le (List.length_take_le _ _))
  · obtain ⟨entry, hentry, hcheckpoint, hat⟩ := h.marked position hposition
    exact ⟨entry, hextends.entries.subset hentry, hcheckpoint, hat.ge⟩

/-- A scanned position is one of a checkpoint that stands in every later journal. -/
theorem notedCheckpoint_marked (hworld : Tended world journalAt) {start : Option RecordPosition}
    {nodeId : NodeId} {segments : List ℕ} {scanned listing : ℕ} (hle : scanned ≤ listing) :
    ∀ position ∈ notedCheckpoint start nodeId ((journalAt scanned).visible segments),
      ∃ entry ∈ (journalAt listing).entries, entry.isCheckpointOf nodeId = true ∧
        entry.position = position := by
  intro position hposition
  obtain ⟨entry, hentry, hat, hcheckpoint, -⟩ := exists_of_notedCheckpoint hposition
  exact ⟨entry, hworld.mem_entries hle (List.mem_of_mem_filter hentry), hcheckpoint, hat⟩

/-- A state that `load` returns was replayed from segments that were listed during the call. -/
theorem load_replayed (hworld : Tended world journalAt) (nodeId : NodeId) :
    directory.Sees world (fun result stop ↦ ∀ state, result = .ok state →
      ∃ registry, NodeRegistry.ofFile (world t).nodes.current = .ok registry ∧
        registry.isActive nodeId = true ∧ ∃ start listing replayed, t ≤ listing ∧
          replayed ≤ stop ∧ directory.AsksLast world .readDir listing (load N nodeId).run t ∧
          Replayed world journalAt nodeId state start listing replayed)
      (load N nodeId).run t := by
  refine .bindExcept ((readOnlyStorage_new_sees hworld).observed.mono ?_)
  rintro result stop ⟨hnew, registry, stored, hregistry, -,
    ⟨storage, rfl, hstop, rfl, hmarked⟩ | ⟨hfails, -⟩⟩
  · refine .bindExcept (sees_liftM ?_)
    cases hexists : ensureNodeExists storage.registry nodeId with
    | error error => exact fun state hstate ↦ nomatch hstate
    | ok value =>
      have hactive := ensureNodeExists_eq_ok_iff.mp hexists
      refine .bindExcept (selectActiveAppendSegment_sees.observed.mono ?_)
      rintro result stop' ⟨hselect, rfl, activeSegment, rfl⟩
      have hlists {listing : ℕ} (hlast : directory.AsksLast world .readDir listing
          (replayNodeState N activeSegment nodeId
            (storage.checkpointIndex.checkpointPosition nodeId)
            false).run (stop + 1)) :
              directory.AsksLast world .readDir listing (load N nodeId).run t := by
        have hloads :
            directory.AsksLast world .readDir listing (storage.load N nodeId).run stop := by
          rw [ReadOnlyStorage.load, hexists]
          exact Machine.asksLast_bindExcept rfl (Machine.asksLast_bindExcept hselect hlast)
        exact Machine.asksLast_bindExcept hnew hloads
      have hclean : false = true → ∀ u, Whole (journalAt u) (world u) := nofun
      refine (replayNodeState_sees N hworld.evolves hclean (fun position hposition u hu ↦ ?_)
        activeSegment).mono ?_
      · obtain ⟨entry, hentry, -, hat⟩ := hmarked nodeId position hposition
        exact ⟨entry, hworld.mem_entries (by omega) hentry, hat⟩
      · rintro result stop'' (⟨u, u', -, -, -, hfails⟩ |
          ⟨scanned, listing, replayed, hscanned, hlisting, hreplayed, hend, hlast, hresult⟩)
            state rfl
        · exact absurd trivial hfails
        · exact ⟨storage.registry, hregistry, hactive, _, listing, replayed, by omega, hend trivial,
            hlists hlast, hreplayed, notedCheckpoint_marked hworld hlisting, hresult.symm⟩
  · cases result with
    | ok storage => exact absurd trivial hfails
    | error error => exact fun state hstate ↦ nomatch hstate

/-- The states that `loadAll` returns were replayed from segments that were listed during the
call. -/
theorem loadAll_replayed (hworld : Tended world journalAt) :
    directory.Sees world (fun result stop ↦ ∀ nodes, result = .ok nodes →
      ∃ registry, NodeRegistry.ofFile (world t).nodes.current = .ok registry ∧
        ∀ (nodeId : NodeId) (state : NodeState N), nodes[nodeId]? = some state →
          registry.isActive nodeId = true ∧ ∃ start listing replayed, t ≤ listing ∧
            replayed ≤ stop ∧ directory.AsksLast world .readDir listing (loadAll N).run t ∧
            Replayed world journalAt nodeId state start listing replayed)
      (loadAll N).run t := by
  refine .bindExcept ((readOnlyStorage_new_sees hworld).observed.mono ?_)
  rintro result stop ⟨hnew, registry, stored, hregistry, -,
    ⟨storage, rfl, hstop, rfl, hmarked⟩ | ⟨hfails, -⟩⟩
  · simp only [ReadOnlyStorage.loadAll]
    cases hempty : storage.registry.activeNodeIds.isEmpty with
    | true =>
      intro nodes hnodes
      refine ⟨storage.registry, hregistry, fun nodeId state hstate ↦ ?_⟩
      rw [← Except.ok.inj hnodes] at hstate
      simp at hstate
    | false =>
      refine .bindExcept (selectActiveAppendSegment_sees.observed.mono ?_)
      rintro result stop' ⟨hselect, rfl, activeSegment, rfl⟩
      have hlists {listing : ℕ} (hlast : directory.AsksLast world .readDir listing
          (replayStorageDir N activeSegment (some storage.registry.activeNodeIds)
            (storage.checkpointIndex.checkpointPositions storage.registry.activeNodeIds)
            false).run (stop + 1)) :
              directory.AsksLast world .readDir listing (loadAll N).run t := by
        have hloads : directory.AsksLast world .readDir listing (storage.loadAll N).run stop := by
          rw [ReadOnlyStorage.loadAll, if_neg (by simp [hempty])]
          refine Machine.asksLast_bindExcept hselect ?_
          exact hlast.bindExcept fun _ _ _ ↦ id
        exact Machine.asksLast_bindExcept hnew hloads
      have hhints : ∀ positions ∈ storage.checkpointIndex.checkpointPositions
          storage.registry.activeNodeIds, ∀ (nodeId : NodeId) (position : RecordPosition),
          positions[nodeId]? = some position → ∀ u, stop + 1 ≤ u →
          ∃ entry ∈ (journalAt u).entries, entry.isCheckpointOf nodeId = true ∧
            entry.position = position := by
        intro positions hpositions nodeId position hposition u hu
        rw [CheckpointIndex.getElem?_checkpointPositions hpositions] at hposition
        split at hposition
        · obtain ⟨entry, hentry, hcheckpoint, hat⟩ := hmarked nodeId position hposition
          exact ⟨entry, hworld.mem_entries (by omega) hentry, hcheckpoint, hat⟩
        · nomatch hposition
      have hclean : false = true → ∀ u, Whole (journalAt u) (world u) := nofun
      refine .bindExcept ((replayStorageDir_sees N hworld.evolves hclean
        (exists_mem_of_isEmpty_eq_false hempty)
        (fun positions hpositions ↦ CheckpointIndex.mem_of_checkpointPositions hpositions)
        (fun positions hpositions nodeId position hposition u hu ↦ ?_) activeSegment).mono ?_)
      · obtain ⟨entry, hentry, -, hat⟩ := hhints positions hpositions nodeId position hposition u hu
        exact ⟨entry, hentry, hat⟩
      · rintro result stop'' (⟨u, u', -, -, -, hfails⟩ |
          ⟨scanned, listing, replayed, hscanned, hlisting, hreplayed, hend, hlast, hresult⟩)
        · cases result with
          | ok replay => exact absurd trivial hfails
          | error error => exact fun nodes hnodes ↦ nomatch hnodes
        · cases result with
          | error error => exact fun nodes hnodes ↦ nomatch hnodes
          | ok replay =>
            intro nodes hnodes
            refine ⟨storage.registry, hregistry, fun nodeId state hstate ↦ ?_⟩
            rw [← Except.ok.inj hnodes, getElem?_collectNodes] at hstate
            split at hstate
            · next hnode =>
              refine ⟨NodeRegistry.mem_activeNodeIds.mp hnode, replayStart
                (storage.checkpointIndex.checkpointPositions storage.registry.activeNodeIds) nodeId
                ((journalAt scanned).visible (world (stop + 1)).segments.keys), listing, replayed,
                by omega, hend trivial, hlists hlast, hreplayed, fun position hposition ↦ ?_, ?_⟩
              · rcases Option.or_eq_some_iff.mp hposition with hnoted | ⟨-, hhint⟩
                · exact notedCheckpoint_marked hworld hlisting position hnoted
                · obtain ⟨positions, hpositions, hposition⟩ := Option.bind_eq_some_iff.mp hhint
                  exact hhints positions hpositions nodeId position hposition listing (by omega)
              · rw [← Option.some.inj hstate]
                exact foldlM_node_of_replay (fun nodeId ↦ replayStart _ nodeId _) hresult.symm hnode
            · nomatch hstate
  · cases result with
    | ok storage => exact absurd trivial hfails
    | error error => exact fun nodes hnodes ↦ nomatch hnodes

end Sukari
