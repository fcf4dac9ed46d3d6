import Sukari.Effects.Tracking
import Sukari.Footprints
import Sukari.OnDisk
import Sukari.Runs

/-!
# The checkpoint index during a call

`Indexed fresh ledger fs` says that the index file has an entry for every active node, and the one
of its last checkpoint if the node is `fresh`. A node stops being fresh when the process stops
between the append of a checkpoint and the replacement of the index, and it is fresh again after the
next call that completes both. `Tracked` is the invariant in every state of a call, read off the
requests made so far, and every call ends with the index it should (`refines_tracked`).
-/

set_option autoImplicit false
set_option relaxedAutoImplicit false

namespace Sukari

open Effects

variable {N : Noraft} {ledger ledger' : Ledger N} {fs fs' : Fs} {nodeId : NodeId}
  {past : List (Exchange fileSystem)} {exchange : Exchange fileSystem}

/-! ### Requests -/

variable (N) in
/-- The request has appended a checkpoint of the node. -/
def AppendsCheckpoint (nodeId : NodeId) (exchange : Exchange fileSystem) : Prop :=
  ∃ checkpoint, recordWritten N exchange = some (nodeId, .snapshotCheckpoint checkpoint)

variable (N) in
/-- One of the requests has appended a checkpoint of the node. -/
def Rewritten (past : List (Exchange fileSystem)) (nodeId : NodeId) : Prop :=
  ∃ exchange ∈ past, AppendsCheckpoint N nodeId exchange

variable (N) in
/-- The index was not replaced after a checkpoint of the node was appended. -/
def Unindexed (past : List (Exchange fileSystem)) (nodeId : NodeId) : Prop :=
  ∃ before exchange after, past = before ++ exchange :: after ∧
    AppendsCheckpoint N nodeId exchange ∧ ∀ other ∈ after, other.1.KeepsJson .checkpoints

variable (N) in
/-- The nodes whose last checkpoint is in the index file when the process stops after the
requests. -/
def freshAfterStop (fresh : NodeId → Prop) (past : List (Exchange fileSystem)) (nodeId : NodeId) :
    Prop :=
  ¬ Unindexed N past nodeId ∧ (Rewritten N past nodeId ∨ fresh nodeId)

variable (N) in
/-- The nodes whose last checkpoint is in the index file when a call with the requests has
returned. -/
def freshAfterCall (fresh : NodeId → Prop) (past : List (Exchange fileSystem)) (nodeId : NodeId) :
    Prop :=
  Rewritten N past nodeId ∨ fresh nodeId

theorem rewritten_iff : Rewritten N past nodeId ↔
    ∃ checkpoint, (nodeId, .snapshotCheckpoint checkpoint) ∈ recordsWritten N past := by
  simp only [Rewritten, AppendsCheckpoint, recordsWritten, List.mem_filterMap]
  constructor
  · rintro ⟨exchange, hmem, checkpoint, h⟩
    exact ⟨checkpoint, exchange, hmem, h⟩
  · rintro ⟨checkpoint, exchange, hmem, h⟩
    exact ⟨exchange, hmem, checkpoint, h⟩

theorem Unindexed.rewritten (h : Unindexed N past nodeId) : Rewritten N past nodeId := by
  obtain ⟨before, exchange, after, rfl, happends, -⟩ := h
  exact ⟨exchange, by simp, happends⟩

/-- A request that leaves the index file alone does not make a node fresh. -/
theorem freshAfterStop.of_append {fresh : NodeId → Prop}
    (h : freshAfterStop N fresh (past ++ [exchange]) nodeId)
    (hkeeps : exchange.1.KeepsJson .checkpoints) :
    freshAfterStop N fresh past nodeId ∧ ¬ AppendsCheckpoint N nodeId exchange := by
  obtain ⟨hindexed, hcause⟩ := h
  have hnot : ¬ AppendsCheckpoint N nodeId exchange := fun happends ↦
    hindexed ⟨past, exchange, [], rfl, happends, nofun⟩
  refine ⟨⟨fun ⟨before, other, after, hpast, happends, hafter⟩ ↦ hindexed ?_, ?_⟩, hnot⟩
  · refine ⟨before, other, after ++ [exchange], by simp [hpast], happends, fun last hlast ↦ ?_⟩
    rcases List.mem_append.mp hlast with hlast | hlast
    · exact hafter last hlast
    · exact List.mem_singleton.mp hlast ▸ hkeeps
  · rcases hcause with ⟨other, hmem, happends⟩ | hfresh
    · rcases List.mem_append.mp hmem with hmem | hmem
      · exact .inl ⟨other, hmem, happends⟩
      · exact absurd (List.mem_singleton.mp hmem ▸ happends) hnot
    · exact .inr hfresh

/-! ### The index file -/

/-- The index has an entry for the node, and the one of its last checkpoint if it is fresh. -/
def Points (fresh : Prop) (ledger : Ledger N) (index : CheckpointIndex) (nodeId : NodeId) : Prop :=
  ∃ position, index.checkpointPosition nodeId = some position ∧
    (fresh → ∀ entry ∈ ledger.journal.entries, entry.isCheckpointOf nodeId = true →
      entry.position ≤ position)

/-- The index file has an entry for every active node. -/
def Indexed (fresh : NodeId → Prop) (ledger : Ledger N) (fs : Fs) : Prop :=
  ∀ registry index, NodeRegistry.ofFile fs.nodes.current = .ok registry →
    CheckpointIndex.ofFile fs.checkpoints.current = .ok index →
    ∀ nodeId, registry.isActive nodeId = true → Points (fresh nodeId) ledger index nodeId

theorem Points.mono {fresh fresh' : Prop} {index : CheckpointIndex}
    (h : Points fresh ledger index nodeId) (hfresh : fresh' → fresh) :
    Points fresh' ledger index nodeId := by
  obtain ⟨position, hposition, hlatest⟩ := h
  exact ⟨position, hposition, fun hfresh' ↦ hlatest (hfresh hfresh')⟩

theorem Indexed.mono {fresh fresh' : NodeId → Prop} (h : Indexed fresh ledger fs)
    (hfresh : ∀ nodeId, fresh' nodeId → fresh nodeId) : Indexed fresh' ledger fs :=
  fun registry index hregistry hindex nodeId hactive ↦
    (h registry index hregistry hindex nodeId hactive).mono (hfresh nodeId)

/-- An entry that a request adds is the record that the request has written. -/
theorem Ledger.Step.mem_entries (h : Step exchange ledger ledger') {entry : Entry N}
    (hentry : entry ∈ ledger'.journal.entries) :
    entry ∈ ledger.journal.entries ∨ recordWritten N exchange = some entry.frame.nodeRecord := by
  obtain ⟨hwritten, hextends⟩ := h.written
  obtain ⟨rest, hrest⟩ := hextends.entries
  rw [← hrest, List.mem_append] at hentry
  refine hentry.imp_right fun hnew ↦ ?_
  rw [← Journal.map_entries_written, ← Journal.map_entries_written, ← hrest, List.map_append]
    at hwritten
  have hrecord := List.append_cancel_left hwritten ▸ List.mem_map_of_mem hnew
  simpa using hrecord

/-- The invariant in every state of a call. -/
structure Tracked (fresh : NodeId → Prop) (written : List (NodeId × Record N))
    (past : List (Exchange fileSystem)) (ledger : Ledger N) (fs : Fs) : Prop where
  written : ledger.journal.written = written ++ recordsWritten N past
  indexed : Indexed (freshAfterStop N fresh past) ledger fs

/-- The metadata files have the documents. -/
structure Documents (nodes checkpoints : Option Json) (fs : Fs) : Prop where
  nodes : fs.nodes.current = nodes
  checkpoints : fs.checkpoints.current = checkpoints

section Requests

variable {fresh : NodeId → Prop} {written : List (NodeId × Record N)}

theorem Ledger.Step.tracked (h : Step exchange ledger ledger')
    (hwritten : ledger.journal.written = written ++ recordsWritten N past) :
    ledger'.journal.written = written ++ recordsWritten N (past ++ [exchange]) := by
  rw [h.written.1, hwritten, recordsWritten, recordsWritten, List.filterMap_append,
    List.append_assoc]
  cases hrecord : recordWritten N exchange <;> simp [hrecord]

/-- A node that an index points to as it should is pointed to after a request, too. -/
theorem Points.step {index : CheckpointIndex}
    (h : Points (freshAfterStop N fresh past nodeId) ledger index nodeId)
    (hkeeps : exchange.1.KeepsJson .checkpoints) (hstep : Ledger.Step exchange ledger ledger') :
    Points (freshAfterStop N fresh (past ++ [exchange]) nodeId) ledger' index nodeId := by
  obtain ⟨position, hposition, hlatest⟩ := h
  refine ⟨position, hposition, fun hfresh entry hentry hcheckpoint ↦ ?_⟩
  obtain ⟨hfresh, hnot⟩ := hfresh.of_append hkeeps
  rcases hstep.mem_entries hentry with hold | hnew
  · exact hlatest hfresh entry hold hcheckpoint
  · obtain ⟨checkpoint, hrecord⟩ := isCheckpointOf_iff.mp hcheckpoint
    exact absurd ⟨checkpoint, hnew.trans (congrArg some hrecord)⟩ hnot

/-- Requests that leave the metadata files alone keep the invariant. -/
theorem maintains_tracked (nodes checkpoints : Option Json) :
    (storage N).Maintains (fun op ↦ op.KeepsJson .nodes ∧ op.KeepsJson .checkpoints)
      (fun past ledger fs ↦ Tracked fresh written past ledger fs ∧
        Documents nodes checkpoints fs) where
  during op past ledger fs _ h fs' hfs' := by
    have hnodes : fs'.nodes = fs.nodes := @Fs.json_during .nodes _ _ _ hfs'
    have hcheckpoints : fs'.checkpoints = fs.checkpoints := @Fs.json_during .checkpoints _ _ _ hfs'
    obtain ⟨⟨hwritten, hindexed⟩, hdocuments⟩ := h
    refine ⟨⟨hwritten, ?_⟩, ⟨hnodes ▸ hdocuments.nodes, hcheckpoints ▸ hdocuments.checkpoints⟩⟩
    rwa [Indexed, hnodes, hcheckpoints]
  after op past ledger ledger' fs hop h hstep := by
    have hnodes : (Fs.after op fs).nodes.current = fs.nodes.current := Fs.current_after hop.1 fs
    have hcheckpoints : (Fs.after op fs).checkpoints.current = fs.checkpoints.current :=
      Fs.current_after hop.2 fs
    obtain ⟨⟨hwritten, hindexed⟩, hdocuments⟩ := h
    refine ⟨⟨Ledger.Step.tracked hstep hwritten, ?_⟩,
      ⟨hnodes.trans hdocuments.nodes, hcheckpoints.trans hdocuments.checkpoints⟩⟩
    intro registry index hregistry hindex nodeId hactive
    change NodeRegistry.ofFile (Fs.after op fs).nodes.current = _ at hregistry
    change CheckpointIndex.ofFile (Fs.after op fs).checkpoints.current = _ at hindex
    rw [hnodes] at hregistry
    rw [hcheckpoints] at hindex
    exact (hindexed registry index hregistry hindex nodeId hactive).step hop.2 hstep

/-! ### Saving the metadata files -/

theorem freshAfterCall_congr {past' : List (Exchange fileSystem)}
    (h : recordsWritten N past' = recordsWritten N past) :
    freshAfterCall N fresh past' = freshAfterCall N fresh past := by
  funext nodeId
  rw [freshAfterCall, freshAfterCall, rewritten_iff, rewritten_iff, h]

theorem recordsWritten_append (h : recordWritten N exchange = none) :
    recordsWritten N (past ++ [exchange]) = recordsWritten N past := by
  simp [recordsWritten, h]

theorem freshAfterStop.afterCall (h : freshAfterStop N fresh past nodeId) :
    freshAfterCall N fresh past nodeId := h.2

/-- Saving an index that points to all active nodes keeps the invariant. -/
theorem maintains_saveIndex {index : CheckpointIndex}
    (hfile : CheckpointIndex.ofFile (some (formatCheckpointIndex index)) = .ok index)
    (nodes : Option Json) :
    (storage N).Maintains
      (fun op ↦ op = .replaceJson .checkpoints (formatCheckpointIndex index) ∨ op = .syncDir)
      (fun past ledger fs ↦ Tracked fresh written past ledger fs ∧ fs.nodes.current = nodes ∧
        ∀ registry, NodeRegistry.ofFile nodes = .ok registry → ∀ nodeId,
          registry.isActive nodeId = true →
            Points (freshAfterCall N fresh past nodeId) ledger index nodeId) where
  during op _ _ _ hop _ _ hfs' := by
    rcases hop with rfl | rfl <;> nomatch hfs'
  after op past ledger ledger' fs hop h hstep := by
    obtain ⟨⟨hwritten, hindexed⟩, hnodes, hpoints⟩ := h
    have hsame : ledger' = ledger := by rcases hop with rfl | rfl <;> exact hstep
    have hnone : recordWritten N ⟨op, Fs.reply op fs⟩ = none := by rcases hop with rfl | rfl <;> rfl
    have hcall := freshAfterCall_congr (recordsWritten_append hnone) ▸ hpoints
    subst hsame
    rcases hop with rfl | rfl
    · refine ⟨⟨Ledger.Step.tracked hstep hwritten, ?_⟩, hnodes, hcall⟩
      intro registry index' hregistry hindex nodeId hactive
      obtain rfl := Except.ok.inj (hfile.symm.trans hindex)
      exact (hcall registry (hnodes ▸ hregistry) nodeId hactive).mono freshAfterStop.afterCall
    · exact ⟨((maintains_tracked _ _).after .syncDir past _ _ fs ⟨nofun, nofun⟩
        ⟨⟨hwritten, hindexed⟩, rfl, rfl⟩ hstep).1, hnodes, hcall⟩

/-- Saving a registry whose active nodes the index points to keeps the invariant. -/
theorem maintains_saveRegistry (registry : NodeRegistry) (checkpoints : Option Json) :
    (storage N).Maintains
      (fun op ↦ op = .replaceJson .nodes (formatNodeRegistry registry) ∨ op = .syncDir)
      (fun past ledger fs ↦ Tracked fresh written past ledger fs ∧
        fs.checkpoints.current = checkpoints ∧
        ∀ index, CheckpointIndex.ofFile checkpoints = .ok index → ∀ nodeId,
          registry.isActive nodeId = true →
            Points (freshAfterCall N fresh past nodeId) ledger index nodeId) where
  during op _ _ _ hop _ _ hfs' := by
    rcases hop with rfl | rfl <;> nomatch hfs'
  after op past ledger ledger' fs hop h hstep := by
    obtain ⟨⟨hwritten, hindexed⟩, hcheckpoints, hpoints⟩ := h
    have hsame : ledger' = ledger := by rcases hop with rfl | rfl <;> exact hstep
    have hnone : recordWritten N ⟨op, Fs.reply op fs⟩ = none := by rcases hop with rfl | rfl <;> rfl
    have hcall := freshAfterCall_congr (recordsWritten_append hnone) ▸ hpoints
    subst hsame
    rcases hop with rfl | rfl
    · refine ⟨⟨Ledger.Step.tracked hstep hwritten, ?_⟩, hcheckpoints, hcall⟩
      intro registry' index hregistry hindex nodeId hactive
      obtain rfl := Except.ok.inj ((NodeRegistry.ofFile_format registry).symm.trans hregistry)
      exact (hcall index (hcheckpoints ▸ hindex) nodeId (by simpa using hactive)).mono
        freshAfterStop.afterCall
    · exact ⟨((maintains_tracked _ _).after .syncDir past _ _ fs ⟨nofun, nofun⟩
        ⟨⟨hwritten, hindexed⟩, rfl, rfl⟩ hstep).1, hcheckpoints, hcall⟩

/-! ### Parts of a call -/

section Calls

variable {opened : Ledger N} {engine : StorageEngine}

theorem freshAfterCall.afterStop (h : freshAfterCall N fresh past nodeId)
    (hnot : ¬ Rewritten N past nodeId) : freshAfterStop N fresh past nodeId :=
  ⟨fun hunindexed ↦ hnot hunindexed.rewritten, h⟩

/-- A call without a new checkpoint has left every node as fresh as it was. -/
theorem Tracked.afterCall (h : Tracked fresh written past ledger fs)
    (hnone : ∀ nodeId, ¬ Rewritten N past nodeId) :
    Indexed (freshAfterCall N fresh past) ledger fs :=
  h.indexed.mono fun nodeId hfresh ↦ hfresh.afterStop (hnone nodeId)

theorem Tracked.recordsWritten_eq {added : List (NodeId × Record N)}
    (h : Tracked fresh written past ledger fs)
    (hwritten : ledger.journal.written = written ++ added) : recordsWritten N past = added :=
  List.append_cancel_left (h.written.symm.trans hwritten)

/-- A part of a call that leaves the metadata files alone. -/
theorem refines_kept {α : Type} {p : Program fileSystem α} {Q : α → Ledger N → Fs → Prop}
    {Q' : α → List (Exchange fileSystem) × Ledger N → Fs → Prop}
    (hnodes : p.Within (FsOp.KeepsJson .nodes))
    (hcheckpoints : p.Within (FsOp.KeepsJson .checkpoints))
    (htracked : Tracked fresh written past ledger fs) (h : (storage N).Refines Q p ledger fs)
    (hQ : ∀ value past' ledger' fs', Q value ledger' fs' → Tracked fresh written past' ledger' fs' →
      Documents fs.nodes.current fs.checkpoints.current fs' → Q' value (past', ledger') fs') :
    ((storage N).tracking (Tracked fresh written)).Refines Q' p (past, ledger) fs := by
  refine ((hnodes.and hcheckpoints).tracking (maintains_tracked fs.nodes.current
    fs.checkpoints.current) (fun _ _ _ hboth ↦ hboth.1) ⟨htracked, rfl, rfl⟩ h).mono ?_
  rintro value ⟨past', ledger'⟩ fs' ⟨hvalue, htracked', hdocuments⟩
  exact hQ value past' ledger' fs' hvalue htracked' hdocuments

/-- A call that writes a record, syncs it and goes on. -/
theorem refines_trackedRecord {record : Record N} {rest : RecordPosition → EngineM Unit}
    {Q : Except IoError Unit × StorageEngine → List (Exchange fileSystem) × Ledger N → Fs → Prop}
    (h : Ready opened engine ledger fs)
    (htracked : Tracked fresh ledger.journal.written [] ledger fs)
    (hfails : ∀ error engine' past' ledger' fs', Ready opened engine' ledger' fs' →
      Tracked fresh ledger.journal.written past' ledger' fs' → recordsWritten N past' = [] →
      Q (.error error, engine') (past', ledger') fs')
    (hrest : ∀ position engine' past' ledger' fs', Ready opened engine' ledger' fs' →
      engine'.registry = engine.registry → Tracked fresh ledger.journal.written past' ledger' fs' →
      recordsWritten N past' = [(nodeId, record)] → Recorded nodeId record position ledger' fs' →
      ((storage N).tracking (Tracked fresh ledger.journal.written)).Refines Q
        ((rest position).run engine') (past', ledger') fs') :
    ((storage N).tracking (Tracked fresh ledger.journal.written)).Refines Q ((do
      let position ← StorageEngine.onWriter (SegmentWriter.append nodeId record)
      StorageEngine.onWriter SegmentWriter.sync
      rest position : EngineM Unit).run engine) ([], ledger) fs := by
  refine .bindMethod (refines_kept (methodWithin_onWriter (methodWithin_append _ _) _)
    (methodWithin_onWriter (methodWithin_append _ _) _) htracked
    (refines_onWriterAppend h nodeId record) ?_)
  rintro ⟨result, engine₁⟩ past₁ ledger₁ fs₁ ⟨hready, hregistry, -, hresult⟩ htracked₁ -
  cases result with
  | error error =>
    exact hfails error engine₁ past₁ ledger₁ fs₁ hready htracked₁
      (htracked₁.recordsWritten_eq (hresult.trans (List.append_nil _).symm))
  | ok position =>
    obtain ⟨hwritten, hpending, hactive, frame, hframe, hentry⟩ := hresult
    refine .bindMethod (refines_onWriter (refines_kept (methodWithin_sync _)
      (methodWithin_sync _) htracked₁ (refines_sync hready.state) ?_))
    rintro ⟨result, s⟩ past₂ ledger₂ fs₂
      ⟨rfl, ⟨-, rfl⟩ | ⟨hnone, -⟩, hstate, hdocuments⟩ htracked₂ -
    · refine hrest position _ _ _ _ (hready.onWriter hstate hdocuments) hregistry htracked₂
        (htracked₂.recordsWritten_eq hwritten)
        ⟨hactive, frame, hframe, hentry, hstate.holds.durable _ ?_⟩
      rw [Ledger.sync, List.take_length]
      exact hentry.subset (List.mem_singleton_self _)
    · exact absurd hpending hnone

/-- The index with the new checkpoint points to the active nodes and to the node of the
checkpoint. -/
theorem points_saved {checkpoint : SnapshotCheckpoint N} {position : RecordPosition}
    {other : NodeId} (h : Ready opened engine ledger fs)
    (htracked : Tracked fresh written past ledger fs)
    (hwritten : recordsWritten N past = [(nodeId, .snapshotCheckpoint checkpoint)])
    (hrecorded : Recorded nodeId (.snapshotCheckpoint checkpoint) position ledger fs)
    (hactive : engine.registry.isActive other = true ∨ nodeId = other) :
    Points (freshAfterCall N fresh past other) ledger
      (engine.checkpointIndex.setCheckpointPosition nodeId position) other := by
  rw [Points, CheckpointIndex.checkpointPosition_setCheckpointPosition]
  by_cases hsame : nodeId = other
  · refine ⟨position, if_pos hsame, fun _ entry hentry _ ↦ ?_⟩
    obtain ⟨frame, -, ⟨before, hbefore⟩, -⟩ := hrecorded.entry
    have hordered := ledger.journal.pairwise_entries
    rw [← hbefore, List.pairwise_append] at hordered
    rw [← hbefore, List.mem_append, List.mem_singleton] at hentry
    rcases hentry with hold | rfl
    · exact (hordered.2.2 entry hold _ (List.mem_singleton_self _)).le
    · exact le_rfl
  · have hnot : ¬ Rewritten N past other := by
      rw [rewritten_iff, hwritten]
      rintro ⟨checkpoint', hmem⟩
      exact hsame (Prod.mk.inj (List.mem_singleton.mp hmem)).1.symm
    have hactive := hactive.resolve_right hsame
    obtain ⟨registry, hregistry, hstatus⟩ := h.documented.registry
    obtain ⟨index, hindex, hentries⟩ := h.documented.index
    obtain ⟨position', hposition, hlatest⟩ := htracked.indexed registry index hregistry hindex other
      ((hstatus other).trans hactive)
    refine ⟨position', ?_, fun hfresh ↦ hlatest (hfresh.afterStop hnot)⟩
    rw [if_neg hsame, hentries, if_pos hactive, hposition]

theorem refines_trackedSaveIndex {s : MeteredWriter} {index : CheckpointIndex}
    (hstate : WriterState opened s ledger fs) (hindex : IndexMarked ledger.journal fs index)
    (htracked : Tracked fresh written past ledger fs)
    (hpoints : ∀ registry, NodeRegistry.ofFile fs.nodes.current = .ok registry → ∀ nodeId,
      registry.isActive nodeId = true →
        Points (freshAfterCall N fresh past nodeId) ledger index nodeId) :
    ((storage N).tracking (Tracked fresh written)).Refines (fun result g' fs' ↦ result = .ok () ∧
        g'.2 = ledger ∧ WriterState opened s ledger fs' ∧ SavedIndex index fs fs' ∧
        Tracked fresh written g'.1 ledger fs')
      index.save.run (past, ledger) fs := by
  have hwithin : index.save.run.Within fun op : FsOp ↦
      op = .replaceJson .checkpoints (formatCheckpointIndex index) ∨ op = .syncDir :=
    .bindExcept ⟨.inl rfl, fun _ ↦ trivial⟩ fun _ ↦ ⟨.inr rfl, fun _ ↦ trivial⟩
  refine (hwithin.tracking (maintains_saveIndex
    (hindex.ofFile_format hstate.holds.recoverable.toStored) fs.nodes.current)
    (fun _ _ _ hall ↦ hall.1) ⟨htracked, rfl, hpoints⟩ (refines_saveIndex hstate hindex)).mono ?_
  rintro result ⟨past', ledger'⟩ fs' ⟨⟨rfl, rfl, hstate', hsaved⟩, htracked', -⟩
  exact ⟨rfl, rfl, hstate', hsaved, htracked'⟩

theorem refines_trackedSaveRegistry {s : MeteredWriter} {registry : NodeRegistry}
    (hstate : WriterState opened s ledger fs)
    (hanchored : ∀ nodeId, registry.isActive nodeId = true → Anchored ledger.journal fs nodeId)
    (hpresent : ∀ (index : CheckpointIndex) (nodeId : NodeId) (position : RecordPosition),
      fs.HasIndex index → registry.isActive nodeId = true →
      index.nodes[nodeId]? = some position → position.segment ∈ fs.segments)
    (htracked : Tracked fresh written past ledger fs)
    (hpoints : ∀ index, CheckpointIndex.ofFile fs.checkpoints.current = .ok index → ∀ nodeId,
      registry.isActive nodeId = true →
        Points (freshAfterCall N fresh past nodeId) ledger index nodeId) :
    ((storage N).tracking (Tracked fresh written)).Refines (fun result g' fs' ↦ result = .ok () ∧
        g'.2 = ledger ∧ WriterState opened s ledger fs' ∧ SavedRegistry registry fs fs' ∧
        Tracked fresh written g'.1 ledger fs')
      registry.save.run (past, ledger) fs := by
  have hwithin : registry.save.run.Within fun op : FsOp ↦
      op = .replaceJson .nodes (formatNodeRegistry registry) ∨ op = .syncDir :=
    .bindExcept ⟨.inl rfl, fun _ ↦ trivial⟩ fun _ ↦ ⟨.inr rfl, fun _ ↦ trivial⟩
  refine (hwithin.tracking (maintains_saveRegistry registry fs.checkpoints.current)
    (fun _ _ _ hall ↦ hall.1) ⟨htracked, rfl, hpoints⟩
    (refines_saveRegistry hstate hanchored hpresent)).mono ?_
  rintro result ⟨past', ledger'⟩ fs' ⟨⟨rfl, rfl, hstate', hsaved⟩, htracked', -⟩
  exact ⟨rfl, rfl, hstate', hsaved, htracked'⟩

/-- What a call leaves when it returns. -/
def Settles (fresh : NodeId → Prop) (opened : Ledger N) (out : Except IoError Unit × StorageEngine)
    (g : List (Exchange fileSystem) × Ledger N) (fs : Fs) : Prop :=
  Ready opened out.2 g.2 fs ∧ Indexed (freshAfterCall N fresh g.1) g.2 fs

/-- The last part of a call: garbage collection. -/
theorem refines_trackedCollectGarbage (h : Ready opened engine ledger fs)
    (hdurable : DocumentsDurable fs) (htracked : Tracked fresh written past ledger fs)
    (hindexed : Indexed (freshAfterCall N fresh past) ledger fs) :
    ((storage N).tracking (Tracked fresh written)).Refines (Settles fresh opened)
      (StorageEngine.collectGarbage.run engine) (past, ledger) fs := by
  refine refines_kept (methodWithin_collectGarbage keepsJson_remove _)
    (methodWithin_collectGarbage keepsJson_remove _) htracked (refines_collectGarbage h hdurable) ?_
  rintro _ past' ledger fs' ⟨rfl, rfl, hready, -⟩ htracked' hdocuments
  refine ⟨hready, fun registry index hregistry hindex ↦ ?_⟩
  rw [hdocuments.nodes] at hregistry
  rw [hdocuments.checkpoints] at hindex
  rw [freshAfterCall_congr (htracked'.recordsWritten_eq htracked.written)]
  exact hindexed registry index hregistry hindex

theorem refines_trackedCreateNode (h : Ready opened engine ledger fs)
    (htracked : Tracked fresh ledger.journal.written [] ledger fs) (nodeId : NodeId)
    (metadata : NodeMetadata) :
    ((storage N).tracking (Tracked fresh ledger.journal.written)).Refines (Settles fresh opened)
      ((StorageEngine.createNode N nodeId metadata).run engine) ([], ledger) fs := by
  refine .bindMethod (refines_get (.bindMethod (refines_liftM ?_)))
  cases hcreated : engine.registry.createNode nodeId metadata with
  | error error => exact ⟨h, htracked.afterCall (by simp [Rewritten])⟩
  | ok registry =>
    refine refines_trackedRecord h htracked (fun error engine' past' ledger' fs' hready htracked'
      hnone ↦ ⟨hready, htracked'.afterCall (by simp [rewritten_iff, hnone])⟩) ?_
    intro position engine' past' ledger' fs' hready hregistry htracked' hrecord hrecorded
    have hpoints : ∀ registry', NodeRegistry.ofFile fs'.nodes.current = .ok registry' → ∀ other,
        registry'.isActive other = true → Points (freshAfterCall N fresh past' other) ledger'
          (engine'.checkpointIndex.setCheckpointPosition nodeId position) other := by
      intro registry' hfile other hother
      obtain ⟨_, hfile', hsame⟩ := hready.documented.registry
      obtain rfl := Except.ok.inj (hfile.symm.trans hfile')
      exact points_saved hready htracked' hrecord hrecorded (.inl ((hsame other).symm.trans hother))
    refine .bindMethod (refines_get (.bindMethod (refines_liftIo ((refines_trackedSaveIndex
      hready.state (hrecorded.indexMarked hready) htracked' hpoints).mono ?_))))
    rintro _ ⟨past₁, ledger₁⟩ fs₁ ⟨rfl, rfl, hstate, hsaved, htracked₁⟩
    have hfresh₁ : freshAfterCall N fresh past₁ = freshAfterCall N fresh past' :=
      freshAfterCall_congr (htracked₁.recordsWritten_eq htracked'.written)
    have hcreated' : engine'.registry.createNode nodeId metadata = .ok registry :=
      hregistry ▸ hcreated
    have hpoints₁ (other : NodeId) (hother : registry.isActive other = true) :
        Points (freshAfterCall N fresh past₁ other) ledger₁
          (engine'.checkpointIndex.setCheckpointPosition nodeId position) other := by
      rw [NodeRegistry.isActive_createNode hcreated', Bool.or_eq_true, beq_iff_eq] at hother
      exact hfresh₁ ▸ points_saved hready htracked' hrecord hrecorded hother
    refine .bindMethod (refines_liftIo ((refines_trackedSaveRegistry hstate
      (hrecorded.anchored hready hcreated' hstate hsaved) (fun index other position' hindex _ hat ↦
        hrecorded.present hready hsaved index other position' hindex hat) htracked₁ ?_).mono ?_))
    · intro index hindex other hother
      obtain rfl := Except.ok.inj (hsaved.file.symm.trans hindex)
      exact hpoints₁ other hother
    rintro _ ⟨past₂, ledger₂⟩ fs₂ ⟨rfl, rfl, hstate', hsaved', htracked₂⟩
    refine refines_modify ⟨hready.saveCreated hcreated' hsaved hstate' hsaved', ?_⟩
    intro registry' index hfile hindex other hother
    obtain rfl := Except.ok.inj (hsaved'.file.symm.trans hfile)
    obtain rfl := Except.ok.inj (hsaved.file.symm.trans (hsaved'.checkpoints ▸ hindex))
    rw [freshAfterCall_congr (htracked₂.recordsWritten_eq htracked₁.written)]
    exact hpoints₁ other ((NodeRegistry.isActive_reloaded registry other).symm.trans hother)

theorem refines_trackedSaveSnapshot (h : Ready opened engine ledger fs)
    (htracked : Tracked fresh ledger.journal.written [] ledger fs) (nodeId : NodeId)
    (checkpoint : SnapshotCheckpoint N) :
    ((storage N).tracking (Tracked fresh ledger.journal.written)).Refines (Settles fresh opened)
      ((StorageEngine.saveSnapshot nodeId checkpoint).run engine) ([], ledger) fs := by
  have hunchanged : Indexed (freshAfterCall N fresh []) ledger fs :=
    htracked.afterCall (by simp [Rewritten])
  refine .bindMethod (refines_ensureNodeExists (fun error ↦ ⟨h, hunchanged⟩) fun hactive ↦ ?_)
  refine .bindMethod (refines_liftM ?_)
  cases hvalid : checkpoint.validate with
  | error error => exact ⟨h, hunchanged⟩
  | ok value =>
    refine refines_trackedRecord h htracked (fun error engine' past' ledger' fs' hready htracked'
      hnone ↦ ⟨hready, htracked'.afterCall (by simp [rewritten_iff, hnone])⟩) ?_
    intro position engine₁ past₁ ledger₁ fs₁ hready hregistry htracked₁ hrecord hrecorded
    have hpoints : ∀ registry, NodeRegistry.ofFile fs₁.nodes.current = .ok registry → ∀ other,
        registry.isActive other = true → Points (freshAfterCall N fresh past₁ other) ledger₁
          (engine₁.checkpointIndex.setCheckpointPosition nodeId position) other := by
      intro registry hfile other hother
      obtain ⟨registry', hfile', hsame⟩ := hready.documented.registry
      obtain rfl := Except.ok.inj (hfile.symm.trans hfile')
      exact points_saved hready htracked₁ hrecord hrecorded (.inl ((hsame other).symm.trans hother))
    refine .bindMethod (refines_get (.bindMethod (refines_liftIo ((refines_trackedSaveIndex
      hready.state (hrecorded.indexMarked hready) htracked₁ hpoints).mono ?_))))
    rintro _ ⟨past₂, ledger₂⟩ fs₂ ⟨rfl, rfl, hstate, hsaved, htracked₂⟩
    refine .bindMethod
      (refines_modify (refines_trackedCollectGarbage (hready.saveIndex hstate hsaved
      rfl rfl rfl fun other position' hposition ↦ ?_) hsaved.durable htracked₂ ?_))
    · rw [CheckpointIndex.checkpointPosition_setCheckpointPosition] at hposition
      split at hposition
      · next hsame => rw [← hsame, hregistry, hactive]
      · exact (hready.documented.marked hready.state.holds.recoverable hposition).1
    · intro registry index hfile hindex other hother
      obtain rfl := Except.ok.inj (hsaved.file.symm.trans hindex)
      rw [freshAfterCall_congr (htracked₂.recordsWritten_eq htracked₁.written)]
      exact hpoints registry (hsaved.nodes ▸ hfile) other hother

theorem refines_trackedRemoveNode (h : Ready opened engine ledger fs)
    (htracked : Tracked fresh ledger.journal.written [] ledger fs) (nodeId : NodeId) :
    ((storage N).tracking (Tracked fresh ledger.journal.written)).Refines (Settles fresh opened)
      ((StorageEngine.removeNode nodeId).run engine) ([], ledger) fs := by
  have hunchanged : Indexed (freshAfterCall N fresh []) ledger fs :=
    htracked.afterCall (by simp [Rewritten])
  refine .bindMethod (refines_ensureNodeExists (fun error ↦ ⟨h, hunchanged⟩) fun hactive ↦ ?_)
  refine .bindMethod (refines_get (.bindMethod (refines_liftM ?_)))
  obtain ⟨registry, hremoved⟩ := NodeRegistry.removeNode_of_isActive hactive
  simp only [hremoved]
  have hrecoverable := h.state.holds.recoverable
  obtain ⟨registry', hregistry', hsame⟩ := h.documented.registry
  have hold {other : NodeId} (hother : registry.isActive other = true) :
      other ≠ nodeId ∧ engine.registry.isActive other = true := by
    rw [NodeRegistry.isActive_removeNode hremoved, Bool.and_eq_true, bne_iff_ne] at hother
    exact ⟨Ne.symm hother.2, hother.1⟩
  refine .bindMethod (refines_liftIo ((refines_trackedSaveRegistry h.state
    (fun other hother ↦ h.documented.anchored hrecoverable (hold hother).2) ?_ htracked ?_).mono
      ?_))
  · intro index other position hindex hother hposition
    exact hrecoverable.markedPresent registry' index other position ⟨_, .inl rfl, hregistry'⟩
      hindex ((hsame other).trans (hold hother).2) hposition
  · intro index hindex other hother
    exact hunchanged registry' index hregistry' hindex other ((hsame other).trans (hold hother).2)
  rintro _ ⟨past₁, ledger₁⟩ fs₁ ⟨rfl, rfl, hstate, hsaved, htracked₁⟩
  have hready := h.saveRegistry hremoved hstate hsaved
  have hfresh₁ : freshAfterCall N fresh past₁ = freshAfterCall N fresh [] :=
    freshAfterCall_congr (htracked₁.recordsWritten_eq htracked.written)
  have hpoints {other : NodeId} (hother : registry.isActive other = true) :
      Points (freshAfterCall N fresh past₁ other) ledger₁
        (engine.checkpointIndex.removeNode nodeId) other := by
    obtain ⟨index, hindex, hentries⟩ := h.documented.index
    obtain ⟨hother', hactive'⟩ := hold hother
    obtain ⟨position, hposition, hlatest⟩ :=
      hunchanged registry' index hregistry' hindex other ((hsame other).trans hactive')
    refine ⟨position, ?_, hfresh₁ ▸ hlatest⟩
    rw [CheckpointIndex.checkpointPosition_removeNode, if_neg hother'.symm, hentries,
      if_pos hactive', hposition]
  refine .bindMethod (refines_modify (.bindMethod (refines_get (.bindMethod (refines_liftIo
    ((refines_trackedSaveIndex hready.state (fun other position hposition ↦
      (hready.documented.marked hready.state.holds.recoverable hposition).2) htracked₁ ?_).mono
        ?_))))))
  · intro registry'' hfile other hother
    obtain rfl := Except.ok.inj (hsaved.file.symm.trans hfile)
    exact hpoints ((NodeRegistry.isActive_reloaded registry other).symm.trans hother)
  rintro _ ⟨past₂, ledger₂⟩ fs₂ ⟨rfl, rfl, hstate', hsaved', htracked₂⟩
  have hfinal := hready.saveIndex hstate' hsaved' rfl rfl rfl fun other position hposition ↦
    (hready.documented.marked hready.state.holds.recoverable hposition).1
  refine .bindMethod (refines_modify
    (refines_trackedCollectGarbage hfinal hsaved'.durable htracked₂ ?_))
  intro registry'' index hfile hindex other hother
  obtain rfl := Except.ok.inj (hsaved.file.symm.trans (hsaved'.nodes ▸ hfile))
  obtain rfl := Except.ok.inj (hsaved'.file.symm.trans hindex)
  rw [freshAfterCall_congr (htracked₂.recordsWritten_eq htracked₁.written)]
  exact hpoints ((NodeRegistry.isActive_reloaded registry other).symm.trans hother)

/-- A call that leaves the metadata files alone and writes no checkpoint. -/
theorem refines_trackedKept {command : Command N} (h : Ready opened engine ledger fs)
    (htracked : Tracked fresh ledger.journal.written [] ledger fs)
    (hnodes : MethodKeepsJson .nodes (StorageEngine.call command))
    (hcheckpoints : MethodKeepsJson .checkpoints (StorageEngine.call command))
    (hrecords : ∀ nodeId checkpoint,
      (nodeId, Record.snapshotCheckpoint checkpoint) ∉ command.records) :
    ((storage N).tracking (Tracked fresh ledger.journal.written)).Refines (Settles fresh opened)
      ((StorageEngine.call command).run engine) ([], ledger) fs := by
  refine refines_kept (hnodes engine) (hcheckpoints engine) htracked (refines_call h command) ?_
  rintro ⟨result, engine'⟩ past' ledger' fs' ⟨hready, hwritten⟩ htracked' -
  refine ⟨hready, htracked'.afterCall fun nodeId hrewritten ↦ ?_⟩
  obtain ⟨checkpoint, hmem⟩ := rewritten_iff.mp hrewritten
  rw [htracked'.recordsWritten_eq hwritten] at hmem
  cases result with
  | ok value => exact hrecords nodeId checkpoint hmem
  | error error => nomatch hmem

/-- Every call keeps the invariant and ends with the index that it should. -/
theorem refines_tracked (h : Ready opened engine ledger fs)
    (htracked : Tracked fresh ledger.journal.written [] ledger fs) (command : Command N) :
    ((storage N).tracking (Tracked fresh ledger.journal.written)).Refines (Settles fresh opened)
      ((StorageEngine.call command).run engine) ([], ledger) fs := by
  have hload {nodeId : NodeId} {name : JsonName} :
      MethodKeepsJson name (StorageEngine.call (.load nodeId : Command N)) :=
    fun s ↦ .bindMethod (methodWithin_load nodeId s) fun _ _ ↦ trivial
  have hloadAll {name : JsonName} :
      MethodKeepsJson name (StorageEngine.call (.loadAll : Command N)) :=
    fun s ↦ .bindMethod (methodWithin_loadAll s) fun _ _ ↦ trivial
  cases command with
  | createNode nodeId metadata => exact refines_trackedCreateNode h htracked nodeId metadata
  | removeNode nodeId => exact refines_trackedRemoveNode h htracked nodeId
  | saveSnapshot nodeId checkpoint => exact refines_trackedSaveSnapshot h htracked nodeId checkpoint
  | saveCurrentTerm nodeId term =>
    exact refines_trackedKept h htracked (methodWithin_saveRecord _ _)
      (methodWithin_saveRecord _ _) (by simp [Command.records])
  | saveVotedFor nodeId votedFor =>
    exact refines_trackedKept h htracked (methodWithin_saveRecord _ _)
      (methodWithin_saveRecord _ _) (by simp [Command.records])
  | appendEntries nodeId append =>
    exact refines_trackedKept h htracked (methodWithin_saveRecord _ _)
      (methodWithin_saveRecord _ _) (by simp [Command.records])
  | sync =>
    exact refines_trackedKept h htracked (methodWithin_onWriter methodWithin_sync)
      (methodWithin_onWriter methodWithin_sync) (by simp [Command.records])
  | load nodeId => exact refines_trackedKept h htracked hload hload (by simp [Command.records])
  | loadAll => exact refines_trackedKept h htracked hloadAll hloadAll (by simp [Command.records])

/-- Opening a directory keeps the invariant. -/
theorem refines_trackedOpen (hholds : ledger.Holds fs) (hlinked : ActiveLinked ledger.journal fs)
    (htracked : Tracked fresh ledger.journal.written [] ledger fs) (maxSegmentLen : ℕ) :
    ((storage N).tracking (Tracked fresh ledger.journal.written)).Refines
      (fun result g' fs' ↦ Served ⟨result.toOption, []⟩ g'.2 fs' ∧
        Indexed (freshAfterCall N fresh g'.1) g'.2 fs')
      (StorageEngine.withMaxSegmentLen N maxSegmentLen).run ([], ledger) fs := by
  refine refines_kept (within_withMaxSegmentLen maxSegmentLen)
    (within_withMaxSegmentLen maxSegmentLen) htracked
    (refines_withMaxSegmentLen hholds hlinked maxSegmentLen) ?_
  rintro result past' ledger' fs' hout htracked' -
  have hwritten : ledger'.journal.written = ledger.journal.written ++ [] := by
    rcases hout with ⟨-, -, rfl, -⟩ | ⟨-, engine, -, hopens⟩
    · exact (List.append_nil _).symm
    · exact hopens.written.trans (List.append_nil _).symm
  refine ⟨?_, htracked'.afterCall (by simp [rewritten_iff, htracked'.recordsWritten_eq hwritten])⟩
  rcases hout with ⟨-, hfails, rfl, rfl⟩ | ⟨-, engine, rfl, hopens⟩
  · cases result with
    | ok engine => exact absurd trivial hfails
    | error error => exact ⟨hholds, hlinked, nofun⟩
  · exact hopens.ready.served []

end Calls

end Requests

end Sukari
