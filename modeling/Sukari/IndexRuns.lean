import Sukari.IndexFile
import Sukari.Reserved

/-!
# The checkpoint index over whole runs

`IndexRun` are the runs over one directory with stops of the process at any request and reopens. A
run carries the nodes that are *fresh*: no stop came between the append of their last checkpoint and
the replacement of the index. In every state of a run the index in memory has an entry for exactly
the active nodes, every entry names a checkpoint of its node on disk, the last one if the node is
fresh, and the same holds of the index file (`IndexRun.indexSound`).
-/

set_option autoImplicit false
set_option relaxedAutoImplicit false

namespace Sukari

open Effects

variable (N : Noraft)

/-- The runs over one directory, with the fresh nodes and the engine that is open. -/
inductive IndexRun : (NodeId → Prop) → Option StorageEngine → Fs → Prop
  | empty : IndexRun (fun _ ↦ True) none .empty
  /-- The directory is opened, after the engine that was open before has been closed. -/
  | reopen {fresh : NodeId → Prop} {current : Option StorageEngine} {fs fs' : Fs}
      {maxSegmentLen : ℕ} {result : Except IoError StorageEngine} (h : IndexRun fresh current fs)
      (hrun : directory.run (StorageEngine.withMaxSegmentLen N maxSegmentLen).run fs =
        (result, fs')) :
      IndexRun (freshAfterCall N fresh (directory.performed
        (StorageEngine.withMaxSegmentLen N maxSegmentLen).run fs)) result.toOption fs'
  | call {fresh : NodeId → Prop} {engine engine' : StorageEngine} {fs fs' : Fs}
      {command : Command N} {result : Except IoError Unit} (h : IndexRun fresh (some engine) fs)
      (hrun : directory.run ((StorageEngine.call command).run engine) fs =
        ((result, engine'), fs')) :
      IndexRun (freshAfterCall N fresh (directory.performed
        ((StorageEngine.call command).run engine) fs)) (some engine') fs'
  /-- The process stops while it opens the directory. -/
  | stopInOpen {fresh : NodeId → Prop} {current : Option StorageEngine} {fs : Fs}
      {maxSegmentLen : ℕ} {visit : Visit fileSystem Fs} (h : IndexRun fresh current fs)
      (hvisit : visit ∈ states (StorageEngine.withMaxSegmentLen N maxSegmentLen).run fs) :
      IndexRun (freshAfterStop N fresh visit.past) none visit.state
  /-- The process stops in a call. -/
  | stopInCall {fresh : NodeId → Prop} {engine : StorageEngine} {fs : Fs} {command : Command N}
      {visit : Visit fileSystem Fs} (h : IndexRun fresh (some engine) fs)
      (hvisit : visit ∈ states ((StorageEngine.call command).run engine) fs) :
      IndexRun (freshAfterStop N fresh visit.past) none visit.state

/-- A complete checkpoint of the node starts at the position of an index entry. The entry is not
later than the last checkpoint of the node, and it is the one of the last if the node is fresh. -/
structure NamesCheckpoint (fresh : Prop) (fs : Fs) (nodeId : NodeId)
    (position : RecordPosition) : Prop where
  checkpoint : fs.HasCheckpoint N nodeId position
  latest : ∃ last, IsGreatest {other | fs.HasCheckpoint N nodeId other} last ∧ position ≤ last ∧
    (fresh → position = last)

/-- The index has an entry for exactly the active nodes, and every one names a checkpoint. -/
structure EngineIndexSound (fresh : NodeId → Prop) (engine : StorageEngine) (fs : Fs) : Prop where
  active : ∀ nodeId, (engine.checkpointIndex.checkpointPosition nodeId).isSome =
    engine.registry.isActive nodeId
  names : ∀ nodeId position, engine.checkpointIndex.checkpointPosition nodeId = some position →
    NamesCheckpoint N (fresh nodeId) fs nodeId position

/-- The index file has an entry for every active node, every one names a checkpoint, and the index
loads. -/
structure FileIndexSound (fresh : NodeId → Prop) (registry : NodeRegistry) (index : CheckpointIndex)
    (fs : Fs) : Prop where
  active : ∀ nodeId, registry.isActive nodeId = true →
    ∃ position, index.checkpointPosition nodeId = some position
  names : ∀ nodeId position, registry.isActive nodeId = true →
    index.checkpointPosition nodeId = some position →
    NamesCheckpoint N (fresh nodeId) fs nodeId position
  loads : ∃ loaded, directory.run (CheckpointIndex.load N registry).run fs = (.ok loaded, fs) ∧
    ∀ nodeId, loaded.checkpointPosition nodeId =
      if registry.isActive nodeId then index.checkpointPosition nodeId else none

variable {N} {fresh : NodeId → Prop} {current : Option StorageEngine}
  {engine engine' : StorageEngine}
  {ledger ledger' : Ledger N} {fs fs' : Fs} {nodeId : NodeId}

/-! ### The invariant of a run -/

/-- The invariant of a run, up to the names that are not durable. -/
structure WellIndexed (fresh : NodeId → Prop) (current : Option StorageEngine) (ledger : Ledger N)
    (fs : Fs) : Prop where
  served : Served ⟨current, []⟩ ledger fs.syncDir
  indexed : Indexed fresh ledger fs

theorem WellIndexed.of_alike (halike : Alike fs fs') (hserved : Served ⟨current, []⟩ ledger fs')
    (hindexed : Indexed fresh ledger fs') : WellIndexed fresh current ledger fs := by
  obtain ⟨-, hcheckpoints, hnodes⟩ := alike_iff.mp halike
  constructor
  · rw [show fs.syncDir = fs'.syncDir from halike]
    refine ⟨hserved.holds.syncDir, activeLinked_syncDir _ _, fun engine hengine ↦ ?_⟩
    obtain ⟨opened, hready⟩ := hserved.ready engine hengine
    exact ⟨opened, hready.syncDir⟩
  · rwa [Indexed, hnodes, hcheckpoints]

/-- The invariant at the start of a call. -/
theorem WellIndexed.tracked (h : WellIndexed fresh current ledger fs) :
    Tracked fresh ledger.journal.written [] ledger fs.syncDir := by
  refine ⟨by simp [recordsWritten], h.indexed.mono fun nodeId hfresh ↦ ?_⟩
  exact hfresh.2.resolve_left (by simp [Rewritten])

theorem WellIndexed.run (_ : WellIndexed fresh current ledger fs) {α : Type}
    (session : α → Option StorageEngine) {p : Program fileSystem α}
    (hrefines : ((storage N).tracking (Tracked fresh ledger.journal.written)).Refines
      (fun value g' fs' ↦ Served ⟨session value, []⟩ g'.2 fs' ∧
        Indexed (freshAfterCall N fresh g'.1) g'.2 fs') p ([], ledger) fs.syncDir) :
    ∃ ledger' : Ledger N, WellIndexed (freshAfterCall N fresh (directory.performed p fs))
      (session (directory.run p fs).1) ledger' (directory.run p fs).2 := by
  obtain ⟨⟨past, ledger'⟩, fs', hsteps, halike, hserved, hindexed⟩ := run_of_refines hrefines
  obtain ⟨rfl, -⟩ := hsteps.of_tracking
  exact ⟨ledger', .of_alike halike hserved hindexed⟩

theorem WellIndexed.visit (h : WellIndexed fresh current ledger fs) {α : Type}
    {p : Program fileSystem α} {Q : α → List (Exchange fileSystem) × Ledger N → Fs → Prop}
    (hrefines : ((storage N).tracking (Tracked fresh ledger.journal.written)).Refines Q p
      ([], ledger) fs.syncDir) {visit : Visit fileSystem Fs} (hvisit : visit ∈ states p fs) :
    ∃ ledger' : Ledger N, WellIndexed (freshAfterStop N fresh visit.past) none ledger'
      visit.state := by
  obtain ⟨⟨past, ledger'⟩, fs', hsteps, halike, hholds, htracked⟩ :=
    visit_of_refines hrefines ⟨h.served.holds, h.tracked⟩ hvisit
  obtain ⟨rfl, -⟩ := hsteps.of_tracking
  have hserved : Served ⟨none, []⟩ ledger' fs'.syncDir :=
    ⟨hholds.syncDir, activeLinked_syncDir _ _, nofun⟩
  exact ⟨ledger', .of_alike (halike.trans (alike_syncDir fs').symm) hserved htracked.indexed⟩

theorem WellIndexed.refines_call (h : WellIndexed fresh (some engine) ledger fs)
    (command : Command N) : ∃ opened,
      ((storage N).tracking (Tracked fresh ledger.journal.written)).Refines (Settles fresh opened)
        ((StorageEngine.call command).run engine) ([], ledger) fs.syncDir := by
  obtain ⟨opened, hready⟩ := h.served.ready engine rfl
  exact ⟨opened, refines_tracked hready h.tracked command⟩

theorem IndexRun.wellIndexed (h : IndexRun N fresh current fs) :
    ∃ ledger : Ledger N, WellIndexed fresh current ledger fs := by
  induction h with
  | empty =>
    refine ⟨⟨[], 0⟩, Ledger.holds_empty.syncDir.served (Fs.syncDir_syncDir _),
      fun registry index hregistry _ nodeId hactive ↦ ?_⟩
    obtain rfl := Except.ok.inj hregistry
    rw [NodeRegistry.isActive_default] at hactive
    nomatch hactive
  | @reopen fresh current fs fs' maxSegmentLen result _ hrun ih =>
    obtain ⟨ledger, hindexed⟩ := ih
    have hopened := hindexed.run Except.toOption
      (refines_trackedOpen hindexed.served.holds hindexed.served.linked hindexed.tracked
        maxSegmentLen)
    rwa [hrun] at hopened
  | @call fresh engine engine' fs fs' command result _ hrun ih =>
    obtain ⟨ledger, hindexed⟩ := ih
    obtain ⟨opened, hrefines⟩ := hindexed.refines_call command
    have hcalled := hindexed.run (fun out ↦ some out.2)
      (hrefines.mono fun out g' fs' hsettles ↦ ⟨hsettles.1.served [], hsettles.2⟩)
    rwa [hrun] at hcalled
  | @stopInOpen fresh current fs maxSegmentLen visit _ hvisit ih =>
    obtain ⟨ledger, hindexed⟩ := ih
    exact hindexed.visit (refines_trackedOpen hindexed.served.holds hindexed.served.linked
      hindexed.tracked maxSegmentLen) hvisit
  | @stopInCall fresh engine fs command visit _ hvisit ih =>
    obtain ⟨ledger, hindexed⟩ := ih
    obtain ⟨opened, hrefines⟩ := hindexed.refines_call command
    exact hindexed.visit hrefines hvisit

/-! ### What the invariant says about the index -/

/-- The entries of the index file name checkpoints. -/
theorem WellIndexed.names (h : WellIndexed fresh current ledger fs) {registry : NodeRegistry}
    {index : CheckpointIndex} {position : RecordPosition}
    (hregistry : NodeRegistry.ofFile fs.nodes.current = .ok registry)
    (hindex : CheckpointIndex.ofFile fs.checkpoints.current = .ok index)
    (hactive : registry.isActive nodeId = true)
    (hposition : index.checkpointPosition nodeId = some position) :
    NamesCheckpoint N (fresh nodeId) fs nodeId position := by
  have hrecoverable := h.served.holds.recoverable
  have hholds : fs.syncDir.HasRegistry registry := ⟨_, .inl rfl, hregistry⟩
  have hholds' : fs.syncDir.HasIndex index := ⟨_, .inl rfl, hindex⟩
  have hcheckpoint {other : RecordPosition} :=
    (@Fs.hasCheckpoint_syncDir N fs nodeId other).symm.trans
    hrecoverable.toStored.hasCheckpoint_iff
  obtain ⟨entry, hentry, rfl⟩ := hrecoverable.marked index nodeId position hholds' hposition
  have hon : fs.HasCheckpoint N nodeId entry.position :=
    hcheckpoint.mpr ⟨hrecoverable.markedPresent registry index nodeId _ hholds hholds' hactive
      hposition, entry, hentry.mem, rfl, hentry.checkpoint⟩
  -- the last checkpoint of the node is not older than its anchor, so its segment is there
  obtain ⟨anchor, hanchor, hcovers⟩ := hrecoverable.anchored registry nodeId hholds hactive
  obtain ⟨last, hlast, hlastOf, hlatest⟩ : ∃ last ∈ ledger.journal.entries,
      last.isCheckpointOf nodeId = true ∧ ∀ other ∈ ledger.journal.entries,
        other.isCheckpointOf nodeId = true → other.position ≤ last.position := by
    obtain ⟨before, last, after, hlast⟩ := exists_lastCheckpoint ledger.journal.pairwise_entries
      ⟨anchor, hanchor.mem, hanchor.checkpoint⟩
    exact ⟨last, by simp [hlast.split], hlast.checkpoint, fun other ↦ hlast.position_le⟩
  have hpresent : last.position.segment ∈ fs.syncDir.segments :=
    hcovers _ (RecordPosition.segment_le (hlatest anchor hanchor.mem hanchor.checkpoint))
      (Journal.segment_lt_of_mem hlast)
  have hgreatest : IsGreatest {other | fs.HasCheckpoint N nodeId other} last.position := by
    refine ⟨hcheckpoint.mpr ⟨hpresent, last, hlast, rfl, hlastOf⟩, fun other hother ↦ ?_⟩
    obtain ⟨-, entry', hentry', rfl, hentryOf'⟩ := hcheckpoint.mp hother
    exact hlatest entry' hentry' hentryOf'
  refine ⟨hon, last.position, hgreatest, hgreatest.2 hon, fun hfresh ↦ ?_⟩
  obtain ⟨position', hposition', hbound⟩ := h.indexed registry index hregistry hindex nodeId hactive
  obtain rfl := Option.some.inj (hposition.symm.trans hposition')
  exact le_antisymm (hgreatest.2 hon) (hbound hfresh last hlast hlastOf)

/-- The index in memory is sound. -/
theorem WellIndexed.engineIndexSound (h : WellIndexed fresh (some engine) ledger fs) :
    EngineIndexSound N fresh engine fs := by
  obtain ⟨opened, hready⟩ := h.served.ready engine rfl
  obtain ⟨registry, hregistry, hsame⟩ := hready.documented.registry
  obtain ⟨index, hindex, hentries⟩ := hready.documented.index
  constructor
  · intro nodeId
    rw [hentries]
    split
    · next hactive =>
      obtain ⟨position, hposition, -⟩ :=
        h.indexed registry index hregistry hindex nodeId ((hsame nodeId).trans hactive)
      rw [hposition, hactive]
      rfl
    · next hinactive => simp [hinactive]
  · intro nodeId position hposition
    rw [hentries] at hposition
    split at hposition
    · next hactive => exact h.names hregistry hindex ((hsame nodeId).trans hactive) hposition
    · nomatch hposition

/-- The index file is sound. -/
theorem WellIndexed.fileIndexSound (h : WellIndexed fresh current ledger fs)
    {registry : NodeRegistry} {index : CheckpointIndex}
    (hregistry : NodeRegistry.ofFile fs.nodes.current = .ok registry)
    (hindex : CheckpointIndex.ofFile fs.checkpoints.current = .ok index) :
    FileIndexSound N fresh registry index fs := by
  refine ⟨fun nodeId hactive ↦ ?_, fun nodeId position ↦ h.names hregistry hindex, ?_⟩
  · obtain ⟨position, hposition, -⟩ := h.indexed registry index hregistry hindex nodeId hactive
    exact ⟨position, hposition⟩
  · have hrecoverable := h.served.holds.recoverable
    have hsees := bisimulation_alike.sees (fun _ ↦ alike_syncDir fs)
      (@checkpointIndex_load_sees N _ _ 0 hrecoverable.tended registry)
    obtain ⟨hunchanged, -, stored, hstored, ⟨loaded, hloaded, -, hentries⟩ |
      ⟨-, nodeId, position, -, -, hactive, hposition, hgone⟩⟩ := hsees.run
    · obtain rfl := Except.ok.inj (hindex.symm.trans hstored)
      exact ⟨loaded, Prod.ext hloaded hunchanged, hentries⟩
    · exact absurd (hrecoverable.markedPresent registry stored nodeId position
        ⟨_, .inl rfl, hregistry⟩ ⟨_, .inl rfl, hstored⟩ hactive hposition) hgone

/-- In every state of a run the index in memory and the index file have an entry for every active
node, the entries name checkpoints of their nodes on disk, not later than the last ones and the last
ones of the fresh nodes, and the directory can be opened again. -/
theorem IndexRun.indexSound (h : IndexRun N fresh current fs) :
    (∀ engine, current = some engine → EngineIndexSound N fresh engine fs) ∧
    (∃ registry index, NodeRegistry.ofFile fs.nodes.current = .ok registry ∧
      CheckpointIndex.ofFile fs.checkpoints.current = .ok index ∧
      FileIndexSound N fresh registry index fs) ∧
    ∀ maxSegmentLen, maxSegmentLen ≠ 0 → ∃ engine fs',
      directory.run (StorageEngine.withMaxSegmentLen N maxSegmentLen).run fs =
        (.ok engine, fs') := by
  obtain ⟨ledger, hindexed⟩ := h.wellIndexed
  have hholds := hindexed.served.holds
  obtain ⟨registry, hregistry⟩ := hholds.recoverable.registries _ (.inl rfl)
  obtain ⟨index, hindex⟩ := hholds.recoverable.indexes _ (.inl rfl)
  refine ⟨?_, ⟨registry, index, hregistry, hindex, hindexed.fileIndexSound hregistry hindex⟩,
    fun maxSegmentLen hmax ↦ ?_⟩
  · rintro engine rfl
    exact hindexed.engineIndexSound
  · obtain ⟨engine, fs', -, hopen, -⟩ := hholds.opens hmax
    exact ⟨engine, fs', hopen⟩

/-- A node that was created in a new directory is in the index, at its last checkpoint. -/
theorem indexSound_created : ∃ (engine : StorageEngine) (fs : Fs) (position : RecordPosition),
    engine.checkpointIndex.checkpointPosition 1 = some position ∧
      IsGreatest {other | fs.HasCheckpoint Noraft.ofLists 1 other} position := by
  let create : Command Noraft.ofLists := .createNode 1 ⟨true, ⟨"null"⟩⟩
  let opened := directory.run (StorageEngine.withMaxSegmentLen Noraft.ofLists 64).run .empty
  have hruns : opened.1.toOption.any (fun engine ↦
      (directory.run ((StorageEngine.call create).run engine) opened.2).1.2.registry.isActive 1) =
        true := by
    decide +kernel
  simp only [Option.any_eq_true, toOption_eq_some_iff] at hruns
  obtain ⟨engine, hopen, hactive⟩ := hruns
  have hstart := IndexRun.empty.reopen (show directory.run
    (StorageEngine.withMaxSegmentLen Noraft.ofLists 64).run .empty = (opened.1, opened.2) from rfl)
  rw [hopen] at hstart
  have hcreated :=
    hstart.call (show directory.run ((StorageEngine.call create).run engine) opened.2 =
    ((_, _), _) from rfl)
  have hsound := hcreated.indexSound.1 _ rfl
  have hentry := hsound.active 1
  rw [hactive, Option.isSome_iff_exists] at hentry
  obtain ⟨position, hposition⟩ := hentry
  obtain ⟨last, hlast, -, hfresh⟩ := (hsound.names 1 position hposition).latest
  obtain rfl := hfresh (.inr (.inr trivial))
  exact ⟨_, _, position, hposition, hlast⟩

end Sukari
