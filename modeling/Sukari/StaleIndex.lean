import Sukari.GarbageSafety
import Sukari.OnDisk

/-!
# Stale checkpoint indexes

The positions in the checkpoint index are hints: replay looks for later checkpoints from there on.
A directory whose index file is gone, lacks entries or names older checkpoints that are still on
disk opens and loads the same as with the index that belongs to it, and loading all nodes agrees
with loading them one by one (`load_staleIndex`).
-/

set_option autoImplicit false
set_option relaxedAutoImplicit false

namespace Sukari

open Effects

variable {N : Noraft} {journal : Journal N} {ledger : Ledger N} {fs : Fs} {document : Option Json}

variable (N) in
/-- An index file that is older than the one of the directory: it is missing, or each of its entries
is the one of the directory or an older checkpoint of the same node that is still on disk. -/
inductive StaleIndex (fs : Fs) : Option Json → Prop
  | deleted : StaleIndex fs none
  | edited {document : Json} {index index' : CheckpointIndex}
      (hindex : CheckpointIndex.ofFile fs.checkpoints.current = .ok index)
      (hindex' : CheckpointIndex.ofFile (some document) = .ok index')
      (hentries : ∀ nodeId position, index'.checkpointPosition nodeId = some position →
        ∃ newest, index.checkpointPosition nodeId = some newest ∧
          (position = newest ∨ position < newest ∧ fs.HasCheckpoint N nodeId position)) :
      StaleIndex fs (some document)

/-- The directory with another index file. -/
def Fs.withIndex (fs : Fs) (document : Option Json) : Fs :=
  { fs with checkpoints := ⟨document, document⟩ }

/-- The entries of a stale index mark checkpoints. -/
theorem StaleIndex.marked (h : StaleIndex N fs document) (hrecoverable : Recoverable journal fs) :
    ∃ index', CheckpointIndex.ofFile document = .ok index' ∧
      ∀ nodeId position, index'.checkpointPosition nodeId = some position →
        Marked journal fs nodeId position ∧
          ∀ registry, fs.HasRegistry registry → registry.isActive nodeId = true →
            position.segment ∈ fs.segments := by
  cases h with
  | deleted =>
    refine ⟨.default, rfl, fun nodeId position hposition ↦ ?_⟩
    simp [CheckpointIndex.default, CheckpointIndex.checkpointPosition] at hposition
  | @edited document index index' hindex hindex' hentries =>
    refine ⟨index', hindex', fun nodeId position hposition ↦ ?_⟩
    obtain ⟨newest, hnewest, hsame | ⟨hlt, hcheckpoint⟩⟩ := hentries nodeId position hposition
    · subst hsame
      have hholds : fs.HasIndex index := ⟨_, .inl rfl, hindex⟩
      exact ⟨hrecoverable.marked index nodeId position hholds hnewest,
        fun registry hregistry hactive ↦
        hrecoverable.markedPresent registry index nodeId position hregistry hholds hactive hnewest⟩
    · obtain ⟨hpresent, entry, hentry, rfl, hentryOf⟩ :=
        hrecoverable.toStored.hasCheckpoint_iff.mp hcheckpoint
      obtain ⟨later, hlater, rfl⟩ :=
        hrecoverable.marked index nodeId newest ⟨_, .inl rfl, hindex⟩ hnewest
      exact ⟨⟨entry, ⟨hentry, hentryOf, hlater.durable.of_lt hentry hlater.mem hlt⟩, rfl⟩,
        fun _ _ _ ↦ hpresent⟩

/-- A directory with a stale index can be recovered. -/
theorem Recoverable.withIndex (h : Recoverable journal fs) (hstale : StaleIndex N fs document) :
    Recoverable journal (fs.withIndex document) := by
  obtain ⟨index', hindex', hmarked⟩ := hstale.marked h
  have honly : ∀ index, (fs.withIndex document).HasIndex index → index = index' := by
    rintro index ⟨document', hholds, hparsed⟩
    obtain rfl : document' = document := by rcases hholds with hholds | hholds <;> exact hholds
    rw [hindex', Except.ok.injEq] at hparsed
    exact hparsed.symm
  refine ⟨h.toStored.setJson .checkpoints ⟨document, document⟩, h.registries, ?_,
    fun registry nodeId hregistry hactive ↦
      (h.anchored registry nodeId hregistry hactive).of_segments_eq rfl, ?_, ?_⟩
  · intro document' hholds
    obtain rfl : document' = document := by rcases hholds with hholds | hholds <;> exact hholds
    exact ⟨index', hindex'⟩
  · intro index nodeId position hindex hposition
    obtain rfl := honly index hindex
    exact (hmarked nodeId position hposition).1.of_segments_eq rfl
  · intro registry index nodeId position hregistry hindex hactive hposition
    obtain rfl := honly index hindex
    exact (hmarked nodeId position hposition).2 registry hregistry hactive

variable (N) in
/-- With another index file, a directory opens, its active nodes load the same, and loading all
nodes agrees with loading them one by one. -/
def LoadsWithIndex (maxSegmentLen : ℕ) (fs : Fs) (document : Option Json) : Prop :=
  ∃ engine fs₁ engine' fs₁',
    directory.run (StorageEngine.withMaxSegmentLen N maxSegmentLen).run fs = (.ok engine, fs₁) ∧
    directory.run (StorageEngine.withMaxSegmentLen N maxSegmentLen).run (fs.withIndex document) =
      (.ok engine', fs₁') ∧
    (∀ nodeId, engine'.registry.isActive nodeId = engine.registry.isActive nodeId) ∧
    (∀ nodeId, engine.registry.isActive nodeId = true →
      (directory.run ((StorageEngine.load N nodeId).run engine') fs₁').1.1 =
        (directory.run ((StorageEngine.load N nodeId).run engine) fs₁).1.1) ∧
    LoadsAll engine'.registry.activeNodeIds
      (fun nodeId ↦ (directory.run ((StorageEngine.load N nodeId).run engine') fs₁').1.1)
      (directory.run ((StorageEngine.loadAll N).run engine') fs₁').1.1

theorem LoadsAll.congr {nodeIds : NodeIdSet}
    {states states' : NodeId → Except IoError (NodeState N)}
    {result : Except IoError (ReplayState N)} (h : LoadsAll nodeIds states result)
    (hstates : ∀ nodeId ∈ nodeIds, states nodeId = states' nodeId) :
    LoadsAll nodeIds states' result := by
  cases result with
  | ok nodes =>
    refine ⟨fun nodeId hnode ↦ ?_, h.2⟩
    rw [← hstates nodeId hnode]
    exact h.1 nodeId hnode
  | error error =>
    obtain ⟨nodeId, hnode, hfails⟩ := h
    exact ⟨nodeId, hnode, by rwa [← hstates nodeId hnode]⟩

theorem StaleIndex.syncDir (h : StaleIndex N fs document) : StaleIndex N fs.syncDir document := by
  cases h with
  | deleted => exact .deleted
  | edited hindex hindex' hentries =>
    refine .edited hindex hindex' fun nodeId position hposition ↦ ?_
    obtain ⟨newest, hnewest, hcause⟩ := hentries nodeId position hposition
    exact ⟨newest, hnewest, hcause.imp_right fun ⟨hlt, hcheckpoint⟩ ↦
      ⟨hlt, Fs.hasCheckpoint_syncDir.mpr hcheckpoint⟩⟩

/-- A stale index changes nothing that is loaded. -/
theorem load_staleIndex {written : List (NodeId × Record N)} (h : Reachable N written fs)
    (hstale : StaleIndex N fs document) {maxSegmentLen : ℕ} (hmax : maxSegmentLen ≠ 0) :
    LoadsWithIndex N maxSegmentLen fs document := by
  obtain ⟨ledger, -, hholds⟩ := h.holds
  obtain ⟨registry, hregistry⟩ := hholds.recoverable.registries _ (.inl rfl)
  have hholds' : ledger.Holds (fs.withIndex document).syncDir :=
    hholds.of_segments_eq (hholds.recoverable.withIndex hstale.syncDir) rfl
  obtain ⟨engine, fs₁, ledger₁, hopen, hopens⟩ := hholds.opens hmax
  obtain ⟨engine', fs₁', ledger₁', hopen', hopens'⟩ := hholds'.opens hmax
  have hactive := hopens.isActive_eq hregistry
  have hactive' := hopens'.isActive_eq hregistry
  have hload {nodeId : NodeId} (hnode : registry.isActive nodeId = true) :
      (directory.run ((StorageEngine.load N nodeId).run engine) fs₁).1.1 =
        recoveredState (recordsOf nodeId ledger.journal.written) := by
    have hresult := hopens.ready.load nodeId
    rwa [hactive, hnode, hopens.written] at hresult
  have hload' {nodeId : NodeId} (hnode : registry.isActive nodeId = true) :
      (directory.run ((StorageEngine.load N nodeId).run engine') fs₁').1.1 =
        recoveredState (recordsOf nodeId ledger.journal.written) := by
    have hresult := hopens'.ready.load nodeId
    rwa [hactive', hnode, hopens'.written] at hresult
  refine ⟨engine, fs₁, engine', fs₁', hopen, hopen', fun nodeId ↦ ?_, fun nodeId hnode ↦ ?_, ?_⟩
  · rw [hactive, hactive']
  · rw [hactive] at hnode
    rw [hload hnode, hload' hnode]
  · refine hopens'.ready.loadAll.congr fun nodeId hnode ↦ ?_
    rw [NodeRegistry.mem_activeNodeIds, hactive'] at hnode
    rw [hload' hnode, hopens'.written]

/-- The index file of an application that has created a node is deleted. -/
theorem load_staleIndex_deleted : LoadsWithIndex Noraft.ofLists 64
    (directory.run (performEvents creatingEvents .closed) .empty).2 none := by
  obtain ⟨written, hreachable⟩ := Reachable.final .empty creatingEvents
  exact load_staleIndex hreachable .deleted (by decide)

end Sukari
