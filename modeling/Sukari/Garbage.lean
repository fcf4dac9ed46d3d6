import Sukari.Ready

/-!
# Garbage collection

`Obsolete engine segment` says that every active node has an index entry behind the segment. Garbage
collection removes exactly the obsolete segments except for the active one
(`refines_collectGarbage`). That keeps the directory recoverable: a node whose first anchor is
removed is anchored at its index entry.
-/

set_option autoImplicit false
set_option relaxedAutoImplicit false

namespace Sukari

open Effects

variable {N : Noraft} {opened ledger : Ledger N} {fs : Fs} {engine : StorageEngine}

/-- All active nodes have a checkpoint in the index, and in a later segment. -/
def Obsolete (engine : StorageEngine) (segment : ℕ) : Prop :=
  ∀ nodeId, engine.registry.isActive nodeId = true → ∃ position,
    engine.checkpointIndex.checkpointPosition nodeId = some position ∧ segment < position.segment

/-- The segments of a set may all be removed. -/
structure Removable (removable : ℕ → Prop) (journal : Journal N) (fs : Fs) : Prop where
  linked : ∀ (active : ℕ) (file : SegmentFile), active + 1 = journal.length →
    fs.segments[active]? = some file → file.linked = true
  anchored : ∀ (registry : NodeRegistry) (nodeId : NodeId), fs.HasRegistry registry →
    registry.isActive nodeId = true → ∃ entry, DurableCheckpoint journal fs nodeId entry ∧
      (∀ name, removable name → name < entry.position.segment) ∧
      ∀ segment, entry.position.segment ≤ segment → segment < journal.length →
        segment ∈ fs.segments
  marked : ∀ (registry : NodeRegistry) (index : CheckpointIndex) (nodeId : NodeId)
    (position : RecordPosition), fs.HasRegistry registry → fs.HasIndex index →
    registry.isActive nodeId = true → index.nodes[nodeId]? = some position →
    ¬ removable position.segment

/-- Removing one of the segments leaves the others removable. -/
theorem Removable.remove {removable : ℕ → Prop} {journal : Journal N}
    (h : Removable removable journal fs) {name : ℕ} (hname : removable name)
    (hsealed : name + 1 < journal.length) : Removable removable journal (fs.remove name) where
  linked active file hactive hfile := by
    rw [Fs.getElem?_remove, if_neg (by omega)] at hfile
    exact h.linked active file hactive hfile
  anchored registry nodeId hregistry hactive := by
    obtain ⟨entry, hentry, hlater, hcovers⟩ := h.anchored registry nodeId
      (by simpa [Fs.HasRegistry] using hregistry) hactive
    refine ⟨entry, ⟨hentry.mem, hentry.checkpoint, hentry.durable.remove hsealed⟩, hlater,
      fun segment hsegment hlength ↦ ?_⟩
    have hbefore := hlater name hname
    exact Fs.mem_remove.mpr ⟨by omega, hcovers segment hsegment hlength⟩
  marked registry index nodeId position hregistry hindex :=
    h.marked registry index nodeId position (by simpa [Fs.HasRegistry] using hregistry)
      (by simpa [Fs.HasIndex] using hindex)

theorem Removable.holds {removable : ℕ → Prop} (h : Removable removable ledger.journal fs)
    (hholds : ledger.Holds fs) {name : ℕ} (hname : removable name)
    (hsealed : name + 1 < ledger.journal.length) : ledger.Holds (fs.remove name) where
  recoverable := hholds.recoverable.remove hsealed h.linked
    (fun registry nodeId hregistry hactive ↦ by
      obtain ⟨entry, hentry, hlater, hcovers⟩ := h.anchored registry nodeId hregistry hactive
      exact ⟨entry, hentry, hlater name hname, hcovers⟩)
    fun registry index nodeId position hregistry hindex hactive hposition hsame ↦
      h.marked registry index nodeId position hregistry hindex hactive hposition (hsame ▸ hname)
  synced_le := hholds.synced_le
  durable entry hentry := (hholds.durable entry hentry).remove hsealed

/-- The loop that removes segments. -/
theorem refines_removeSegments {barrier : GcBarrier} {active : ℕ} {segments : List ℕ}
    (hactive : active + 1 = ledger.journal.length)
    (hlisted : ∀ segment ∈ segments, segment < ledger.journal.length) (hholds : ledger.Holds fs)
    (h : Removable (fun name ↦ name ≠ active ∧ barrier.allowsDelete name = true)
      ledger.journal fs) (deleted : ℕ) :
    (storage N).Refines (fun result ledger' fs' ↦ (∃ count, result = .ok count) ∧
        ledger' = ledger ∧ ledger.Holds fs' ∧ fs'.nodes = fs.nodes ∧
        fs'.checkpoints = fs.checkpoints ∧ ∀ (name : ℕ), fs'.segments[name]? =
          if name ∈ segments ∧ name ≠ active ∧ barrier.allowsDelete name = true then none
          else fs.segments[name]?)
      (segments.foldlM (fun deleted segment ↦
        if segment = active then return deleted
        else if barrier.allowsDelete segment = false then return deleted
        else do
          let existed : Bool ← io (.remove segment)
          return if existed then deleted + 1 else deleted) deleted : IoM ℕ).run ledger fs := by
  induction segments generalizing fs deleted with
  | nil => exact ⟨⟨deleted, rfl⟩, rfl, hholds, rfl, rfl, by simp⟩
  | cons segment rest ih =>
    have hrest : ∀ other ∈ rest, other < ledger.journal.length :=
      fun other hother ↦ hlisted other (by simp [hother])
    rw [List.foldlM_cons]
    refine .bindExcept ?_
    by_cases hremovable : segment ≠ active ∧ barrier.allowsDelete segment = true
    · rw [if_neg hremovable.1, if_neg (by simp [hremovable.2])]
      have hsealed : segment + 1 < ledger.journal.length := by
        have := hlisted segment (by simp)
        have := hremovable.1
        omega
      have hremoved := h.holds hholds hremovable hsealed
      refine .bindExcept (refines_io ledger nofun rfl hremoved ?_)
      refine (ih hrest hremoved (h.remove hremovable hsealed) _).mono ?_
      rintro result ledger' fs' ⟨hresult, rfl, hfinal, hnodes, hcheckpoints, hsegments⟩
      refine ⟨hresult, rfl, hfinal, hnodes.trans (Fs.nodes_remove _ _),
        hcheckpoints.trans (Fs.checkpoints_remove _ _), fun name ↦ ?_⟩
      rw [hsegments, Fs.getElem?_remove]
      by_cases hsame : segment = name
      · subst hsame
        simp [hremovable]
      · simp [hsame, Ne.symm hsame]
    · have hskip : (if segment = active then return deleted
          else if barrier.allowsDelete segment = false then return deleted
          else do
            let existed : Bool ← io (.remove segment)
            return if existed then deleted + 1 else deleted : IoM ℕ) = return deleted := by
        by_cases hsame : segment = active
        · rw [if_pos hsame]
        · rw [if_neg hsame, if_pos (by simpa [hsame] using hremovable)]
      rw [hskip]
      refine (ih hrest hholds h deleted).mono ?_
      rintro result ledger' fs' ⟨hresult, rfl, hfinal, hnodes, hcheckpoints, hsegments⟩
      refine ⟨hresult, rfl, hfinal, hnodes, hcheckpoints, fun name ↦ ?_⟩
      rw [hsegments]
      by_cases hsame : name = segment
      · subst hsame
        simp [hremovable]
      · simp [hsame]

/-- The metadata files are durable. -/
structure DocumentsDurable (fs : Fs) : Prop where
  nodes : fs.nodes.durable = fs.nodes.current
  checkpoints : fs.checkpoints.durable = fs.checkpoints.current

/-- What the barrier lets garbage collection remove. -/
theorem Ready.removable (h : Ready opened engine ledger fs) (hdurable : DocumentsDurable fs)
    {barrier : GcBarrier}
    (hbarrier : engine.checkpointIndex.gcBarrier engine.registry.activeNodeIds = some barrier) :
    Removable (fun name ↦ name ≠ engine.writer.activeSegment ∧ barrier.allowsDelete name = true)
      ledger.journal fs := by
  have hrecoverable := h.state.holds.recoverable
  obtain ⟨hall, hallows⟩ := CheckpointIndex.gcBarrier_eq_some hbarrier
  obtain ⟨registry, hregistry, hsame⟩ := h.documented.registry
  obtain ⟨index, hindex, hentries⟩ := h.documented.index
  have honlyRegistry : ∀ registry', fs.HasRegistry registry' → registry' = registry := by
    rintro registry' ⟨document, hholds, hdocument⟩
    have hcurrent : document = fs.nodes.current := by
      rcases hholds with hholds | hholds
      · exact hholds
      · exact hholds.trans hdurable.nodes
    rw [hcurrent, hregistry, Except.ok.injEq] at hdocument
    exact hdocument.symm
  have honlyIndex : ∀ index', fs.HasIndex index' → index' = index := by
    rintro index' ⟨document, hholds, hdocument⟩
    have hcurrent : document = fs.checkpoints.current := by
      rcases hholds with hholds | hholds
      · exact hholds
      · exact hholds.trans hdurable.checkpoints
    rw [hcurrent, hindex, Except.ok.injEq] at hdocument
    exact hdocument.symm
  refine ⟨fun active file hactive hfile ↦ ?_, ?_, ?_⟩
  · obtain ⟨file', frames, hfile', -, -, hlinked, -⟩ := h.state.writer.file
    have hlast := h.state.writer.active
    obtain rfl : active = engine.writer.activeSegment := by
      simp only at hlast
      omega
    rw [hfile'] at hfile
    exact Option.some.inj hfile ▸ hlinked
  · intro registry' nodeId hholds hactive
    obtain rfl := honlyRegistry registry' hholds
    rw [hsame] at hactive
    obtain ⟨position, hposition⟩ := hall nodeId (NodeRegistry.mem_activeNodeIds.mpr hactive)
    obtain ⟨first, hfirst, hcovers⟩ := h.documented.anchored hrecoverable hactive
    obtain ⟨-, ⟨marked, hmarked, rfl⟩, -⟩ := h.documented.marked hrecoverable hposition
    have hbefore (name : ℕ) (hname : barrier.allowsDelete name = true) :
        name < marked.position.segment := (hallows name).mp hname nodeId
      (NodeRegistry.mem_activeNodeIds.mpr hactive) _ hposition
    rcases Nat.lt_or_ge first.position.segment marked.position.segment with hlater | hlater
    · exact ⟨marked, hmarked, fun name hname ↦ hbefore name hname.2,
        fun segment hsegment ↦ hcovers segment (hlater.le.trans hsegment)⟩
    · exact ⟨first, hfirst, fun name hname ↦ (hbefore name hname.2).trans_le hlater, hcovers⟩
  · intro registry' index' nodeId position hholds hholds' hactive hposition hremovable
    obtain rfl := honlyRegistry registry' hholds
    obtain rfl := honlyIndex index' hholds'
    rw [hsame] at hactive
    have hentry : engine.checkpointIndex.checkpointPosition nodeId = some position := by
      rw [hentries, if_pos hactive]
      exact hposition
    exact lt_irrefl _ ((hallows position.segment).mp hremovable.2 nodeId
      (NodeRegistry.mem_activeNodeIds.mpr hactive) position hentry)

theorem obsolete_iff {barrier : GcBarrier} (segment : ℕ)
    (hbarrier : engine.checkpointIndex.gcBarrier engine.registry.activeNodeIds = some barrier) :
    barrier.allowsDelete segment = true ↔ Obsolete engine segment := by
  obtain ⟨hall, hallows⟩ := CheckpointIndex.gcBarrier_eq_some hbarrier
  rw [hallows]
  constructor
  · intro hbefore nodeId hactive
    have hnode := NodeRegistry.mem_activeNodeIds.mpr hactive
    obtain ⟨position, hposition⟩ := hall nodeId hnode
    exact ⟨position, hposition, hbefore nodeId hnode position hposition⟩
  · intro hobsolete nodeId hnode position hposition
    obtain ⟨position', hposition', hbefore⟩ :=
      hobsolete nodeId (NodeRegistry.mem_activeNodeIds.mp hnode)
    rw [hposition, Option.some.injEq] at hposition'
    exact hposition' ▸ hbefore

theorem not_obsolete_of_gcBarrier_eq_none (segment : ℕ)
    (hbarrier : engine.checkpointIndex.gcBarrier engine.registry.activeNodeIds = none) :
    ¬ Obsolete engine segment := by
  obtain ⟨nodeId, hnode, hnone⟩ := CheckpointIndex.gcBarrier_eq_none hbarrier
  intro hobsolete
  obtain ⟨position, hposition, -⟩ := hobsolete nodeId (NodeRegistry.mem_activeNodeIds.mp hnode)
  rw [hnone] at hposition
  nomatch hposition

/-- A writer does not mind a directory in which its file is still the same. -/
theorem WriterAt.congr {writer : SegmentWriter} {journal : Journal N} {fs' : Fs}
    (h : WriterAt writer journal fs)
    (hfile : ∀ file, fs.segments[writer.activeSegment]? = some file → file.linked = true →
      fs'.segments[writer.activeSegment]? = some file) : WriterAt writer journal fs' where
  active := h.active
  file := by
    obtain ⟨file, frames, hfound, hframes, hbytes, hlinked, hlen⟩ := h.file
    exact ⟨file, frames, hfile file hfound hlinked, hframes, hbytes, hlinked, hlen⟩

theorem WriterAt.syncDir {writer : SegmentWriter} {journal : Journal N}
    (h : WriterAt writer journal fs) : WriterAt writer journal fs.syncDir :=
  h.congr fun file hfile hlinked ↦ by
    rw [Fs.getElem?_syncDir, hfile, Option.map_some, ← hlinked]

/-- Garbage collection removes the obsolete segments, except for the active one. -/
theorem refines_collectGarbage (h : Ready opened engine ledger fs)
    (hdurable : DocumentsDurable fs) :
    (storage N).Refines (fun out ledger' fs' ↦ out = (.ok (), engine) ∧ ledger' = ledger ∧
        Ready opened engine ledger fs' ∧ ∀ segment, segment ∈ fs'.segments ↔
          segment ∈ fs.segments ∧
            (segment = engine.writer.activeSegment ∨ ¬ Obsolete engine segment))
      (StorageEngine.collectGarbage.run engine) ledger fs := by
  refine .bindMethod (refines_get ?_)
  cases hbarrier : engine.checkpointIndex.gcBarrier engine.registry.activeNodeIds with
  | none =>
    simp only [hbarrier]
    exact ⟨rfl, rfl, h, fun segment ↦
      (and_iff_left (.inr (not_obsolete_of_gcBarrier_eq_none segment hbarrier))).symm⟩
  | some barrier =>
    simp only [hbarrier]
    have hstored := h.state.holds.recoverable.toStored
    refine .bindMethod (refines_liftIo ((refines_sees h.state.holds
      hstored.discoverSegmentPaths_sees).mono ?_))
    rintro _ ledger fs ⟨rfl, rfl, -, rfl⟩
    have hactive := h.state.writer.active
    refine .bindMethod (refines_liftIo ((refines_removeSegments hactive (fun segment hsegment ↦
      hstored.present segment (Std.ExtTreeMap.mem_keys.mp hsegment)) h.state.holds
        (h.removable hdurable hbarrier) 0).mono ?_))
    rintro _ ledger fs' ⟨⟨count, rfl⟩, rfl, hholds, hnodes, hcheckpoints, hsegments⟩
    have hmem (segment : ℕ) : segment ∈ fs'.segments ↔ segment ∈ fs.segments ∧
        (segment = engine.writer.activeSegment ∨ ¬ Obsolete engine segment) := by
      rw [← obsolete_iff segment hbarrier, Std.ExtTreeMap.mem_iff_isSome_getElem?, hsegments]
      by_cases hremoved : segment ∈ fs.segments.keys ∧
          segment ≠ engine.writer.activeSegment ∧ barrier.allowsDelete segment = true
      · rw [if_pos hremoved]
        simp [hremoved.2]
      · rw [if_neg hremoved, ← Std.ExtTreeMap.mem_iff_isSome_getElem?]
        rw [Std.ExtTreeMap.mem_keys] at hremoved
        tauto
    have hready : Ready opened engine ledger fs' := by
      refine ⟨⟨hholds, h.state.writer.congr fun file hfile _ ↦ ?_, h.state.gauges⟩,
        h.documented.congr ⟨by rw [hnodes], by rw [hcheckpoints]⟩ rfl rfl⟩
      rw [hsegments, if_neg fun hremoved ↦ hremoved.2.1 rfl, hfile]
    refine refines_onlyIf (fun _ ↦ refines_liftIo (refines_syncDir hholds fun hsynced ↦ ?_))
      fun _ ↦ ⟨rfl, rfl, hready, hmem⟩
    refine ⟨rfl, rfl, ⟨⟨hsynced, hready.state.writer.syncDir, h.state.gauges⟩,
      hready.documented.congr ⟨rfl, rfl⟩ rfl rfl⟩, fun segment ↦ ?_⟩
    rw [Fs.mem_syncDir, hmem]

end Sukari
