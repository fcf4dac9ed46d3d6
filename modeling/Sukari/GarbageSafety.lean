import Sukari.CheckpointRecovery
import Sukari.ReadersAgree

/-!
# Safety of garbage collection

Garbage collection removes the segments before every checkpoint of an active node, and no other
ones. It may be interrupted, and removed segments may be back after a crash: whichever of the
obsolete segments are missing, the directory opens with the same active segment, and every node
loads as before (`collectGarbage_exact_and_safe`).
-/

set_option autoImplicit false
set_option relaxedAutoImplicit false

namespace Sukari

open Effects

variable {N : Noraft} {opened ledger : Ledger N} {fs fs' : Fs} {engine : StorageEngine}

/-- The directory in which some segments are missing. -/
def Fs.without (fs : Fs) (missing : List ℕ) : Fs := missing.foldl Fs.remove fs

theorem Alike.without (h : Alike fs fs') (missing : List ℕ) :
    Alike (fs.without missing) (fs'.without missing) := by
  induction missing generalizing fs fs' with
  | nil => exact h
  | cons name rest ih => exact ih (h.remove name)

theorem SameDocuments.without (fs : Fs) (missing : List ℕ) :
    SameDocuments fs (fs.without missing) := by
  induction missing generalizing fs with
  | nil => exact .refl fs
  | cons name rest ih => exact SameDocuments.trans ⟨by simp, by simp⟩ (ih (fs.remove name))

/-- Segments that may be removed may be missing. -/
theorem Removable.holds_without {removable : ℕ → Prop} (h : Removable removable ledger.journal fs)
    (hholds : ledger.Holds fs) {missing : List ℕ}
    (hmissing : ∀ name ∈ missing, removable name ∧ name + 1 < ledger.journal.length) :
    ledger.Holds (fs.without missing) := by
  induction missing generalizing fs with
  | nil => exact hholds
  | cons name rest ih =>
    obtain ⟨hname, hsealed⟩ := hmissing name (by simp)
    exact ih (h.remove hname hsealed) (h.holds hholds hname hsealed)
      fun other hother ↦ hmissing other (by simp [hother])

/-- A segment that garbage collection removes. -/
structure Collectable (engine : StorageEngine) (fs : Fs) (segment : ℕ) : Prop where
  present : segment ∈ fs.segments
  inactive : segment ≠ engine.writer.activeSegment
  obsolete : Obsolete engine segment

/-- A directory opens with the same active segment as an engine has, and loads the same. -/
def ReopensAlike (N : Noraft) (maxSegmentLen : ℕ) (engine : StorageEngine) (fs fs' : Fs) : Prop :=
  ∃ engine' fs'', directory.run (StorageEngine.withMaxSegmentLen N maxSegmentLen).run fs' =
      (.ok engine', fs'') ∧
    engine'.writer.activeSegment = engine.writer.activeSegment ∧
    (∀ nodeId, engine.registry.isActive nodeId = true →
      (directory.run ((StorageEngine.load N nodeId).run engine') fs'').1.1 =
        (directory.run ((StorageEngine.load N nodeId).run engine) fs).1.1) ∧
    Agrees (directory.run ((StorageEngine.loadAll N).run engine') fs'').1.1
      (directory.run ((StorageEngine.loadAll N).run engine) fs).1.1

theorem Ready.journal_length (h : Ready opened engine ledger fs) : ledger.journal.length ≠ 0 := by
  have hactive : engine.writer.activeSegment + 1 = ledger.journal.length := h.state.writer.active
  omega

/-- A directory that holds the ledger of an engine loads as the engine does. -/
theorem Ready.reopensAlike (h : Ready opened engine ledger fs.syncDir)
    (hholds : ledger.Holds fs'.syncDir) (hdocuments : SameDocuments fs fs') {maxSegmentLen : ℕ}
    (hmax : maxSegmentLen ≠ 0) : ReopensAlike N maxSegmentLen engine fs fs' := by
  obtain ⟨engine', fs'', ledger', hopen, hopens⟩ := hholds.opens hmax
  obtain rfl : ledger' = ledger := by
    rcases hopens.ledger with hledger | ⟨hempty, -⟩
    · exact hledger
    · exact absurd hempty h.journal_length
  have hdocumented : Documented engine fs'.syncDir :=
    h.documented.congr ⟨hdocuments.nodes, hdocuments.checkpoints⟩ rfl rfl
  have hactive := hopens.isActive hdocumented
  have hactiveIds : engine'.registry.activeNodeIds = engine.registry.activeNodeIds := by
    refine Std.ExtTreeSet.ext_mem fun nodeId ↦ ?_
    rw [NodeRegistry.mem_activeNodeIds, NodeRegistry.mem_activeNodeIds, hactive]
  refine ⟨engine', fs'', hopen, ?_, fun nodeId hnode ↦ ?_, ?_⟩
  · have hold : engine.writer.activeSegment + 1 = ledger'.journal.length := h.state.writer.active
    have hnew : engine'.writer.activeSegment + 1 = ledger'.journal.length :=
      hopens.ready.state.writer.active
    omega
  · have hload := h.load nodeId
    have hload' := hopens.ready.load nodeId
    rw [hactive, hnode] at hload'
    rw [hnode] at hload
    exact hload'.trans (Eq.symm hload)
  · have hload' := hopens.ready.loadAll
    rw [hactiveIds] at hload'
    exact hload'.agrees h.loadAll

/-- Whichever collectable segments are missing, the directory reopens alike. -/
theorem Ready.reopensAlike_without (h : Ready opened engine ledger fs.syncDir) {missing : List ℕ}
    (hmissing : ∀ segment ∈ missing, Collectable engine fs segment) {maxSegmentLen : ℕ}
    (hmax : maxSegmentLen ≠ 0) : ReopensAlike N maxSegmentLen engine fs (fs.without missing) := by
  have halike := (alike_syncDir fs).without missing
  have hholds : ledger.Holds (fs.syncDir.without missing) := by
    cases hbarrier : engine.checkpointIndex.gcBarrier engine.registry.activeNodeIds with
    | none =>
      cases missing with
      | nil => exact h.state.holds
      | cons segment rest =>
        exact absurd (hmissing segment (by simp)).obsolete
          (not_obsolete_of_gcBarrier_eq_none segment hbarrier)
    | some barrier =>
      refine (h.removable ⟨rfl, rfl⟩ hbarrier).holds_without h.state.holds fun segment hsegment ↦ ?_
      obtain ⟨hpresent, hinactive, hobsolete⟩ := hmissing segment hsegment
      refine ⟨⟨hinactive, (obsolete_iff segment hbarrier).mpr hobsolete⟩, ?_⟩
      have hlt := h.state.holds.recoverable.present segment (Fs.mem_syncDir.mpr hpresent)
      have hactive : engine.writer.activeSegment + 1 = ledger.journal.length :=
        h.state.writer.active
      omega
  refine h.reopensAlike ?_ (.without fs missing) hmax
  rw [← show (fs.syncDir.without missing).syncDir = (fs.without missing).syncDir from halike]
  exact hholds.syncDir

/-- Garbage collection keeps the active segment and the segments that are not smaller than the
checkpoint segment of some active node, and leaves no other one. Any of the segments it removes may
be missing. -/
theorem collectGarbage_exact_and_safe {written : List (NodeId × Record N)}
    (h : Running N written engine fs) {maxSegmentLen : ℕ} (hmax : maxSegmentLen ≠ 0) :
    (∃ fs', directory.run (StorageEngine.collectGarbage.run engine) fs = ((.ok (), engine), fs') ∧
      ∀ segment, segment ∈ fs'.segments ↔ segment ∈ fs.segments ∧
        (segment = engine.writer.activeSegment ∨
          ∃ nodeId, engine.registry.isActive nodeId = true ∧
            ∀ position, engine.checkpointIndex.checkpointPosition nodeId = some position →
              position.segment ≤ segment)) ∧
    ∀ missing : List ℕ, (∀ segment ∈ missing, Collectable engine fs segment) →
      ReopensAlike N maxSegmentLen engine fs (fs.without missing) := by
  obtain ⟨opened, ledger, -, hready⟩ := h.ready
  refine ⟨?_, fun missing hmissing ↦ hready.reopensAlike_without hmissing hmax⟩
  obtain ⟨-, fs', -, halike, hout, -, -, hkept⟩ :=
    run_of_refines (refines_collectGarbage hready ⟨rfl, rfl⟩)
  refine ⟨_, Prod.ext hout rfl, fun segment ↦ ?_⟩
  rw [halike.mem_iff, hkept, Fs.mem_syncDir]
  refine and_congr_right fun _ ↦ or_congr_right ?_
  simp only [Obsolete, not_forall, exists_prop, not_exists, not_and, Nat.not_lt]

/-- An application that creates a node and saves a snapshot of it. -/
def snapshottingEvents : List (Event Noraft.ofLists) :=
  creatingEvents ++ [.call (.saveSnapshot 1 (checkpointAt ⟨5, 3⟩))]

/-- The checkpoint index has the snapshot, and the segment before it is still there. -/
def indexReplaced (fs : Fs) : Bool :=
  fs.segments.contains 0 && (CheckpointIndex.ofFile fs.checkpoints.current).toOption.any fun index ↦
    (index.checkpointPosition 1).any fun position ↦ position.segment = 1

/-- The next process has the first segment to collect. -/
def collectsFirst (fs : Fs) : Bool :=
  let opened := directory.run (performEvents (N := Noraft.ofLists) [.start 64] .closed) fs
  opened.1.engine.any fun engine ↦ engine.registry.isActive 1 && opened.2.segments.contains 0 &&
    decide (0 ≠ engine.writer.activeSegment) &&
    (engine.checkpointIndex.gcBarrier engine.registry.activeNodeIds).any
      (GcBarrier.allowsDelete · 0)

/-- An application is killed between the new checkpoint index and garbage collection. In the engine
that opens the directory next, garbage collection removes the first segment, and the directory also
opens without it. -/
theorem collectGarbage_exact_and_safe_reopened : ∃ (engine : StorageEngine) (fs : Fs),
    engine.registry.isActive 1 = true ∧ Collectable engine fs 0 ∧
    (∃ fs', directory.run (StorageEngine.collectGarbage.run engine) fs = ((.ok (), engine), fs') ∧
      0 ∉ fs'.segments) ∧
    ReopensAlike Noraft.ofLists 64 engine fs (fs.without [0]) := by
  have hkilled : ((visits Noraft.ofLists snapshottingEvents .empty).find? fun visit ↦
      indexReplaced visit.state).any (fun visit ↦ collectsFirst visit.state) = true := by
    decide +kernel
  obtain ⟨visit, hfound, hcollects⟩ := (Option.any_eq_true _ _).mp hkilled
  have hvisit := List.mem_of_find?_eq_some hfound
  obtain ⟨engine, hengine, hcollects⟩ := (Option.any_eq_true _ _).mp hcollects
  simp only [Bool.and_eq_true, decide_eq_true_eq, Option.any_eq_true] at hcollects
  obtain ⟨⟨⟨hactive, hpresent⟩, hinactive⟩, barrier, hbarrier, hallows⟩ := hcollects
  have hcollectable : Collectable engine _ 0 :=
    ⟨Std.ExtTreeMap.contains_iff_mem.mp hpresent, hinactive, (obsolete_iff 0 hbarrier).mp hallows⟩
  obtain ⟨⟨fs', hrun, hkept⟩, hsafe⟩ := collectGarbage_exact_and_safe
    (.intro (.stop .empty hvisit) hengine) (show 64 ≠ 0 by decide)
  refine ⟨engine, _, hactive, hcollectable, ⟨fs', hrun, fun hleft ↦ ?_⟩, hsafe [0] ?_⟩
  · rcases ((hkept 0).mp hleft).2 with hwriter | ⟨nodeId, hnode, hbefore⟩
    · exact hinactive hwriter
    · obtain ⟨position, hposition, hlt⟩ := hcollectable.obsolete nodeId hnode
      exact Nat.not_lt.mpr (hbefore position hposition) hlt
  · rintro segment hsegment
    rwa [List.mem_singleton.mp hsegment]

end Sukari
