import Sukari.Runs

/-!
# Crash atomicity

A power loss at any request of an application that started with everything durable leaves a
directory that opens. There is one cut in the order in which all records were written, and every
node that is active in the surviving registry loads as its plain history before the cut
(`load_after_powerLoss`). The cut is not before the last sync of a segment.
-/

set_option autoImplicit false
set_option relaxedAutoImplicit false

namespace Sukari

open Effects

variable {N : Noraft} {ledger ledger' : Ledger N} {fs fs' : Fs}

/-- Every name and every byte in the directory is durable. -/
structure FullyDurable (fs : Fs) : Prop where
  names : fs.syncDir = fs
  bytes : ∀ (segment : ℕ) (file : SegmentFile), fs.segments[segment]? = some file →
    file.synced = file.bytes.length

/-- In a directory with nothing to lose all records count as synced. -/
theorem Ledger.Holds.sync_of_fullyDurable (h : ledger.Holds fs) (hdurable : FullyDurable fs) :
    ledger.sync.Holds fs where
  recoverable := h.recoverable
  synced_le := le_rfl
  durable _ hentry := h.recoverable.toStored.durable
    (fun segment file _ hfile ↦ hdurable.bytes segment file hfile) (List.mem_of_mem_take hentry)

/-- A power loss does not take the records that were synced. -/
theorem Ledger.Holds.synced_le_of_keeps (h : ledger.Holds fs)
    (hkeeps : Keeps ledger.journal fs ledger'.journal fs')
    (hextends : ledger'.journal.Extends ledger.journal) :
    ledger.synced ≤ ledger'.journal.entries.length := by
  by_contra hlost
  have hle := h.synced_le
  have hlt : ledger'.journal.entries.length < ledger.journal.entries.length := by omega
  have hmem : ledger.journal.entries[ledger'.journal.entries.length] ∈
      ledger.journal.entries.take ledger.synced :=
    List.mem_take_iff_getElem.mpr ⟨_, by omega, rfl⟩
  have hkept := (hkeeps.durable _ (List.mem_of_mem_take hmem) (h.durable _ hmem)).1
  obtain ⟨index, hindex, heq⟩ := List.mem_iff_getElem.mp hkept
  have hdistinct : ledger.journal.entries.Nodup :=
    ledger.journal.pairwise_entries.imp fun hpositions hsame ↦ (hsame ▸ hpositions).false
  rw [hextends.entries.getElem hindex] at heq
  have hsame := (hdistinct.getElem_inj_iff).mp heq
  omega

/-- A sync in the past covers the records that were written before it. -/
theorem synced_of_mem_past {before after : List (Exchange fileSystem)} {segment : ℕ}
    (h : (storage N).Steps (before ++ ⟨.syncData segment, ()⟩ :: after) ledger ledger') :
    ledger.journal.entries.length + (recordsWritten N before).length ≤ ledger'.synced := by
  obtain ⟨middle, hbefore, hrest⟩ := h.split
  cases hrest with
  | cons first hafter =>
    obtain rfl : _ = middle.sync := first
    have hwritten := (steps_written hbefore).1
    have hlength := congrArg List.length hwritten
    rw [List.length_append, Journal.length_written, Journal.length_written] at hlength
    rw [← hlength]
    exact steps_synced hafter le_rfl le_rfl

variable (N) in
/-- The directory opens, and there is one cut through everything that was written, not before the
start of the application and not before its last sync of a segment, so that every active node loads
as its plain history before the cut. -/
def LoadsBeforeCut (written : List (NodeId × Record N)) (past : List (Exchange fileSystem))
    (maxSegmentLen : ℕ) (fs : Fs) : Prop :=
  ∃ registry engine fs' cut, NodeRegistry.ofFile fs.nodes.current = .ok registry ∧
    directory.run (StorageEngine.withMaxSegmentLen N maxSegmentLen).run fs = (.ok engine, fs') ∧
    written.length ≤ cut ∧ cut ≤ (written ++ recordsWritten N past).length ∧
    (∀ before segment after, past = before ++ ⟨.syncData segment, ()⟩ :: after →
      (written ++ recordsWritten N before).length ≤ cut) ∧
    ∀ nodeId, registry.isActive nodeId = true → PlainHistory
      (recordsOf nodeId ((written ++ recordsWritten N past).take cut))
      (directory.run ((StorageEngine.load N nodeId).run engine) fs').1.1

/-- A power loss at any request leaves a directory that opens, with one cut for all nodes. -/
theorem load_after_powerLoss {written : List (NodeId × Record N)} {events : List (Event N)}
    {visit : Visit fileSystem Fs} {maxSegmentLen : ℕ} (h : Reachable N written fs)
    (hdurable : FullyDurable fs) (hvisit : visit ∈ visits N events fs)
    (hsurvivor : Survivor visit.state fs') (hmax : maxSegmentLen ≠ 0) :
    LoadsBeforeCut N written visit.past maxSegmentLen fs' := by
  obtain ⟨ledger, rfl, hholds⟩ := h.holds
  rw [hdurable.names] at hholds
  obtain ⟨ledger', hsteps, hholds'⟩ :=
    (hholds.sync_of_fullyDurable hdurable).visit hdurable.names hvisit
  have hwritten : ledger'.journal.written =
      ledger.journal.written ++ recordsWritten N visit.past := (steps_written hsteps).1
  obtain ⟨survived, hsurvived, hkeeps, hextends, hcut⟩ := hholds'.survivor hsurvivor
  have hlinked : ActiveLinked survived.journal fs' :=
    fun _ _ _ hfile ↦ (hsurvivor.synced hfile).2
  obtain ⟨opened, -, hopened⟩ := (refines_withMaxSegmentLen hsurvived hlinked maxSegmentLen).run
  rcases hopened with ⟨hzero, -⟩ | ⟨-, engine, hengine, hopens⟩
  · exact absurd hzero hmax
  obtain ⟨registry, hregistry, hsame⟩ := hopens.ready.documented.registry
  have hsynced := hholds'.synced_le_of_keeps hkeeps hextends
  have hprefix : Journal.written survived.journal =
      (ledger.journal.written ++ recordsWritten N visit.past).take
        survived.journal.entries.length := by
    rw [← hwritten, ← Journal.length_written survived.journal, hcut]
    simp
  refine ⟨registry, engine, _, survived.journal.entries.length, ?_, Prod.ext hengine rfl, ?_, ?_,
    fun before segment after hpast ↦ ?_, fun nodeId hactive ↦ ?_⟩
  · rw [← hopens.documents.nodes, hregistry]
  · rw [Journal.length_written]
    exact (steps_synced hsteps le_rfl le_rfl).trans hsynced
  · rw [← hwritten, Journal.length_written]
    exact hextends.entries.length_le
  · rw [hpast] at hsteps
    rw [List.length_append, Journal.length_written]
    exact (synced_of_mem_past hsteps).trans hsynced
  · obtain ⟨-, -, hload, -⟩ := (refines_load hopens.ready nodeId).run
    rw [hsame] at hactive
    rw [hactive, LoadsNode, if_pos rfl] at hload
    have hhistory := hopens.ready.plainHistory hactive
    rwa [← hload, hopens.written, hprefix] at hhistory

theorem fullyDurable_empty : FullyDurable .empty :=
  ⟨Fs.syncDir_empty, fun segment file hfile ↦ by simp [Fs.empty] at hfile⟩

/-- An application that creates a node and lets it vote, without a sync after the vote. -/
def unsyncedEvents : List (Event Noraft.ofLists) :=
  [.start 64, .call (.createNode 1 ⟨true, ⟨"null"⟩⟩), .call (.saveVotedFor 1 (some 2))]

def unsyncedVisit : Visit fileSystem Fs :=
  (visits Noraft.ofLists unsyncedEvents .empty).getLast (List.cons_ne_nil _ _)

theorem load_after_powerLoss_unsynced :
    LoadsBeforeCut Noraft.ofLists [] unsyncedVisit.past 64 unsyncedVisit.state.durablePart := by
  have hvisit : unsyncedVisit ∈ visits Noraft.ofLists unsyncedEvents .empty := List.getLast_mem _
  obtain ⟨ledger, -, hholds⟩ := Ledger.holds_empty.visit Fs.syncDir_empty hvisit
  exact load_after_powerLoss .empty fullyDurable_empty hvisit
    (survivor_durablePart fun _ _ hfile ↦ hholds.recoverable.toStored.synced_le hfile) (by decide)

end Sukari
