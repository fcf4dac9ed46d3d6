import Sukari.Runs

/-!
# Loads follow the plain history

Whatever an application has done with a directory since it was empty, a node that is active loads as
its plain history says: from its last accepted checkpoint, with its later accepted records applied
in order (`load_plainHistory`). Other nodes, rotation, garbage collection and reopening do not show.
-/

set_option autoImplicit false
set_option relaxedAutoImplicit false

namespace Sukari

open Effects

variable {N : Noraft}

/-- A load gives the plain history of the accepted records of the node. -/
theorem load_plainHistory (events : List (Event N)) {session : Session N} {fs : Fs}
    {engine : StorageEngine}
    (hrun : directory.run (performEvents events .closed) .empty = (session, fs))
    (hengine : session.engine = some engine) {nodeId : NodeId}
    (hactive : engine.registry.isActive nodeId = true) :
    let result := (directory.run ((StorageEngine.load N nodeId).run engine) fs).1.1
    PlainHistory (recordsOf nodeId session.accepted) result ∧
      ∀ state, (recordsOf nodeId session.accepted).foldlM applyRecordToState (.default N) =
        .ok state → result = .ok state := by
  obtain ⟨ledger, -, hserved, added, haccepted, hwritten⟩ :=
    (refines_performEvents (Ledger.holds_empty.served Fs.syncDir_empty) events).run
  simp only [hrun] at hserved haccepted
  have hrecords : ledger.journal.written = session.accepted := by
    rw [hwritten, haccepted]
    rfl
  obtain ⟨opened, hready⟩ := hserved.ready engine hengine
  obtain ⟨ledger', -, hload, -, rfl, -⟩ := (refines_load hready nodeId).run
  rw [hactive, LoadsNode, if_pos rfl] at hload
  have hhistory := hready.plainHistory hactive
  rw [← hload, hrecords] at hhistory
  refine ⟨hhistory, fun state hstate ↦ ?_⟩
  obtain ⟨before, checkpoint, later, hsplit, -⟩ := hhistory
  rw [hload, hrecords]
  exact recoveredState_of_foldlM ⟨.snapshotCheckpoint checkpoint, by simp [hsplit], rfl⟩ hstate

/-- A node that was created and has voted, in an application that reopens the directory. -/
def votingEvents : List (Event Noraft.ofLists) :=
  [.start 64, .call (.createNode 1 ⟨true, ⟨"null"⟩⟩), .call (.saveCurrentTerm 1 7),
    .start 1, .call (.saveVotedFor 1 (some 2)), .call .sync]

theorem load_plainHistory_voting : ∃ session fs engine,
    directory.run (performEvents votingEvents .closed) .empty = (session, fs) ∧
      session.engine = some engine ∧ engine.registry.isActive 1 = true ∧
      let result := (directory.run ((StorageEngine.load Noraft.ofLists 1).run engine) fs).1.1
      PlainHistory (recordsOf 1 session.accepted) result ∧
        ∀ state, (recordsOf 1 session.accepted).foldlM applyRecordToState
          (.default Noraft.ofLists) = .ok state → result = .ok state := by
  obtain ⟨engine, hengine, hactive⟩ := (Option.any_eq_true _ _).mp (by decide +kernel :
    ((directory.run (performEvents votingEvents .closed) .empty).1.engine.any
      fun engine ↦ engine.registry.isActive 1) = true)
  exact ⟨_, _, engine, Prod.mk.eta.symm, hengine, hactive,
    load_plainHistory votingEvents Prod.mk.eta.symm hengine hactive⟩

end Sukari
