import Sukari.Runs
import Sukari.Restart

/-!
# Reading with and without recovery

The functions that only read a storage directory take it as they find it: with an unfinished record
or magic at its end, and with the index and the registry of the disk. They return what an engine
returns that has opened the directory and recovered it, and they leave the directory as it is
(`readersAgree_of_reachable`).
-/

set_option autoImplicit false
set_option relaxedAutoImplicit false

namespace Sukari

open Effects

variable {N : Noraft} {fs : Fs}

/-- Two results are the same value, or both are errors. -/
def Agrees {α : Type} (first second : Except IoError α) : Prop :=
  ∀ value, first = .ok value ↔ second = .ok value

theorem LoadsNode.agrees {active : Bool} {state first second : Except IoError (NodeState N)}
    (h : LoadsNode active state first) (h' : LoadsNode active state second) :
    Agrees first second := by
  cases active with
  | true => exact fun value ↦ by rw [show first = state from h, show second = state from h']
  | false =>
    intro value
    constructor
    · rintro rfl
      exact absurd trivial h
    · rintro rfl
      exact absurd trivial h'

theorem LoadsAll.agrees {nodeIds : NodeIdSet} {states : NodeId → Except IoError (NodeState N)}
    {first second : Except IoError (ReplayState N)} (h : LoadsAll nodeIds states first)
    (h' : LoadsAll nodeIds states second) : Agrees first second := by
  have himplies : ∀ {first second : Except IoError (ReplayState N)},
      LoadsAll nodeIds states first → LoadsAll nodeIds states second →
      ∀ value, first = .ok value → second = .ok value := by
    rintro _ second hfirst hsecond nodes rfl
    cases second with
    | error error =>
      obtain ⟨nodeId, hnode, hfails⟩ := hsecond
      obtain ⟨state, hstate, -⟩ := hfirst.1 nodeId hnode
      exact absurd (hstate ▸ trivial) hfails
    | ok nodes' =>
      refine congrArg Except.ok (Std.ExtTreeMap.ext_getElem? fun nodeId ↦ ?_)
      by_cases hnode : nodeId ∈ nodeIds
      · obtain ⟨state, hstate, hvalue⟩ := hfirst.1 nodeId hnode
        obtain ⟨state', hstate', hvalue'⟩ := hsecond.1 nodeId hnode
        rw [hvalue, hvalue', Except.ok.inj (hstate.symm.trans hstate')]
      · rw [hfirst.2 nodeId hnode, hsecond.2 nodeId hnode]
  exact fun value ↦ ⟨himplies h h' value, himplies h' h value⟩

/-- The functions that only read change nothing and return what an engine returns that has opened
the directory. -/
structure ReadersAgree (N : Noraft) (maxSegmentLen : ℕ) (fs : Fs) : Prop where
  unchanged : ∀ nodeId, (directory.run (load N nodeId).run fs).2 = fs
  unchangedAll : (directory.run (loadAll N).run fs).2 = fs
  recovered : ∃ engine fs',
    directory.run (StorageEngine.withMaxSegmentLen N maxSegmentLen).run fs = (.ok engine, fs') ∧
    (∀ nodeId, Agrees (directory.run (load N nodeId).run fs).1
      (directory.run ((StorageEngine.load N nodeId).run engine) fs').1.1) ∧
    Agrees (directory.run (loadAll N).run fs).1
      (directory.run ((StorageEngine.loadAll N).run engine) fs').1.1

/-- What a program that only asks sees in a directory whose names are all durable, it sees in the
directory itself. -/
theorem run_of_sees_syncDir {α : Type} {Q : α → ℕ → Prop} {p : Program fileSystem α} {t : ℕ}
    (h : directory.Sees (fun _ ↦ fs.syncDir) Q p t) :
    (directory.run p fs).2 = fs ∧ ∃ t', Q (directory.run p fs).1 t' :=
  (bisimulation_alike.sees (fun _ ↦ alike_syncDir fs) h).run

/-- In every directory that an application leaves, wherever it stops, reading agrees with
recovery. -/
theorem readersAgree_of_reachable {written : List (NodeId × Record N)}
    (h : Reachable N written fs) {maxSegmentLen : ℕ} (hmax : maxSegmentLen ≠ 0) :
    ReadersAgree N maxSegmentLen fs := by
  obtain ⟨ledger, -, hholds⟩ := h.holds
  obtain ⟨registry, hregistry⟩ := hholds.recoverable.registries _ (.inl rfl)
  obtain ⟨engine, fs', ledger', hopen, hopens⟩ := hholds.opens hmax
  have hload (nodeId : NodeId) :=
    run_of_sees_syncDir (load_recovered (t := 0) hholds.recoverable hregistry nodeId)
  have hloadAll := run_of_sees_syncDir (loadAll_recovered (t := 0) hholds.recoverable hregistry)
  have hactive := hopens.isActive_eq hregistry
  have hactiveIds : engine.registry.activeNodeIds = registry.activeNodeIds := by
    refine Std.ExtTreeSet.ext_mem fun nodeId ↦ ?_
    rw [NodeRegistry.mem_activeNodeIds, NodeRegistry.mem_activeNodeIds, hactive]
  refine ⟨fun nodeId ↦ (hload nodeId).1, hloadAll.1, engine, fs', hopen, fun nodeId ↦ ?_, ?_⟩
  · obtain ⟨-, hresult⟩ := (hload nodeId).2
    have hengine := hopens.ready.load nodeId
    rw [hactive, hopens.written] at hengine
    exact hresult.agrees hengine
  · obtain ⟨-, hresult⟩ := hloadAll.2
    have hengine := hopens.ready.loadAll
    rw [hactiveIds, hopens.written] at hengine
    exact hresult.agrees hengine

/-- An application that creates a node and votes twice. -/
def revotingEvents : List (Event Noraft.ofLists) :=
  creatingEvents ++ [.call (.saveVotedFor 1 (some 2)), .call (.saveVotedFor 1 (some 3))]

/-- The application stopped in the middle of the second vote: the first one is read. -/
theorem readersAgree_of_reachable_torn : ∃ visit ∈ visits Noraft.ofLists revotingEvents .empty,
    visit.state.fileLen 1 = 35 ∧
    (directory.run (load Noraft.ofLists 1).run visit.state).1.toOption.map NodeState.votedFor =
      some (some 2) ∧
    ReadersAgree Noraft.ofLists 64 visit.state := by
  have hvisit := (List.any_eq_true).mp (by decide +kernel :
    (visits Noraft.ofLists revotingEvents .empty).any (fun visit ↦
      decide (visit.state.fileLen 1 = 35 ∧
        (directory.run (load Noraft.ofLists 1).run visit.state).1.toOption.map
          NodeState.votedFor = some (some 2))) = true)
  obtain ⟨visit, hvisit, htorn⟩ := hvisit
  obtain ⟨hlength, hvote⟩ := of_decide_eq_true htorn
  exact ⟨visit, hvisit, hlength, hvote, readersAgree_of_reachable (.stop .empty hvisit) (by decide)⟩

end Sukari
