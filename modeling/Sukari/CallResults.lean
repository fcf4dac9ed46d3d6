import Sukari.Buffering
import Sukari.Outcomes

/-!
# The results of calls

A call that a store refuses fails with the error of the store and changes nothing
(`failsWith_of_check`). A call that is not refused fails only if there is no room for its record,
and then nothing is recorded (`Ready.call_full`). A call that syncs leaves nothing to sync
(`ClearsPending.call`).
-/

set_option autoImplicit false
set_option relaxedAutoImplicit false

namespace Sukari

open Effects

variable {N : Noraft} {opened ledger : Ledger N} {fs fs' : Fs} {engine engine' : StorageEngine}
  {store : NodeStore N} {command : Command N} {error : IoError}

/-! ### Refused calls -/

/-- The action fails with the error and changes nothing. -/
def FailsWith {α : Type} (error : IoError) (action : EngineM α) (engine : StorageEngine) (fs : Fs) :
    Prop :=
  directory.run (action.run engine) fs = ((.error error, engine), fs)

theorem FailsWith.bind {α β : Type} {action : EngineM α} (h : FailsWith error action engine fs)
    (next : α → EngineM β) : FailsWith error (action >>= next) engine fs :=
  Machine.run_bindMethod_error h

theorem Passes.failsWith_bind {α β : Type} {action : EngineM α} {value : α}
    (h : Passes action engine fs value) {next : α → EngineM β}
    (hnext : FailsWith error (next value) engine fs) :
    FailsWith error (action >>= next) engine fs :=
  (Machine.run_bindMethod_ok h).trans hnext

theorem failsWith_liftM {α : Type} {result : Except IoError α} (h : result = .error error) :
    FailsWith error (liftM result : EngineM α) engine fs := by
  rw [h]
  rfl

theorem ensureNodeExists_eq (registry : NodeRegistry) (nodeId : NodeId) :
    ensureNodeExists registry nodeId = (registry.status nodeId).ensureExists := by
  rw [ensureNodeExists, NodeRegistry.isActive, NodeRegistry.isRemoved, NodeRegistry.status]
  cases registry.nodes[nodeId]? with
  | none => rfl
  | some entry =>
    cases hremoved : entry.removed <;> simp [NodeRegistryEntry.status, hremoved] <;> rfl

theorem failsWith_ensureNodeExists {nodeId : NodeId}
    (h : (engine.registry.status nodeId).ensureExists = .error error) :
    FailsWith error (StorageEngine.ensureNodeExists nodeId) engine fs :=
  passes_get.failsWith_bind (failsWith_liftM ((ensureNodeExists_eq _ _).trans h))

theorem isActive_of_ensureExists {nodeId : NodeId}
    (h : (engine.registry.status nodeId).ensureExists = .ok ()) :
    engine.registry.isActive nodeId = true := by
  rw [← NodeRegistry.status_eq_active_iff]
  cases hstatus : engine.registry.status nodeId with
  | active => rfl
  | creatable | removed =>
    rw [hstatus] at h
    cases h

/-- The frame is encoded before anything else. -/
theorem failsWith_append {nodeId : NodeId} {record : Record N}
    (h : encodeRecordFrame nodeId record = .error error) :
    FailsWith error (StorageEngine.onWriter (SegmentWriter.append nodeId record)) engine fs := by
  have happend : directory.run
      (SegmentWriter.append nodeId record ⟨engine.writer, engine.metrics⟩) fs =
        ((.error error, ⟨engine.writer, engine.metrics⟩), fs) := by
    refine Machine.run_bindMethod_error ?_
    rw [h]
    rfl
  refine (Machine.run_bind directory _ _ fs).trans ?_
  rw [happend]
  rfl

theorem failsWith_saveRecord {nodeId : NodeId} {record : Record N}
    (h : (do
      (engine.registry.status nodeId).ensureExists
      let _ ← encodeRecordFrame nodeId record : Except IoError Unit) = .error error) :
    FailsWith error (StorageEngine.saveRecord nodeId record) engine fs := by
  cases hexists : (engine.registry.status nodeId).ensureExists with
  | error other =>
    rw [hexists] at h
    obtain rfl := Except.error.inj h
    exact (failsWith_ensureNodeExists hexists).bind _
  | ok value =>
    rw [hexists] at h
    refine (passes_ensureNodeExists (isActive_of_ensureExists hexists)).failsWith_bind ?_
    cases hencode : encodeRecordFrame nodeId record with
    | error other =>
      rw [hencode] at h
      obtain rfl := Except.error.inj h
      exact (failsWith_append hencode).bind _
    | ok frame =>
      rw [hencode] at h
      cases h

/-- A call that the store refuses fails with the same error. -/
theorem failsWith_of_check (hstatus : engine.registry.status = store.status)
    (h : store.check command = .error error) :
    FailsWith error (StorageEngine.call command) engine fs := by
  have hnode {nodeId : NodeId} (h : (store.status nodeId).ensureExists = .error error) :
      FailsWith error (StorageEngine.ensureNodeExists nodeId) engine fs :=
    failsWith_ensureNodeExists (by rw [hstatus]; exact h)
  have hsave {nodeId : NodeId} (record : Record N)
      (h : (store.status nodeId).ensureExists = .error error) :
      FailsWith error (StorageEngine.saveRecord nodeId record) engine fs := (hnode h).bind _
  cases command with
  | createNode nodeId metadata =>
    refine passes_get.failsWith_bind ((failsWith_liftM ?_).bind _)
    have hused : engine.registry.nodes.contains nodeId = true := by
      by_contra hnew
      have hcreatable := NodeRegistry.status_eq_creatable_iff.mpr (Bool.of_not_eq_true hnew)
      rw [NodeStore.check, ← hstatus, hcreatable] at h
      cases h
    have herror : nodeAlreadyExistsError = error := by
      rw [NodeStore.check] at h
      cases hold : store.status nodeId with
      | creatable =>
        rw [hold] at h
        cases h
      | active | removed =>
        rw [hold] at h
        exact Except.error.inj h
    rw [NodeRegistry.createNode, if_pos hused, herror]
    rfl
  | removeNode nodeId => exact (hnode h).bind _
  | saveCurrentTerm nodeId term => exact hsave _ h
  | saveVotedFor nodeId votedFor => exact hsave _ h
  | appendEntries nodeId append =>
    rw [NodeStore.check, ← hstatus] at h
    exact failsWith_saveRecord h
  | saveSnapshot nodeId checkpoint =>
    rw [NodeStore.check, ← hstatus] at h
    cases hexists : (engine.registry.status nodeId).ensureExists with
    | error other =>
      rw [hexists] at h
      obtain rfl := Except.error.inj h
      exact (failsWith_ensureNodeExists hexists).bind _
    | ok value =>
      refine (passes_ensureNodeExists (isActive_of_ensureExists hexists)).failsWith_bind ?_
      cases hvalid : (checkpoint.validate : Except IoError Unit) with
      | error other =>
        rw [hexists, hvalid] at h
        obtain rfl := Except.error.inj h
        exact (failsWith_liftM rfl).bind _
      | ok value =>
        refine (passes_liftM rfl).failsWith_bind ((failsWith_append ?_).bind _)
        cases hencode : encodeRecordFrame nodeId (.snapshotCheckpoint checkpoint) with
        | error other =>
          rw [hexists, hvalid, hencode] at h
          exact congrArg Except.error (Except.error.inj h)
        | ok frame =>
          rw [hexists, hvalid, hencode] at h
          cases h
  | load nodeId => exact ((hnode h).bind _).bind _
  | sync | loadAll => cases h

theorem failsWith_answer (hstatus : engine.registry.status = store.status)
    (h : store.check command = .error error) :
    FailsWith error (StorageEngine.answer command) engine fs := by
  have hcall : FailsWith error (StorageEngine.call command) engine fs :=
    failsWith_of_check hstatus h
  cases command with
  | load nodeId =>
    have hnode : FailsWith error (StorageEngine.ensureNodeExists nodeId) engine fs :=
      failsWith_ensureNodeExists (by rw [hstatus]; exact h)
    exact (hnode.bind _).bind _
  | loadAll => cases h
  | createNode | removeNode | saveCurrentTerm | saveVotedFor | appendEntries
  | saveSnapshot | sync =>
    exact hcall.bind _

/-- A call that the store does not refuse. -/
theorem not_refused_of_check (hstatus : engine.registry.status = store.status)
    (h : store.check command = .ok ()) : ¬ Refused engine command := by
  have hactive {nodeId : NodeId} (h : (store.status nodeId).ensureExists = .ok ()) :
      ¬ engine.registry.isActive nodeId = false := by
    rw [Bool.not_eq_false]
    exact isActive_of_ensureExists (by rw [hstatus]; exact h)
  cases command with
  | createNode nodeId metadata =>
    have hcreatable : engine.registry.status nodeId = .creatable := by
      rw [NodeStore.check, ← hstatus] at h
      cases hold : engine.registry.status nodeId with
      | creatable => rfl
      | active | removed =>
        rw [hold] at h
        cases h
    rw [Refused, NodeRegistry.status_eq_creatable_iff.mp hcreatable]
    exact Bool.false_ne_true
  | removeNode | saveCurrentTerm | saveVotedFor | load => exact hactive h
  | appendEntries nodeId append =>
    rw [NodeStore.check, bind_eq_ok_iff] at h
    obtain ⟨value, hexists, hencode⟩ := h
    rw [bind_eq_ok_iff] at hencode
    obtain ⟨frame, hframe, -⟩ := hencode
    rintro (hinactive | hfails)
    · exact hactive hexists hinactive
    · exact hfails (succeeds_iff.mpr ⟨frame, hframe⟩)
  | saveSnapshot nodeId checkpoint =>
    rw [NodeStore.check, bind_eq_ok_iff] at h
    obtain ⟨value, hexists, hrest⟩ := h
    rw [bind_eq_ok_iff] at hrest
    obtain ⟨value', hvalid, hencode⟩ := hrest
    rw [bind_eq_ok_iff] at hencode
    obtain ⟨frame, hframe, -⟩ := hencode
    rintro (hinactive | hfails | hfails)
    · exact hactive hexists hinactive
    · exact hfails (succeeds_iff.mpr ⟨value', hvalid⟩)
    · exact hfails (succeeds_iff.mpr ⟨frame, hframe⟩)
  | sync | loadAll => exact not_false

/-! ### Calls without room for their record -/

/-- The records of a call that is not refused fit the format. -/
theorem encodes_of_not_refused (h : ¬ Refused engine command) {nodeId : NodeId} {record : Record N}
    (hrecords : command.records = [(nodeId, record)]) :
    Succeeds (encodeRecordFrame nodeId record) := by
  cases command with
  | createNode =>
    obtain ⟨rfl, rfl⟩ := Prod.mk.inj (List.singleton_inj.mp hrecords)
    exact succeeds_encode_initialCheckpoint _
  | saveCurrentTerm =>
    obtain ⟨rfl, rfl⟩ := Prod.mk.inj (List.singleton_inj.mp hrecords)
    exact succeeds_encode_currentTerm _ _
  | saveVotedFor =>
    obtain ⟨rfl, rfl⟩ := Prod.mk.inj (List.singleton_inj.mp hrecords)
    exact succeeds_encode_votedFor _ _
  | appendEntries =>
    obtain ⟨rfl, rfl⟩ := Prod.mk.inj (List.singleton_inj.mp hrecords)
    exact not_not.mp (not_or.mp h).2
  | saveSnapshot =>
    obtain ⟨rfl, rfl⟩ := Prod.mk.inj (List.singleton_inj.mp hrecords)
    exact not_not.mp (not_or.mp (not_or.mp h).2).2
  | removeNode | sync | load | loadAll => cases hrecords

/-- Nothing is done after an append that fails. -/
theorem run_call_of_append_error (h : ¬ Refused engine command) {nodeId : NodeId}
    {record : Record N}
    (hrecords : command.records = [(nodeId, record)])
    (happend :
      directory.run ((StorageEngine.onWriter (SegmentWriter.append nodeId record)).run engine)
      fs = ((.error error, engine'), fs')) :
    directory.run ((StorageEngine.call command).run engine) fs =
      ((.error error, engine'), fs') := by
  have hsave (hactive : ¬ engine.registry.isActive nodeId = false) :
      directory.run ((StorageEngine.saveRecord nodeId record).run engine) fs =
        ((.error error, engine'), fs') :=
    (Machine.run_bindMethod_ok (passes_ensureNodeExists (Bool.of_not_eq_false hactive))).trans
      (Machine.run_bindMethod_error happend)
  cases command with
  | createNode created metadata =>
    obtain ⟨rfl, rfl⟩ := Prod.mk.inj (List.singleton_inj.mp hrecords)
    obtain ⟨registry, hregistry⟩ : ∃ registry,
        engine.registry.createNode created metadata = .ok registry := ⟨_, if_neg h⟩
    exact (Machine.run_bindMethod_ok passes_get).trans ((Machine.run_bindMethod_ok
      (passes_liftM hregistry)).trans (Machine.run_bindMethod_error happend))
  | saveCurrentTerm | saveVotedFor =>
    obtain ⟨rfl, rfl⟩ := Prod.mk.inj (List.singleton_inj.mp hrecords)
    exact hsave h
  | appendEntries =>
    obtain ⟨rfl, rfl⟩ := Prod.mk.inj (List.singleton_inj.mp hrecords)
    exact hsave (not_or.mp h).1
  | saveSnapshot saved checkpoint =>
    obtain ⟨rfl, rfl⟩ := Prod.mk.inj (List.singleton_inj.mp hrecords)
    obtain ⟨hactive, hrest⟩ := not_or.mp h
    obtain ⟨value, hvalid⟩ := succeeds_iff.mp (not_not.mp (not_or.mp hrest).1)
    exact (Machine.run_bindMethod_ok (passes_ensureNodeExists
      (Bool.of_not_eq_false hactive))).trans ((Machine.run_bindMethod_ok
        (passes_liftM hvalid)).trans (Machine.run_bindMethod_error happend))
  | removeNode | sync | load | loadAll => cases hrecords

theorem Command.records_cases (command : Command N) :
    command.records = [] ∨ ∃ nodeId record, command.records = [(nodeId, record)] := by
  cases command <;> simp [records]

theorem Command.possible_of_room {nodeId : NodeId} {record : Record N}
    {written : List (NodeId × Record N)} (hrecords : command.records = [(nodeId, record)])
    (hroom : engine.HasRoomFor nodeId record) : command.Possible engine written := by
  cases command with
  | createNode | saveCurrentTerm | saveVotedFor | appendEntries | saveSnapshot =>
    obtain ⟨rfl, rfl⟩ := Prod.mk.inj (List.singleton_inj.mp hrecords)
    exact hroom
  | removeNode | sync | load | loadAll => cases hrecords

theorem Ready.append_keeps_registry (h : Ready opened engine ledger fs) (nodeId : NodeId)
    (record : Record N) : (directory.run
      ((StorageEngine.onWriter (SegmentWriter.append nodeId record)).run engine) fs).1.2.registry =
        engine.registry := by
  obtain ⟨-, -, -, hregistry, -⟩ := (refines_onWriterAppend h nodeId record).run
  exact hregistry

/-- A call that is not refused fails only if there is no room for its record. It has recorded
nothing then, and the registry is the old one. -/
theorem Ready.call_full (h : Ready opened engine ledger fs) (hrefused : ¬ Refused engine command)
    (hload : ∀ nodeId, command ≠ .load nodeId) (hloadAll : command ≠ .loadAll)
    (hrun : directory.run ((StorageEngine.call command).run engine) fs =
      ((.error error, engine'), fs')) :
    command.records ≠ [] ∧ (error = invalidData "segment ID overflow" ∨ error = fileTooLarge) ∧
      engine'.registry = engine.registry := by
  have hfails : ¬ Succeeds (directory.run ((StorageEngine.call command).run engine) fs).1.1 := by
    rw [hrun]
    exact not_false
  rcases command.records_cases with hnone | ⟨nodeId, record, hrecords⟩
  · refine absurd ((h.succeeds_call_iff command).mpr ⟨hrefused, ?_⟩) hfails
    cases command with
    | removeNode | sync => exact trivial
    | load nodeId => exact absurd rfl (hload nodeId)
    | loadAll => exact absurd rfl hloadAll
    | createNode | saveCurrentTerm | saveVotedFor | appendEntries | saveSnapshot => cases hnone
  · refine ⟨by rw [hrecords]; exact List.cons_ne_nil _ _, ?_⟩
    obtain ⟨bytes, hbytes⟩ := succeeds_iff.mp (encodes_of_not_refused hrefused hrecords)
    have hresult := h.result_append nodeId record
    have hregistry := h.append_keeps_registry nodeId record
    rw [hbytes] at hresult
    rcases happend : directory.run
      ((StorageEngine.onWriter (SegmentWriter.append nodeId record)).run engine) fs
        with ⟨⟨result, engine₁⟩, fs₁⟩
    rw [happend] at hresult hregistry
    cases result with
    | ok position =>
      refine absurd ((h.succeeds_call_iff command).mpr ⟨hrefused, ?_⟩) hfails
      refine Command.possible_of_room hrecords fun bytes' hbytes' ↦ ?_
      rw [hbytes, Except.ok.injEq] at hbytes'
      subst hbytes'
      exact succeeds_iff.mpr ⟨position, hresult.symm⟩
    | error other =>
      rw [run_call_of_append_error hrefused hrecords happend] at hrun
      obtain ⟨⟨rfl, rfl⟩, rfl⟩ : (other = error ∧ engine₁ = engine') ∧ fs₁ = fs' := by
        simpa using hrun
      exact ⟨SegmentWriter.place_error hresult.symm, hregistry⟩

/-! ### Calls that sync -/

/-- When the action succeeds, there is nothing left to sync. -/
def ClearsPending {α : Type} (action : EngineM α) : Prop :=
  ∀ engine, Program.Returns (fun out ↦ Succeeds out.1 → ¬ out.2.metrics.Pending) (action.run engine)

/-- The action brings nothing to sync. -/
def AddsNoPending {α : Type} (action : EngineM α) : Prop :=
  ∀ engine, ¬ engine.metrics.Pending →
    Program.Returns (fun out ↦ ¬ out.2.metrics.Pending) (action.run engine)

namespace AddsNoPending

variable {α β : Type}

theorem bind {action : EngineM α} {next : α → EngineM β} (h : AddsNoPending action)
    (hnext : ∀ value, AddsNoPending (next value)) : AddsNoPending (action >>= next) := by
  intro engine hsettled
  rw [run_bindMethod]
  refine (h engine hsettled).bind fun out hout ↦ ?_
  obtain ⟨result, engine'⟩ := out
  cases result with
  | ok value => exact hnext value engine' hout
  | error error => exact hout

theorem get : AddsNoPending (get : EngineM StorageEngine) := fun _ h ↦ h

theorem pure (value : α) : AddsNoPending (pure value : EngineM α) := fun _ h ↦ h

theorem modify {f : StorageEngine → StorageEngine}
    (h : ∀ engine, (f engine).metrics = engine.metrics) :
    AddsNoPending (modify f : EngineM PUnit) := by
  intro engine hsettled
  have hmetrics := h engine
  exact show ¬ (f engine).metrics.Pending from hmetrics ▸ hsettled

theorem liftIo (action : IoM α) : AddsNoPending (liftIo action : EngineM α) :=
  fun _ h ↦ (Program.Returns.any action.run).bind fun _ _ ↦ h

theorem onlyIf {condition : Prop} [Decidable condition] {action : EngineM Unit}
    (h : AddsNoPending action) : AddsNoPending (onlyIf condition action) := by
  unfold Sukari.onlyIf
  split
  · exact h
  · exact pure ()

theorem collectGarbage : AddsNoPending StorageEngine.collectGarbage := by
  refine get.bind fun engine ↦ ?_
  split
  · exact pure ()
  · exact (liftIo _).bind fun _ ↦ (liftIo _).bind fun _ ↦ onlyIf (liftIo _)

end AddsNoPending

namespace ClearsPending

variable {α β : Type} {action : EngineM α} {next : α → EngineM β}

theorem bind (h : ClearsPending action) (hnext : ∀ value, AddsNoPending (next value)) :
    ClearsPending (action >>= next) := by
  intro engine
  rw [run_bindMethod]
  refine (h engine).bind fun out hout ↦ ?_
  obtain ⟨result, engine'⟩ := out
  cases result with
  | ok value => exact Program.Returns.mono (hnext value engine' (hout trivial)) fun _ h _ ↦ h
  | error error => exact fun hsucceeds ↦ hsucceeds.elim

/-- What comes before does not matter. -/
theorem after (h : ∀ value, ClearsPending (next value)) : ClearsPending (action >>= next) := by
  intro engine
  rw [run_bindMethod]
  refine (Program.Returns.any _).bind fun out _ ↦ ?_
  obtain ⟨result, engine'⟩ := out
  cases result with
  | ok value => exact h value engine'
  | error error => exact fun hsucceeds ↦ hsucceeds.elim

theorem sync : ClearsPending (StorageEngine.onWriter SegmentWriter.sync) := by
  have hwriter (s : MeteredWriter) :
      Program.Returns (fun out ↦ ¬ out.2.metrics.Pending) (SegmentWriter.sync.run s) := by
    have hrest : SegmentWriter.sync.run s = (onlyIf (s.metrics.unsyncedRecords ≠ 0 ∨
      s.metrics.unsyncedBytes ≠ 0) SegmentWriter.syncCurrentSegment : WriterM Unit).run s := rfl
    rw [hrest]
    unfold onlyIf
    split
    · have hzero : ¬ s.metrics.segmentSynced.Pending := by
        simp [StorageMetrics.Pending, StorageMetrics.segmentSynced]
      exact fun _ ↦ hzero
    · next hnone => exact hnone
  exact fun engine ↦ (hwriter ⟨engine.writer, engine.metrics⟩).bind fun _ hsettled _ ↦ hsettled

theorem call (h : command.syncs = true) : ClearsPending (StorageEngine.call command) := by
  cases command with
  | createNode nodeId metadata =>
    refine after fun engine ↦ after fun registry ↦ after fun position ↦ bind sync fun _ ↦
      .bind .get fun _ ↦ .bind (.liftIo _) fun _ ↦ .bind (.liftIo _) fun _ ↦ .modify ?_
    exact fun _ ↦ rfl
  | saveSnapshot nodeId checkpoint =>
    refine after fun _ ↦ after fun _ ↦ after fun position ↦ bind sync fun _ ↦
      .bind .get fun _ ↦ .bind (.liftIo _) fun _ ↦ .bind ?_ fun _ ↦ .collectGarbage
    exact .modify fun _ ↦ rfl
  | sync => exact sync
  | removeNode | saveCurrentTerm | saveVotedFor | appendEntries | load | loadAll => cases h

end ClearsPending

end Sukari
