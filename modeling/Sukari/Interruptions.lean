import Sukari.CallResults

/-!
# Calls that stop in the middle

Every state that a call goes through has the records from before the call, or the record of the call
as well, and the registry from before or the one that the call is to save. A call that creates a
node saves the registry last: once the registry has the node, every record is synced
(`Ready.visit_call`).
-/

set_option autoImplicit false
set_option relaxedAutoImplicit false

namespace Sukari

open Effects

variable {N : Noraft} {opened ledger : Ledger N} {fs fs' : Fs} {engine : StorageEngine}
  {nodeId : NodeId} {visit : Visit fileSystem Fs}

/-- The states of two programs in sequence. -/
theorem mem_states_bind {α β : Type} {p : Program fileSystem α} {f : α → Program fileSystem β}
    (h : visit ∈ states (p >>= f) fs) : visit ∈ states p fs ∨ visit ∈
      directory.trace (directory.performed p fs) (f (directory.run p fs).1)
        (directory.run p fs).2 := by
  rw [states, directory.trace_bind, ← List.cons_append, List.mem_append, List.nil_append] at h
  exact h

/-! ### Creating a node -/

variable (N) in
/-- What `createNode` does before it saves the registry. -/
def StorageEngine.recordNode (nodeId : NodeId) : EngineM CheckpointIndex := do
  let position ← onWriter (SegmentWriter.append nodeId
    (.snapshotCheckpoint (initialCheckpoint N)))
  onWriter SegmentWriter.sync
  let checkpointIndex := (← get).checkpointIndex.setCheckpointPosition nodeId position
  liftIo checkpointIndex.save
  return checkpointIndex

/-- What `createNode` does then. -/
def StorageEngine.registerNode (registry : NodeRegistry) (checkpointIndex : CheckpointIndex) :
    EngineM Unit := do
  liftIo registry.save
  modify fun engine ↦ { engine with registry := registry, checkpointIndex := checkpointIndex }

theorem StorageEngine.createNode_eq (nodeId : NodeId) (metadata : NodeMetadata) :
    createNode N nodeId metadata = (do
      let registry ← liftM ((← get).registry.createNode nodeId metadata)
      recordNode N nodeId >>= registerNode registry) := by
  simp only [createNode, recordNode, registerNode, bind_assoc, pure_bind]

theorem run_createNode (nodeId : NodeId) (metadata : NodeMetadata) :
    (StorageEngine.createNode N nodeId metadata).run engine =
      match engine.registry.createNode nodeId metadata with
      | .ok registry =>
        (StorageEngine.recordNode N nodeId >>= StorageEngine.registerNode registry).run engine
      | .error error => .done (.error error, engine) := by
  have hget : (StorageEngine.createNode N nodeId metadata).run engine =
      ((liftM (engine.registry.createNode nodeId metadata) : EngineM NodeRegistry) >>=
        fun registry ↦ StorageEngine.recordNode N nodeId >>=
          StorageEngine.registerNode registry).run engine := by
    rw [StorageEngine.createNode_eq]
    rfl
  rw [hget]
  cases engine.registry.createNode nodeId metadata <;> rfl

theorem methodWithin_recordNode (nodeId : NodeId) :
    MethodKeepsJson .nodes (StorageEngine.recordNode N nodeId) :=
  fun s ↦ .bindMethod (methodWithin_onWriter (methodWithin_append _ _) s) fun _ s ↦
    .bindMethod (methodWithin_onWriter methodWithin_sync s) fun _ _ ↦
      .bindMethod trivial fun _ s ↦
        .bindMethod (methodWithin_liftIo (within_saveIndex keepsJson_replaceIndex _) s) fun _ _ ↦
          trivial

/-- After the record of a new node is synced and its index is saved, the registry can be saved. -/
theorem refines_recordNode (h : Ready opened engine ledger fs) {metadata : NodeMetadata}
    {registry : NodeRegistry}
    (hcreated : engine.registry.createNode nodeId metadata = .ok registry) :
    (storage N).Refines (fun out ledger' fs' ↦ ∀ index, out.1 = .ok index →
        ledger'.synced = ledger'.journal.entries.length ∧
        ledger'.journal.written =
          ledger.journal.written ++ [(nodeId, .snapshotCheckpoint (initialCheckpoint N))] ∧
        (storage N).Refines (fun _ _ _ ↦ True) registry.save.run ledger' fs')
      ((StorageEngine.recordNode N nodeId).run engine) ledger fs := by
  refine .bindMethod ((refines_onWriterAppend h nodeId _).mono ?_)
  rintro ⟨result, engine₁⟩ ledger₁ fs₁ ⟨hready, hregistry, -, hresult⟩
  cases result with
  | error error =>
    intro index hindex
    cases hindex
  | ok position =>
    obtain ⟨hwritten, hpending, hactive, frame, hframe, hentry⟩ := hresult
    refine .bindMethod (refines_onWriter ((refines_sync hready.state).mono ?_))
    rintro ⟨result, s⟩ ledger₂ fs₂ ⟨hok, ⟨-, hsynced⟩ | ⟨hnone, -⟩, hstate, hdocuments⟩
    · simp only at hok
      subst hok hsynced
      have hready₂ := hready.onWriter hstate hdocuments
      have hrecorded : Recorded nodeId (.snapshotCheckpoint (initialCheckpoint N)) position
          ledger₁.sync fs₂ := by
        refine ⟨hactive, frame, hframe, hentry, hstate.holds.durable _ ?_⟩
        rw [Ledger.sync, List.take_length]
        exact hentry.subset (List.mem_singleton_self _)
      refine .bindMethod (refines_get (.bindMethod (refines_liftIo
        ((refines_saveIndex hready₂.state (hrecorded.indexMarked hready₂)).mono ?_))))
      rintro _ ledger₃ fs₃ ⟨rfl, rfl, hstate₃, hsaved⟩
      intro index hindex
      refine ⟨rfl, hwritten, ?_⟩
      refine (refines_saveRegistry hstate₃
        (hrecorded.anchored hready₂ (hregistry ▸ hcreated) hstate₃
        hsaved) fun index other position' hindex _ hother ↦
          hrecorded.present hready₂ hsaved index other position' hindex hother).mono ?_
      exact fun _ _ _ _ ↦ trivial
    · exact absurd hpending hnone

/-- A node that is being created: its registry is the old one, or every record is synced. -/
theorem Ready.visit_createNode (h : Ready opened engine ledger fs)
    (hfile : Statuses engine.registry.status fs) {metadata : NodeMetadata}
    (hvisit : visit ∈ states ((StorageEngine.createNode N nodeId metadata).run engine) fs) :
    EitherStatuses engine.registry.status engine.registry.status visit.state ∨
      ∃ ledger', (storage N).Steps visit.past ledger ledger' ∧ ledger'.Holds visit.state ∧
        ledger'.synced = ledger'.journal.entries.length ∧
        ledger'.journal.written =
          ledger.journal.written ++ [(nodeId, .snapshotCheckpoint (initialCheckpoint N))] := by
  rw [run_createNode] at hvisit
  cases hcreated : engine.registry.createNode nodeId metadata with
  | error error =>
    rw [hcreated] at hvisit
    obtain rfl := List.mem_singleton.mp hvisit
    exact .inl hfile.either
  | ok registry =>
    simp only [hcreated, run_bindMethod] at hvisit
    rcases mem_states_bind hvisit with hbefore | hafter
    · -- the registry file is the old one
      left
      obtain ⟨document, old, hsettled, hold, hstatus⟩ := hfile
      have hrefines : (directory.always (EitherStatuses engine.registry.status
          engine.registry.status)).Refines (fun _ _ _ ↦ True)
          ((StorageEngine.recordNode N nodeId).run engine) () fs :=
        refines_settled (fun _ ↦ True) hold (.inl hstatus) hsettled
          (methodWithin_recordNode (N := N) nodeId engine) (.any _) fun _ _ _ _ ↦ trivial
      rcases List.mem_cons.mp hbefore with rfl | hbefore
      · exact eitherStatuses_of_settled hold (.inl hstatus) hsettled
      · obtain ⟨_, _, -, -, heither⟩ := hrefines.visit hbefore
        exact heither
    · right
      obtain ⟨ledger₁, hsteps₁, hrecorded⟩ := (refines_recordNode h hcreated).run
      rcases hrun : directory.run ((StorageEngine.recordNode N nodeId).run engine) fs with
        ⟨⟨result, engine₁⟩, fs₁⟩
      rw [hrun] at hrecorded hafter
      cases result with
      | error error => cases hafter
      | ok index =>
        obtain ⟨hsynced, hwritten, -, ledger₂, hstep₂, hholds₂, -, ledger₃, hstep₃, hholds₃, -⟩ :=
          hrecorded index rfl
        have hsame₂ : ledger₂ = ledger₁ := hstep₂
        have hsame₃ : ledger₃ = ledger₂ := hstep₃
        subst hsame₃ hsame₂
        rcases List.mem_cons.mp hafter with rfl | hafter
        · exact ⟨ledger₃, hsteps₁.append (.single hstep₂), hholds₂, hsynced, hwritten⟩
        · obtain rfl := List.mem_singleton.mp hafter
          exact ⟨ledger₃, (hsteps₁.append (.single hstep₂)).append (.single hstep₃),
            hholds₃, hsynced,
            hwritten⟩

/-! ### States of a call -/

/-- What is left when a call stops in one of its states. -/
structure Stopped (ledger : Ledger N) (status : NodeId → NodeStatus) (command : Command N)
    (visit : Visit fileSystem Fs) (ledger' : Ledger N) : Prop where
  steps : (storage N).Steps visit.past ledger ledger'
  holds : ledger'.Holds visit.state
  written : ledger'.journal.written = ledger.journal.written ∨
    ledger'.journal.written = ledger.journal.written ++ command.records
  statuses : EitherStatuses status status visit.state ∨
    EitherStatuses status (fun nodeId ↦ command.statusAfter nodeId (status nodeId)) visit.state ∧
      (command.records = [] ∨ ledger'.synced = ledger'.journal.entries.length ∧
        ledger'.journal.written = ledger.journal.written ++ command.records)

theorem prefix_singleton {ι : Type} {items : List ι} {item : ι} (h : items <+: [item]) :
    items = [] ∨ items = [item] := by
  rcases items with - | ⟨first, rest⟩
  · exact .inl rfl
  · obtain ⟨rfl, hrest⟩ := List.cons_prefix_cons.mp h
    exact .inr (by rw [List.prefix_nil.mp hrest])

/-- The records that are written on the way are among those that are written in the whole run. -/
theorem recordsWritten_prefix {α : Type} {p : Program fileSystem α} (hvisit : visit ∈ states p fs) :
    recordsWritten N visit.past <+: recordsWritten N (directory.performed p fs) := by
  rcases List.mem_cons.mp hvisit with rfl | hvisit
  · exact List.nil_prefix
  · obtain ⟨rest, hrest⟩ := directory.past_prefix hvisit
    rw [List.nil_append] at hrest
    rw [← hrest, recordsWritten, recordsWritten, List.filterMap_append]
    exact List.prefix_append _ _

/-- The records of a state of a call. -/
theorem recordsWritten_visit (h : Ready opened engine ledger fs) (command : Command N)
    (hvisit : visit ∈ states ((StorageEngine.call command).run engine) fs) :
    recordsWritten N visit.past <+: acceptedRecords command.records
      (directory.run ((StorageEngine.call command).run engine) fs).1.1 := by
  obtain ⟨final, hsteps, hadds⟩ := (refines_call h command).run
  have hall : recordsWritten N (directory.performed ((StorageEngine.call command).run engine) fs) =
      acceptedRecords command.records
        (directory.run ((StorageEngine.call command).run engine) fs).1.1 :=
    List.append_cancel_left ((steps_written hsteps).1.symm.trans hadds.written)
  rw [← hall]
  exact recordsWritten_prefix hvisit

theorem Ready.visit_call (h : Ready opened engine ledger fs)
    (hfile : Statuses engine.registry.status fs) {command : Command N}
    (hvisit : visit ∈ states ((StorageEngine.call command).run engine) fs) :
    ∃ ledger', Stopped ledger engine.registry.status command visit ledger' := by
  have hprefix := recordsWritten_visit h command hvisit
  have hwritten {ledger' : Ledger N} (hsteps : (storage N).Steps visit.past ledger ledger') :
      ledger'.journal.written = ledger.journal.written ∨
        ledger'.journal.written = ledger.journal.written ++ command.records := by
    rw [(steps_written hsteps).1]
    have hrecords : recordsWritten N visit.past = [] ∨
        recordsWritten N visit.past = command.records := by
      cases hresult : (directory.run ((StorageEngine.call command).run engine) fs).1.1 with
      | error error =>
        rw [hresult] at hprefix
        exact .inl (List.prefix_nil.mp hprefix)
      | ok value =>
        rw [hresult] at hprefix
        rcases command.records_cases with hnone | ⟨nodeId, record, hrecord⟩
        · rw [acceptedRecords, hnone] at hprefix
          exact .inl (List.prefix_nil.mp hprefix)
        · rw [acceptedRecords, hrecord] at hprefix
          rw [hrecord]
          exact prefix_singleton hprefix
    rcases hrecords with hnone | hall
    · exact .inl (by rw [hnone, List.append_nil])
    · exact .inr (by rw [hall])
  obtain ⟨ledger', hsteps, hholds⟩ : ∃ ledger', (storage N).Steps visit.past ledger ledger' ∧
      ledger'.Holds visit.state := by
    rcases List.mem_cons.mp hvisit with rfl | hvisit
    · exact ⟨ledger, .refl ledger, h.state.holds⟩
    · obtain ⟨ops, ledger', hpast, hsteps, hholds⟩ := (refines_call h command).visit hvisit
      exact ⟨ledger', by rwa [hpast], hholds⟩
  have heither : EitherStatuses engine.registry.status
      (fun nodeId ↦ command.statusAfter nodeId (engine.registry.status nodeId)) visit.state := by
    rcases List.mem_cons.mp hvisit with rfl | hvisit
    · exact hfile.either
    · obtain ⟨_, _, -, -, heither⟩ := (refines_statuses hfile command rfl).visit hvisit
      exact heither
  cases command with
  | createNode nodeId metadata =>
    rcases h.visit_createNode hfile hvisit with hold | ⟨ledger', hsteps, hholds, hsynced, hall⟩
    · exact ⟨ledger', hsteps, hholds, hwritten hsteps, .inl hold⟩
    · exact ⟨ledger', hsteps, hholds, .inr hall, .inr ⟨heither, .inr ⟨hsynced, hall⟩⟩⟩
  | removeNode nodeId => exact ⟨ledger', hsteps, hholds, hwritten hsteps, .inr ⟨heither, .inl rfl⟩⟩
  | saveCurrentTerm | saveVotedFor | appendEntries | saveSnapshot | sync | load | loadAll =>
    exact ⟨ledger', hsteps, hholds, hwritten hsteps, .inl heither⟩

/-! ### The store that is left -/

section Store

variable {store : NodeStore N} {command : Command N} {ledger' : Ledger N} {synced : ℕ}

/-- A call that the store refuses would change no status. -/
theorem statusAfter_of_check_error {error : IoError} (h : store.check command = .error error) :
    (fun nodeId ↦ command.statusAfter nodeId (store.status nodeId)) = store.status := by
  funext other
  cases command with
  | createNode nodeId metadata =>
    refine if_neg ?_
    rintro ⟨rfl, hcreatable⟩
    rw [NodeStore.check, hcreatable] at h
    cases h
  | removeNode nodeId =>
    refine if_neg ?_
    rintro ⟨rfl, hactive⟩
    rw [NodeStore.check, hactive] at h
    cases h
  | _ => rfl

/-- A call that the store does not refuse writes records of active nodes, or the first record of a
node that is not there yet. -/
theorem records_of_check (h : store.check command = .ok ()) {record : NodeId × Record N}
    (hrecord : record ∈ command.records) : store.status record.1 = .active ∨
      (∃ metadata, command = .createNode record.1 metadata) ∧
        store.status record.1 = .creatable ∧
          record.2 = .snapshotCheckpoint (initialCheckpoint N) := by
  have hactive {nodeId : NodeId} (h : (store.status nodeId).ensureExists = .ok ()) :
      store.status nodeId = .active := by
    cases hstatus : store.status nodeId with
    | active => rfl
    | creatable | removed =>
      rw [hstatus] at h
      cases h
  cases command with
  | createNode nodeId metadata =>
    obtain rfl := List.mem_singleton.mp hrecord
    right
    rw [NodeStore.check] at h
    cases hstatus : store.status nodeId with
    | creatable => exact ⟨⟨metadata, rfl⟩, rfl, rfl⟩
    | active | removed =>
      rw [hstatus] at h
      cases h
  | saveCurrentTerm | saveVotedFor =>
    obtain rfl := List.mem_singleton.mp hrecord
    exact .inl (hactive h)
  | appendEntries | saveSnapshot =>
    obtain rfl := List.mem_singleton.mp hrecord
    obtain ⟨value, hexists, -⟩ := bind_eq_ok_iff.mp h
    exact .inl (hactive hexists)
  | removeNode | sync | load | loadAll => cases hrecord

theorem filter_records_of_check (h : store.check command = .ok ()) :
    (command.records.filter fun record ↦ store.status record.1 = .active) =
      command.records.filter store.taken := by
  refine List.filter_congr fun record hrecord ↦ ?_
  rcases records_of_check h hrecord with hactive | ⟨-, hcreatable, -⟩
  · simp [NodeStore.taken, hactive]
  · simp [NodeStore.taken, hcreatable]

theorem leftover_of_check (h : store.check command = .ok ()) {written : List (NodeId × Record N)}
    (hleftover : Leftover store.status written) :
    Leftover store.status (written ++ command.records) := by
  intro nodeId hcreatable record hrecord
  rcases List.mem_append.mp hrecord with hold | hnew
  · exact hleftover nodeId hcreatable record hold
  · rcases records_of_check h hnew with hactive | ⟨-, -, hinitial⟩
    · rw [hcreatable] at hactive
      cases hactive
    · exact hinitial

theorem leftover_statusAfter {status : NodeId → NodeStatus} {written : List (NodeId × Record N)}
    (h : Leftover status written) (command : Command N) :
    Leftover (fun nodeId ↦ command.statusAfter nodeId (status nodeId)) written :=
  fun nodeId hcreatable ↦ h nodeId (Command.statusAfter_eq_creatable hcreatable)

/-- Removing a node. -/
theorem Buffers.remove {written : List (NodeId × Record N)} (h : Buffers store written synced)
    (nodeId : NodeId) : Buffers (store.after (.removeNode nodeId)) written synced := by
  refine h.congr (List.append_nil _) rfl (fun other ↦ ?_) fun other hactive ↦ ?_
  · constructor
    · intro hnone
      have hafter : (Command.removeNode nodeId : Command N).statusAfter other (store.status other) =
        .creatable := hnone
      exact Command.statusAfter_eq_creatable hafter
    · intro hcreatable
      refine (if_neg ?_).trans hcreatable
      rintro ⟨-, hactive⟩
      rw [hcreatable] at hactive
      cases hactive
  · by_contra hinactive
    have hsame : (store.after (.removeNode nodeId)).status other = store.status other :=
      if_neg fun hboth ↦ hinactive hboth.2
    exact hinactive (hsame ▸ hactive)

/-- What is left of a call stands for the store without the call, with its record but without a
sync, or with the whole call. -/
theorem Stopped.exists_store (h : Stopped ledger store.status command visit ledger')
    (hsynced : ledger.synced ≤ ledger.journal.entries.length)
    (hbuffers : Buffers store ledger.journal.written ledger.synced)
    (hleftover : Leftover store.status ledger.journal.written)
    (haccepted : ∀ error, store.check command = .error error →
      ledger'.journal.written = ledger.journal.written)
    {registry : NodeRegistry} (hregistry : visit.state.HasRegistry registry) :
    ∃ store', store.Interrupted (some command) store' ∧ store'.status = registry.status ∧
      Buffers store' ledger'.journal.written ledger'.synced ∧
      Leftover store'.status ledger'.journal.written := by
  have hle : ledger.synced ≤ ledger'.synced := steps_synced h.steps le_rfl hsynced
  by_cases hsame : registry.status = store.status
  · cases hcheck : store.check command with
    | error error =>
      refine ⟨store, .undone, hsame.symm, ?_, ?_⟩
      · rw [haccepted error hcheck]
        exact hbuffers.mono hle
      · rw [haccepted error hcheck]
        exact hleftover
    | ok value =>
      rcases h.written with hwritten | hwritten
      · rw [hwritten]
        exact ⟨store, .undone, hsame.symm, hbuffers.mono hle, hleftover⟩
      · rw [hwritten]
        refine ⟨store.recorded command, .recorded hcheck, hsame.symm, ?_, ?_⟩
        · exact (hbuffers.write (filter_records_of_check hcheck)).mono hle
        · exact leftover_of_check hcheck hleftover
  · rcases h.statuses with hold | ⟨heither, hdone⟩
    · exact absurd ((hold registry hregistry).elim id id) hsame
    have hafter := (heither registry hregistry).resolve_left hsame
    cases hcheck : store.check command with
    | error error => exact absurd (hafter.trans (statusAfter_of_check_error hcheck)) hsame
    | ok value =>
      refine ⟨store.after command, .done hcheck, hafter.symm, ?_⟩
      cases command with
      | createNode nodeId metadata =>
        rcases hdone with hnone | ⟨hsynced, hwritten⟩
        · cases hnone
        · rw [hwritten]
          refine ⟨hbuffers.create metadata ?_, leftover_statusAfter
            (leftover_of_check hcheck hleftover) (.createNode nodeId metadata)⟩
          rw [hsynced, ← Journal.length_written, hwritten]
          simp [Command.records]
      | removeNode nodeId =>
        have hwritten : ledger'.journal.written = ledger.journal.written := by
          rcases h.written with hwritten | hwritten
          · exact hwritten
          · exact hwritten.trans (List.append_nil _)
        rw [hwritten]
        exact ⟨(hbuffers.remove nodeId).mono hle,
          leftover_statusAfter hleftover (.removeNode nodeId)⟩
      | saveCurrentTerm | saveVotedFor | appendEntries | saveSnapshot | sync | load | loadAll =>
        exact absurd hafter hsame

end Store

end Sukari
