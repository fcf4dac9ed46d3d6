import Sukari.CrashAtomicity
import Sukari.DurableNames
import Sukari.Interruptions
import Sukari.ReadersAgree

/-!
# The engine implements the store

`implementation` is what happens to a storage directory: processes open it and call their engine,
other processes read it, and a process may be killed or lose its power in any state of an opening or
of a call. Every history of the implementation, which starts with the empty directory, is a history
of the store (`implementation_refines_store`).

A kill may come in any state, but a power loss is only one in an opening or a call that began with
the names of all files durable. The restriction is needed: a process that is killed in a rotation,
behind the header of the new segment and before the directory sync, leaves a segment whose name is
not durable. The next process appends to it and its sync succeeds, and a power loss then takes the
whole file.
-/

set_option autoImplicit false
set_option relaxedAutoImplicit false

namespace Sukari

open Effects

variable {N : Noraft} {opened ledger : Ledger N} {fs fs' : Fs} {engine engine' : StorageEngine}
  {current : Option StorageEngine} {store : NodeStore N} {command : Command N}

/-! ### What a store stands for -/

/-- An open engine serves the store. -/
structure Serves (store : NodeStore N) (engine : StorageEngine) (ledger : Ledger N) (fs : Fs) :
    Prop where
  ready : ∃ opened, Ready opened engine ledger fs ∧ (store.unsynced = true →
    opened.journal.entries.length < ledger.journal.entries.length)
  status : engine.registry.status = store.status

/-- The directory and the engine that is open represent the store. -/
structure Represents (current : Option StorageEngine) (ledger : Ledger N) (fs : Fs)
    (store : NodeStore N) : Prop where
  holds : ledger.Holds fs
  file : Statuses store.status fs
  leftover : Leftover store.status ledger.journal.written
  buffers : Buffers store ledger.journal.written ledger.synced
  serving : store.serving = current.isSome
  engine : ∀ engine, current = some engine → Serves store engine ledger fs

theorem Statuses.syncDir {status : NodeId → NodeStatus} (h : Statuses status fs) :
    Statuses status fs.syncDir := by
  obtain ⟨document, registry, hsettled, hregistry, hstatus⟩ := h
  have hnodes : fs.nodes = ⟨document, document⟩ := hsettled
  refine ⟨document, registry, ?_, hregistry, hstatus⟩
  change (⟨fs.nodes.current, fs.nodes.current⟩ : JsonFile) = _
  rw [hnodes]

theorem Represents.syncDir (h : Represents current ledger fs store) :
    Represents current ledger fs.syncDir store := by
  refine ⟨h.holds.syncDir, h.file.syncDir, h.leftover, h.buffers, h.serving,
    fun engine hengine ↦ ?_⟩
  obtain ⟨⟨opened, hready, hunsynced⟩, hstatus⟩ := h.engine engine hengine
  exact ⟨⟨opened, hready.syncDir, hunsynced⟩, hstatus⟩

/-- The state of an active node. -/
theorem Represents.state (h : Represents current ledger fs store) {nodeId : NodeId}
    (hactive : store.status nodeId = .active) :
    store.state nodeId = recoveredState (recordsOf nodeId ledger.journal.written) :=
  h.buffers.state hactive

theorem represents_empty : Represents none ⟨[], 0⟩ .empty (NodeStore.empty N) where
  holds := Ledger.holds_empty
  file := ⟨none, .default, rfl, rfl, funext NodeRegistry.status_default⟩
  leftover := fun _ _ _ hrecord ↦ by cases hrecord
  buffers := ⟨[], [], rfl, le_rfl, rfl, fun _ hactive ↦ by cases hactive⟩
  serving := rfl
  engine := fun _ hengine ↦ by cases hengine

/-! ### Opening -/

theorem Buffers.reopen {written : List (NodeId × Record N)} {synced : ℕ}
    (h : Buffers store written synced) {store' : NodeStore N}
    (hstatus : store'.status = store.status) (hbuffered : store'.buffered = store.buffered)
    (hdurable : store'.durable = store.durable) : Buffers store' written synced := by
  refine h.congr hbuffered hdurable (fun nodeId ↦ ?_) fun nodeId hactive ↦ ?_
  · rw [hstatus]
  · rwa [hstatus] at hactive

/-- The directory is closed. -/
theorem Represents.closed (h : Represents current ledger fs store) :
    Represents none ledger fs store.closed :=
  ⟨h.holds, h.file, h.leftover, h.buffers.reopen rfl rfl rfl, rfl, fun _ hengine ↦ by cases hengine⟩

theorem Represents.reopen (h : Represents current ledger fs store)
    (hlinked : ActiveLinked ledger.journal fs) {maxSegmentLen : ℕ}
    {result : Except IoError StorageEngine} (hrun : directory.run
      (StorageEngine.withMaxSegmentLen N maxSegmentLen).run fs = (result, fs')) :
    ∃ store' ledger', NodeStore.Step (.opened maxSegmentLen (result.map fun _ ↦ ())) store store' ∧
      Represents result.toOption ledger' fs' store' := by
  obtain ⟨ledger', hsteps, hopened⟩ := (refines_withMaxSegmentLen h.holds hlinked maxSegmentLen).run
  obtain ⟨-, -, hfile, hengine⟩ :=
    (@refines_statuses_open N _ _ store.status h.file maxSegmentLen).run
  rw [hrun] at hopened hfile hengine
  rcases hopened with ⟨rfl, -, rfl, rfl⟩ | ⟨hmax, engine, rfl, hopens⟩
  · have hzero : directory.run (StorageEngine.withMaxSegmentLen N 0).run fs' =
      (.error (invalidInput "max segment length must be non-zero"), fs') := rfl
    rw [hzero] at hrun
    obtain rfl := (Prod.mk.inj hrun).1
    exact ⟨store.closed, ledger', .notOpened, h.closed⟩
  · refine ⟨store.opened, ledger', .opened hmax, hopens.ready.state.holds, hfile, ?_, ?_, rfl,
      fun engine' hengine' ↦ ?_⟩
    · rw [hopens.written]
      exact h.leftover
    · rw [hopens.written]
      exact (h.buffers.mono (steps_synced hsteps le_rfl h.holds.synced_le)).reopen rfl rfl rfl
    · obtain rfl := Option.some.inj hengine'
      exact ⟨⟨ledger', hopens.ready, fun hunsynced ↦ by cases hunsynced⟩, hengine engine rfl⟩

/-! ### Reading -/

/-- What the read-only `load` returns. -/
theorem Represents.read (h : Represents current ledger fs store) (nodeId : NodeId) :
    directory.Sees (fun _ ↦ fs) (fun result _ ↦ result = store.load nodeId)
      (load N nodeId).run 0 := by
  obtain ⟨document, registry, hsettled, hregistry, hstatus⟩ := h.file
  have hnodes : fs.nodes = ⟨document, document⟩ := hsettled
  have hfile : NodeRegistry.ofFile fs.nodes.current =
      .ok registry := by rw [hnodes]; exact hregistry
  rw [NodeStore.load, ← hstatus, ← ensureNodeExists_eq]
  cases hexists : ensureNodeExists registry nodeId with
  | ok value =>
    have hactive := ensureNodeExists_eq_ok_iff.mp hexists
    refine (load_recovered h.holds.recoverable hfile nodeId).mono fun result stop hloads ↦ ?_
    rw [hactive, LoadsNode, if_pos rfl] at hloads
    rw [hloads]
    refine (h.state ?_).symm
    rw [← hstatus]
    exact NodeRegistry.status_eq_active_iff.mpr hactive
  | error error =>
    refine .bindExcept ((readOnlyStorage_new_recovered N h.holds.recoverable hfile).mono ?_)
    rintro result stop ⟨storage, rfl, rfl, -⟩
    refine .bindExcept (sees_liftM ?_)
    rw [hexists]
    rfl

/-- Loading all nodes, by any of the two functions. -/
theorem Represents.loadsAll (h : Represents current ledger fs store) {registry : NodeRegistry}
    (hstatus : registry.status = store.status) {result : Except IoError (ReplayState N)}
    (hloads : LoadsAll registry.activeNodeIds
      (fun nodeId ↦ recoveredState (recordsOf nodeId ledger.journal.written)) result) :
    store.LoadsAll result := by
  have hmem (nodeId : NodeId) : nodeId ∈ registry.activeNodeIds ↔ store.status nodeId =
      .active := by
    rw [NodeRegistry.mem_activeNodeIds, ← NodeRegistry.status_eq_active_iff, hstatus]
  cases result with
  | ok nodes =>
    intro nodeId
    split
    · next hactive =>
      obtain ⟨state, hstate, hnode⟩ := hloads.1 nodeId ((hmem nodeId).mpr hactive)
      exact ⟨state, (h.state hactive).trans hstate, hnode⟩
    · next hinactive => exact hloads.2 nodeId fun hnode ↦ hinactive ((hmem nodeId).mp hnode)
  | error error =>
    obtain ⟨nodeId, hnode, hfails⟩ := hloads
    have hactive := (hmem nodeId).mp hnode
    refine ⟨nodeId, hactive, ?_⟩
    rwa [h.state hactive]

theorem Represents.readAll (h : Represents current ledger fs store) :
    directory.Sees (fun _ ↦ fs) (fun result _ ↦ store.LoadsAll result) (loadAll N).run 0 := by
  obtain ⟨document, registry, hsettled, hregistry, hstatus⟩ := h.file
  have hnodes : fs.nodes = ⟨document, document⟩ := hsettled
  have hfile : NodeRegistry.ofFile fs.nodes.current =
      .ok registry := by rw [hnodes]; exact hregistry
  exact (loadAll_recovered h.holds.recoverable hfile).mono fun _ _ hloads ↦
    h.loadsAll hstatus hloads

/-! ### Calls -/

theorem run_answer {result : Except IoError Unit}
    (hload : ∀ nodeId, command ≠ .load nodeId) (hloadAll : command ≠ .loadAll)
    (hrun : directory.run ((StorageEngine.call command).run engine) fs = ((result, engine'), fs')) :
    directory.run ((StorageEngine.answer command).run engine) fs =
      ((result.map fun _ ↦ .done, engine'), fs') := by
  have hanswer : StorageEngine.answer command =
      (StorageEngine.call command >>= fun _ ↦ pure .done) := by
    cases command with
    | load nodeId => exact absurd rfl (hload nodeId)
    | loadAll => exact absurd rfl hloadAll
    | createNode | removeNode | saveCurrentTerm | saveVotedFor | appendEntries
    | saveSnapshot | sync =>
      rfl
  rw [hanswer]
  cases result with
  | ok value => exact Machine.run_bindMethod_ok hrun
  | error error => exact Machine.run_bindMethod_error hrun

/-- The records of a call that creates no node are records of active nodes. -/
theorem filter_taken_records (h : store.check command = .ok ())
    (hcreate : ∀ nodeId metadata, command ≠ .createNode nodeId metadata) :
    command.records = command.records.filter store.taken := by
  refine (List.filter_eq_self.mpr fun record hrecord ↦ ?_).symm
  rcases records_of_check h hrecord with hactive | ⟨⟨metadata, hcreated⟩, -⟩
  · simp [NodeStore.taken, hactive]
  · exact absurd hcreated (hcreate _ _)

/-- The records after a call that was performed. -/
theorem Buffers.after {written : List (NodeId × Record N)} {synced synced' : ℕ}
    (h : Buffers store written synced) (hcheck : store.check command = .ok ())
    (hle : synced ≤ synced')
    (hsynced : command.syncs = true → store.unsynced = true ∨ command.records ≠ [] →
      (written ++ command.records).length ≤ synced') :
    Buffers (store.after command) (written ++ command.records) synced' := by
  have hwrite (hcreate : ∀ nodeId metadata, command ≠ .createNode nodeId metadata) :
      Buffers (store.write command.records) (written ++ command.records) synced' :=
    (h.write (filter_taken_records hcheck hcreate)).mono hle
  have hsync (hcreate : ∀ nodeId metadata, command ≠ .createNode nodeId metadata)
      (hsyncs : command.syncs = true) :
      Buffers (store.write command.records).sync (written ++ command.records) synced' :=
    (hwrite hcreate).sync fun hunsynced ↦ hsynced hsyncs (by
      simpa [NodeStore.write] using hunsynced)
  cases command with
  | createNode nodeId metadata =>
    exact h.create metadata
      (by simpa [Command.records] using hsynced rfl (.inr (List.cons_ne_nil _ _)))
  | removeNode nodeId =>
    simpa only [Command.records, List.append_nil] using (h.mono hle).remove nodeId
  | saveSnapshot | sync =>
    refine (hsync (fun _ _ hsame ↦ by cases hsame) rfl).reopen ?_ rfl rfl
    rw [NodeStore.status_sync]
    rfl
  | saveCurrentTerm | saveVotedFor | appendEntries | load | loadAll =>
    exact (hwrite fun _ _ hsame ↦ by cases hsame).reopen rfl rfl rfl

/-- A call that was performed. -/
theorem Represents.performed (h : Represents (some engine) ledger fs store)
    (hcheck : store.check command = .ok ())
    (hrun : directory.run ((StorageEngine.call command).run engine) fs = ((.ok (), engine'), fs')) :
    ∃ ledger', Represents (some engine') ledger' fs' (store.after command) := by
  obtain ⟨⟨opened, hready, hunsynced⟩, hstatus⟩ := h.engine engine rfl
  obtain ⟨ledger', hsteps, hadds⟩ := (refines_call hready command).run
  obtain ⟨-, -, hfile, hreached⟩ := (refines_statuses (hstatus ▸ h.file) command rfl).run
  have hsettled (hsyncs : command.syncs = true) :=
    (ClearsPending.call hsyncs engine).run directory fs
  rw [hrun] at hadds hfile hreached
  simp only [hrun] at hsettled
  have hwritten : ledger'.journal.written = ledger.journal.written ++ command.records :=
    hadds.written
  have hlength : ledger'.journal.entries.length =
      ledger.journal.entries.length + command.records.length := by
    rw [← Journal.length_written, hwritten, List.length_append, Journal.length_written]
  have hgauges := hadds.ready.state.gauges
  have hopened := hready.state.gauges.le
  have hgrown (h : store.unsynced = true ∨ command.records ≠ []) :
      opened.journal.entries.length < ledger'.journal.entries.length := by
    rcases h with hold | hnew
    · have := hunsynced hold
      omega
    · have := List.length_pos_iff.mpr hnew
      omega
  have hstatus' : (store.after command).status = engine'.registry.status := by
    rcases hreached with hreached | ⟨hfails, -⟩
    · rw [hreached, hstatus]
      rfl
    · exact absurd trivial hfails
  refine ⟨ledger', hadds.ready.state.holds, ?_, ?_, ?_, ?_, fun engine'' hengine ↦ ?_⟩
  · rw [hstatus']
    exact hfile
  · rw [hwritten]
    exact leftover_statusAfter (leftover_of_check hcheck h.leftover) command
  · rw [hwritten]
    refine h.buffers.after hcheck (steps_synced hsteps le_rfl h.holds.synced_le)
      fun hsyncs hnew ↦ ?_
    -- the gauges are zero, so the records that were added are synced
    rcases hgauges.covered with hsame | hsynced | hpending
    · have := hgrown hnew
      rw [hsame] at this
      exact absurd this (lt_irrefl _)
    · rw [← hwritten, Journal.length_written, hsynced]
    · exact absurd hpending (hsettled hsyncs trivial)
  · rw [store.serving_after]
    exact h.serving
  · obtain rfl := Option.some.inj hengine
    exact ⟨⟨opened, hadds.ready, fun hunsynced' ↦ hgrown (store.unsynced_after hunsynced')⟩,
      hstatus'.symm⟩

/-- A call that had no room for its record. -/
theorem Represents.full (h : Represents (some engine) ledger fs store)
    (hcheck : store.check command = .ok ())
    (hload : ∀ nodeId, command ≠ .load nodeId) (hloadAll : command ≠ .loadAll) {error : IoError}
    (hrun : directory.run ((StorageEngine.call command).run engine) fs =
      ((.error error, engine'), fs')) :
    store.Calls command (.error error) store ∧
      ∃ ledger', Represents (some engine') ledger' fs' store := by
  obtain ⟨⟨opened, hready, hunsynced⟩, hstatus⟩ := h.engine engine rfl
  obtain ⟨hrecords, herror, hregistry⟩ :=
    hready.call_full (not_refused_of_check hstatus hcheck) hload hloadAll hrun
  obtain ⟨ledger', hsteps, hadds⟩ := (refines_call hready command).run
  obtain ⟨-, -, hfile, -⟩ := (refines_statuses (hstatus ▸ h.file) command rfl).run
  rw [hrun] at hadds hfile
  have hwritten : ledger'.journal.written = ledger.journal.written :=
    hadds.written.trans (List.append_nil _)
  have hlength : ledger'.journal.entries.length = ledger.journal.entries.length := by
    rw [← Journal.length_written, hwritten, Journal.length_written]
  have hstatus' : engine'.registry.status = store.status := by rw [hregistry, hstatus]
  refine ⟨.full hcheck hrecords herror, ledger', hadds.ready.state.holds, hstatus' ▸ hfile, ?_, ?_,
    h.serving, fun engine'' hengine ↦ ?_⟩
  · rw [hwritten]
    exact h.leftover
  · rw [hwritten]
    exact h.buffers.mono (steps_synced hsteps le_rfl h.holds.synced_le)
  · obtain rfl := Option.some.inj hengine
    exact ⟨⟨opened, hadds.ready, fun hpending ↦ hlength ▸ hunsynced hpending⟩, hstatus'⟩

/-- The loads of an engine. -/
theorem Represents.load (h : Represents (some engine) ledger fs store) {nodeId : NodeId}
    (hcheck : store.check (.load nodeId) = .ok ()) :
    directory.run ((StorageEngine.answer (.load nodeId : Command N)).run engine) fs =
      (((store.state nodeId).map .state, engine), fs) := by
  obtain ⟨⟨opened, hready, -⟩, hstatus⟩ := h.engine engine rfl
  have hactive : engine.registry.isActive nodeId = true :=
    isActive_of_ensureExists (by rw [hstatus]; exact hcheck)
  obtain ⟨ledger', -, hload, hengine, -, hfs⟩ := (refines_load hready nodeId).run
  rw [hactive, LoadsNode, if_pos rfl,
    ← h.state (hstatus ▸ NodeRegistry.status_eq_active_iff.mpr hactive)]
    at hload
  have hrun : directory.run ((StorageEngine.load N nodeId).run engine) fs =
      ((store.state nodeId, engine), fs) := Prod.ext (Prod.ext hload hengine) hfs
  cases hstate : store.state nodeId with
  | ok state => exact Machine.run_bindMethod_ok (hstate ▸ hrun)
  | error error => exact Machine.run_bindMethod_error (hstate ▸ hrun)

theorem Represents.loadAll (h : Represents (some engine) ledger fs store) :
    ∃ result, store.LoadsAll result ∧
      directory.run ((StorageEngine.answer (.loadAll : Command N)).run engine) fs =
        ((result.map .nodes, engine), fs) := by
  obtain ⟨⟨opened, hready, -⟩, hstatus⟩ := h.engine engine rfl
  obtain ⟨ledger', -, hloads, hengine, -, hfs⟩ := (refines_loadAll hready).run
  refine ⟨_, h.loadsAll hstatus hloads, ?_⟩
  have hrun : directory.run ((StorageEngine.loadAll N).run engine) fs =
      (((directory.run ((StorageEngine.loadAll N).run engine) fs).1.1, engine), fs) :=
    Prod.ext (Prod.ext rfl hengine) hfs
  cases hresult : (directory.run ((StorageEngine.loadAll N).run engine) fs).1.1 with
  | ok nodes => exact Machine.run_bindMethod_ok (hresult ▸ hrun)
  | error error => exact Machine.run_bindMethod_error (hresult ▸ hrun)

/-- The answer to a call is one that the store gives. -/
theorem Represents.answered (h : Represents (some engine) ledger fs store)
    {answer : Except IoError (Answer N)}
    (hrun : directory.run ((StorageEngine.answer command).run engine) fs =
      ((answer, engine'), fs')) :
    ∃ store' ledger', store.Calls command answer store' ∧
      Represents (some engine') ledger' fs' store' := by
  obtain ⟨-, hstatus⟩ := h.engine engine rfl
  cases hcheck : store.check command with
  | error error =>
    rw [failsWith_answer hstatus hcheck] at hrun
    obtain ⟨⟨rfl, rfl⟩, rfl⟩ := hrun
    exact ⟨store, ledger, .refused hcheck, h⟩
  | ok value =>
    by_cases hload : (∃ nodeId, command = .load nodeId) ∨ command = .loadAll
    · rcases hload with ⟨nodeId, rfl⟩ | rfl
      · rw [h.load hcheck] at hrun
        obtain ⟨⟨rfl, rfl⟩, rfl⟩ := hrun
        refine ⟨_, ledger, .performed hcheck rfl, ?_⟩
        rwa [store.after_load]
      · obtain ⟨result, hloads, hanswer⟩ := h.loadAll
        rw [hanswer] at hrun
        obtain ⟨⟨rfl, rfl⟩, rfl⟩ := hrun
        refine ⟨_, ledger, .performed hcheck ⟨result, hloads, rfl⟩, ?_⟩
        rwa [store.after_loadAll]
    · rw [not_or, not_exists] at hload
      rcases hcall : directory.run ((StorageEngine.call command).run engine) fs with
        ⟨⟨result, engine₁⟩, fs₁⟩
      rw [run_answer hload.1 hload.2 hcall] at hrun
      obtain ⟨⟨rfl, rfl⟩, rfl⟩ := hrun
      cases result with
      | ok value' =>
        obtain ⟨ledger', hafter⟩ := h.performed hcheck hcall
        refine ⟨_, ledger', .performed hcheck ?_, hafter⟩
        cases command with
        | load nodeId => exact absurd rfl (hload.1 nodeId)
        | loadAll => exact absurd rfl hload.2
        | createNode | removeNode | saveCurrentTerm | saveVotedFor | appendEntries | saveSnapshot
        | sync => rfl
      | error error =>
        obtain ⟨hcalls, ledger', hfull⟩ := h.full hcheck hload.1 hload.2 hcall
        exact ⟨store, ledger', hcalls, hfull⟩

/-! ### Stopping in the middle -/

/-- What a state on the way stands for, given the registry that is found in it. -/
def StandsFor (outcome : NodeStore N → Prop) (ledger : Ledger N) (fs : Fs) : Prop :=
  ∀ registry, fs.HasRegistry registry → ∃ store', outcome store' ∧
    store'.status = registry.status ∧ Buffers store' ledger.journal.written ledger.synced ∧
      Leftover store'.status ledger.journal.written

/-- The process is killed in the state. -/
theorem StandsFor.killed {outcome : NodeStore N → Prop} (h : StandsFor outcome ledger fs)
    (hholds : ledger.Holds fs) :
    ∃ store', outcome store' ∧ Represents none ledger fs.syncDir store'.closed := by
  obtain ⟨registry, hregistry⟩ := hholds.recoverable.registries _ (.inl rfl)
  obtain ⟨store', houtcome, hstatus, hbuffers, hleftover⟩ := h registry ⟨_, .inl rfl, hregistry⟩
  refine ⟨store', houtcome, hholds.syncDir, ?_, hleftover, hbuffers.reopen rfl rfl rfl, rfl,
    fun _ hengine ↦ by cases hengine⟩
  exact ⟨_, registry, rfl, hregistry, hstatus.symm⟩

/-- Everything is durable after a power loss. -/
theorem Survivor.fullyDurable (h : Survivor fs fs') : FullyDurable fs' := by
  refine ⟨?_, fun segment file hfile ↦ (h.synced hfile).1⟩
  have hsegments : fs'.syncDir.segments = fs'.segments :=
    Std.ExtTreeMap.ext_getElem? fun segment ↦ by
      rw [Fs.getElem?_syncDir]
      cases hfile : fs'.segments[segment]? with
      | none => rfl
      | some file =>
        have hlinked := (h.synced hfile).2
        rw [Option.map_some, ← hlinked]
  have hcheckpoints : (⟨fs'.checkpoints.current, fs'.checkpoints.current⟩ : JsonFile) =
      fs'.checkpoints := by
    rcases h.checkpoints with heq | heq <;> rw [heq]
  have hnodes : (⟨fs'.nodes.current, fs'.nodes.current⟩ : JsonFile) = fs'.nodes := by
    rcases h.nodes with heq | heq <;> rw [heq]
  calc fs'.syncDir = ⟨fs'.syncDir.segments, ∅, ⟨fs'.checkpoints.current, fs'.checkpoints.current⟩,
        ⟨fs'.nodes.current, fs'.nodes.current⟩⟩ := rfl
    _ = ⟨fs'.segments, fs'.unlinked, fs'.checkpoints, fs'.nodes⟩ := by
      rw [hsegments, hcheckpoints, hnodes, h.unlinked]
    _ = fs' := rfl

theorem Leftover.subset {status : NodeId → NodeStatus} {written written' : List (NodeId × Record N)}
    (h : Leftover status written) (hsubset : written' ⊆ written) : Leftover status written' :=
  fun nodeId hcreatable record hrecord ↦ h nodeId hcreatable record (hsubset hrecord)

/-- The power is lost in the state. -/
theorem StandsFor.powerLoss {outcome : NodeStore N → Prop} (h : StandsFor outcome ledger fs)
    (hholds : ledger.Holds fs) (hsurvivor : Survivor fs fs') : ∃ store' count ledger',
      outcome store' ∧ Represents none ledger' fs' (store'.lose count) := by
  obtain ⟨left, hleft, hkeeps, hextends, -⟩ := hholds.survivor hsurvivor
  have hdurable := hsurvivor.fullyDurable
  have hcurrent : fs'.nodes = ⟨fs'.nodes.current, fs'.nodes.current⟩ := by
    rcases hsurvivor.nodes with heq | heq <;> rw [heq]
  obtain ⟨registry, hregistry⟩ := hleft.recoverable.registries _ (.inl rfl)
  obtain ⟨store', houtcome, hstatus, hbuffers, hleftover⟩ :=
    h registry ⟨_, hsurvivor.nodes_holds (.inl rfl), hregistry⟩
  have hwritten : left.journal.written =
      ledger.journal.written.take left.journal.written.length :=
    List.prefix_iff_eq_take.mp (Journal.written_prefix hextends.entries)
  have hcut : ledger.synced ≤ left.journal.written.length := by
    rw [Journal.length_written]
    exact hholds.synced_le_of_keeps hkeeps hextends
  have hle : left.journal.written.length ≤ ledger.journal.written.length := by
    rw [Journal.length_written, Journal.length_written]
    exact hextends.entries.length_le
  obtain ⟨count, hlost⟩ := hbuffers.lose hcut hle
  refine ⟨store', count, left.sync, houtcome, hleft.sync_of_fullyDurable hdurable,
    ⟨_, registry, hcurrent, hregistry, hstatus.symm⟩, ?_, ?_, rfl, fun _ hengine ↦ by cases hengine⟩
  · refine hleftover.subset ?_
    rw [Ledger.sync, hwritten]
    exact List.take_subset _ _
  · rw [← hwritten] at hlost
    exact hlost.mono (Journal.length_written _).le

theorem Represents.visit_call (h : Represents (some engine) ledger fs store)
    {visit : Visit fileSystem Fs}
    (hvisit : visit ∈ states ((StorageEngine.call command).run engine) fs) :
    ∃ ledger' : Ledger N, ledger'.Holds visit.state ∧
      StandsFor (store.Interrupted (some command)) ledger' visit.state := by
  obtain ⟨⟨opened, hready, -⟩, hstatus⟩ := h.engine engine rfl
  obtain ⟨ledger', hstopped⟩ := hready.visit_call (hstatus ▸ h.file) hvisit
  have haccepted (error : IoError) (hcheck : store.check command = .error error) :
      ledger'.journal.written = ledger.journal.written := by
    have hfails : directory.run ((StorageEngine.call command).run engine) fs = _ :=
      failsWith_of_check hstatus hcheck
    have hnone := recordsWritten_visit hready command hvisit
    rw [hfails] at hnone
    rw [(steps_written hstopped.steps).1, List.prefix_nil.mp hnone, List.append_nil]
  refine ⟨ledger', hstopped.holds, fun registry hregistry ↦ ?_⟩
  exact Stopped.exists_store (hstatus ▸ hstopped) h.holds.synced_le h.buffers h.leftover haccepted
    hregistry

theorem Represents.visit_open (h : Represents current ledger fs store)
    (hlinked : ActiveLinked ledger.journal fs) {maxSegmentLen : ℕ} {visit : Visit fileSystem Fs}
    (hvisit : visit ∈ states (StorageEngine.withMaxSegmentLen N maxSegmentLen).run fs) :
    ∃ ledger' : Ledger N, ledger'.Holds visit.state ∧
      StandsFor (store.Interrupted none) ledger' visit.state := by
  have hrefines := refines_withMaxSegmentLen h.holds hlinked maxSegmentLen
  obtain ⟨ledger', hsteps, hholds, heither⟩ : ∃ ledger' : Ledger N,
      (storage N).Steps visit.past ledger ledger' ∧ ledger'.Holds visit.state ∧
        EitherStatuses store.status store.status visit.state := by
    rcases List.mem_cons.mp hvisit with rfl | hvisit
    · exact ⟨ledger, .refl ledger, h.holds, h.file.either⟩
    · obtain ⟨ops, ledger', hpast, hsteps, hholds⟩ := hrefines.visit hvisit
      obtain ⟨_, _, -, -, heither⟩ :=
        (refines_statuses_open (N := N) h.file maxSegmentLen).visit hvisit
      exact ⟨ledger', by rwa [hpast], hholds, heither⟩
  have hnone : recordsWritten N (directory.performed
      (StorageEngine.withMaxSegmentLen N maxSegmentLen).run fs) = [] := by
    obtain ⟨final, hfinal, hopened⟩ := hrefines.run
    have hwritten := (steps_written hfinal).1
    rcases hopened with ⟨-, -, rfl, -⟩ | ⟨-, engine, -, hopens⟩
    · exact List.self_eq_append_right.mp hwritten
    · rw [hopens.written] at hwritten
      exact List.self_eq_append_right.mp hwritten
  have hsame : ledger'.journal.written = ledger.journal.written := by
    have hprefix := recordsWritten_prefix (N := N) hvisit
    rw [hnone] at hprefix
    rw [(steps_written hsteps).1, List.prefix_nil.mp hprefix, List.append_nil]
  refine ⟨ledger', hholds, fun registry hregistry ↦ ⟨store, .undone, ?_, ?_, ?_⟩⟩
  · exact ((heither registry hregistry).elim id id).symm
  · rw [hsame]
    exact h.buffers.mono (steps_synced hsteps le_rfl h.holds.synced_le)
  · rw [hsame]
    exact h.leftover

/-! ### The implementation -/

/-- What happens to a storage directory. A power loss comes only in an opening or a call that found
the names of all files durable (`hnames`); kills come in any state. -/
inductive Happens : Observation N → Situation → Situation → Prop
  /-- A process opens the directory, after the one before has closed it. -/
  | opened {current : Option StorageEngine} {fs fs' : Fs} {maxSegmentLen : ℕ}
      {result : Except IoError StorageEngine} (hrun : directory.run
        (StorageEngine.withMaxSegmentLen N maxSegmentLen).run fs = (result, fs')) :
      Happens (.opened maxSegmentLen (result.map fun _ ↦ ())) (current, fs) (result.toOption, fs')
  | answered {engine engine' : StorageEngine} {fs fs' : Fs} {command : Command N}
      {answer : Except IoError (Answer N)}
      (hrun : directory.run ((StorageEngine.answer command).run engine) fs =
        ((answer, engine'), fs')) :
      Happens (.answered command answer) (some engine, fs) (some engine', fs')
  /-- Another process reads, between two calls. -/
  | read {current : Option StorageEngine} {fs fs' : Fs} {nodeId : NodeId}
      {result : Except IoError (NodeState N)}
      (hrun : directory.run (load N nodeId).run fs = (result, fs')) :
      Happens (.read nodeId result) (current, fs) (current, fs')
  | readAll {current : Option StorageEngine} {fs fs' : Fs} {result : Except IoError (ReplayState N)}
      (hrun : directory.run (loadAll N).run fs = (result, fs')) :
      Happens (.readAll result) (current, fs) (current, fs')
  | killedInOpen {current : Option StorageEngine} {fs : Fs} {maxSegmentLen : ℕ}
      {visit : Visit fileSystem Fs}
      (hvisit : visit ∈ states (StorageEngine.withMaxSegmentLen N maxSegmentLen).run fs) :
      Happens (.killed none) (current, fs) (none, visit.state)
  | killedInCall {engine : StorageEngine} {fs : Fs} {command : Command N}
      {visit : Visit fileSystem Fs}
      (hvisit : visit ∈ states ((StorageEngine.call command).run engine) fs) :
      Happens (.killed (some command)) (some engine, fs) (none, visit.state)
  | powerLossInOpen {current : Option StorageEngine} {fs fs' : Fs} {maxSegmentLen : ℕ}
      {visit : Visit fileSystem Fs} (hnames : fs.syncDir = fs)
      (hvisit : visit ∈ states (StorageEngine.withMaxSegmentLen N maxSegmentLen).run fs)
      (hsurvivor : Survivor visit.state fs') :
      Happens (.powerLoss none) (current, fs) (none, fs')
  | powerLossInCall {engine : StorageEngine} {fs fs' : Fs} {command : Command N}
      {visit : Visit fileSystem Fs} (hnames : fs.syncDir = fs)
      (hvisit : visit ∈ states ((StorageEngine.call command).run engine) fs)
      (hsurvivor : Survivor visit.state fs') :
      Happens (.powerLoss (some command)) (some engine, fs) (none, fs')

variable (N) in
/-- The storage code as a transition system. -/
def implementation : System Situation (Observation N) := ⟨(· = (none, .empty)), Happens⟩

variable (N) in
/-- The situation stands for the store, up to the names that are not durable. -/
def Implements (situation : Situation) (store : NodeStore N) : Prop :=
  ∃ ledger : Ledger N, Represents situation.1 ledger situation.2.syncDir store

/-- What a program does, seen in the directory with all names durable. -/
theorem run_syncDir {α : Type} {p : Program fileSystem α} {value : α}
    (hrun : directory.run p fs = (value, fs')) :
    ∃ fs'', directory.run p fs.syncDir = (value, fs'') ∧ fs''.syncDir = fs'.syncDir := by
  obtain ⟨hvalue, halike⟩ := bisimulation_alike.run p (alike_syncDir fs).symm
  rw [hrun] at hvalue halike
  exact ⟨(directory.run p fs.syncDir).2, Prod.ext hvalue.symm rfl, halike.symm⟩

theorem states_syncDir {α : Type} {p : Program fileSystem α} {visit : Visit fileSystem Fs}
    (hvisit : visit ∈ states p fs) :
    ∃ visit' ∈ states p fs.syncDir, visit'.state.syncDir = visit.state.syncDir := by
  rcases List.mem_cons.mp hvisit with rfl | hvisit
  · exact ⟨_, List.mem_cons_self .., fs.syncDir_syncDir⟩
  · obtain ⟨visit', hvisit', -, halike⟩ := bisimulation_alike.visit (alike_syncDir fs).symm hvisit
    exact ⟨visit', List.mem_cons_of_mem _ hvisit', halike.symm⟩

/-- The engine implements the store. -/
theorem simulation_store : Simulation (implementation N) (NodeStore.system N) (Implements N) where
  initial := by
    rintro _ rfl
    refine ⟨NodeStore.empty N, rfl, ⟨[], 0⟩, ?_⟩
    exact represents_empty.syncDir
  step := by
    rintro label situation situation' store ⟨ledger, h⟩ hstep
    have hlinked : ActiveLinked ledger.journal situation.2.syncDir := activeLinked_syncDir _ _
    cases hstep with
    | opened hrun =>
      obtain ⟨fs'', hrun', hsame⟩ := run_syncDir hrun
      obtain ⟨store', ledger', hstep, hrepresents⟩ := h.reopen hlinked hrun'
      exact ⟨store', hstep, ledger', hsame ▸ hrepresents.syncDir⟩
    | answered hrun =>
      obtain ⟨fs'', hrun', hsame⟩ := run_syncDir hrun
      obtain ⟨store', ledger', hcalls, hrepresents⟩ := h.answered hrun'
      exact ⟨store', .answered h.serving hcalls, ledger', hsame ▸ hrepresents.syncDir⟩
    | @read current fs fs' nodeId result hrun =>
      obtain ⟨hunchanged, t, hresult⟩ := run_of_sees_syncDir (h.read nodeId)
      rw [hrun] at hunchanged hresult
      obtain rfl : fs' = fs := hunchanged
      obtain rfl : result = store.load nodeId := hresult
      exact ⟨store, .read, ledger, h⟩
    | @readAll current fs fs' result hrun =>
      obtain ⟨hunchanged, t, hresult⟩ := run_of_sees_syncDir h.readAll
      rw [hrun] at hunchanged hresult
      obtain rfl : fs' = fs := hunchanged
      exact ⟨store, .readAll hresult, ledger, h⟩
    | killedInOpen hvisit =>
      obtain ⟨visit', hvisit', hsame⟩ := states_syncDir hvisit
      obtain ⟨ledger', hholds, hstands⟩ := h.visit_open hlinked hvisit'
      obtain ⟨store', hinterrupted, hrepresents⟩ := hstands.killed hholds
      exact ⟨_, .killed (.inl rfl) hinterrupted, ledger', hsame ▸ hrepresents⟩
    | killedInCall hvisit =>
      obtain ⟨visit', hvisit', hsame⟩ := states_syncDir hvisit
      obtain ⟨ledger', hholds, hstands⟩ := h.visit_call hvisit'
      obtain ⟨store', hinterrupted, hrepresents⟩ := hstands.killed hholds
      exact ⟨_, .killed (.inr h.serving) hinterrupted, ledger', hsame ▸ hrepresents⟩
    | powerLossInOpen hnames hvisit hsurvivor =>
      simp only [hnames] at h hlinked
      obtain ⟨ledger', hholds, hstands⟩ := h.visit_open hlinked hvisit
      obtain ⟨store', count, left, hinterrupted, hrepresents⟩ := hstands.powerLoss hholds hsurvivor
      exact ⟨_, .powerLoss (.inl rfl) hinterrupted, left, hrepresents.syncDir⟩
    | powerLossInCall hnames hvisit hsurvivor =>
      simp only [hnames] at h
      obtain ⟨ledger', hholds, hstands⟩ := h.visit_call hvisit
      obtain ⟨store', count, left, hinterrupted, hrepresents⟩ := hstands.powerLoss hholds hsurvivor
      exact ⟨_, .powerLoss (.inr h.serving) hinterrupted, left, hrepresents.syncDir⟩

/-- Every history of the storage code is a history of the store. -/
theorem implementation_refines_store {history : List (Observation N)}
    (h : (implementation N).IsHistory history) : (NodeStore.system N).IsHistory history :=
  simulation_store.isHistory h

/-! ### A history with a power loss -/

/-- The calls return without a value, one after the other. -/
def answersDone : List (Command N) → StorageEngine → Fs → Option (StorageEngine × Fs)
  | [], engine, fs => some (engine, fs)
  | command :: rest, engine, fs =>
    match directory.run ((StorageEngine.answer command).run engine) fs with
    | ((.ok .done, engine'), fs') => answersDone rest engine' fs'
    | _ => none

theorem steps_answersDone {commands : List (Command N)}
    (h : answersDone commands engine fs = some (engine', fs')) :
    (implementation N).Steps (commands.map fun command ↦ .answered command (.ok .done))
      (some engine, fs) (some engine', fs') ∧ (fs.NamesDurable → fs'.NamesDurable) := by
  induction commands generalizing engine fs with
  | nil =>
    obtain ⟨rfl, rfl⟩ := Prod.mk.inj (Option.some.inj h)
    exact ⟨.refl _, id⟩
  | cons command rest ih =>
    rw [answersDone] at h
    split at h
    · next middle fs₁ hrun =>
      obtain ⟨hsteps, hkeeps⟩ := ih h
      have hnames := methodKeepsNames_answer command engine fs
      rw [hrun] at hnames
      exact ⟨.cons (.answered hrun) hsteps, fun hfs ↦ hkeeps (hnames hfs)⟩
    · cases h

/-- A node votes, syncs and is read. Then it votes again, the power is lost in the middle of a third
vote, and it is read after a reopen. -/
def votingHistory (first last : NodeState Noraft.ofLists) : List (Observation Noraft.ofLists) :=
  [.opened 64 (.ok ()), .answered (.createNode 1 ⟨true, ⟨"null"⟩⟩) (.ok .done),
    .answered (.saveVotedFor 1 (some 2)) (.ok .done), .answered .sync (.ok .done),
    .read 1 (.ok first), .answered (.saveVotedFor 1 (some 3)) (.ok .done),
    .powerLoss (some (.saveVotedFor 1 (some 4))), .opened 64 (.ok ()), .read 1 (.ok last)]

/-- All of this happens in an empty directory, and the second vote is read at the end. -/
def losesThirdVote : Bool :=
  let opened (fs : Fs) := directory.run (StorageEngine.withMaxSegmentLen Noraft.ofLists 64).run fs
  let loaded (fs : Fs) := directory.run (load Noraft.ofLists 1).run fs
  (opened .empty).1.toOption.any fun engine ↦
    (answersDone (N := Noraft.ofLists) [.createNode 1 ⟨true, ⟨"null"⟩⟩,
      .saveVotedFor 1 (some 2), .sync] engine (opened .empty).2).any fun synced ↦
    (loaded synced.2).1.toOption.any fun first ↦ decide (first.votedFor = some 2) &&
    (answersDone (N := Noraft.ofLists) [.saveVotedFor 1 (some 3)] synced.1 synced.2).any fun voted ↦
    (states ((StorageEngine.call (N := Noraft.ofLists) (.saveVotedFor 1 (some 4))).run voted.1)
      voted.2).any fun visit ↦ decide (visit.state.fileLen 2 = 9) &&
    (opened visit.state.durablePart).1.toOption.any fun _ ↦
    (loaded (opened visit.state.durablePart).2).1.toOption.any fun last ↦
      decide (last.votedFor = some 3)

theorem exists_votingHistory : ∃ first last, (implementation Noraft.ofLists).IsHistory
    (votingHistory first last) ∧ first.votedFor = some 2 ∧ last.votedFor = some 3 := by
  have hruns : losesThirdVote = true := by decide +kernel
  unfold losesThirdVote at hruns
  extract_lets opened loaded at hruns
  have hopened (fs : Fs) : directory.run (StorageEngine.withMaxSegmentLen _ 64).run fs =
      opened fs :=
    rfl
  have hloaded (fs : Fs) : directory.run (load _ 1).run fs = loaded fs := rfl
  clear_value opened loaded
  simp only [Option.any_eq_true, toOption_eq_some_iff, Bool.and_eq_true, decide_eq_true_eq,
    List.any_eq_true] at hruns
  obtain ⟨engine, hopen, ⟨engine₁, fs₁⟩, hsync, first, hfirst, hvote, ⟨engine₂, fs₂⟩, hvoted, visit,
    hvisit, -, engine₃, hreopen, last, hlast, hlastVote⟩ := hruns
  obtain ⟨hsynced, hsyncedNames⟩ := steps_answersDone hsync
  obtain ⟨hsecond, hsecondNames⟩ := steps_answersDone hvoted
  have hopenRun := (hopened .empty).trans
    (Prod.ext (x := opened .empty) (y := (.ok engine, _)) hopen rfl)
  have hstart : (implementation Noraft.ofLists).Steps _ (none, .empty) (some engine₁, fs₁) :=
    .cons (.opened hopenRun) hsynced
  obtain ⟨_, -, himplements⟩ := simulation_store.initial (none, .empty) rfl
  -- a read leaves the directory as it is
  obtain ⟨_, -, ledger, hrepresents⟩ := simulation_store.steps hstart himplements
  have hrecoverable := hrepresents.holds.recoverable
  obtain ⟨registry, hregistry⟩ := hrecoverable.registries _ (.inl rfl)
  have hkept := (run_of_sees_syncDir (load_recovered (t := 0) hrecoverable hregistry 1)).1
  have hread : loaded fs₁ = (.ok first, fs₁) := Prod.ext hfirst (hloaded fs₁ ▸ hkept)
  have hbefore := hstart.append (.cons (.read ((hloaded fs₁).trans hread)) hsecond)
  -- all names are durable before the third vote
  have hnames : fs₂.syncDir = fs₂ := by
    have hopenNames := @keepsNames_withMaxSegmentLen Noraft.ofLists 64 .empty
      (Fs.namesDurable_iff.mpr Fs.syncDir_empty)
    rw [hopenRun] at hopenNames
    exact Fs.namesDurable_iff.mp (hsecondNames (hsyncedNames hopenNames))
  obtain ⟨_, -, ledger₂, hrepresents₂⟩ := simulation_store.steps hbefore himplements
  simp only [hnames] at hrepresents₂
  obtain ⟨ledger₃, hholds, -⟩ := hrepresents₂.visit_call hvisit
  have hsurvivor := survivor_durablePart fun _ _ hfile ↦
    hholds.recoverable.toStored.synced_le hfile
  have hagain := (hopened _).trans (Prod.ext (x := opened _) (y := (.ok engine₃, _)) hreopen rfl)
  exact ⟨first, last, ⟨_, _, rfl, hbefore.append (.cons (.powerLossInCall hnames hvisit hsurvivor)
    (.cons (.opened hagain) (.cons (.read ((hloaded _).trans (Prod.ext hlast rfl))) (.refl _))))⟩,
    hvote, hlastVote⟩

/-- Also the abstract store can lose the third vote and keep the second. -/
theorem implementation_refines_store_voting : ∃ first last,
    (NodeStore.system Noraft.ofLists).IsHistory (votingHistory first last) ∧
      first.votedFor = some 2 ∧ last.votedFor = some 3 := by
  obtain ⟨first, last, hhistory, hvotes⟩ := exists_votingHistory
  exact ⟨first, last, implementation_refines_store hhistory, hvotes⟩

end Sukari
