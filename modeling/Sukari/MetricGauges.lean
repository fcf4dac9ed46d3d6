import Sukari.CountedCalls
import Sukari.Rotation
import Sukari.Runs

/-!
# What the gauges say

Between calls the gauges of the metrics say what the engine has in memory: how many nodes are active
and how many are removed, how many checkpoints the index has, and which segment is active at which
length (`Gauged`). Opening the directory sets them (`returns_withMaxSegmentLen`), and every call
keeps them right, whether it succeeds or is refused or its write fails (`preserves_call`), whatever
the replies of the file system are. So they are current in every session (`gauges_current`). A
session is a run of events of an application, with the metrics (`session_performs`).
-/

set_option autoImplicit false
set_option relaxedAutoImplicit false

namespace Sukari

open Effects StorageMetricsCounters

variable {N : Noraft} {α β σ : Type}

/-- The gauges show these numbers of nodes, and what the writer has. -/
structure MetricGauges.Show (gauges : MetricGauges)
    (activeNodes removedNodes checkpointIndexNodes : ℕ)
    (writer : SegmentWriter) : Prop where
  activeNodes : gauges.activeNodes = activeNodes
  removedNodes : gauges.removedNodes = removedNodes
  checkpointIndexNodes : gauges.checkpointIndexNodes = checkpointIndexNodes
  activeAppendSegmentId : gauges.activeAppendSegmentId = writer.activeSegment
  activeAppendSegmentLenBytes : gauges.activeAppendSegmentLenBytes = writer.segmentLen

/-- The gauges say what the engine has in memory. -/
def CountedEngine.Gauged (counted : CountedEngine) : Prop :=
  counted.metrics.gauges.Show counted.registry.activeNodeCount counted.registry.removedNodeCount
    counted.checkpointIndex.len counted.writer

/-! ### Functions that leave the state alone -/

section Steps

variable {P : σ → Prop}

theorem returns_liftIo {m : σ} (action : IoM α) :
    Program.Returns (fun out ↦ out.2 = m) ((liftIo action).run m : Program fileSystem _) :=
  (Program.Returns.any action.run).bind fun _ _ ↦ rfl

theorem preserves_liftIo (action : IoM α) : Preserves P (liftIo action) :=
  fun _ hm ↦ (returns_liftIo action).mono fun _ hsame ↦ hsame ▸ hm

theorem preserves_failIf (condition : Prop) [Decidable condition] (error : IoError) :
    Preserves P (failIf condition error : MethodM σ Unit) := by
  unfold failIf
  split <;> exact .done _

theorem preserves_onlyIf (condition : Prop) [Decidable condition] {action : MethodM σ Unit}
    (h : Preserves P action) : Preserves P (onlyIf condition action) := by
  unfold onlyIf
  split
  · exact h
  · exact .done _

/-- The method succeeds and leaves such a state, whatever the replies are. -/
def Succeeding (P : σ → Prop) (action : MethodM σ α) (m : σ) : Prop :=
  Program.Returns (fun out ↦ Succeeds out.1 ∧ P out.2) (action.run m : Program fileSystem _)

theorem Succeeding.bind {action : MethodM σ α} {next : α → MethodM σ β} {m : σ}
    {post : Except IoError β × σ → Prop} (h : Succeeding P action m)
    (hnext : ∀ value m', P m' → Program.Returns post ((next value).run m' : Program fileSystem _)) :
    Program.Returns post ((action >>= next).run m : Program fileSystem _) :=
  Program.Returns.bindMethod h (fun _ _ hout ↦ hout.1.elim) fun value m' hout ↦
    hnext value m' hout.2

theorem succeeding_get {m : σ} (h : P m) : Succeeding P get m := ⟨trivial, h⟩

theorem succeeding_modify {update : σ → σ} {m : σ} (h : P (update m)) :
    Succeeding P (modify update : MethodM σ PUnit) m := ⟨trivial, h⟩

theorem succeeding_liftIo {action : IoM α} {m : σ} (h : action.run.Returns Succeeds) (hm : P m) :
    Succeeding P (liftIo action) m :=
  h.bind fun _ hresult ↦ ⟨hresult, hm⟩

end Steps

/-! ### The writer -/

namespace CountedWriter

variable {activeNodes removedNodes checkpointIndexNodes : ℕ}

/-- The gauges of the segment say what the writer has. -/
def Shows (activeNodes removedNodes checkpointIndexNodes : ℕ) (s : CountedWriter) : Prop :=
  s.metrics.gauges.Show activeNodes removedNodes checkpointIndexNodes s.writer

theorem preserves_syncCurrentSegment :
    Preserves (Shows activeNodes removedNodes checkpointIndexNodes) syncCurrentSegment :=
  .read fun _ ↦ (preserves_liftIo _).bind fun _ ↦ .write fun _ h ↦
    ⟨h.activeNodes, h.removedNodes, h.checkpointIndexNodes, h.activeAppendSegmentId,
      h.activeAppendSegmentLenBytes⟩

theorem preserves_sync : Preserves (Shows activeNodes removedNodes checkpointIndexNodes) sync :=
  .read fun _ ↦ preserves_onlyIf _ preserves_syncCurrentSegment

theorem preserves_rotate : Preserves (Shows activeNodes removedNodes checkpointIndexNodes) rotate :=
  preserves_syncCurrentSegment.bind fun _ ↦ .read fun _ ↦ Preserves.bind (.done _) fun _ ↦
    (preserves_liftIo _).bind fun _ ↦ (preserves_liftIo _).bind fun _ ↦
      .write fun _ h ↦ ⟨h.activeNodes, h.removedNodes, h.checkpointIndexNodes, rfl, rfl⟩

theorem preserves_writeFrame (kind : RecordKindMetric) (frame : List UInt8) :
    Preserves (Shows activeNodes removedNodes checkpointIndexNodes) (writeFrame kind frame) :=
  .read fun _ ↦ (preserves_liftIo _).bind fun _ ↦ (preserves_failIf _ _).bind fun _ ↦
    Preserves.bind (.write fun _ h ↦ ⟨h.activeNodes, h.removedNodes, h.checkpointIndexNodes,
      h.activeAppendSegmentId, rfl⟩) fun _ ↦ .done _

theorem preserves_append (nodeId : NodeId) (record : Record N) :
    Preserves (Shows activeNodes removedNodes checkpointIndexNodes) (append nodeId record) :=
  Preserves.bind (.done _) fun _ ↦ .read fun _ ↦ (preserves_onlyIf _ preserves_rotate).bind fun _ ↦
    preserves_writeFrame _ _

end CountedWriter

/-! ### Events of an application -/

/-- What an application has after its calls. -/
def madeCalls (accepted : List (NodeId × Record N)) (out : List (Call N) × CountedEngine) :
    Session N :=
  ⟨some out.2.engine,
    accepted ++ out.1.flatMap fun call ↦ acceptedRecords call.command.records call.result⟩

theorem performEvents_closed (commands : List (Command N)) :
    performEvents (commands.map .call) .closed = .done (.closed : Session N) := by
  induction commands with
  | nil => rfl
  | cons command rest ih => exact ih

/-! ### The engine -/

namespace CountedEngine

variable {activeNodes removedNodes checkpointIndexNodes : ℕ}

/-- The gauges show these numbers of nodes, and what the writer has. -/
def Shows (activeNodes removedNodes checkpointIndexNodes : ℕ) (counted : CountedEngine) : Prop :=
  counted.metrics.gauges.Show activeNodes removedNodes checkpointIndexNodes counted.writer

theorem preserves_onWriter {action : CountedWriterM α}
    (h : ∀ activeNodes removedNodes checkpointIndexNodes,
      Preserves (CountedWriter.Shows activeNodes removedNodes checkpointIndexNodes) action) :
    Preserves Gauged (onWriter action) :=
  fun counted hgauged ↦ (h _ _ _ ⟨counted.writer, counted.metrics⟩ hgauged).bind fun _ hout ↦ hout

/-- Loads leave the gauges as they are. -/
theorem preserves_onMetrics {action : CountedM α} {plain : IoM α}
    (h : ∀ metrics, Unmetered metrics action plain) : Preserves Gauged (onMetrics action) := by
  intro counted hgauged
  refine (h counted.metrics).returns.bind fun out hsame ↦ ?_
  change out.2.gauges.Show _ _ _ _
  rw [hsame]
  exact hgauged

/-- The property is not about the counters. -/
def CounterBlind (P : CountedEngine → Prop) : Prop :=
  ∀ counted name value, P counted →
    P { counted with metrics := counted.metrics.increase name value }

theorem counterBlind_gauged : CounterBlind Gauged := by
  intro counted name value h
  unfold Gauged
  rw [gauges_increase]
  exact h

theorem counterBlind_shows :
    CounterBlind (Shows activeNodes removedNodes checkpointIndexNodes) := by
  intro counted name value h
  unfold Shows
  rw [gauges_increase]
  exact h

theorem CounterBlind.preserves_count {P : CountedEngine → Prop} (h : CounterBlind P)
    (name : CounterName) (value : ℕ) :
    Preserves P (count fun metrics ↦ metrics.increase name value) :=
  .write fun counted hcounted ↦ h counted name value hcounted

theorem CounterBlind.preserves_collectGarbage {P : CountedEngine → Prop} (h : CounterBlind P) :
    Preserves P collectGarbage := by
  refine (h.preserves_count .gcRuns 1).bind fun _ ↦ .read fun counted ↦ ?_
  cases counted.checkpointIndex.gcBarrier counted.registry.activeNodeIds with
  | none => exact .done _
  | some barrier =>
    exact (preserves_liftIo _).bind fun segments ↦ (preserves_liftIo _).bind fun deleted ↦
      (preserves_onlyIf _ (h.preserves_count .gcSegmentsDeleted deleted)).bind fun _ ↦
        preserves_onlyIf _ (preserves_liftIo _)

theorem preserves_ensureNodeExists (nodeId : NodeId) (operation : StorageOperationKind) :
    Preserves Gauged (ensureNodeExists nodeId operation) := by
  refine .read fun counted ↦ ?_
  have hreject (error : NodeAccessErrorKind) (value : IoError) :
      Preserves Gauged (do
        count fun metrics ↦ metrics.rejectedOperation operation error
        throw value : CountedEngineM Unit) := by
    simp only [rejectedOperation_eq]
    exact (counterBlind_gauged.preserves_count (.rejectedOperations error operation) 1).bind
      fun _ ↦ .done _
  dsimp only
  split
  · exact .done _
  · split
    · exact hreject .removedNode nodeRemovedError
    · exact hreject .unknownNode nodeNotFoundError

theorem preserves_createNode (nodeId : NodeId) (metadata : NodeMetadata) :
    Preserves Gauged (createNode N nodeId metadata) := by
  refine .read fun counted ↦ Preserves.bind (.done _) fun registry ↦
    (preserves_onWriter fun _ _ _ ↦ CountedWriter.preserves_append nodeId _).bind fun _ ↦
      (preserves_onWriter fun _ _ _ ↦ CountedWriter.preserves_sync).bind fun _ ↦ .read fun _ ↦
        (preserves_liftIo _).bind fun _ ↦ (preserves_liftIo _).bind fun _ counted h ↦ ?_
  exact ⟨rfl, rfl, rfl, h.activeAppendSegmentId, h.activeAppendSegmentLenBytes⟩

theorem preserves_saveRecord (nodeId : NodeId) (record : Record N)
    (operation : StorageOperationKind) :
    Preserves Gauged (saveRecord nodeId record operation) :=
  (preserves_ensureNodeExists nodeId operation).bind fun _ ↦
    (preserves_onWriter fun _ _ _ ↦ CountedWriter.preserves_append nodeId record).bind fun _ ↦
      .done _

/-- The index is new in memory and the gauge is not, until it is refreshed. -/
theorem preserves_checkpointIndex {rest : CountedEngineM α} (checkpointIndex : CheckpointIndex)
    (h : Preserves Gauged rest) : Preserves Gauged (do
      modify fun engine ↦ { engine with checkpointIndex := checkpointIndex }
      refreshCheckpointIndexMetrics
      rest : CountedEngineM α) := by
  intro counted hgauged
  exact h { counted with
    checkpointIndex := checkpointIndex
    metrics := counted.metrics.checkpointIndexChanged checkpointIndex.len }
    ⟨hgauged.activeNodes, hgauged.removedNodes, rfl, hgauged.activeAppendSegmentId,
      hgauged.activeAppendSegmentLenBytes⟩

theorem preserves_saveSnapshot (nodeId : NodeId) (checkpoint : SnapshotCheckpoint N) :
    Preserves Gauged (saveSnapshot nodeId checkpoint) :=
  (preserves_ensureNodeExists nodeId .saveSnapshot).bind fun _ ↦ Preserves.bind (.done _) fun _ ↦
    (preserves_onWriter fun _ _ _ ↦ CountedWriter.preserves_append nodeId _).bind fun _ ↦
      (preserves_onWriter fun _ _ _ ↦ CountedWriter.preserves_sync).bind fun _ ↦ .read fun _ ↦
        (preserves_liftIo _).bind fun _ ↦ preserves_checkpointIndex _
          (counterBlind_gauged.preserves_collectGarbage.bind fun _ ↦
            counterBlind_gauged.preserves_count .snapshotCheckpointsSaved 1)

/-- Garbage collection does not fail. -/
theorem succeeding_collectGarbage {P : CountedEngine → Prop} {counted : CountedEngine}
    (h : CounterBlind P) (hcounted : P counted) : Succeeding P collectGarbage counted := by
  have hsucceeds : Succeeding (fun _ ↦ True) collectGarbage counted :=
    (Program.Spends.returns counts_collectGarbage).mono fun out hout ↦ by
      obtain ⟨cost, added, hadded, -⟩ := hout
      exact ⟨hadded.1, trivial⟩
  exact (Program.Returns.and hsucceeds (h.preserves_collectGarbage counted hcounted)).mono
    fun _ hout ↦ ⟨hout.1.1, hout.2⟩

theorem returns_save_index (index : CheckpointIndex) : index.save.run.Returns Succeeds :=
  fun _ _ ↦ trivial

/-- The gauges lag behind the registry and the index until nothing can fail any more. -/
theorem preserves_removeNode (nodeId : NodeId) : Preserves Gauged (removeNode nodeId) := by
  refine (preserves_ensureNodeExists nodeId .removeNode).bind fun _ ↦ .read fun _ ↦
    Preserves.bind (.done _) fun registry ↦ (preserves_liftIo _).bind fun _ counted hgauged ↦ ?_
  have hregistry : Succeeding (Shows counted.registry.activeNodeCount
      counted.registry.removedNodeCount counted.checkpointIndex.len)
      (modify fun engine ↦ { engine with registry := registry } : CountedEngineM PUnit) counted :=
    succeeding_modify hgauged
  refine hregistry.bind fun _ counted hshows ↦ (succeeding_get hshows).bind
    fun engine counted hshows ↦ (succeeding_liftIo (returns_save_index _) hshows).bind
      fun _ counted hshows ↦ ?_
  have hindex : Succeeding (Shows _ _ _) (modify fun engine' ↦ { engine' with
      checkpointIndex := engine.checkpointIndex.removeNode nodeId } : CountedEngineM PUnit)
        counted :=
    succeeding_modify hshows
  refine hindex.bind fun _ counted hshows ↦
    (succeeding_collectGarbage counterBlind_shows hshows).bind fun _ counted hshows ↦ ?_
  exact ⟨rfl, rfl, rfl, hshows.activeAppendSegmentId, hshows.activeAppendSegmentLenBytes⟩

theorem preserves_load (nodeId : NodeId) : Preserves Gauged (load N nodeId) :=
  (preserves_ensureNodeExists nodeId .load).bind fun _ ↦ .read fun _ ↦
    preserves_onMetrics fun _ ↦ Counted.replayNodeState_unmetered _ _ _ _

theorem preserves_loadAll : Preserves Gauged (loadAll N) := by
  refine .read fun counted ↦ ?_
  dsimp only
  split
  · exact .done _
  · exact (preserves_onMetrics fun _ ↦ Counted.replayStorageDir_unmetered _ _ _ _).bind fun _ ↦
      .done _

/-- Every call keeps the gauges right, whether it succeeds or not. -/
theorem preserves_call (command : Command N) : Preserves Gauged (call command) := by
  cases command with
  | createNode nodeId metadata => exact preserves_createNode nodeId metadata
  | removeNode nodeId => exact preserves_removeNode nodeId
  | saveCurrentTerm nodeId term => exact preserves_saveRecord nodeId _ _
  | saveVotedFor nodeId votedFor => exact preserves_saveRecord nodeId _ _
  | appendEntries nodeId append => exact preserves_saveRecord nodeId _ _
  | saveSnapshot nodeId checkpoint => exact preserves_saveSnapshot nodeId checkpoint
  | sync =>
    exact (counterBlind_gauged.preserves_count .syncs 1).bind fun _ ↦
      preserves_onWriter fun _ _ _ ↦ CountedWriter.preserves_sync
  | load nodeId => exact (preserves_load nodeId).bind fun _ ↦ .done _
  | loadAll => exact preserves_loadAll.bind fun _ ↦ .done _

theorem preserves_answer (command : Command N) : Preserves Gauged (answer command) := by
  cases command with
  | load nodeId => exact (preserves_load nodeId).bind fun _ ↦ .done _
  | loadAll => exact preserves_loadAll.bind fun _ ↦ .done _
  | createNode | removeNode | saveCurrentTerm | saveVotedFor | appendEntries
  | saveSnapshot | sync =>
    exact (preserves_call _).bind fun _ ↦ .done _

theorem returns_makeCalls (commands : List (Command N)) {counted : CountedEngine}
    (h : counted.Gauged) :
    Program.Returns (fun out ↦ out.2.Gauged) (makeCalls registry answer commands counted) := by
  induction commands generalizing counted with
  | nil => exact h
  | cons command rest ih =>
    exact (preserves_answer command counted h).bind fun out hout ↦
      (ih hout).bind fun _ hlater ↦ hlater

/-! ### Opening -/

theorem returns_new (activeSegment maxSegmentLen : ℕ) (metrics : StorageMetricsCounters) :
    Program.Returns (fun out ↦ ∀ writer, out.1 = .ok writer →
        out.2 = metrics.segmentOpened writer.activeSegment writer.segmentLen)
      ((CountedWriter.new activeSegment maxSegmentLen).run metrics : Program fileSystem _) := by
  refine (returns_liftIo _).bindMethod (fun _ _ _ _ herror ↦ by cases herror)
    fun writer _ hsame ↦ ?_
  rintro writer' ⟨⟩
  exact congrArg (fun metrics : StorageMetricsCounters ↦
    metrics.segmentOpened writer.activeSegment writer.segmentLen) hsame

/-- The opening behind its recovery: all gauges are set, and nothing is counted. -/
theorem returns_opened (activeSegment maxSegmentLen : ℕ) (metrics : StorageMetricsCounters) :
    Program.Returns (fun out ↦ ∀ counted, out.1 = .ok counted →
        counted.Gauged ∧ counted.metrics.counter = metrics.counter)
      ((do
        let registry ← liftIo NodeRegistry.load
        let checkpointIndex ← liftIo (CheckpointIndex.load N registry)
        modify fun metrics ↦
          metrics.nodeCountsChanged registry.activeNodeCount registry.removedNodeCount
        modify fun metrics ↦ metrics.checkpointIndexChanged checkpointIndex.len
        let writer ← CountedWriter.new activeSegment maxSegmentLen
        let metrics ← get
        return ⟨metrics, registry, checkpointIndex, writer⟩ : CountedM CountedEngine).run metrics :
          Program fileSystem _) := by
  refine (returns_liftIo _).bindMethod (fun _ _ _ _ herror ↦ by cases herror)
    fun registry read hread ↦
    (returns_liftIo _).bindMethod (fun _ _ _ _ herror ↦ by cases herror)
      fun checkpointIndex loaded hloaded ↦ ?_
  have hnodes : Succeeding (fun metrics ↦ metrics = loaded.nodeCountsChanged
      registry.activeNodeCount registry.removedNodeCount) (modify fun metrics ↦
        metrics.nodeCountsChanged registry.activeNodeCount registry.removedNodeCount :
          CountedM PUnit) loaded := succeeding_modify rfl
  refine hnodes.bind fun _ counts hcounts ↦ ?_
  have hindex : Succeeding (fun metrics ↦ metrics = counts.checkpointIndexChanged
      checkpointIndex.len)
        (modify fun metrics ↦ metrics.checkpointIndexChanged checkpointIndex.len :
        CountedM PUnit) counts := succeeding_modify rfl
  refine hindex.bind fun _ checked hchecked ↦ (returns_new activeSegment maxSegmentLen
    checked).bindMethod (fun _ _ _ _ herror ↦ by cases herror) fun writer opened hopened ↦ ?_
  rintro counted ⟨⟩
  obtain rfl := hopened writer rfl
  obtain rfl := hchecked
  obtain rfl := hcounts
  obtain rfl := hloaded
  obtain rfl := hread
  exact ⟨⟨rfl, rfl, rfl, rfl, rfl⟩, rfl⟩

theorem returns_recovered (activeSegment maxSegmentLen : ℕ) (metrics : StorageMetricsCounters) :
    Program.Returns (fun out ↦ ∀ counted, out.1 = .ok counted → counted.Gauged)
      ((recovered N activeSegment maxSegmentLen).run metrics : Program fileSystem _) :=
  (Program.Returns.any _).bindMethod (fun _ _ _ _ herror ↦ by cases herror) fun _ metrics _ ↦
    (returns_opened activeSegment maxSegmentLen metrics).mono
      fun _ hout counted hcounted ↦ (hout counted hcounted).1

theorem returns_withMaxSegmentLen (maxSegmentLen : ℕ) :
    (withMaxSegmentLen N maxSegmentLen).run.Returns
      fun result ↦ ∀ counted, result = .ok counted → counted.Gauged := by
  refine (Program.Returns.any _).bindExcept (fun _ _ _ herror ↦ by cases herror) fun _ _ ↦
    (Program.Returns.any _).bindExcept (fun _ _ _ herror ↦ by cases herror) fun activeSegment _ ↦ ?_
  exact (returns_recovered activeSegment maxSegmentLen .default).bind fun _ hout ↦ hout

variable (N) in
/-- An application opens the directory and makes calls. -/
def session (maxSegmentLen : ℕ) (commands : List (Command N)) :
    IoM (List (Call N) × CountedEngine) := do
  let counted ← withMaxSegmentLen N maxSegmentLen
  ExceptT.lift (makeCalls registry answer commands counted)

/-- A call is its answer without the value. -/
theorem answer_maps_call (command : Command N) (engine : StorageEngine) :
    Program.Maps (fun out ↦ (Except.map (fun _ ↦ ()) out.1, out.2))
      ((StorageEngine.answer command).run engine : Program fileSystem _)
      ((StorageEngine.call command).run engine) := by
  have hmaps {α : Type} (action : EngineM α) (f : α → Answer N) :
      Program.Maps (fun out ↦ (Except.map (fun _ ↦ ()) out.1, out.2))
        ((action >>= fun value ↦ pure (f value)).run engine : Program fileSystem _)
        ((action >>= fun _ ↦ pure ()).run engine) := by
    rw [run_bindMethod, run_bindMethod, Program.Maps, Program.bind_assoc]
    refine congrArg _ (funext fun out ↦ ?_)
    obtain ⟨result, engine'⟩ := out
    cases result <;> rfl
  have hdone (command : Command N) := hmaps (StorageEngine.call command) fun _ ↦ .done
  simp only [bind_pure_unit] at hdone
  cases command with
  | load | loadAll => exact hmaps _ _
  | createNode | removeNode | saveCurrentTerm | saveVotedFor | appendEntries
  | saveSnapshot | sync =>
    exact hdone _

/-- Calls are events of an application. -/
theorem makeCalls_performs (commands : List (Command N)) (counted : CountedEngine)
    (accepted : List (NodeId × Record N)) :
    Program.Maps (madeCalls accepted) (makeCalls registry answer commands counted)
      (performEvents (commands.map .call) ⟨some counted.engine, accepted⟩) := by
  induction commands generalizing counted accepted with
  | nil =>
    have hnone : madeCalls accepted ([], counted) = ⟨some counted.engine, accepted⟩ := by
      rw [madeCalls, List.flatMap_nil, List.append_nil]
    exact congrArg Program.done hnone
  | cons command rest ih =>
    have hevents :
        performEvents (List.map .call (command :: rest)) ⟨some counted.engine, accepted⟩ =
        ((StorageEngine.call command).run counted.engine : Program fileSystem _) >>= fun out ↦
          performEvents (rest.map .call)
            ⟨some out.2, accepted ++ acceptedRecords command.records out.1⟩ :=
      Program.bind_assoc _ _ _
    rw [hevents]
    have hanswer : Erases engine counted (answer command) (StorageEngine.answer command) :=
      answer_erases command
    have hfirst := Program.Maps.comp hanswer (answer_maps_call command counted.engine)
    refine Program.Maps.bind hfirst fun out ↦ ?_
    have haccepted : acceptedRecords command.records (Except.map (fun _ ↦ ()) out.1) =
        acceptedRecords command.records out.1 := by
      cases out.1 <;> rfl
    rw [haccepted]
    have hlater (later : List (Call N) × CountedEngine) :
        madeCalls accepted (⟨counted.registry, command, out.1⟩ :: later.1, later.2) =
          madeCalls (accepted ++ acceptedRecords command.records out.1) later := by
      rw [madeCalls, madeCalls, List.flatMap_cons, List.append_assoc]
    rw [← ih out.2, Program.Maps, Program.bind_assoc]
    exact congrArg _ (funext fun later ↦ congrArg Program.done (hlater later))

/-- An opening and the calls behind it are events of an application. -/
theorem session_performs (maxSegmentLen : ℕ) (commands : List (Command N)) :
    Program.Maps (fun result ↦ result.toOption.elim .closed (madeCalls []))
      (session N maxSegmentLen commands).run
      (performEvents (.start maxSegmentLen :: commands.map .call) .closed) := by
  have hevents : performEvents (.start maxSegmentLen :: commands.map .call) (.closed : Session N) =
      (StorageEngine.withMaxSegmentLen N maxSegmentLen).run >>= fun result ↦
        performEvents (commands.map .call) ⟨result.toOption, []⟩ :=
    Program.bind_assoc _ _ _
  rw [hevents, session, run_bindExcept]
  refine Program.Maps.bind (withMaxSegmentLen_erases maxSegmentLen) fun result ↦ ?_
  cases result with
  | error error => exact (performEvents_closed commands).symm
  | ok counted =>
    have hengine : (Except.map engine (Except.ok counted : Except IoError CountedEngine)).toOption =
        some counted.engine := rfl
    rw [hengine, ← makeCalls_performs commands counted []]
    exact Program.bind_assoc _ _ _

/-- After the opening and after each call, whatever its result is, the gauges say what the engine
has in memory. -/
theorem gauges_current {τ : Type} {maxSegmentLen : ℕ} {commands : List (Command N)}
    {M : Machine fileSystem τ} {s s' : τ} {history : List (Call N)} {counted : CountedEngine}
    (hrun : M.run (session N maxSegmentLen commands).run s = (.ok (history, counted), s')) :
    counted.metrics.activeNodes = counted.registry.activeNodeCount ∧
      counted.metrics.removedNodes = counted.registry.removedNodeCount ∧
      counted.metrics.checkpointIndexNodes = counted.checkpointIndex.len ∧
      counted.metrics.activeAppendSegmentId = counted.writer.activeSegment ∧
      counted.metrics.activeAppendSegmentLenBytes = counted.writer.segmentLen := by
  have hreturns : (session N maxSegmentLen commands).run.Returns
      fun result ↦ ∀ out, result = .ok out → out.2.Gauged := by
    refine (returns_withMaxSegmentLen maxSegmentLen).bindExcept (fun _ _ _ herror ↦ by cases herror)
      fun opened hopened ↦ (returns_makeCalls commands (hopened opened rfl)).bind fun out hout ↦ ?_
    rintro _ ⟨⟩
    exact hout
  have hgauged := hreturns.run M s
  rw [hrun] at hgauged
  obtain ⟨hactive, hremoved, hindex, hsegment, hlen⟩ := hgauged _ rfl
  exact ⟨hactive, hremoved, hindex, hsegment, hlen⟩

/-- An empty directory can be opened. -/
theorem exists_opening_empty (N : Noraft) {maxSegmentLen : ℕ} (hmax : maxSegmentLen ≠ 0) :
    ∃ counted fs, directory.run (withMaxSegmentLen N maxSegmentLen).run .empty =
      (.ok counted, fs) := by
  have herases := (@withMaxSegmentLen_erases N maxSegmentLen).run directory .empty
  rw [run_open_empty N hmax] at herases
  cases hopen : directory.run (withMaxSegmentLen N maxSegmentLen).run .empty with
  | mk result fs =>
    rw [hopen] at herases
    cases result with
    | error error => cases herases
    | ok counted => exact ⟨counted, fs, rfl⟩

/-- The calls of a session that begins in an empty directory are made. -/
theorem exists_session {maxSegmentLen : ℕ} (hmax : maxSegmentLen ≠ 0)
    (commands : List (Command N)) :
    ∃ history counted fs, directory.run (session N maxSegmentLen commands).run .empty =
      (.ok (history, counted), fs) := by
  obtain ⟨counted, fs, hopen⟩ := exists_opening_empty N hmax
  have hcalls : directory.run (session N maxSegmentLen commands).run .empty = directory.run
      (makeCalls registry answer commands counted >>= fun out ↦ .done (.ok out)) fs :=
    Machine.run_bindExcept_ok hopen
  rw [Machine.run_bind] at hcalls
  exact ⟨_, _, _, hcalls⟩

/-- One call after the opening. -/
theorem gauges_current_creating : ∃ (history : List (Call Noraft.ofLists)) (counted : CountedEngine)
    (fs : Fs), directory.run (session Noraft.ofLists 64
        [.createNode 1 ⟨true, ⟨"\x7b\x7d"⟩⟩]).run .empty = (.ok (history, counted), fs) ∧
      counted.metrics.activeNodes = counted.registry.activeNodeCount ∧
      counted.metrics.removedNodes = counted.registry.removedNodeCount ∧
      counted.metrics.checkpointIndexNodes = counted.checkpointIndex.len ∧
      counted.metrics.activeAppendSegmentId = counted.writer.activeSegment ∧
      counted.metrics.activeAppendSegmentLenBytes = counted.writer.segmentLen := by
  have hmax : 64 ≠ 0 := by decide
  obtain ⟨history, counted, fs, hrun⟩ := exists_session hmax
    [.createNode (N := Noraft.ofLists) 1 ⟨true, ⟨"\x7b\x7d"⟩⟩]
  exact ⟨history, counted, fs, hrun, gauges_current hrun⟩

end CountedEngine

end Sukari
