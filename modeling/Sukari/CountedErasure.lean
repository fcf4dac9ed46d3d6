import Sukari.CountedEngine
import Sukari.Effects.Accounting
import Sukari.Recovery

/-!
# The engine without its metrics

The counters never change what the engine does. Without them the engine with all its metrics is the
engine of the other modules: it makes the same requests, whatever the replies are, and returns the
same results (`call_erases`, `withMaxSegmentLen_erases`). The two gauges of unsynchronized records
are the only metrics that the code reads.
-/

set_option autoImplicit false
set_option relaxedAutoImplicit false

namespace Sukari

open Effects StorageMetricsCounters

variable {N : Noraft} {α β σ : Type} {metrics : StorageMetricsCounters}

/-- The function makes no use of the metrics and leaves the gauges as they are. -/
abbrev Unmetered (metrics : StorageMetricsCounters) (action : CountedM α) (plain : IoM α) : Prop :=
  ErasesAll gauges metrics action plain

theorem erasesAll_liftIo {τ : Type} {π : σ → τ} {m : σ} (action : IoM α) :
    ErasesAll π m (liftIo action) action := by
  unfold ErasesAll Program.Maps
  change (action.run >>= fun result ↦ Program.done (result, m)) >>= _ = _
  rw [Program.bind_assoc]
  rfl

theorem unmetered_liftM (result : Except IoError α) :
    Unmetered metrics (liftM result : CountedM α) (liftM result : IoM α) := .done result

theorem liftM_bindExcept (result : Except IoError α) (next : α → Except IoError β) :
    (liftM (result >>= next) : IoM β) = (liftM result : IoM α) >>= fun value ↦
      liftM (next value) := by
  cases result <;> rfl

theorem maps_bindExcept {γ : Type} {h : β → γ} {action : IoM α} {next : α → IoM β}
    {next' : α → IoM γ}
    (hnext : ∀ value, Program.Maps (Except.map h) (next value).run (next' value).run) :
    Program.Maps (Except.map h) (action >>= next).run (action >>= next').run := by
  rw [run_bindExcept, run_bindExcept]
  refine (Program.Maps.refl _).bind fun result ↦ ?_
  cases result with
  | error error => rfl
  | ok value => exact hnext value

namespace Counted

/-! ### Reading a segment -/

theorem checkChecksum_unmetered (actual expected : ℕ) :
    Unmetered metrics (checkChecksum actual expected)
      (liftM (failIf (actual ≠ expected) (invalidData "segment record checksum mismatch") :
        Except IoError Unit)) := by
  unfold checkChecksum failIf
  split
  · exact .count (gauges_increase _ _ _) (.done _)
  · exact .done _

theorem readRecordBody_unmetered (stream : Stream) :
    Unmetered metrics (readRecordBody stream) (liftM (Sukari.readRecordBody stream)) := by
  unfold readRecordBody Sukari.readRecordBody
  rw [liftM_bindExcept]
  refine .bind (unmetered_liftM _) fun header metrics ↦ ?_
  rcases header with _ | ⟨⟨bodyLen, expectedChecksum⟩, stream⟩
  · exact .done _
  · dsimp only
    split
    · exact .done _
    · rw [liftM_bindExcept]
      exact .bind (checkChecksum_unmetered _ _) fun _ _ ↦ .done _

theorem scanRecordFrame_unmetered (stream : Stream) :
    Unmetered metrics (scanRecordFrame stream) (liftM (Sukari.scanRecordFrame stream)) := by
  unfold scanRecordFrame Sukari.scanRecordFrame
  rw [liftM_bindExcept]
  refine .bind (unmetered_liftM _) fun header metrics ↦ ?_
  rcases header with _ | ⟨⟨bodyLen, expectedChecksum⟩, stream⟩
  · exact .done _
  · dsimp only
    cases scanChunks bodyLen bodyLen Crc32c.initial stream with
    | none => exact .done _
    | some scanned =>
      dsimp only
      rw [liftM_bindExcept]
      exact .bind (checkChecksum_unmetered _ _) fun _ _ ↦ .done _

theorem readSegmentHeader_unmetered (name : ℕ) (bytes : List UInt8)
    (allowPartial recoverPartial : Bool) :
    Unmetered metrics (readSegmentHeader name bytes allowPartial recoverPartial)
      (Sukari.readSegmentHeader name bytes allowPartial recoverPartial) := by
  unfold readSegmentHeader Sukari.readSegmentHeader
  split
  · split <;> exact .done _
  · split
    · split
      · exact .count (gauges_increase _ _ _) (.bind (erasesAll_liftIo _) fun _ _ ↦ .done _)
      · split
        · exact .count (gauges_increase _ _ _) (.done _)
        · exact .done _
    · split <;> exact .done _

section Pass

variable {readFrame : Stream → CountedM (Option (β × Stream))} {visit : σ → ℕ → β → CountedM σ}
  {readFrame' : Stream → Except IoError (Option (β × Stream))}
  {visit' : σ → ℕ → β → Except IoError σ}

theorem recordLoop_unmetered
    (hread : ∀ stream metrics, Unmetered metrics (readFrame stream) (liftM (readFrame' stream)))
    (hvisit : ∀ acc position frame metrics,
      Unmetered metrics (visit acc position frame) (liftM (visit' acc position frame)))
    (allowPartial : Bool) (fileLen rounds : ℕ) (stream : Stream) (acc : σ)
    (metrics : StorageMetricsCounters) :
    Unmetered metrics (recordLoop readFrame visit allowPartial fileLen rounds stream acc)
      (liftM (Sukari.recordLoop readFrame' visit' allowPartial fileLen rounds stream acc)) := by
  induction rounds generalizing stream acc metrics with
  | zero => exact .done _
  | succ rounds ih =>
    unfold recordLoop Sukari.recordLoop
    rw [liftM_bindExcept]
    refine .bind (hread stream metrics) fun found metrics ↦ ?_
    rcases found with _ | ⟨frame, next⟩
    · dsimp only
      split
      · exact .done _
      · split
        · exact .count (gauges_increase _ _ _) (.done _)
        · exact .done _
    · dsimp only
      rw [liftM_bindExcept]
      exact .bind (hvisit acc _ frame metrics) fun acc metrics ↦ ih next acc metrics

theorem passSegment_unmetered
    (hread : ∀ stream metrics, Unmetered metrics (readFrame stream) (liftM (readFrame' stream)))
    (hvisit : ∀ acc position frame metrics,
      Unmetered metrics (visit acc position frame) (liftM (visit' acc position frame)))
    (start : ℕ → Except IoError ℕ) (segment : ℕ) (allowPartial recoverPartial : Bool) (acc : σ)
    (metrics : StorageMetricsCounters) :
    Unmetered metrics (passSegment readFrame visit start segment allowPartial recoverPartial acc)
      (Sukari.passSegment readFrame' visit' start segment allowPartial recoverPartial acc) := by
  refine .bind (erasesAll_liftIo _) fun bytes metrics ↦
    .bind (readSegmentHeader_unmetered _ _ _ _) fun records metrics ↦ ?_
  cases records with
  | false => exact .done _
  | true =>
    refine .bind (unmetered_liftM _) fun offset metrics ↦
      .bind (recordLoop_unmetered hread hvisit _ _ _ _ _ metrics) fun out metrics ↦ ?_
    obtain ⟨acc, partialStart⟩ := out
    cases partialStart with
    | none => exact .done _
    | some recordStart =>
      cases recoverPartial with
      | false => exact .bind (.done _) fun _ _ ↦ .done _
      | true => exact .bind (erasesAll_liftIo _) fun _ _ ↦ .done _

end Pass

theorem replayRecord_unmetered (segment : ℕ) (nodeFilter : Option NodeIdSet)
    (checkpointPositions : CheckpointPositions) (replay : ReplayState N) (recordStart : ℕ)
    (body : List UInt8) (metrics : StorageMetricsCounters) :
    Unmetered metrics (replayRecord segment nodeFilter checkpointPositions replay recordStart body)
      (liftM (Sukari.replayRecord segment nodeFilter checkpointPositions replay recordStart
        body)) := by
  unfold replayRecord Sukari.replayRecord
  rw [liftM_bindExcept]
  refine .bind (unmetered_liftM _) fun nodeId metrics ↦ ?_
  split
  · dsimp only
    split
    · exact .done _
    · rw [liftM_bindExcept]
      refine .bind (unmetered_liftM _) fun nodeRecord metrics ↦ ?_
      exact .bindDone (unmetered_liftM _) fun replay metrics ↦
        .count (gauges_recordReplayed metrics _ _) (.done _)
  · exact .done _

theorem replayNodeRecord_unmetered (segment : ℕ) (targetNodeId : NodeId)
    (checkpointPosition : Option RecordPosition) (state : NodeState N) (recordStart : ℕ)
    (body : List UInt8) (metrics : StorageMetricsCounters) :
    Unmetered metrics
      (replayNodeRecord segment targetNodeId checkpointPosition state recordStart body)
      (liftM (Sukari.replayNodeRecord segment targetNodeId checkpointPosition state recordStart
        body)) := by
  unfold replayNodeRecord Sukari.replayNodeRecord
  rw [liftM_bindExcept]
  refine .bind (unmetered_liftM _) fun nodeId metrics ↦ ?_
  split
  · dsimp only
    split
    · exact .done _
    · rw [liftM_bindExcept]
      refine .bind (unmetered_liftM _) fun nodeRecord metrics ↦ ?_
      exact .bindDone (unmetered_liftM _) fun state metrics ↦
        .count (gauges_recordReplayed metrics _ _) (.done _)
  · exact .done _

theorem scanSegment_unmetered (segment : ℕ) (allowPartial : Bool) :
    Unmetered metrics (scanSegment segment allowPartial)
      (Sukari.scanSegment segment allowPartial) :=
  passSegment_unmetered (fun stream _ ↦ scanRecordFrame_unmetered stream)
    (fun _ _ _ _ ↦ .done _) _ _ _ _ _ metrics

/-! ### Passes over a directory -/

theorem passSegments_unmetered {pass : ℕ → Bool → σ → CountedM σ} {pass' : ℕ → Bool → σ → IoM σ}
    (hpass : ∀ segment allowPartial acc metrics,
      Unmetered metrics (pass segment allowPartial acc) (pass' segment allowPartial acc))
    (startSegment : Option ℕ) (activeSegment : ℕ) (recoverPartial : Bool) (acc : σ) :
    Unmetered metrics (passSegments pass startSegment activeSegment recoverPartial acc)
      (Sukari.passSegments pass' startSegment activeSegment recoverPartial acc) := by
  refine .bind (erasesAll_liftIo _) fun segments metrics ↦
    .foldlM (fun acc segment metrics ↦ ?_) segments acc metrics
  split
  · exact .done _
  · exact hpass segment _ acc metrics

theorem findCheckpointPositionsFrom_unmetered (activeSegment : ℕ) (nodeFilter : Option NodeIdSet)
    (startPosition : Option RecordPosition) (recoverPartial : Bool) :
    Unmetered metrics
      (findCheckpointPositionsFrom N activeSegment nodeFilter startPosition recoverPartial)
      (Sukari.findCheckpointPositionsFrom N activeSegment nodeFilter startPosition
        recoverPartial) :=
  passSegments_unmetered (fun _ _ _ metrics ↦
    passSegment_unmetered (fun stream _ ↦ readRecordBody_unmetered stream)
      (fun _ _ _ _ ↦ unmetered_liftM _) _ _ _ _ _ metrics) _ _ _ _

theorem replayNodeState_unmetered (activeSegment : ℕ) (nodeId : NodeId)
    (checkpointHint : Option RecordPosition) (recoverPartial : Bool) :
    Unmetered metrics (replayNodeState N activeSegment nodeId checkpointHint recoverPartial)
      (Sukari.replayNodeState N activeSegment nodeId checkpointHint recoverPartial) :=
  .bind (findCheckpointPositionsFrom_unmetered _ _ _ _) fun _ _ ↦
    passSegments_unmetered (fun _ _ _ metrics ↦
      passSegment_unmetered (fun stream _ ↦ readRecordBody_unmetered stream)
        (replayNodeRecord_unmetered _ _ _) _ _ _ _ _ metrics) _ _ _ _

theorem checkpointPositionsForReplay_unmetered (activeSegment : ℕ) (nodeFilter : Option NodeIdSet)
    (checkpointHints : Option CheckpointPositions) (recoverPartial : Bool) :
    Unmetered metrics
      (checkpointPositionsForReplay N activeSegment nodeFilter checkpointHints recoverPartial)
      (Sukari.checkpointPositionsForReplay N activeSegment nodeFilter checkpointHints
        recoverPartial) := by
  unfold checkpointPositionsForReplay Sukari.checkpointPositionsForReplay
  cases checkpointHints with
  | none => exact .bind (findCheckpointPositionsFrom_unmetered _ _ _ _) fun _ _ ↦ .done _
  | some checkpointPositions =>
    dsimp only
    cases (checkpointPositions.toList.map Prod.snd).min? with
    | none => exact .done _
    | some startPosition =>
      exact .bind (findCheckpointPositionsFrom_unmetered _ _ _ _) fun _ _ ↦ .done _

theorem replayStorageDir_unmetered (activeSegment : ℕ) (nodeFilter : Option NodeIdSet)
    (checkpointHints : Option CheckpointPositions) (recoverPartial : Bool) :
    Unmetered metrics (replayStorageDir N activeSegment nodeFilter checkpointHints recoverPartial)
      (Sukari.replayStorageDir N activeSegment nodeFilter checkpointHints recoverPartial) :=
  .bind (checkpointPositionsForReplay_unmetered _ _ _ _) fun _ _ ↦
    passSegments_unmetered (fun _ _ _ metrics ↦
      passSegment_unmetered (fun stream _ ↦ readRecordBody_unmetered stream)
        (replayRecord_unmetered _ _ _) _ _ _ _ _ metrics) _ _ _ _

theorem recoverStorageDir_unmetered (activeSegment : ℕ) :
    Unmetered metrics (recoverStorageDir activeSegment)
      (Sukari.recoverStorageDir activeSegment) :=
  .bind (erasesAll_liftIo _) fun segments metrics ↦
    .forM (fun _ _ ↦ scanSegment_unmetered _ _) segments metrics

end Counted

/-! ### The writer -/

section Steps

variable {τ : Type} {π : σ → τ} {m : σ}

theorem erases_liftIo (action : IoM α) : Erases π m (liftIo action) (liftIo action) :=
  erasesAll_liftIo action

theorem erases_failIf (condition : Prop) [Decidable condition] (error : IoError) :
    Erases π m (failIf condition error : MethodM σ Unit) (failIf condition error) := by
  unfold failIf
  split <;> exact .done _

theorem erases_onlyIf (condition : Prop) [Decidable condition] {action : MethodM σ Unit}
    {plain : MethodM τ Unit} (h : condition → Erases π m action plain) :
    Erases π m (onlyIf condition action) (onlyIf condition plain) := by
  unfold onlyIf
  split
  · next hcondition => exact h hcondition
  · exact .done _

end Steps

namespace CountedWriter

/-- The writer with the gauges that it reads. -/
def metered (s : CountedWriter) : MeteredWriter := ⟨s.writer, s.metrics.unsynced⟩

variable {s : CountedWriter}

theorem new_unmetered (activeSegment maxSegmentLen : ℕ) :
    ErasesAll unsynced metrics (new activeSegment maxSegmentLen)
      (SegmentWriter.new activeSegment maxSegmentLen) :=
  .bindDone (erasesAll_liftIo _) fun _ _ ↦ .count rfl (.done _)

theorem syncCurrentSegment_erases :
    Erases metered s syncCurrentSegment SegmentWriter.syncCurrentSegment :=
  .read (.bind (erases_liftIo _) fun _ _ ↦ .write rfl)

theorem sync_erases : Erases metered s sync SegmentWriter.sync :=
  .read (erases_onlyIf _ fun _ ↦ syncCurrentSegment_erases)

theorem rotate_erases : Erases metered s rotate SegmentWriter.rotate :=
  .bind syncCurrentSegment_erases fun _ _ ↦ .read (.bind (.done _) fun _ _ ↦
    .bind (erases_liftIo _) fun _ _ ↦ .bind (erases_liftIo _) fun _ _ ↦ .write rfl)

theorem writeFrame_erases (kind : RecordKindMetric) (frame : List UInt8) :
    Erases metered s (writeFrame kind frame) (SegmentWriter.writeFrame frame) :=
  .read (.bind (erases_liftIo _) fun _ _ ↦ .bind (erases_failIf _ _) fun _ _ ↦
    .bind (.write rfl) fun _ _ ↦ .done _)

theorem append_erases (nodeId : NodeId) (record : Record N) :
    Erases metered s (append nodeId record) (SegmentWriter.append nodeId record) :=
  .bind (.done _) fun _ _ ↦ .read (.bind (erases_onlyIf _ fun _ ↦ rotate_erases) fun _ _ ↦
    writeFrame_erases _ _)

end CountedWriter

/-! ### The engine -/

namespace CountedEngine

/-- The engine with the gauges that it reads. -/
def engine (counted : CountedEngine) : StorageEngine :=
  ⟨counted.metrics.unsynced, counted.registry, counted.checkpointIndex, counted.writer⟩

variable {counted : CountedEngine}

theorem onWriter_erases {action : CountedWriterM α} {plain : WriterM α}
    (h : Erases CountedWriter.metered ⟨counted.writer, counted.metrics⟩ action plain) :
    Erases engine counted (onWriter action) (StorageEngine.onWriter plain) :=
  Program.Maps.bind h fun _ ↦ rfl

theorem onMetrics_erases {action : CountedM α} {plain : IoM α}
    (h : Unmetered counted.metrics action plain) :
    Erases engine counted (onMetrics action) (liftIo plain) := by
  have hplain : ((liftIo plain : EngineM α).run (engine counted) : Program fileSystem _) =
      (plain.run >>= fun result ↦ .done (result, counted.metrics.unsynced)) >>= fun out ↦
        .done (out.1, ⟨out.2, counted.registry, counted.checkpointIndex, counted.writer⟩) := by
    rw [Program.bind_assoc]
    rfl
  unfold Erases
  rw [hplain]
  exact Program.Maps.bind (h.coarser MetricGauges.unsynced) fun _ ↦ rfl

theorem count_erases {update : StorageMetricsCounters → StorageMetricsCounters}
    {rest : PUnit → CountedEngineM α} {plain : EngineM α}
    (hupdate : (update counted.metrics).unsynced = counted.metrics.unsynced)
    (h : Erases engine { counted with metrics := update counted.metrics } (rest ⟨⟩) plain) :
    Erases engine counted (count update >>= rest) plain := by
  refine .count ?_ h
  rw [engine, engine, hupdate]

theorem counted_erases {update : StorageMetricsCounters → StorageMetricsCounters}
    (hupdate : (update counted.metrics).unsynced = counted.metrics.unsynced) :
    Erases engine counted (count update) (pure ()) := by
  have hcounted : Erases engine counted (count update >>= pure) (pure ()) :=
    count_erases hupdate (.done _)
  rwa [bind_pure] at hcounted

theorem ensureNodeExists_erases (nodeId : NodeId) (operation : StorageOperationKind) :
    Erases engine counted (ensureNodeExists nodeId operation)
      (StorageEngine.ensureNodeExists nodeId) := by
  refine .read ?_
  have hregistry : (engine counted).registry = counted.registry := rfl
  unfold Sukari.ensureNodeExists
  rw [hregistry]
  dsimp only
  by_cases hactive : counted.registry.isActive nodeId = true
  · rw [if_pos hactive, if_pos hactive]
    exact .done _
  · rw [if_neg hactive, if_neg hactive]
    by_cases hremoved : counted.registry.isRemoved nodeId = true
    · rw [if_pos hremoved, if_pos hremoved]
      exact count_erases rfl (.done _)
    · rw [if_neg hremoved, if_neg hremoved]
      exact count_erases rfl (.done _)

theorem collectGarbage_erases :
    Erases engine counted collectGarbage StorageEngine.collectGarbage := by
  refine count_erases (unsynced_increase _ _ _) (.read ?_)
  have hindex (metrics : StorageMetricsCounters) :
      (engine { counted with metrics := metrics }).checkpointIndex.gcBarrier
        (engine { counted with metrics := metrics }).registry.activeNodeIds =
          counted.checkpointIndex.gcBarrier counted.registry.activeNodeIds := rfl
  rw [hindex]
  cases counted.checkpointIndex.gcBarrier counted.registry.activeNodeIds with
  | none => exact .done _
  | some barrier =>
    refine .bind (erases_liftIo _) fun segments counted ↦
      .bind (erases_liftIo _) fun deletedSegments counted ↦ ?_
    by_cases hdeleted : deletedSegments ≠ 0
    · simp only [onlyIf, if_pos hdeleted]
      exact count_erases (unsynced_increase _ _ _) (erases_liftIo _)
    · simp only [onlyIf, if_neg hdeleted]
      exact .bindDone (.done _) fun _ _ ↦ .done _

/-- The end of the calls that change the registry and the index: only gauges are refreshed. -/
theorem refreshMetrics_erases {update : StorageMetricsCounters → StorageMetricsCounters}
    (hupdate : (update counted.metrics).unsynced = counted.metrics.unsynced) :
    Erases engine counted (do
      count update
      refreshRegistryMetrics
      refreshCheckpointIndexMetrics : CountedEngineM Unit) (pure ()) := by
  refine count_erases hupdate ?_
  rfl

/-- Only a gauge is refreshed. -/
theorem refreshCheckpointIndexMetrics_erases {rest : Unit → CountedEngineM α} {plain : EngineM α}
    (h : ∀ counted, Erases engine counted (rest ⟨⟩) plain) :
    Erases engine counted (refreshCheckpointIndexMetrics >>= rest) plain :=
  h { counted with
    metrics := counted.metrics.checkpointIndexChanged counted.checkpointIndex.len }

theorem createNode_erases (nodeId : NodeId) (metadata : NodeMetadata) :
    Erases engine counted (createNode N nodeId metadata)
      (StorageEngine.createNode N nodeId metadata) := by
  refine .read (.bind (.done _) fun registry counted ↦
    .bind (onWriter_erases (CountedWriter.append_erases _ _)) fun position counted ↦
    .bind (onWriter_erases CountedWriter.sync_erases) fun _ counted ↦
    .read (.bind (erases_liftIo _) fun _ counted ↦ .bind (erases_liftIo _) fun _ counted ↦ ?_))
  exact .bindDone (.write rfl) fun _ _ ↦ refreshMetrics_erases (unsynced_increase _ _ _)

theorem load_erases (nodeId : NodeId) :
    Erases engine counted (load N nodeId) (StorageEngine.load N nodeId) :=
  .bind (ensureNodeExists_erases _ _) fun _ _ ↦ .read
    (onMetrics_erases (Counted.replayNodeState_unmetered _ _ _ _))

theorem loadAll_erases :
    Erases engine counted (loadAll N) (StorageEngine.loadAll N) := by
  refine .read ?_
  have hregistry : (engine counted).registry = counted.registry := rfl
  dsimp only
  rw [hregistry]
  by_cases hempty : counted.registry.activeNodeIds.isEmpty = true
  · rw [if_pos hempty, if_pos hempty]
    exact .done _
  · rw [if_neg hempty, if_neg hempty]
    exact .bind (onMetrics_erases (Counted.replayStorageDir_unmetered _ _ _ _)) fun _ _ ↦ .done _

theorem saveRecord_erases (nodeId : NodeId) (record : Record N) (operation : StorageOperationKind) :
    Erases engine counted (saveRecord nodeId record operation)
      (StorageEngine.saveRecord nodeId record) :=
  .bind (ensureNodeExists_erases _ _) fun _ _ ↦
    .bind (onWriter_erases (CountedWriter.append_erases _ _)) fun _ _ ↦ .done _

theorem saveSnapshot_erases (nodeId : NodeId) (checkpoint : SnapshotCheckpoint N) :
    Erases engine counted (saveSnapshot nodeId checkpoint)
      (StorageEngine.saveSnapshot nodeId checkpoint) := by
  refine .bind (ensureNodeExists_erases _ _) fun _ counted ↦ .bind (.done _) fun _ counted ↦
    .bind (onWriter_erases (CountedWriter.append_erases _ _)) fun position counted ↦
    .bind (onWriter_erases CountedWriter.sync_erases) fun _ counted ↦
    .read (.bind (erases_liftIo _) fun _ counted ↦ .bind (.write rfl) fun _ counted ↦ ?_)
  exact refreshCheckpointIndexMetrics_erases fun counted ↦
    .bindDone collectGarbage_erases fun _ _ ↦ counted_erases (unsynced_increase _ _ _)

theorem removeNode_erases (nodeId : NodeId) :
    Erases engine counted (removeNode nodeId) (StorageEngine.removeNode nodeId) := by
  refine .bind (ensureNodeExists_erases _ _) fun _ counted ↦ .read (.bind (.done _) fun _ counted ↦
    .bind (erases_liftIo _) fun _ counted ↦ .bind (.write rfl) fun _ counted ↦
    .read (.bind (erases_liftIo _) fun _ counted ↦ .bind (.write rfl) fun _ counted ↦
    .bindDone collectGarbage_erases fun _ _ ↦ refreshMetrics_erases (unsynced_increase _ _ _)))

theorem sync_erases : Erases engine counted sync StorageEngine.sync :=
  count_erases (unsynced_increase _ _ _) (onWriter_erases CountedWriter.sync_erases)

/-- A call without the metrics makes the same requests and has the same result. -/
theorem call_erases (command : Command N) :
    Erases engine counted (call command) (StorageEngine.call command) := by
  cases command with
  | createNode nodeId metadata => exact createNode_erases nodeId metadata
  | removeNode nodeId => exact removeNode_erases nodeId
  | saveCurrentTerm nodeId term => exact saveRecord_erases nodeId _ _
  | saveVotedFor nodeId votedFor => exact saveRecord_erases nodeId _ _
  | appendEntries nodeId append => exact saveRecord_erases nodeId _ _
  | saveSnapshot nodeId checkpoint => exact saveSnapshot_erases nodeId checkpoint
  | sync => exact sync_erases
  | load nodeId => exact .bind (load_erases nodeId) fun _ _ ↦ .done _
  | loadAll => exact .bind loadAll_erases fun _ _ ↦ .done _

/-! ### The opening -/

theorem recovered_unmetered (activeSegment maxSegmentLen : ℕ)
    (hdefault : metrics.unsynced = .default) :
    ErasesAll unsynced metrics (do
      let counted ← recovered N activeSegment maxSegmentLen
      return counted.engine : CountedM StorageEngine) (do
      recoverStorageDir activeSegment
      openRecovered N activeSegment maxSegmentLen) := by
  unfold recovered openRecovered
  simp only [bind_assoc]
  refine .bindSame ((Counted.recoverStorageDir_unmetered _).coarser MetricGauges.unsynced)
    fun _ _ hrecover ↦ .bindSame (erasesAll_liftIo _) fun registry _ hregistry ↦
    .bindSame (erasesAll_liftIo _) fun checkpointIndex _ hindex ↦
    .count rfl (.count rfl ?_)
  refine .bindSame (CountedWriter.new_unmetered _ _) fun writer metrics hwriter ↦ ?_
  have hsame : metrics.unsynced = .default :=
    hwriter.trans (hindex.trans (hregistry.trans (hrecover.trans hdefault)))
  change Program.done
    (Except.ok (StorageEngine.mk metrics.unsynced registry checkpointIndex writer),
    metrics.unsynced) = Program.done (Except.ok _, metrics.unsynced)
  rw [hsame]

/-- The opening without the metrics makes the same requests and has the same result. -/
theorem withMaxSegmentLen_erases (maxSegmentLen : ℕ) :
    Program.Maps (Except.map engine) (withMaxSegmentLen N maxSegmentLen).run
      (StorageEngine.withMaxSegmentLen N maxSegmentLen).run := by
  refine maps_bindExcept fun _ ↦ maps_bindExcept fun activeSegment ↦ ?_
  have hrecovered := @recovered_unmetered N .default activeSegment maxSegmentLen rfl
  unfold ErasesAll Program.Maps at hrecovered
  have hresults := congrArg (fun p ↦ p >>= fun out ↦ Program.done out.1) hrecovered
  rw [run_bindMethod] at hresults
  simp only [Program.bind_assoc, Program.done_bind, Program.bind_done] at hresults
  unfold Program.Maps
  change ((recovered N activeSegment maxSegmentLen).run .default >>= fun out ↦
    Program.done out.1) >>= _ = _
  rw [Program.bind_assoc]
  refine Eq.trans ?_ hresults
  congr 1
  funext out
  obtain ⟨result, metrics⟩ := out
  cases result <;> rfl

end CountedEngine

end Sukari
