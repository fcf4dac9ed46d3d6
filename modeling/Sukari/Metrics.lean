import Sukari.Segment
import Mathlib.Algebra.Group.Action.Pi

/-!
# Storage metrics

All counters and gauges of `StorageMetrics`, with the methods of `StorageMetricsCounters` that
update them. A counter saturates, so additions to it can be put together: the natural numbers act on
it (`Counter.increment_increment`). `CounterName` names the counters, and what a method does to all
of them is one addition (`counter_recordWritten` and the lemmas behind it).
-/

set_option autoImplicit false
set_option relaxedAutoImplicit false

namespace Sukari

variable {N : Noraft}

/-! ### Counters -/

/-- A `u64` that only grows. -/
@[ext]
structure Counter where
  value : ℕ
  lt : value < 2 ^ 64

namespace Counter

def zero : Counter := ⟨0, by decide⟩

/-- `increment`. -/
def increment (counter : Counter) (value : ℕ) : Counter :=
  ⟨StorageMetrics.increment counter.value value, by
    unfold StorageMetrics.increment
    omega⟩

theorem increment_zero (counter : Counter) : counter.increment 0 = counter := by
  apply Counter.ext
  have hlt := counter.lt
  simp only [increment, StorageMetrics.increment]
  omega

theorem increment_increment (counter : Counter) (first second : ℕ) :
    (counter.increment first).increment second = counter.increment (first + second) := by
  apply Counter.ext
  simp only [increment, StorageMetrics.increment]
  omega

instance : AddAction ℕ Counter where
  vadd value counter := counter.increment value
  zero_vadd := increment_zero
  add_vadd first second counter := by
    change counter.increment (first + second) = (counter.increment second).increment first
    rw [increment_increment, Nat.add_comm]

theorem vadd_eq (value : ℕ) (counter : Counter) : value +ᵥ counter = counter.increment value := rfl

/-- A counter that has not reached the largest value counts. -/
theorem value_increment_zero (value : ℕ) :
    (zero.increment value).value = min value (2 ^ 64 - 1) := by
  simp only [increment, StorageMetrics.increment, zero, Nat.zero_add]

end Counter

/-! ### The metrics -/

inductive RecordKindMetric
  | currentTerm
  | votedFor
  | logAppend
  | snapshotCheckpoint
  deriving DecidableEq

inductive StorageOperationKind
  | load
  | saveCurrentTerm
  | saveVotedFor
  | appendEntries
  | saveSnapshot
  | removeNode
  deriving DecidableEq

inductive NodeAccessErrorKind
  | unknownNode
  | removedNode
  deriving DecidableEq

/-- `Record::metric_kind`. -/
def Record.metricKind : Record N → RecordKindMetric
  | .currentTerm _ => .currentTerm
  | .votedFor _ => .votedFor
  | .append _ => .logAppend
  | .snapshotCheckpoint _ => .snapshotCheckpoint

structure RecordKindMetrics where
  currentTerm : Counter
  votedFor : Counter
  logAppend : Counter
  snapshotCheckpoint : Counter

namespace RecordKindMetrics

def default : RecordKindMetrics := ⟨.zero, .zero, .zero, .zero⟩

def increment (metrics : RecordKindMetrics) (kind : RecordKindMetric) (value : ℕ) :
    RecordKindMetrics :=
  match kind with
  | .currentTerm => { metrics with currentTerm := metrics.currentTerm.increment value }
  | .votedFor => { metrics with votedFor := metrics.votedFor.increment value }
  | .logAppend => { metrics with logAppend := metrics.logAppend.increment value }
  | .snapshotCheckpoint =>
    { metrics with snapshotCheckpoint := metrics.snapshotCheckpoint.increment value }

def counter (metrics : RecordKindMetrics) : RecordKindMetric → Counter
  | .currentTerm => metrics.currentTerm
  | .votedFor => metrics.votedFor
  | .logAppend => metrics.logAppend
  | .snapshotCheckpoint => metrics.snapshotCheckpoint

theorem counter_increment (metrics : RecordKindMetrics) (kind : RecordKindMetric) (value : ℕ)
    (other : RecordKindMetric) : (metrics.increment kind value).counter other =
      if other = kind then (metrics.counter other).increment value else metrics.counter other := by
  cases kind <;> cases other <;> rfl

end RecordKindMetrics

structure OperationKindMetrics where
  load : Counter
  saveCurrentTerm : Counter
  saveVotedFor : Counter
  appendEntries : Counter
  saveSnapshot : Counter
  removeNode : Counter

namespace OperationKindMetrics

def default : OperationKindMetrics := ⟨.zero, .zero, .zero, .zero, .zero, .zero⟩

/-- Adds to one of the counters. -/
def add (metrics : OperationKindMetrics) (operation : StorageOperationKind) (value : ℕ) :
    OperationKindMetrics :=
  match operation with
  | .load => { metrics with load := metrics.load.increment value }
  | .saveCurrentTerm => { metrics with saveCurrentTerm := metrics.saveCurrentTerm.increment value }
  | .saveVotedFor => { metrics with saveVotedFor := metrics.saveVotedFor.increment value }
  | .appendEntries => { metrics with appendEntries := metrics.appendEntries.increment value }
  | .saveSnapshot => { metrics with saveSnapshot := metrics.saveSnapshot.increment value }
  | .removeNode => { metrics with removeNode := metrics.removeNode.increment value }

def increment (metrics : OperationKindMetrics) (operation : StorageOperationKind) :
    OperationKindMetrics := metrics.add operation 1

def counter (metrics : OperationKindMetrics) : StorageOperationKind → Counter
  | .load => metrics.load
  | .saveCurrentTerm => metrics.saveCurrentTerm
  | .saveVotedFor => metrics.saveVotedFor
  | .appendEntries => metrics.appendEntries
  | .saveSnapshot => metrics.saveSnapshot
  | .removeNode => metrics.removeNode

theorem counter_add (metrics : OperationKindMetrics) (operation : StorageOperationKind)
    (value : ℕ) (other : StorageOperationKind) : (metrics.add operation value).counter other =
      if other = operation then (metrics.counter other).increment value
        else metrics.counter other := by
  cases operation <;> cases other <;> rfl

end OperationKindMetrics

structure RejectedOperationMetrics where
  unknownNodes : OperationKindMetrics
  removedNodes : OperationKindMetrics

namespace RejectedOperationMetrics

def default : RejectedOperationMetrics := ⟨.default, .default⟩

/-- Adds to one of the counters. -/
def add (metrics : RejectedOperationMetrics) (operation : StorageOperationKind)
    (error : NodeAccessErrorKind) (value : ℕ) : RejectedOperationMetrics :=
  match error with
  | .unknownNode => { metrics with unknownNodes := metrics.unknownNodes.add operation value }
  | .removedNode => { metrics with removedNodes := metrics.removedNodes.add operation value }

def increment (metrics : RejectedOperationMetrics) (operation : StorageOperationKind)
    (error : NodeAccessErrorKind) : RejectedOperationMetrics :=
  match error with
  | .unknownNode => { metrics with unknownNodes := metrics.unknownNodes.increment operation }
  | .removedNode => { metrics with removedNodes := metrics.removedNodes.increment operation }

theorem increment_eq (metrics : RejectedOperationMetrics) (operation : StorageOperationKind)
    (error : NodeAccessErrorKind) : metrics.increment operation error =
      metrics.add operation error 1 := by
  cases error <;> rfl

def counter (metrics : RejectedOperationMetrics) : NodeAccessErrorKind → OperationKindMetrics
  | .unknownNode => metrics.unknownNodes
  | .removedNode => metrics.removedNodes

theorem counter_add (metrics : RejectedOperationMetrics) (operation : StorageOperationKind)
    (error : NodeAccessErrorKind) (value : ℕ) (other : NodeAccessErrorKind) :
    (metrics.add operation error value).counter other =
      if other = error then (metrics.counter other).add operation value
      else metrics.counter other := by
  cases error <;> cases other <;> rfl

end RejectedOperationMetrics

/-- `StorageMetrics`, as `StorageMetricsCounters` keeps it. -/
structure StorageMetricsCounters where
  recordsWritten : RecordKindMetrics
  bytesWritten : RecordKindMetrics
  recordsReplayed : RecordKindMetrics
  bytesReplayed : RecordKindMetrics
  segmentRotations : Counter
  syncs : Counter
  durableSyncs : Counter
  replayTruncations : Counter
  checksumFailures : Counter
  nodesCreated : Counter
  nodesRemoved : Counter
  rejectedOperations : RejectedOperationMetrics
  snapshotCheckpointsSaved : Counter
  gcRuns : Counter
  gcSegmentsDeleted : Counter
  activeNodes : ℕ
  removedNodes : ℕ
  checkpointIndexNodes : ℕ
  activeAppendSegmentId : ℕ
  activeAppendSegmentLenBytes : ℕ
  unsyncedRecords : Counter
  unsyncedBytes : Counter

/-- The gauges of `StorageMetricsCounters`. -/
structure MetricGauges where
  activeNodes : ℕ
  removedNodes : ℕ
  checkpointIndexNodes : ℕ
  activeAppendSegmentId : ℕ
  activeAppendSegmentLenBytes : ℕ
  /-- The gauges that the code reads. -/
  unsynced : StorageMetrics

/-- The counters of `StorageMetricsCounters`. -/
inductive CounterName
  | recordsWritten (kind : RecordKindMetric)
  | bytesWritten (kind : RecordKindMetric)
  | recordsReplayed (kind : RecordKindMetric)
  | bytesReplayed (kind : RecordKindMetric)
  | segmentRotations
  | syncs
  | durableSyncs
  | replayTruncations
  | checksumFailures
  | nodesCreated
  | nodesRemoved
  | rejectedOperations (error : NodeAccessErrorKind) (operation : StorageOperationKind)
  | snapshotCheckpointsSaved
  | gcRuns
  | gcSegmentsDeleted
  deriving DecidableEq

/-- What is added to every counter. -/
abbrev Tally := CounterName → ℕ

namespace Tally

/-- An addition to one counter. -/
def single (name : CounterName) (value : ℕ) : Tally := fun other ↦ if other = name then value else 0

@[simp] theorem single_zero (name : CounterName) : single name 0 = 0 := by
  funext other
  exact ite_self 0

theorem single_add (name : CounterName) (first second : ℕ) :
    single name (first + second) = single name first + single name second := by
  funext other
  simp only [single, Pi.add_apply]
  split <;> rfl

theorem vadd_single (name : CounterName) (value : ℕ) (counters : CounterName → Counter)
    (other : CounterName) : (single name value +ᵥ counters) other =
      if other = name then (counters other).increment value else counters other := by
  rw [Pi.vadd_apply', Counter.vadd_eq, single]
  split
  · rfl
  · exact Counter.increment_zero _

end Tally

namespace StorageMetricsCounters

def default : StorageMetricsCounters :=
  ⟨.default, .default, .default, .default, .zero, .zero, .zero, .zero, .zero, .zero,
    .zero, .default,
    .zero, .zero, .zero, 0, 0, 0, 0, 0, .zero, .zero⟩

def counter (metrics : StorageMetricsCounters) : CounterName → Counter
  | .recordsWritten kind => metrics.recordsWritten.counter kind
  | .bytesWritten kind => metrics.bytesWritten.counter kind
  | .recordsReplayed kind => metrics.recordsReplayed.counter kind
  | .bytesReplayed kind => metrics.bytesReplayed.counter kind
  | .segmentRotations => metrics.segmentRotations
  | .syncs => metrics.syncs
  | .durableSyncs => metrics.durableSyncs
  | .replayTruncations => metrics.replayTruncations
  | .checksumFailures => metrics.checksumFailures
  | .nodesCreated => metrics.nodesCreated
  | .nodesRemoved => metrics.nodesRemoved
  | .rejectedOperations error operation =>
    (metrics.rejectedOperations.counter error).counter operation
  | .snapshotCheckpointsSaved => metrics.snapshotCheckpointsSaved
  | .gcRuns => metrics.gcRuns
  | .gcSegmentsDeleted => metrics.gcSegmentsDeleted

/-- Increments one counter. -/
def increase (metrics : StorageMetricsCounters) (name : CounterName) (value : ℕ) :
    StorageMetricsCounters :=
  match name with
  | .recordsWritten kind =>
    { metrics with recordsWritten := metrics.recordsWritten.increment kind value }
  | .bytesWritten kind =>
    { metrics with bytesWritten := metrics.bytesWritten.increment kind value }
  | .recordsReplayed kind =>
    { metrics with recordsReplayed := metrics.recordsReplayed.increment kind value }
  | .bytesReplayed kind =>
    { metrics with bytesReplayed := metrics.bytesReplayed.increment kind value }
  | .segmentRotations =>
    { metrics with segmentRotations := metrics.segmentRotations.increment value }
  | .syncs => { metrics with syncs := metrics.syncs.increment value }
  | .durableSyncs => { metrics with durableSyncs := metrics.durableSyncs.increment value }
  | .replayTruncations =>
    { metrics with replayTruncations := metrics.replayTruncations.increment value }
  | .checksumFailures =>
    { metrics with checksumFailures := metrics.checksumFailures.increment value }
  | .nodesCreated => { metrics with nodesCreated := metrics.nodesCreated.increment value }
  | .nodesRemoved => { metrics with nodesRemoved := metrics.nodesRemoved.increment value }
  | .rejectedOperations error operation =>
    { metrics with
      rejectedOperations := metrics.rejectedOperations.add operation error value }
  | .snapshotCheckpointsSaved =>
    { metrics with
      snapshotCheckpointsSaved := metrics.snapshotCheckpointsSaved.increment value }
  | .gcRuns => { metrics with gcRuns := metrics.gcRuns.increment value }
  | .gcSegmentsDeleted =>
    { metrics with gcSegmentsDeleted := metrics.gcSegmentsDeleted.increment value }

variable (metrics : StorageMetricsCounters)

theorem counter_increase (name : CounterName) (value : ℕ) :
    (metrics.increase name value).counter = Tally.single name value +ᵥ metrics.counter := by
  funext other
  rw [Tally.vadd_single]
  cases name with
  | rejectedOperations error operation =>
    cases other with
    | rejectedOperations error' operation' =>
      simp only [counter, increase, RejectedOperationMetrics.counter_add,
        CounterName.rejectedOperations.injEq]
      split <;> simp_all [OperationKindMetrics.counter_add]
    | _ => rfl
  | _ => cases other <;> simp [counter, increase, RecordKindMetrics.counter_increment]

/-! ### The methods -/

def recordWritten (kind : RecordKindMetric) (bytes : ℕ) : StorageMetricsCounters :=
  { (metrics.increase (.recordsWritten kind) 1).increase (.bytesWritten kind) bytes with
    unsyncedRecords := metrics.unsyncedRecords.increment 1
    unsyncedBytes := metrics.unsyncedBytes.increment bytes }

def recordReplayed (kind : RecordKindMetric) (bytes : ℕ) : StorageMetricsCounters :=
  (metrics.increase (.recordsReplayed kind) 1).increase (.bytesReplayed kind) bytes

def segmentOpened (segmentId segmentLen : ℕ) : StorageMetricsCounters :=
  { metrics with
    activeAppendSegmentId := segmentId
    activeAppendSegmentLenBytes := segmentLen }

def segmentWritten (segmentLen : ℕ) : StorageMetricsCounters :=
  { metrics with activeAppendSegmentLenBytes := segmentLen }

def segmentRotated (segmentId segmentLen : ℕ) : StorageMetricsCounters :=
  (metrics.increase .segmentRotations 1).segmentOpened segmentId segmentLen

def syncRequested : StorageMetricsCounters := metrics.increase .syncs 1

def segmentSynced : StorageMetricsCounters :=
  { metrics.increase .durableSyncs 1 with
    unsyncedRecords := .zero
    unsyncedBytes := .zero }

def replayTruncated : StorageMetricsCounters := metrics.increase .replayTruncations 1

def checksumFailed : StorageMetricsCounters := metrics.increase .checksumFailures 1

def nodeCreated : StorageMetricsCounters := metrics.increase .nodesCreated 1

def nodeRemoved : StorageMetricsCounters := metrics.increase .nodesRemoved 1

def rejectedOperation (operation : StorageOperationKind) (error : NodeAccessErrorKind) :
    StorageMetricsCounters :=
  { metrics with rejectedOperations := metrics.rejectedOperations.increment operation error }

def snapshotCheckpointSaved : StorageMetricsCounters := metrics.increase .snapshotCheckpointsSaved 1

def gcRan : StorageMetricsCounters := metrics.increase .gcRuns 1

def gcDeletedSegments (count : ℕ) : StorageMetricsCounters :=
  metrics.increase .gcSegmentsDeleted count

/-- `registry_loaded` and `node_counts_changed`. -/
def nodeCountsChanged (activeNodes removedNodes : ℕ) : StorageMetricsCounters :=
  { metrics with
    activeNodes := activeNodes
    removedNodes := removedNodes }

/-- `checkpoint_index_loaded` and `checkpoint_index_changed`. -/
def checkpointIndexChanged (nodes : ℕ) : StorageMetricsCounters :=
  { metrics with checkpointIndexNodes := nodes }

/-- The gauges of which the writer makes use. -/
def unsynced : StorageMetrics := ⟨metrics.unsyncedRecords.value, metrics.unsyncedBytes.value⟩

def gauges : MetricGauges :=
  ⟨metrics.activeNodes, metrics.removedNodes, metrics.checkpointIndexNodes,
    metrics.activeAppendSegmentId, metrics.activeAppendSegmentLenBytes, metrics.unsynced⟩

@[simp] theorem gauges_increase (name : CounterName) (value : ℕ) :
    (metrics.increase name value).gauges = metrics.gauges := by
  cases name <;> rfl

@[simp] theorem gauges_recordReplayed (kind : RecordKindMetric) (bytes : ℕ) :
    (metrics.recordReplayed kind bytes).gauges = metrics.gauges := by
  rw [recordReplayed, gauges_increase, gauges_increase]

@[simp] theorem unsynced_increase (name : CounterName) (value : ℕ) :
    (metrics.increase name value).unsynced = metrics.unsynced :=
  congrArg MetricGauges.unsynced (gauges_increase metrics name value)

theorem rejectedOperation_eq (operation : StorageOperationKind) (error : NodeAccessErrorKind) :
    metrics.rejectedOperation operation error =
      metrics.increase (.rejectedOperations error operation) 1 := by
  rw [rejectedOperation, RejectedOperationMetrics.increment_eq]
  rfl

theorem counter_rejectedOperation (operation : StorageOperationKind) (error : NodeAccessErrorKind) :
    (metrics.rejectedOperation operation error).counter =
      Tally.single (.rejectedOperations error operation) 1 +ᵥ metrics.counter := by
  rw [rejectedOperation_eq, counter_increase]

theorem counter_recordWritten (kind : RecordKindMetric) (bytes : ℕ) :
    (metrics.recordWritten kind bytes).counter =
      (Tally.single (.bytesWritten kind) bytes + Tally.single (.recordsWritten kind) 1) +ᵥ
        metrics.counter := by
  rw [add_vadd, ← counter_increase, ← counter_increase]
  rfl

theorem counter_recordReplayed (kind : RecordKindMetric) (bytes : ℕ) :
    (metrics.recordReplayed kind bytes).counter =
      (Tally.single (.bytesReplayed kind) bytes + Tally.single (.recordsReplayed kind) 1) +ᵥ
        metrics.counter := by
  rw [add_vadd, ← counter_increase, ← counter_increase]
  rfl

theorem counter_segmentRotated (segmentId segmentLen : ℕ) :
    (metrics.segmentRotated segmentId segmentLen).counter =
      Tally.single .segmentRotations 1 +ᵥ metrics.counter :=
  counter_increase metrics _ _

theorem counter_segmentSynced :
    metrics.segmentSynced.counter = Tally.single .durableSyncs 1 +ᵥ metrics.counter :=
  counter_increase metrics _ _

end StorageMetricsCounters

end Sukari
