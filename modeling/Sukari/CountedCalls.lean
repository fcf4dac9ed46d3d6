import Sukari.CountedErasure
import Sukari.Frame
import Sukari.PassFootprints
import Sukari.RefusedCalls
import Mathlib.Tactic.Abel

/-!
# What the counters count

The counters agree with what can be seen of the engine from outside. Every durable sync, every
removal of a segment, every truncation and every rotation is a request (`requestTally`), and the
others are calls with their results (`Call.tally`). Whatever the directory holds and whatever
happens to it in between, after any calls every counter has grown by what these two add up to
(`counters_tally`), apart from the three kinds of counters that loads add to.
-/

set_option autoImplicit false
set_option relaxedAutoImplicit false

namespace Sukari

open Effects StorageMetricsCounters

variable {N : Noraft} {α β σ : Type}

/-! ### Tallies of requests and calls -/

/-- What a request adds to the counters. -/
def requestTally : Exchange fileSystem → Tally
  | ⟨.syncData _, _⟩ => .single .durableSyncs 1
  | ⟨.setLen _ _, _⟩ => .single .replayTruncations 1
  | ⟨.remove _, existed⟩ => .single .gcSegmentsDeleted (Bool.toNat existed)
  | ⟨.writeAll _ bytes, result⟩ =>
    let result : Except IoError Unit := result
    if bytes = segmentFormatMagic ∧ Succeeds result then .single .segmentRotations 1 else 0
  | _ => 0

theorem requestTally_writeAll_error (name : ℕ) (bytes : List UInt8) (error : IoError) :
    requestTally ⟨.writeAll name bytes, (.error error : Except IoError Unit)⟩ = 0 :=
  if_neg fun h ↦ h.2

theorem requestTally_writeAll_ok (name : ℕ) (bytes : List UInt8) (value : Unit) :
    requestTally ⟨.writeAll name bytes, (.ok value : Except IoError Unit)⟩ =
      if bytes = segmentFormatMagic then .single .segmentRotations 1 else 0 := by
  by_cases hmagic : bytes = segmentFormatMagic
  · rw [if_pos hmagic]
    exact if_pos ⟨hmagic, trivial⟩
  · rw [if_neg hmagic]
    exact if_neg fun h ↦ hmagic h.1

/-- What a record that was written adds to the counters. -/
def recordTally (nodeId : NodeId) (record : Record N) : Tally :=
  .single (.recordsWritten record.metricKind) 1 + .single (.bytesWritten record.metricKind)
    ((encodeRecordFrame nodeId record).toOption.elim 0 List.length)

/-- `StorageOperationKind` of a call, and its node. -/
def Command.operation : Command N → Option (NodeId × StorageOperationKind)
  | .removeNode nodeId => some (nodeId, .removeNode)
  | .saveCurrentTerm nodeId _ => some (nodeId, .saveCurrentTerm)
  | .saveVotedFor nodeId _ => some (nodeId, .saveVotedFor)
  | .appendEntries nodeId _ => some (nodeId, .appendEntries)
  | .saveSnapshot nodeId _ => some (nodeId, .saveSnapshot)
  | .load nodeId => some (nodeId, .load)
  | .createNode _ _ | .sync | .loadAll => none

/-- A call is rejected because of the status of its node. -/
def rejectionTally (registry : NodeRegistry) (nodeId : NodeId) (operation : StorageOperationKind) :
    Tally :=
  if registry.isActive nodeId then 0
  else if registry.isRemoved nodeId then .single (.rejectedOperations .removedNode operation) 1
  else .single (.rejectedOperations .unknownNode operation) 1

/-- What a call that has succeeded adds to the counters. -/
def Command.tally : Command N → Tally
  | .createNode nodeId _ =>
    recordTally nodeId (.snapshotCheckpoint (initialCheckpoint N)) + .single .nodesCreated 1
  | .removeNode _ => .single .gcRuns 1 + .single .nodesRemoved 1
  | .saveCurrentTerm nodeId term => recordTally (N := N) nodeId (.currentTerm term)
  | .saveVotedFor nodeId votedFor => recordTally (N := N) nodeId (.votedFor votedFor)
  | .appendEntries nodeId append => recordTally nodeId (.append append)
  | .saveSnapshot nodeId checkpoint =>
    recordTally nodeId (.snapshotCheckpoint checkpoint) + .single .gcRuns 1 +
      .single .snapshotCheckpointsSaved 1
  | .sync | .load _ | .loadAll => 0

/-- What a call with this result adds to the counters, apart from its requests. -/
def callTally (registry : NodeRegistry) (command : Command N) (result : Except IoError α) : Tally :=
  (match command.operation with
    | some (nodeId, operation) => rejectionTally registry nodeId operation
    | none => 0) +
  (match command with
    | .sync => .single .syncs 1
    | _ => 0) +
  if Succeeds result then command.tally else 0

variable (N) in
/-- A call that was made, with what it returned and the registry at its start. -/
structure Call where
  registry : NodeRegistry
  command : Command N
  result : Except IoError (Answer N)

def Call.tally (call : Call N) : Tally := callTally call.registry call.command call.result

/-- The counters that loads add to. -/
def CounterName.IsRead : CounterName → Prop
  | .recordsReplayed _ | .bytesReplayed _ | .checksumFailures => True
  | _ => False

/-- Nothing but the counters of loads is added to. -/
def ReadTally (tally : Tally) : Prop := ∀ name, ¬ name.IsRead → tally name = 0

namespace ReadTally

theorem zero : ReadTally 0 := fun _ _ ↦ rfl

theorem single (name : CounterName) (h : name.IsRead) (value : ℕ) :
    ReadTally (.single name value) := by
  intro other hother
  have hne : other ≠ name := by
    rintro rfl
    exact hother h
  rw [Tally.single, if_neg hne]

theorem add {first second : Tally} (h : ReadTally first) (h' : ReadTally second) :
    ReadTally (first + second) := by
  intro name hname
  rw [Pi.add_apply, h name hname, h' name hname]

end ReadTally

/-! ### Balanced methods -/

/-- What a result adds when the method succeeds. -/
def onSuccess (tally : Tally) (result : Except IoError α) : Tally :=
  if Succeeds result then tally else 0

/-- What is added to the counters is what the requests cost and what the result adds, apart from the
counters of loads. -/
def Balanced (counters : σ → StorageMetricsCounters) (extra : Except IoError α → Tally)
    (action : MethodM σ α) (m : σ) : Prop :=
  Accounts requestTally (fun m ↦ (counters m).counter) (fun result _ cost added ↦
    ∃ reads, ReadTally reads ∧ added = cost + extra result + reads) action m

namespace Balanced

variable {counters : σ → StorageMetricsCounters} {extra : Except IoError α → Tally}
  {extra' : Except IoError β → Tally} {action : MethodM σ α} {next : α → MethodM σ β} {m : σ}

theorem done {result : Except IoError α} (h : extra result = 0) :
    Balanced counters extra (ExceptT.mk (pure result)) m :=
  Accounts.done ⟨0, .zero, by rw [h, add_zero, add_zero]⟩

theorem congr {extra' : Except IoError α → Tally} (h : Balanced counters extra action m)
    (hextra : ∀ result, extra result = extra' result) : Balanced counters extra' action m := by
  rwa [funext hextra] at h

/-- The second method adds the rest. -/
theorem bind (h : Balanced counters extra action m)
    (herror : ∀ error, extra' (.error error) = extra (.error error))
    {rest : α → Except IoError β → Tally}
    (hextra : ∀ value result, extra' result = extra (.ok value) + rest value result)
    (hnext : ∀ value m', Balanced counters (rest value) (next value) m') :
    Balanced counters extra' (action >>= next) m := by
  refine Accounts.bind (h.mono fun result m' cost added hadded ↦ ?_)
  obtain ⟨reads, hreads, rfl⟩ := hadded
  cases result with
  | error error => exact ⟨reads, hreads, by rw [herror]⟩
  | ok value =>
    refine (hnext value m').mono fun result _ cost' added' hadded' ↦ ?_
    obtain ⟨reads', hreads', rfl⟩ := hadded'
    refine ⟨reads + reads', hreads.add hreads', ?_⟩
    rw [hextra value result]
    abel

/-- The first method adds nothing of its own. -/
theorem bindQuiet (h : Balanced counters (fun _ ↦ 0) action m)
    (herror : ∀ error, extra' (.error error) = 0)
    (hnext : ∀ value m', Balanced counters extra' (next value) m') :
    Balanced counters extra' (action >>= next) m :=
  h.bind herror (fun _ _ ↦ (zero_add _).symm) hnext

/-- Only the value is another one. -/
theorem map {f : α → β} (h : Balanced counters extra action m)
    (hextra : ∀ result, extra' (Except.map f result) = extra result) :
    Balanced counters extra' (action >>= fun value ↦ pure (f value)) m := by
  refine Accounts.bind (h.mono fun result m' cost added hadded ↦ ?_)
  obtain ⟨reads, hreads, rfl⟩ := hadded
  have hsame := hextra result
  cases result with
  | error error => exact ⟨reads, hreads, by rw [← hsame]; rfl⟩
  | ok value =>
    refine Accounts.done ⟨reads, hreads, ?_⟩
    rw [← hsame, add_zero, add_zero]
    rfl

theorem read {next : σ → MethodM σ β} (h : Balanced counters extra' (next m) m) :
    Balanced counters extra' (get >>= next) m := h

theorem ok {value : α} (h : Balanced counters extra' (next value) m) :
    Balanced counters extra' ((liftM (.ok value : Except IoError α) : MethodM σ α) >>= next) m := h

/-- A change of the state that adds to the counters. -/
theorem write {update : σ → σ} {next : PUnit → MethodM σ β} (tally : Tally)
    (hupdate : (counters (update m)).counter = tally +ᵥ (counters m).counter)
    {rest : Except IoError β → Tally} (hextra : ∀ result, extra' result = tally + rest result)
    (h : Balanced counters rest (next ⟨⟩) (update m)) :
    Balanced counters extra' (modify update >>= next) m := by
  refine Accounts.write tally hupdate (h.mono fun result _ cost added hadded ↦ ?_)
  obtain ⟨reads, hreads, rfl⟩ := hadded
  refine ⟨reads, hreads, ?_⟩
  rw [hextra]
  abel

end Balanced

/-- The method succeeds and adds this to the counters, besides what its requests cost. -/
def Counts (counters : σ → StorageMetricsCounters) (tally : Tally) (action : MethodM σ α) (m : σ) :
    Prop :=
  Accounts requestTally (fun m ↦ (counters m).counter) (fun result _ cost added ↦
    Succeeds result ∧ added = cost + tally) action m

namespace Counts

variable {counters : σ → StorageMetricsCounters} {tally tally' : Tally} {action : MethodM σ α}
  {next : α → MethodM σ β} {m : σ}

theorem done (value : α) : Counts counters 0 (pure value : MethodM σ α) m :=
  Accounts.done ⟨trivial, (add_zero 0).symm⟩

theorem bind (h : Counts counters tally action m)
    (hnext : ∀ value m', Counts counters tally' (next value) m') :
    Counts counters (tally + tally') (action >>= next) m := by
  refine Accounts.bind (h.mono fun result m' cost added hadded ↦ ?_)
  obtain ⟨hsuccess, rfl⟩ := hadded
  cases result with
  | error error => exact hsuccess.elim
  | ok value =>
    refine (hnext value m').mono fun result _ cost' added' hadded' ↦ ⟨hadded'.1, ?_⟩
    rw [hadded'.2]
    abel

theorem bindQuiet (h : Counts counters 0 action m)
    (hnext : ∀ value m', Counts counters tally (next value) m') :
    Counts counters tally (action >>= next) m := by
  have hbind := h.bind hnext
  rwa [zero_add] at hbind

theorem bindLast (h : Counts counters tally action m)
    (hnext : ∀ value m', Counts counters 0 (next value) m') :
    Counts counters tally (action >>= next) m := by
  have hbind := h.bind hnext
  rwa [add_zero] at hbind

theorem read {next : σ → MethodM σ β} (h : Counts counters tally (next m) m) :
    Counts counters tally (get >>= next) m := h

theorem write {update : σ → σ} (hupdate : (counters (update m)).counter =
    tally +ᵥ (counters m).counter) : Counts counters tally (modify update : MethodM σ PUnit) m :=
  ⟨tally, ⟨trivial, (zero_add tally).symm⟩, hupdate⟩

theorem onlyIf {condition : Prop} [Decidable condition] {action : MethodM σ Unit}
    (h : condition → Counts counters 0 action m) :
    Counts counters 0 (onlyIf condition action) m := by
  unfold Sukari.onlyIf
  split
  · next hcondition => exact h hcondition
  · exact .done ()

theorem balanced (h : Counts counters tally action m) :
    Balanced counters (fun _ ↦ tally) action m :=
  Accounts.mono h fun _ _ _ _ hadded ↦ ⟨0, .zero, by rw [hadded.2, add_zero]⟩

theorem whenSuccessful (h : Counts counters tally action m) :
    Balanced counters (onSuccess tally) action m := by
  refine Accounts.mono h fun result _ cost added hadded ↦ ⟨0, .zero, ?_⟩
  obtain ⟨hsuccess, rfl⟩ := hadded
  rw [onSuccess, if_pos hsuccess, add_zero]

/-- The second method succeeds whenever it is reached. -/
theorem behind {tally : Tally} (h : Balanced counters (onSuccess tally) action m)
    (hnext : ∀ value m', Counts counters tally' (next value) m') :
    Balanced counters (onSuccess (tally + tally')) (action >>= next) m := by
  refine Accounts.bind (h.mono fun result m' cost added hadded ↦ ?_)
  obtain ⟨reads, hreads, rfl⟩ := hadded
  cases result with
  | error error => exact ⟨reads, hreads, rfl⟩
  | ok value =>
    refine (hnext value m').mono fun result _ cost' added' hadded' ↦ ⟨reads, hreads, ?_⟩
    obtain ⟨hsuccess, rfl⟩ := hadded'
    have hsum : onSuccess (tally + tally') result = tally + tally' := if_pos hsuccess
    have hfirst : onSuccess tally (.ok value : Except IoError α) = tally := if_pos trivial
    rw [hsum, hfirst]
    abel

end Counts

/-- A request that is not counted. -/
def Uncounted (op : FsOp) : Prop := ∀ reply, requestTally ⟨op, reply⟩ = 0

/-- A function with requests that are not counted. -/
theorem accounts_liftIo {counters : σ → StorageMetricsCounters} {m : σ} {action : IoM α}
    (h : IoWithin Uncounted action) {post : Except IoError α → Prop}
    (hpost : action.run.Returns post) :
    Accounts requestTally (fun m ↦ (counters m).counter) (fun result _ cost added ↦
      post result ∧ cost = 0 ∧ added = 0) (liftIo action) m := by
  refine Program.Spends.bind ((Program.Spends.ofReturns hpost h).mono fun cost result hcost ↦ ?_)
  exact ⟨0, ⟨hcost.2, by rw [hcost.1, add_zero], rfl⟩, (zero_vadd Tally _).symm⟩

theorem balanced_liftIo {counters : σ → StorageMetricsCounters} {m : σ} {action : IoM α}
    (h : IoWithin Uncounted action) : Balanced counters (fun _ ↦ 0) (liftIo action) m := by
  refine (accounts_liftIo h (.any _)).mono fun _ _ cost added hadded ↦ ⟨0, .zero, ?_⟩
  rw [hadded.2.1, hadded.2.2]
  simp only [add_zero]

theorem counts_liftIo {counters : σ → StorageMetricsCounters} {m : σ} {action : IoM α}
    (h : IoWithin Uncounted action) (hsuccess : action.run.Returns Succeeds) :
    Counts counters 0 (liftIo action) m := by
  refine (accounts_liftIo h hsuccess).mono fun _ _ cost added hadded ↦ ⟨hadded.1, ?_⟩
  rw [hadded.2.1, hadded.2.2, add_zero]

theorem balanced_onlyIf {counters : σ → StorageMetricsCounters} {m : σ} {condition : Prop}
    [Decidable condition] {action : MethodM σ Unit}
    (h : condition → Balanced counters (fun _ ↦ 0) action m) :
    Balanced counters (fun _ ↦ 0) (onlyIf condition action) m := by
  unfold onlyIf
  split
  · next hcondition => exact h hcondition
  · exact .done rfl

theorem balanced_failIf {counters : σ → StorageMetricsCounters} {m : σ} {condition : Prop}
    [Decidable condition] {error : IoError} :
    Balanced counters (fun _ ↦ 0) (failIf condition error : MethodM σ Unit) m := by
  unfold failIf
  split <;> exact .done rfl

theorem uncounted_discoverSegmentPaths : IoWithin Uncounted discoverSegmentPaths :=
  .bindExcept (within_io fun _ ↦ rfl) fun _ ↦ trivial

theorem uncounted_save_registry (registry : NodeRegistry) : IoWithin Uncounted registry.save :=
  .bindExcept (within_io fun _ ↦ rfl) fun _ ↦ within_io fun _ ↦ rfl

theorem uncounted_save_index (index : CheckpointIndex) : IoWithin Uncounted index.save :=
  .bindExcept (within_io fun _ ↦ rfl) fun _ ↦ within_io fun _ ↦ rfl

/-- A file that is read is not cut off. -/
theorem within_openSegment_of_read {allowed : FsOp → Prop} {segment : ℕ}
    (h : allowed (.read segment)) : IoWithin allowed (openSegment segment) := by
  refine .bindExcept (within_io h) fun contents ↦ ?_
  cases contents <;> trivial

/-! ### Reading -/

namespace Counted

/-- The function adds to the counters of loads only, apart from what its requests cost. -/
abbrev Reads (action : CountedM α) : Prop :=
  ∀ metrics, Balanced (fun metrics ↦ metrics) (fun _ ↦ 0) action metrics

theorem reads_modify {update : StorageMetricsCounters → StorageMetricsCounters} {tally : Tally}
    (htally : ReadTally tally)
    (hupdate : ∀ metrics, (update metrics).counter = tally +ᵥ metrics.counter)
    {next : PUnit → CountedM α} (h : Reads (next ⟨⟩)) : Reads (modify update >>= next) := by
  refine fun metrics ↦ Accounts.write tally (hupdate metrics)
    ((h _).mono fun _ _ cost added hadded ↦ ?_)
  obtain ⟨reads, hreads, rfl⟩ := hadded
  refine ⟨tally + reads, htally.add hreads, ?_⟩
  simp only [add_zero]
  abel

theorem reads_liftM (result : Except IoError α) : Reads (liftM result : CountedM α) :=
  fun _ ↦ .done rfl

theorem reads_checkChecksum (actual expected : ℕ) : Reads (checkChecksum actual expected) := by
  unfold checkChecksum
  split
  · exact reads_modify (.single .checksumFailures trivial 1)
      (fun metrics ↦ counter_increase metrics .checksumFailures 1) fun _ ↦ .done rfl
  · exact fun _ ↦ .done rfl

theorem reads_readRecordBody (stream : Stream) : Reads (readRecordBody stream) := by
  intro metrics
  unfold readRecordBody
  refine (reads_liftM _ metrics).bindQuiet (fun _ ↦ rfl) fun header metrics ↦ ?_
  rcases header with _ | ⟨⟨bodyLen, expectedChecksum⟩, stream⟩
  · exact .done rfl
  · dsimp only
    split
    · exact .done rfl
    · exact (reads_checkChecksum _ _ metrics).bindQuiet (fun _ ↦ rfl) fun _ _ ↦ .done rfl

theorem reads_scanRecordFrame (stream : Stream) : Reads (scanRecordFrame stream) := by
  intro metrics
  unfold scanRecordFrame
  refine (reads_liftM _ metrics).bindQuiet (fun _ ↦ rfl) fun header metrics ↦ ?_
  rcases header with _ | ⟨⟨bodyLen, expectedChecksum⟩, stream⟩
  · exact .done rfl
  · dsimp only
    cases scanChunks bodyLen bodyLen Crc32c.initial stream with
    | none => exact .done rfl
    | some scanned =>
      exact (reads_checkChecksum _ _ metrics).bindQuiet (fun _ ↦ rfl) fun _ _ ↦ .done rfl

/-- A truncation that is counted pays for the request. -/
theorem balanced_truncation (segment len : ℕ) (value : α) (metrics : StorageMetricsCounters) :
    Balanced (fun metrics ↦ metrics) (fun _ ↦ 0) (do
      modify replayTruncated
      liftIo (io (.setLen segment len))
      return value : CountedM α) metrics := by
  refine Accounts.write _ (counter_increase metrics .replayTruncations 1) fun reply ↦ ?_
  refine ⟨0, ⟨0, .zero, ?_⟩, (zero_vadd Tally _).symm⟩
  simp only [requestTally, add_zero]

theorem reads_readSegmentHeader (name : ℕ) (bytes : List UInt8) (allowPartial : Bool) :
    Reads (readSegmentHeader name bytes allowPartial true) := by
  intro metrics
  unfold readSegmentHeader
  split
  · split <;> exact .done rfl
  · split
    · split
      · exact balanced_truncation name 0 false metrics
      · next hpartial =>
        rw [if_neg fun hallow ↦ hpartial ⟨hallow, rfl⟩]
        exact .done rfl
    · split <;> exact .done rfl

/-- The truncation that a loop has counted. -/
def loopTally : Except IoError (σ × Option ℕ) → Tally
  | .ok (_, some _) => .single .replayTruncations 1
  | _ => 0

section Pass

variable {readFrame : Stream → CountedM (Option (β × Stream))} {visit : σ → ℕ → β → CountedM σ}

theorem balanced_recordLoop (hread : ∀ stream, Reads (readFrame stream))
    (hvisit : ∀ acc position frame, Reads (visit acc position frame)) (allowPartial : Bool)
    (fileLen rounds : ℕ) (stream : Stream) (acc : σ) (metrics : StorageMetricsCounters) :
    Balanced (fun metrics ↦ metrics) loopTally
      (recordLoop readFrame visit allowPartial fileLen rounds stream acc) metrics := by
  induction rounds generalizing stream acc metrics with
  | zero => exact .done rfl
  | succ rounds ih =>
    unfold recordLoop
    refine (hread stream metrics).bindQuiet (fun _ ↦ rfl) fun found metrics ↦ ?_
    rcases found with _ | ⟨frame, next⟩
    · dsimp only
      split
      · exact .done rfl
      · split
        · refine Accounts.write _ (counter_increase metrics .replayTruncations 1)
            (Accounts.done ⟨0, .zero, ?_⟩)
          simp only [loopTally, zero_add, add_zero]
        · exact .done rfl
    · exact (hvisit acc _ frame metrics).bindQuiet (fun _ ↦ rfl) fun acc metrics ↦
        ih next acc metrics

theorem reads_passSegment (hread : ∀ stream, Reads (readFrame stream))
    (hvisit : ∀ acc position frame, Reads (visit acc position frame))
    (start : ℕ → Except IoError ℕ) (segment : ℕ) (allowPartial : Bool) (acc : σ) :
    Reads (passSegment readFrame visit start segment allowPartial true acc) := by
  intro metrics
  refine (balanced_liftIo (within_openSegment_of_read fun _ ↦ rfl)).bindQuiet (fun _ ↦ rfl)
    fun bytes metrics ↦ (reads_readSegmentHeader segment bytes allowPartial metrics).bindQuiet
      (fun _ ↦ rfl) fun records metrics ↦ ?_
  cases records with
  | false => exact .done rfl
  | true =>
    refine (reads_liftM _ metrics).bindQuiet (fun _ ↦ rfl) fun offset metrics ↦
      Accounts.bind ((balanced_recordLoop hread hvisit _ _ _ _ _ metrics).mono
        fun result metrics cost added hadded ↦ ?_)
    obtain ⟨reads, hreads, rfl⟩ := hadded
    cases result with
    | error error => exact ⟨reads, hreads, rfl⟩
    | ok out =>
      obtain ⟨acc, partialStart⟩ := out
      cases partialStart with
      | none =>
        refine Accounts.done ⟨reads, hreads, ?_⟩
        simp only [loopTally, add_zero]
      | some recordStart =>
        intro reply
        refine ⟨0, ⟨reads, hreads, ?_⟩, (zero_vadd Tally _).symm⟩
        simp only [loopTally, requestTally, add_zero]

end Pass

theorem Reads.bind {action : CountedM α} {next : α → CountedM β} (h : Reads action)
    (hnext : ∀ value, Reads (next value)) : Reads (action >>= next) :=
  fun metrics ↦ (h metrics).bindQuiet (fun _ ↦ rfl) fun value metrics ↦ hnext value metrics

theorem Reads.foldlM {ι : Type} {step : β → ι → CountedM β} (h : ∀ acc item, Reads (step acc item))
    (items : List ι) (acc : β) : Reads (items.foldlM step acc) := by
  induction items generalizing acc with
  | nil => exact fun _ ↦ .done rfl
  | cons item rest ih =>
    rw [List.foldlM_cons]
    exact (h acc item).bind ih

theorem Reads.forM {ι : Type} {step : ι → CountedM PUnit} (h : ∀ item, Reads (step item))
    (items : List ι) : Reads (items.forM step) := by
  induction items with
  | nil => exact fun _ ↦ .done rfl
  | cons item rest ih => exact (h item).bind fun _ ↦ ih

theorem reads_recordReplayed (kind : RecordKindMetric) (bytes : ℕ) {next : PUnit → CountedM α}
    (h : Reads (next ⟨⟩)) :
    Reads (modify (fun metrics ↦ metrics.recordReplayed kind bytes) >>= next) :=
  reads_modify (.add (.single (.bytesReplayed kind) trivial bytes)
    (.single (.recordsReplayed kind) trivial 1))
    (fun metrics ↦ counter_recordReplayed metrics kind bytes) h

theorem reads_replayRecord (segment : ℕ) (nodeFilter : Option NodeIdSet)
    (checkpointPositions : CheckpointPositions) (replay : ReplayState N) (recordStart : ℕ)
    (body : List UInt8) :
    Reads (replayRecord segment nodeFilter checkpointPositions replay recordStart body) := by
  unfold replayRecord
  refine (reads_liftM _).bind fun nodeId ↦ ?_
  split
  · dsimp only
    split
    · exact fun _ ↦ .done rfl
    · refine (reads_liftM _).bind fun nodeRecord ↦ (reads_liftM _).bind fun replay ↦ ?_
      exact reads_recordReplayed _ _ fun _ ↦ .done rfl
  · exact fun _ ↦ .done rfl

theorem reads_replayNodeRecord (segment : ℕ) (targetNodeId : NodeId)
    (checkpointPosition : Option RecordPosition) (state : NodeState N) (recordStart : ℕ)
    (body : List UInt8) :
    Reads (replayNodeRecord segment targetNodeId checkpointPosition state recordStart body) := by
  unfold replayNodeRecord
  refine (reads_liftM _).bind fun nodeId ↦ ?_
  split
  · dsimp only
    split
    · exact fun _ ↦ .done rfl
    · refine (reads_liftM _).bind fun nodeRecord ↦ (reads_liftM _).bind fun state ↦ ?_
      exact reads_recordReplayed _ _ fun _ ↦ .done rfl
  · exact fun _ ↦ .done rfl

theorem reads_passSegments {pass : ℕ → Bool → σ → CountedM σ}
    (hpass : ∀ segment allowPartial acc, Reads (pass segment allowPartial acc))
    (startSegment : Option ℕ) (activeSegment : ℕ) (acc : σ) :
    Reads (passSegments pass startSegment activeSegment true acc) := by
  refine Reads.bind (fun _ ↦ balanced_liftIo uncounted_discoverSegmentPaths) fun segments ↦
    .foldlM (fun acc segment ↦ ?_) segments acc
  split
  · exact fun _ ↦ .done rfl
  · exact hpass segment _ acc

theorem reads_findCheckpointPositionsFrom (activeSegment : ℕ) (nodeFilter : Option NodeIdSet)
    (startPosition : Option RecordPosition) :
    Reads (findCheckpointPositionsFrom N activeSegment nodeFilter startPosition true) :=
  reads_passSegments (fun _ _ _ ↦ reads_passSegment reads_readRecordBody
    (fun _ _ _ ↦ reads_liftM _) _ _ _ _) _ _ _

theorem reads_replayNodeState (activeSegment : ℕ) (nodeId : NodeId)
    (checkpointHint : Option RecordPosition) :
    Reads (replayNodeState N activeSegment nodeId checkpointHint true) :=
  (reads_findCheckpointPositionsFrom _ _ _).bind fun _ ↦
    reads_passSegments (fun _ _ _ ↦ reads_passSegment reads_readRecordBody
      (reads_replayNodeRecord _ _ _) _ _ _ _) _ _ _

theorem reads_checkpointPositionsForReplay (activeSegment : ℕ) (nodeFilter : Option NodeIdSet)
    (checkpointHints : Option CheckpointPositions) :
    Reads (checkpointPositionsForReplay N activeSegment nodeFilter checkpointHints true) := by
  unfold checkpointPositionsForReplay
  cases checkpointHints with
  | none => exact (reads_findCheckpointPositionsFrom _ _ _).bind fun _ _ ↦ .done rfl
  | some checkpointPositions =>
    dsimp only
    cases (checkpointPositions.toList.map Prod.snd).min? with
    | none => exact fun _ ↦ .done rfl
    | some startPosition =>
      exact (reads_findCheckpointPositionsFrom _ _ _).bind fun _ _ ↦ .done rfl

theorem reads_replayStorageDir (activeSegment : ℕ) (nodeFilter : Option NodeIdSet)
    (checkpointHints : Option CheckpointPositions) :
    Reads (replayStorageDir N activeSegment nodeFilter checkpointHints true) :=
  (reads_checkpointPositionsForReplay _ _ _).bind fun _ ↦
    reads_passSegments (fun _ _ _ ↦ reads_passSegment reads_readRecordBody
      (reads_replayRecord _ _ _) _ _ _ _) _ _ _

theorem reads_recoverStorageDir (activeSegment : ℕ) : Reads (recoverStorageDir activeSegment) :=
  Reads.bind (fun _ ↦ balanced_liftIo uncounted_discoverSegmentPaths) fun segments ↦
    .forM (fun _ ↦ reads_passSegment reads_scanRecordFrame (fun _ _ _ _ ↦ .done rfl) _ _ _ _)
      segments

end Counted

/-! ### The writer -/

namespace CountedWriter

variable {s : CountedWriter}

theorem counts_syncCurrentSegment : Counts metrics 0 syncCurrentSegment s := by
  refine .read fun reply ↦ ?_
  refine ⟨.single .durableSyncs 1, ⟨trivial, ?_⟩, counter_segmentSynced s.metrics⟩
  simp only [requestTally, add_zero]

theorem counts_sync : Counts metrics 0 sync s :=
  .read (.onlyIf fun _ ↦ counts_syncCurrentSegment)

theorem balanced_rotate : Balanced metrics (fun _ ↦ 0) rotate s := by
  refine counts_syncCurrentSegment.balanced.bindQuiet (fun _ ↦ rfl) fun _ s ↦ .read ?_
  refine Balanced.bindQuiet (.done rfl) (fun _ ↦ rfl) fun nextSegment s (new : Bool) ↦ ?_
  cases new with
  | false => exact ⟨0, ⟨0, .zero, by simp only [requestTally, add_zero]⟩, (zero_vadd Tally _).symm⟩
  | true =>
    intro (result : Except IoError Unit)
    cases result with
    | error error =>
      refine ⟨0, ⟨0, .zero, ?_⟩, (zero_vadd Tally _).symm⟩
      rw [requestTally_writeAll_error]
      simp only [requestTally, add_zero]
    | ok value =>
      refine fun reply ↦ ⟨.single .segmentRotations 1, ⟨0, .zero, ?_⟩,
        counter_segmentRotated s.metrics _ _⟩
      rw [requestTally_writeAll_ok, if_pos rfl]
      simp only [requestTally, add_zero, zero_add]

theorem balanced_writeAll (name : ℕ) {frame : List UInt8} (hframe : frame ≠ segmentFormatMagic) :
    Balanced metrics (fun _ ↦ 0) (liftIo (writeAll name frame)) s := by
  refine balanced_liftIo (.bindExcept (within_io fun result ↦ ?_) fun _ ↦ trivial)
  cases (result : Except IoError Unit) with
  | error error => exact requestTally_writeAll_error name frame error
  | ok value => rw [requestTally_writeAll_ok, if_neg hframe]

/-- The end of an append. -/
theorem balanced_writeFrame (kind : RecordKindMetric) {frame : List UInt8}
    (hframe : frame ≠ segmentFormatMagic) :
    Balanced metrics (onSuccess (.single (.bytesWritten kind) frame.length +
      .single (.recordsWritten kind) 1)) (writeFrame kind frame) s := by
  refine .read ((balanced_writeAll _ hframe).bindQuiet (fun _ ↦ rfl) fun _ s ↦
    balanced_failIf.bindQuiet (fun _ ↦ rfl) fun _ s ↦ ?_)
  refine Accounts.write _ (counter_recordWritten s.metrics kind frame.length)
    (Accounts.done ⟨0, .zero, ?_⟩)
  have hsuccess (tally : Tally) (position : RecordPosition) :
      onSuccess tally (.ok position) = tally := if_pos trivial
  rw [hsuccess]
  simp only [add_zero, zero_add]

theorem balanced_append (nodeId : NodeId) (record : Record N) :
    Balanced metrics (onSuccess (recordTally nodeId record)) (append nodeId record) s := by
  unfold append
  cases hframe : encodeRecordFrame nodeId record with
  | error error => exact .done rfl
  | ok frame =>
    have htally : recordTally nodeId record =
        .single (.bytesWritten record.metricKind) frame.length +
        .single (.recordsWritten record.metricKind) 1 := by
      rw [recordTally, hframe, add_comm]
      rfl
    have hne : frame ≠ segmentFormatMagic := by
      rintro rfl
      obtain ⟨frame, -, -, hmagic⟩ := encodeRecordFrame_eq_ok_iff.mp hframe
      have hlength := frame.length_bytes
      rw [hmagic] at hlength
      have hheader : segmentFormatMagic.length = 4 := rfl
      omega
    rw [htally]
    exact .ok (.read ((balanced_onlyIf fun _ ↦ balanced_rotate).bindQuiet (fun _ ↦ rfl) fun _ s ↦
      balanced_writeFrame _ hne))

end CountedWriter

/-! ### The engine -/

namespace CountedEngine

variable {counted : CountedEngine}

theorem accounts_onWriter {action : CountedWriterM α}
    {post : Except IoError α → Tally → Tally → Prop}
    (h : Accounts requestTally (fun s : CountedWriter ↦ s.metrics.counter)
      (fun result _ cost added ↦ post result cost added) action ⟨counted.writer, counted.metrics⟩) :
    Accounts requestTally (fun counted : CountedEngine ↦ counted.metrics.counter)
      (fun result _ cost added ↦ post result cost added) (onWriter action) counted := by
  refine Program.Spends.bind (Program.Spends.mono h fun cost out hout ↦ ?_)
  obtain ⟨result, s⟩ := out
  obtain ⟨added, hadded, hcounters⟩ := hout
  exact ⟨added, by rwa [add_zero], hcounters⟩

theorem balanced_onWriter {action : CountedWriterM α} {extra : Except IoError α → Tally}
    (h : Balanced CountedWriter.metrics extra action ⟨counted.writer, counted.metrics⟩) :
    Balanced metrics extra (onWriter action) counted :=
  accounts_onWriter h

theorem counts_onWriter {action : CountedWriterM α} {tally : Tally}
    (h : Counts CountedWriter.metrics tally action ⟨counted.writer, counted.metrics⟩) :
    Counts metrics tally (onWriter action) counted :=
  accounts_onWriter h

theorem balanced_onMetrics {action : CountedM α} (h : Counted.Reads action) :
    Balanced metrics (fun _ ↦ 0) (onMetrics action) counted := by
  refine Program.Spends.bind (Program.Spends.mono (h counted.metrics) fun cost out hout ↦ ?_)
  obtain ⟨result, metrics⟩ := out
  obtain ⟨added, hadded, hcounters⟩ := hout
  exact ⟨added, by rwa [add_zero], hcounters⟩

/-- A change of the metrics that adds to the counters. -/
theorem counts_count {update : StorageMetricsCounters → StorageMetricsCounters} (tally : Tally)
    (hupdate : ∀ metrics, (update metrics).counter = tally +ᵥ metrics.counter) :
    Counts metrics tally (count update) counted :=
  .write (hupdate counted.metrics)

/-- A change of something else. -/
theorem counts_modify {update : CountedEngine → CountedEngine}
    (hupdate : (update counted).metrics = counted.metrics) :
    Counts metrics 0 (modify update : CountedEngineM PUnit) counted :=
  .write (by rw [hupdate, zero_vadd])

theorem counts_refreshRegistryMetrics : Counts metrics 0 refreshRegistryMetrics counted :=
  .read (counts_count 0 fun _ ↦ (zero_vadd Tally _).symm)

theorem counts_refreshCheckpointIndexMetrics :
    Counts metrics 0 refreshCheckpointIndexMetrics counted :=
  .read (counts_count 0 fun _ ↦ (zero_vadd Tally _).symm)

theorem counts_save_registry (registry : NodeRegistry) :
    Counts metrics 0 (liftIo registry.save) counted :=
  counts_liftIo (uncounted_save_registry registry) fun _ _ ↦ trivial

theorem counts_save_index (index : CheckpointIndex) :
    Counts metrics 0 (liftIo index.save) counted :=
  counts_liftIo (uncounted_save_index index) fun _ _ ↦ trivial

/-- The check of the node counts a rejection, or it passes. -/
theorem balanced_ensureNodeExists (nodeId : NodeId) (operation : StorageOperationKind) :
    Balanced metrics (fun _ ↦ rejectionTally counted.registry nodeId operation)
      (ensureNodeExists nodeId operation) counted := by
  have hreject (error : NodeAccessErrorKind) (value : IoError) :
      Balanced metrics (fun _ ↦ .single (.rejectedOperations error operation) 1) (do
        count fun metrics ↦ metrics.rejectedOperation operation error
        throw value : CountedEngineM Unit) counted :=
    .write _ (counter_rejectedOperation counted.metrics operation error)
      (fun _ ↦ (add_zero _).symm) (.done rfl)
  refine .read ?_
  unfold rejectionTally
  dsimp only
  by_cases hactive : counted.registry.isActive nodeId = true
  · rw [if_pos hactive, if_pos hactive]
    exact .done rfl
  · rw [if_neg hactive, if_neg hactive]
    by_cases hremoved : counted.registry.isRemoved nodeId = true
    · rw [if_pos hremoved, if_pos hremoved]
      exact hreject .removedNode nodeRemovedError
    · rw [if_neg hremoved, if_neg hremoved]
      exact hreject .unknownNode nodeNotFoundError

/-- The loop of garbage collection. -/
theorem spends_deletions (barrier : GcBarrier) (active : ℕ) (segments : List ℕ) (deleted : ℕ) :
    (segments.foldlM (fun deleted segment ↦
      if segment = active then return deleted
      else if barrier.allowsDelete segment = false then return deleted
      else do
        let existed : Bool ← io (.remove segment)
        return if existed then deleted + 1 else deleted) deleted : IoM ℕ).run.Spends requestTally
      fun cost result ↦ ∃ more, result = .ok (deleted + more) ∧
        cost = .single .gcSegmentsDeleted more := by
  induction segments generalizing deleted with
  | nil => exact ⟨0, rfl, (Tally.single_zero _).symm⟩
  | cons segment rest ih =>
    rw [List.foldlM_cons]
    by_cases hactive : segment = active
    · rw [if_pos hactive]
      exact ih deleted
    · by_cases hallows : barrier.allowsDelete segment = false
      · rw [if_neg hactive, if_pos hallows]
        exact ih deleted
      · rw [if_neg hactive, if_neg hallows]
        intro (existed : Bool)
        cases existed with
        | false =>
          refine (ih deleted).mono fun cost result hcost ↦ ?_
          obtain ⟨more, hresult, rfl⟩ := hcost
          refine ⟨more, hresult, ?_⟩
          simp only [requestTally, Bool.toNat_false, Tally.single_zero, zero_add]
        | true =>
          refine (ih (deleted + 1)).mono fun cost result hcost ↦ ?_
          obtain ⟨more, hresult, rfl⟩ := hcost
          refine ⟨1 + more, by rw [hresult, Nat.add_assoc], ?_⟩
          rw [Tally.single_add]
          rfl

/-- Garbage collection succeeds, and it counts the segments that it removes. -/
theorem counts_collectGarbage :
    Counts metrics (.single .gcRuns 1) collectGarbage counted := by
  refine (counts_count _ fun metrics ↦ counter_increase metrics .gcRuns 1).bindLast fun _ counted ↦
    .read ?_
  cases counted.checkpointIndex.gcBarrier counted.registry.activeNodeIds with
  | none => exact .done ()
  | some barrier =>
    refine (counts_liftIo uncounted_discoverSegmentPaths fun _ ↦ trivial).bindQuiet
      fun segments counted ↦ Accounts.bind (Program.Spends.bind
        ((spends_deletions barrier _ segments 0).mono fun cost result hcost ↦ ?_))
    obtain ⟨deleted, rfl, rfl⟩ := hcost
    refine ⟨0, ?_, (zero_vadd Tally _).symm⟩
    rw [Nat.zero_add, add_zero]
    dsimp only
    have hcounts : Counts metrics (.single .gcSegmentsDeleted deleted) (do
        onlyIf (deleted ≠ 0) (count fun metrics ↦ metrics.gcDeletedSegments deleted)
        onlyIf (deleted ≠ 0) (liftIo syncDir) : CountedEngineM Unit) counted := by
      refine Counts.bindLast ?_ fun _ _ ↦ .onlyIf fun _ ↦
        counts_liftIo (within_io fun _ ↦ rfl) fun _ ↦ trivial
      by_cases hdeleted : deleted ≠ 0
      · rw [onlyIf, if_pos hdeleted]
        exact counts_count _ fun metrics ↦ counter_increase metrics .gcSegmentsDeleted deleted
      · rw [onlyIf, if_neg hdeleted, not_not.mp hdeleted, Tally.single_zero]
        exact .done ()
    refine Accounts.mono hcounts fun result _ cost added hadded ↦ ⟨hadded.1, ?_⟩
    rw [hadded.2]
    abel

theorem balanced_saveRecord (nodeId : NodeId) (record : Record N)
    (operation : StorageOperationKind) :
    Balanced metrics (fun result ↦ rejectionTally counted.registry nodeId operation +
      onSuccess (recordTally nodeId record) result)
      (saveRecord nodeId record operation) counted := by
  refine (balanced_ensureNodeExists nodeId operation).bind (fun error ↦ add_zero _)
    (fun _ _ ↦ rfl) fun _ counted ↦ ?_
  rw [← add_zero (recordTally nodeId record)]
  exact Counts.behind (balanced_onWriter (CountedWriter.balanced_append nodeId record))
    fun _ _ ↦ .done ()

theorem balanced_createNode (nodeId : NodeId) (metadata : NodeMetadata) :
    Balanced metrics (onSuccess (recordTally nodeId
      (.snapshotCheckpoint (initialCheckpoint N)) + .single .nodesCreated 1))
      (createNode N nodeId metadata) counted := by
  refine .read ?_
  cases counted.registry.createNode nodeId metadata with
  | error error => exact .done rfl
  | ok registry =>
    refine .ok (Counts.behind (balanced_onWriter (CountedWriter.balanced_append nodeId _))
      fun position counted ↦ (counts_onWriter CountedWriter.counts_sync).bindQuiet
        fun _ counted ↦ .read ((counts_save_index _).bindQuiet fun _ counted ↦
          (counts_save_registry registry).bindQuiet fun _ counted ↦
            (counts_modify rfl).bindQuiet fun _ counted ↦ ?_))
    exact (counts_count _ fun metrics ↦ counter_increase metrics .nodesCreated 1).bindLast
      fun _ _ ↦ counts_refreshRegistryMetrics.bindQuiet fun _ _ ↦
        counts_refreshCheckpointIndexMetrics

theorem balanced_saveSnapshot (nodeId : NodeId) (checkpoint : SnapshotCheckpoint N) :
    Balanced metrics (fun result ↦ rejectionTally counted.registry nodeId .saveSnapshot +
      onSuccess (recordTally nodeId (.snapshotCheckpoint checkpoint) + .single .gcRuns 1 +
        .single .snapshotCheckpointsSaved 1) result) (saveSnapshot nodeId checkpoint) counted := by
  refine (balanced_ensureNodeExists nodeId .saveSnapshot).bind (fun error ↦ add_zero _)
    (fun _ _ ↦ rfl) fun _ counted ↦ ?_
  rw [add_assoc]
  refine Balanced.bindQuiet (.done rfl) (fun _ ↦ rfl) fun _ counted ↦
    Counts.behind (balanced_onWriter (CountedWriter.balanced_append nodeId _))
      fun position counted ↦ (counts_onWriter CountedWriter.counts_sync).bindQuiet
        fun _ counted ↦ .read ((counts_save_index _).bindQuiet fun _ counted ↦
          (counts_modify rfl).bindQuiet fun _ counted ↦
            counts_refreshCheckpointIndexMetrics.bindQuiet fun _ counted ↦ ?_)
  exact counts_collectGarbage.bind fun _ _ ↦
    counts_count _ fun metrics ↦ counter_increase metrics .snapshotCheckpointsSaved 1

theorem balanced_removeNode (nodeId : NodeId) :
    Balanced metrics (fun result ↦ rejectionTally counted.registry nodeId .removeNode +
      onSuccess (.single .gcRuns 1 + .single .nodesRemoved 1) result) (removeNode nodeId)
        counted := by
  refine (balanced_ensureNodeExists nodeId .removeNode).bind (fun error ↦ add_zero _)
    (fun _ _ ↦ rfl) fun _ counted ↦ .read ?_
  cases counted.registry.removeNode nodeId with
  | error error => exact .done rfl
  | ok registry =>
    refine .ok (Counts.whenSuccessful ((counts_save_registry registry).bindQuiet fun _ counted ↦
      (counts_modify rfl).bindQuiet fun _ counted ↦ .read ((counts_save_index _).bindQuiet
        fun _ counted ↦ (counts_modify rfl).bindQuiet fun _ counted ↦
          counts_collectGarbage.bind fun _ counted ↦ ?_)))
    exact (counts_count _ fun metrics ↦ counter_increase metrics .nodesRemoved 1).bindLast
      fun _ _ ↦ counts_refreshRegistryMetrics.bindQuiet fun _ _ ↦
        counts_refreshCheckpointIndexMetrics

theorem counts_sync : Counts metrics (.single .syncs 1) sync counted :=
  (counts_count _ fun metrics ↦ counter_increase metrics .syncs 1).bindLast fun _ _ ↦
    counts_onWriter CountedWriter.counts_sync

theorem balanced_load (nodeId : NodeId) :
    Balanced metrics (fun _ ↦ rejectionTally counted.registry nodeId .load)
      (load N nodeId) counted :=
  (balanced_ensureNodeExists nodeId .load).bind (fun _ ↦ rfl) (fun _ _ ↦ (add_zero _).symm)
    fun _ _ ↦ .read (balanced_onMetrics (Counted.reads_replayNodeState _ _ _))

theorem balanced_loadAll : Balanced metrics (fun _ ↦ 0) (loadAll N) counted := by
  refine .read ?_
  dsimp only
  split
  · exact .done rfl
  · exact (balanced_onMetrics (Counted.reads_replayStorageDir _ _ _)).bindQuiet (fun _ ↦ rfl)
      fun _ _ ↦ .done rfl

/-- A call adds its tally to the counters. -/
theorem balanced_call (command : Command N) :
    Balanced metrics (callTally counted.registry command) (call command) counted := by
  have htally (rejection tally : Tally) (result : Except IoError Unit) :
      rejection + 0 + (if Succeeds result then tally else 0) =
        rejection + onSuccess tally result := by
    rw [add_zero, onSuccess]
  have hdone (counted : CountedEngine) :
      Balanced metrics (fun _ ↦ 0) (pure () : CountedEngineM Unit) counted := .done rfl
  cases command with
  | createNode nodeId metadata =>
    refine (balanced_createNode nodeId metadata).congr fun result ↦ ?_
    exact ((htally 0 _ result).trans (zero_add _)).symm
  | removeNode nodeId =>
    exact (balanced_removeNode nodeId).congr fun result ↦ (htally _ _ result).symm
  | saveCurrentTerm nodeId term =>
    exact (balanced_saveRecord nodeId _ _).congr fun result ↦ (htally _ _ result).symm
  | saveVotedFor nodeId votedFor =>
    exact (balanced_saveRecord nodeId _ _).congr fun result ↦ (htally _ _ result).symm
  | appendEntries nodeId append =>
    exact (balanced_saveRecord nodeId _ _).congr fun result ↦ (htally _ _ result).symm
  | saveSnapshot nodeId checkpoint =>
    exact (balanced_saveSnapshot nodeId checkpoint).congr fun result ↦ (htally _ _ result).symm
  | sync =>
    refine counts_sync.balanced.congr fun result ↦ ?_
    simp [callTally, Command.operation, Command.tally]
  | load nodeId =>
    have hload : Balanced metrics (fun _ ↦ rejectionTally counted.registry nodeId .load)
        (call (.load nodeId : Command N)) counted :=
      (balanced_load nodeId).bind (fun _ ↦ rfl) (fun _ _ ↦ (add_zero _).symm) fun _ ↦ hdone
    refine hload.congr fun result ↦ ?_
    simp [callTally, Command.operation, Command.tally]
  | loadAll =>
    have hloadAll : Balanced metrics (fun _ ↦ 0) (call (.loadAll : Command N)) counted :=
      balanced_loadAll.bindQuiet (fun _ ↦ rfl) fun _ ↦ hdone
    refine hloadAll.congr fun result ↦ ?_
    simp [callTally, Command.operation, Command.tally]

/-- The method that a command stands for, with its value. -/
def answer : Command N → CountedEngineM (Answer N)
  | .load nodeId => do return .state (← load N nodeId)
  | .loadAll => do return .nodes (← loadAll N)
  | command => do
    call command
    return .done

/-- A call without the metrics makes the same requests and returns the same. -/
theorem answer_erases (command : Command N) :
    Erases engine counted (answer command) (StorageEngine.answer command) := by
  cases command with
  | load nodeId => exact .bind (load_erases nodeId) fun _ _ ↦ .done _
  | loadAll => exact .bind loadAll_erases fun _ _ ↦ .done _
  | createNode | removeNode | saveCurrentTerm | saveVotedFor | appendEntries
  | saveSnapshot | sync =>
    exact .bind (call_erases _) fun _ _ ↦ .done _

theorem balanced_answer (command : Command N) :
    Balanced metrics (callTally counted.registry command) (answer command) counted := by
  have hmap {β γ : Type} (f : β → γ) (result : Except IoError β) :
      callTally counted.registry command (Except.map f result) =
        callTally counted.registry command result := by
    cases result <;> rfl
  cases command with
  | load nodeId =>
    refine (balanced_load nodeId).map fun result ↦ ?_
    simp [callTally, Command.operation, Command.tally]
  | loadAll =>
    refine balanced_loadAll.map fun result ↦ ?_
    simp [callTally, Command.operation, Command.tally]
  | createNode | removeNode | saveCurrentTerm | saveVotedFor | appendEntries
  | saveSnapshot | sync =>
    exact (balanced_call _).map (hmap _)

end CountedEngine

/-! ### Runs -/

/-- Makes calls one after another and notes each with what it returned, for the engine with or
without its counters. -/
def makeCalls (registry : σ → NodeRegistry) (answer : Command N → MethodM σ (Answer N)) :
    List (Command N) → σ → Program fileSystem (List (Call N) × σ)
  | [], m => .done ([], m)
  | command :: rest, m => do
    let out ← (answer command).run m
    let later ← makeCalls registry answer rest out.2
    return (⟨registry m, command, out.1⟩ :: later.1, later.2)

namespace CountedEngine

/-- Without its counters the engine makes the same requests and returns the same results. -/
theorem makeCalls_erases (commands : List (Command N)) (counted : CountedEngine) :
    Program.Maps (fun out ↦ (out.1, engine out.2)) (makeCalls registry answer commands counted)
      (makeCalls StorageEngine.registry StorageEngine.answer commands counted.engine) := by
  induction commands generalizing counted with
  | nil => rfl
  | cons command rest ih =>
    exact Program.Maps.bind (answer_erases command) fun out ↦ (ih out.2).bind fun _ ↦ rfl

theorem spends_makeCalls (commands : List (Command N)) (counted : CountedEngine) :
    (makeCalls registry answer commands counted).Spends requestTally fun cost out ↦
      ∃ reads, ReadTally reads ∧ out.2.metrics.counter =
        (cost + (out.1.map Call.tally).sum + reads) +ᵥ counted.metrics.counter := by
  induction commands generalizing counted with
  | nil => exact ⟨0, .zero, by simp⟩
  | cons command rest ih =>
    refine .bind (Program.Spends.mono (balanced_answer command) fun cost out hout ↦ ?_)
    obtain ⟨added, ⟨reads, hreads, rfl⟩, hcounters⟩ := hout
    refine .bind ((ih out.2).mono fun cost' later hlater ↦ ?_)
    obtain ⟨reads', hreads', hcounters'⟩ := hlater
    have hcall : out.2.metrics.counter =
        (cost + (⟨counted.registry, command, out.1⟩ : Call N).tally +
      reads) +ᵥ counted.metrics.counter := hcounters
    refine ⟨reads + reads', hreads.add hreads', ?_⟩
    rw [hcounters', hcall, ← add_vadd, List.map_cons, List.sum_cons]
    congr 1
    abel

/-- Whatever the directory answers, the engine makes the same requests and returns the same errors
and states as without its counters, and afterwards every counter has grown by what the requests and
the calls add up to, apart from what loads have added to theirs. -/
theorem counters_tally {τ : Type} (commands : List (Command N)) (counted : CountedEngine)
    (M : Machine fileSystem τ) (s : τ) :
    ∃ (history : List (Call N)) (counted' : CountedEngine) (s' : τ) (reads : Tally),
      M.run (makeCalls registry answer commands counted) s = ((history, counted'), s') ∧
      M.run (makeCalls StorageEngine.registry StorageEngine.answer commands counted.engine) s =
        ((history, counted'.engine), s') ∧
      M.performed
        (makeCalls StorageEngine.registry StorageEngine.answer commands counted.engine) s =
        M.performed (makeCalls registry answer commands counted) s ∧
      ReadTally reads ∧
      counted'.metrics.counter =
        (((M.performed (makeCalls registry answer commands counted) s).map requestTally).sum +
          (history.map Call.tally).sum + reads) +ᵥ counted.metrics.counter := by
  have herases := makeCalls_erases commands counted
  obtain ⟨reads, hreads, hcounters⟩ := (spends_makeCalls commands counted).run M s
  exact ⟨_, _, _, reads, rfl, herases.run M s, herases.performed M s, hreads, hcounters⟩

end CountedEngine

end Sukari
