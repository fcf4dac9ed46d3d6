import Sukari.MetricGauges
import Sukari.Footprints

/-!
# What the counters say after a session

An engine that has just been opened has counted the truncations of its recovery, and nothing else
but what its recovery has read. From there the counters of a session add up: what
`StorageEngine::metrics` shows is the number of truncations at the opening and the sum over the
requests and the calls since then, or the largest `u64` (`counters_session`).
-/

set_option autoImplicit false
set_option relaxedAutoImplicit false

namespace Sukari

open Effects StorageMetricsCounters

variable {N : Noraft}

/-- What a request of the opening adds to the counters: the header of a segment is no rotation
there. -/
def openingTally : Exchange fileSystem → Tally
  | ⟨.setLen _ _, _⟩ => .single .replayTruncations 1
  | _ => 0

/-- A request that counts the same in an opening and in a call. -/
def CountsAlike (op : FsOp) : Prop := ∀ reply, requestTally ⟨op, reply⟩ = openingTally ⟨op, reply⟩

/-- A request that an opening does not count. -/
def Unnoticed (op : FsOp) : Prop := ∀ reply, openingTally ⟨op, reply⟩ = 0

instance : AllowsPass CountsAlike := ⟨fun _ _ ↦ rfl, fun _ _ _ ↦ rfl⟩

/-! ### The recovery -/

theorem spends_recoverStorageDir (activeSegment : ℕ) (metrics : StorageMetricsCounters) :
    ((Counted.recoverStorageDir activeSegment).run metrics : Program fileSystem _).Spends
      openingTally
      fun cost out ↦ ∃ reads, ReadTally reads ∧
        out.2.counter = (cost + reads) +ᵥ metrics.counter := by
  have hplain : IoWithin CountsAlike (recoverStorageDir activeSegment) :=
    .bindExcept (.bindExcept (within_io fun _ ↦ rfl) fun _ ↦ trivial) fun segments ↦
      .forM (fun _ ↦ within_passSegment _ _ _ _ _ _ _) segments
  have hwithin : Program.Within CountsAlike
      ((Counted.recoverStorageDir activeSegment).run metrics : Program fileSystem _) :=
    Program.Maps.within (Counted.recoverStorageDir_unmetered activeSegment)
      (hplain.bind fun _ ↦ trivial)
  refine (Program.Spends.congr (Counted.reads_recoverStorageDir activeSegment metrics) hwithin
    fun _ reply halike ↦ halike reply).mono fun cost out hout ↦ ?_
  obtain ⟨added, ⟨reads, hreads, rfl⟩, hcounters⟩ := hout
  refine ⟨reads, hreads, hcounters.trans ?_⟩
  rw [add_zero]

/-! ### The rest of the opening -/

theorem unnoticed_loadRegistry : IoWithin Unnoticed NodeRegistry.load :=
  .bindExcept (within_io fun _ ↦ rfl) fun _ ↦ within_liftM _

/-- A header that is read without recovery is not cut off. -/
theorem unnoticed_readSegmentHeader (name : ℕ) (bytes : List UInt8) (allowPartial : Bool) :
    IoWithin Unnoticed (readSegmentHeader name bytes allowPartial false) := by
  unfold readSegmentHeader
  split
  · split <;> trivial
  · split
    · rw [if_neg fun hrecover ↦ Bool.false_ne_true hrecover.2]
      split <;> trivial
    · split <;> trivial

theorem unnoticed_loadIndex (registry : NodeRegistry) :
    IoWithin Unnoticed (CheckpointIndex.load N registry) := by
  have hvalidate (nodeId : NodeId) (position : RecordPosition) :
      IoWithin Unnoticed (validateCheckpointPosition N nodeId position) :=
    .bindExcept (within_io fun _ ↦ rfl) fun _ ↦ .bindExcept within_failIf fun _ ↦
      .bindExcept (within_openSegment_of_read fun _ ↦ rfl) fun _ ↦
        .bindExcept (unnoticed_readSegmentHeader _ _ _) fun _ ↦ within_liftM _
  refine .bindExcept (within_io fun _ ↦ rfl) fun contents ↦ ?_
  cases contents with
  | none => trivial
  | some document =>
    simp only
    split
    · trivial
    · refine .bindExcept ?_ fun _ ↦ trivial
      unfold CheckpointIndex.validateCheckpointPositions
      exact .forM (fun item : NodeId × RecordPosition ↦ hvalidate item.1 item.2) _

theorem unnoticed_newWriter (activeSegment maxSegmentLen : ℕ) :
    IoWithin Unnoticed (SegmentWriter.new activeSegment maxSegmentLen) := by
  have hopen : IoWithin Unnoticed (openActiveSegmentFile activeSegment) :=
    .bindExcept (within_io fun _ ↦ rfl) fun _ ↦ .bindExcept (within_io fun _ ↦ rfl) fun _ ↦
      within_onlyIf (.bindExcept (within_io fun _ ↦ rfl) fun _ ↦ within_liftM _)
  exact .bindExcept (within_io fun _ ↦ rfl) fun _ ↦ .bindExcept hopen fun _ ↦
    .bindExcept (within_onlyIf (within_io fun _ ↦ rfl)) fun _ ↦
      .bindExcept (within_io fun _ ↦ rfl) fun _ ↦ trivial

namespace CountedEngine

theorem spends_recovered (activeSegment maxSegmentLen : ℕ) (metrics : StorageMetricsCounters) :
    ((recovered N activeSegment maxSegmentLen).run metrics : Program fileSystem _).Spends
      openingTally
      fun cost out ↦ ∀ counted, out.1 = .ok counted →
        ∃ reads, ReadTally reads ∧ counted.metrics.counter = (cost + reads) +ᵥ metrics.counter := by
  unfold recovered
  rw [run_bindMethod]
  refine .bind ((spends_recoverStorageDir activeSegment metrics).mono fun cost out hout ↦ ?_)
  obtain ⟨result, recovered⟩ := out
  obtain ⟨reads, hreads, hcounters⟩ := hout
  cases result with
  | error error =>
    intro counted herror
    cases herror
  | ok value =>
    refine (Program.Spends.ofReturns (returns_opened activeSegment maxSegmentLen recovered) ?_).mono
      fun cost' out' hout' counted hcounted ↦ ⟨reads, hreads, ?_⟩
    · exact .bindMethod (methodWithin_liftIo unnoticed_loadRegistry _) fun registry metrics ↦
        .bindMethod (methodWithin_liftIo (unnoticed_loadIndex registry) _)
          fun checkpointIndex metrics ↦
          .bindMethod trivial fun _ metrics ↦ .bindMethod trivial fun _ metrics ↦
            .bindMethod (.bindMethod (methodWithin_liftIo (unnoticed_newWriter _ _) _)
              fun _ _ ↦ trivial) fun _ _ ↦ trivial
    · rw [(hout'.2 counted hcounted).2, hout'.1, add_zero]
      exact hcounters

/-- What has been counted when the directory is open. -/
theorem spends_withMaxSegmentLen (maxSegmentLen : ℕ) :
    (withMaxSegmentLen N maxSegmentLen).run.Spends openingTally fun cost result ↦
      ∀ counted, result = .ok counted →
        ∃ reads, ReadTally reads ∧ counted.metrics.counter = (cost + reads) +ᵥ default.counter := by
  refine .bindExcept (.ofReturns (.any _) within_failIf) (fun _ _ _ _ herror ↦ by cases herror)
    fun _ cost hcost ↦ .bindExcept (.ofReturns (.any _) (.bindExcept (.bindExcept
      (within_io fun _ ↦ rfl) fun _ ↦ trivial) fun _ ↦ trivial))
      (fun _ _ _ _ herror ↦ by cases herror) fun activeSegment cost' hcost' ↦ ?_
  refine Program.Spends.bind ((spends_recovered activeSegment maxSegmentLen .default).mono
    fun cost'' out hout counted hcounted ↦ ?_)
  rw [hcost.1, hcost'.1, zero_add, zero_add, add_zero]
  exact hout counted hcounted

/-- What the metrics show after an opening and any calls: every counter but those of what was read
is the number of what happened, or the largest `u64`. -/
theorem counters_session {τ : Type} {maxSegmentLen : ℕ} {commands : List (Command N)}
    {M : Machine fileSystem τ} {s s' s'' : τ} {opened counted : CountedEngine}
    {history : List (Call N)}
    (hopen : M.run (withMaxSegmentLen N maxSegmentLen).run s = (.ok opened, s'))
    (hcalls : M.run (makeCalls registry answer commands opened) s' = ((history, counted), s''))
    {name : CounterName} (hname : ¬ name.IsRead) :
    (counted.metrics.counter name).value = min
      ((((M.performed (withMaxSegmentLen N maxSegmentLen).run s).map openingTally).sum +
        ((M.performed (makeCalls registry answer commands opened) s').map requestTally).sum +
        (history.map Call.tally).sum) name) (2 ^ 64 - 1) := by
  have hopened := (@spends_withMaxSegmentLen N maxSegmentLen).run M s
  rw [hopen] at hopened
  obtain ⟨reads, hreads, hstart⟩ := hopened opened rfl
  have hcounted := (spends_makeCalls commands opened).run M s'
  rw [hcalls] at hcounted
  obtain ⟨reads', hreads', hend⟩ := hcounted
  have hzero : default.counter name = Counter.zero := by
    cases name with
    | recordsWritten kind => cases kind <;> rfl
    | bytesWritten kind => cases kind <;> rfl
    | recordsReplayed kind => cases kind <;> rfl
    | bytesReplayed kind => cases kind <;> rfl
    | rejectedOperations error operation => cases error <;> cases operation <;> rfl
    | _ => rfl
  rw [hend, hstart, ← add_vadd, Pi.vadd_apply', Counter.vadd_eq, hzero,
    Counter.value_increment_zero]
  simp only [Pi.add_apply, hreads name hname, hreads' name hname, add_zero]
  congr 1
  omega

/-- A node is created in an empty directory. -/
theorem counters_session_creating : ∃ (opened counted : CountedEngine)
    (history : List (Call Noraft.ofLists)) (fs fs' : Fs),
    directory.run (withMaxSegmentLen Noraft.ofLists 64).run .empty = (.ok opened, fs) ∧
      directory.run (makeCalls registry answer [.createNode 1 ⟨true, ⟨"\x7b\x7d"⟩⟩] opened) fs =
        ((history, counted), fs') ∧
      (counted.metrics.counter .nodesCreated).value = min
        ((((directory.performed (withMaxSegmentLen Noraft.ofLists 64).run .empty).map
            openingTally).sum +
          ((directory.performed (makeCalls registry (answer (N := Noraft.ofLists))
            [.createNode 1 ⟨true, ⟨"\x7b\x7d"⟩⟩] opened) fs).map requestTally).sum +
          (history.map Call.tally).sum) .nodesCreated) (2 ^ 64 - 1) := by
  have hmax : 64 ≠ 0 := by decide
  obtain ⟨opened, fs, hopen⟩ := exists_opening_empty Noraft.ofLists hmax
  exact ⟨opened, _, _, fs, _, hopen, rfl, counters_session hopen rfl fun hread ↦ hread⟩

end CountedEngine

end Sukari
