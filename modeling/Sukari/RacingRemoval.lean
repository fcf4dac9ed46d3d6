import Sukari.Interleaving
import Sukari.StatusOrder
import Sukari.OnDisk

/-!
# Reading a node that is being removed

A read-only call reads the registry first and lists the directory once more before it replays the
records. If a node is removed in between, and garbage collection takes its last checkpoint away, the
call still succeeds, and it reports what the later records make of the default state. A state that a
call reports is a plain history of its node exactly if a checkpoint of the node is on disk when the
call lists the directory for the last time (`report_isHistory_iff`). There is a run of `load` in
which there is none (`load_removed_not_isHistory`).
-/

set_option autoImplicit false
set_option relaxedAutoImplicit false

namespace Sukari

open Effects

variable {N : Noraft} {fs : Fs} {events : List (Event N)} {nodeId : NodeId}
  {seen : ℕ → Visit fileSystem Fs} {world : ℕ → Fs} {journalAt : ℕ → Journal N}

/-! ### What a call reports -/

/-- The read-only calls that report states of nodes. -/
inductive ReadCall
  | load (nodeId : NodeId)
  | loadAll

variable (N) in
/-- The states that a call reports. -/
def reportStates : ReadCall → IoM (ReplayState N)
  | .load nodeId => do
    let state ← load N nodeId
    return (∅ : ReplayState N).insert nodeId state
  | .loadAll => loadAll N

/-- A state that a call reports was replayed from the segments that it listed last. -/
theorem reportStates_replayed (hworld : Tended world journalAt) (call : ReadCall) (t : ℕ) :
    directory.Sees world (fun result stop ↦ ∀ states, result = .ok states →
      ∃ registry, NodeRegistry.ofFile (world t).nodes.current = .ok registry ∧
        ∀ (nodeId : NodeId) (state : NodeState N), states[nodeId]? = some state →
          registry.isActive nodeId = true ∧ ∃ start listing replayed, t ≤ listing ∧
            replayed ≤ stop ∧
              directory.AsksLast world .readDir listing (reportStates N call).run t ∧
            Replayed world journalAt nodeId state start listing replayed)
      (reportStates N call).run t := by
  cases call with
  | loadAll => exact loadAll_replayed hworld
  | load nodeId =>
    refine .bindExcept ((load_replayed hworld nodeId).mono ?_)
    intro result stop hresult
    cases result with
    | error error => exact fun states hstates ↦ nomatch hstates
    | ok state =>
      obtain ⟨registry, hregistry, hactive, start, listing, replayed, hlisting, hstop, hlast,
        hreplayed⟩ := hresult state rfl
      rintro states hstates
      refine ⟨registry, hregistry, fun other reported hreported ↦ ?_⟩
      rw [← Except.ok.inj hstates, Std.ExtTreeMap.getElem?_insert, Std.ExtTreeMap.getElem?_empty,
        Option.ite_none_right_eq_some, Std.compare_eq_iff_eq] at hreported
      obtain ⟨rfl, hreported⟩ := hreported
      obtain rfl := Option.some.inj hreported
      exact ⟨hactive, start, listing, replayed, hlisting, hstop,
        hlast.bindExcept fun _ _ _ ↦ id, hreplayed⟩

/-! ### Only checkpoints set the snapshot -/

theorem applyRecordToState_snapshot {state state' : NodeState N} {record : Record N}
    (h : applyRecordToState state record = .ok state') (hrecord : record.isCheckpoint = false) :
    state'.snapshot = state.snapshot := by
  cases record with
  | currentTerm term =>
    rw [← Except.ok.inj h]
    rfl
  | votedFor votedFor =>
    rw [← Except.ok.inj h]
    rfl
  | append append =>
    simp only [applyRecordToState, NodeState.applyAppend, bind_eq_ok_iff] at h
    obtain ⟨-, -, -, -, hstate⟩ := h
    rw [← Except.ok.inj hstate]
  | snapshotCheckpoint checkpoint => cases hrecord

theorem foldlM_applyRecordToState_snapshot {records : List (Record N)} {state state' : NodeState N}
    (h : records.foldlM applyRecordToState state = .ok state')
    (hrecords : ∀ record ∈ records, record.isCheckpoint = false) :
    state'.snapshot = state.snapshot := by
  induction records generalizing state with
  | nil => rw [← Except.ok.inj h]
  | cons record rest ih =>
    rw [List.foldlM_cons, bind_eq_ok_iff] at h
    obtain ⟨middle, hfirst, hrest⟩ := h
    rw [ih hrest fun other hother ↦ hrecords other (List.mem_cons_of_mem _ hother),
      applyRecordToState_snapshot hfirst (hrecords record (List.mem_cons_self ..))]

theorem intoState_snapshot {checkpoint : SnapshotCheckpoint N} {state : NodeState N}
    (h : checkpoint.intoState = .ok state) : state.snapshot = some checkpoint.snapshot := by
  simp only [SnapshotCheckpoint.intoState, bind_eq_ok_iff] at h
  obtain ⟨-, -, restored, hrestored, happend⟩ := h
  have hsame : applyRecordToState restored (.append checkpoint.suffix) = .ok state := happend
  rw [applyRecordToState_snapshot hsame rfl]
  obtain ⟨entries, -, hset⟩ := bind_eq_ok_iff.mp hrestored
  rw [← Except.ok.inj hset]

/-- A plain history has a snapshot. -/
theorem PlainHistory.snapshot_ne_none {records : List (Record N)} {state : NodeState N}
    (h : PlainHistory records (.ok state)) : state.snapshot ≠ none := by
  obtain ⟨before, checkpoint, later, -, hlater, hstate⟩ := h
  obtain ⟨restored, hrestored, hfold⟩ := bind_eq_ok_iff.mp hstate.symm
  rw [foldlM_applyRecordToState_snapshot hfold hlater, intoState_snapshot hrestored]
  nofun

/-- A replay that finds no checkpoint leaves the snapshot of the default state. -/
theorem Replayed.snapshot_eq_none {state : NodeState N} {start : Option RecordPosition}
    {listing replayed : ℕ} (h : Replayed world journalAt nodeId state start listing replayed)
    (hnone : ∀ entry ∈ (journalAt replayed).visible (world listing).segments.keys,
      entry.isCheckpointOf nodeId = false) : state.snapshot = none := by
  have hfold := h.fold
  rw [foldlM_entries] at hfold
  refine foldlM_applyRecordToState_snapshot hfold fun record hrecord ↦ ?_
  simp only [entryRecords, recordsOf, List.mem_map, List.mem_filter, decide_eq_true_eq] at hrecord
  obtain ⟨_, ⟨⟨entry, ⟨hentry, -⟩, rfl⟩, hnode⟩, rfl⟩ := hrecord
  have hcheckpoint := hnone entry hentry
  simp only [Frame.nodeRecord] at hnode ⊢
  simpa [Entry.isCheckpointOf, hnode] using hcheckpoint

/-! ### Removal and garbage collection -/

/-- A node that was anchored is anchored as long as one of its checkpoints is on disk. -/
theorem AnchoredIn.of_leads {journal journal' : Journal N} {fs' : Fs}
    (h : AnchoredIn journal fs.segments.keys nodeId) (hextends : journal.Extends journal')
    (hstored : Stored journal' fs')
    (hshelf : Shelf.Leads ⟨journal.length, fs.present⟩ ⟨journal'.length, fs'.present⟩)
    (hcheckpoint : ∃ position, fs'.HasCheckpoint N nodeId position) :
    AnchoredIn journal' fs'.segments.keys nodeId := by
  obtain ⟨anchor, hanchor, hanchorCheckpoint, hcovers⟩ := h
  obtain ⟨position, hposition⟩ := hcheckpoint
  obtain ⟨hpresent, entry, hentry, rfl, hentryCheckpoint⟩ := hstored.hasCheckpoint_iff.mp hposition
  have hbehind (segment : ℕ) (hanchored : anchor.position.segment ≤ segment)
      (hlater : entry.position.segment < segment) (hlength : segment < journal'.length) :
      segment ∈ fs'.segments := by
    refine hshelf.behind entry.position.segment hpresent segment hlater hlength ?_
    rcases Nat.lt_or_ge segment journal.length with hold | hnew
    · exact .inl (Std.ExtTreeMap.mem_keys.mp (hcovers segment hanchored hold))
    · exact .inr hnew
  rcases Nat.lt_or_ge entry.position.segment anchor.position.segment with hbefore | hafter
  · refine ⟨anchor, hextends.entries.subset hanchor, hanchorCheckpoint,
      fun segment hsegment hlength ↦ Std.ExtTreeMap.mem_keys.mpr ?_⟩
    exact hbehind segment hsegment (hbefore.trans_le hsegment) hlength
  · refine ⟨entry, hentry, hentryCheckpoint,
      fun segment hsegment hlength ↦ Std.ExtTreeMap.mem_keys.mpr ?_⟩
    rcases hsegment.eq_or_lt with rfl | hlater
    · exact hpresent
    · exact hbehind segment (hafter.trans hsegment) hlater hlength

/-- Beside any writer, statuses only go forward, and nothing is written for a removed node. -/
theorem Interleaves.statuses {ledger : Ledger N} (hseen : Interleaves N events fs seen)
    (h : ledger.Holds fs.syncDir) : ∃ statusAt : ℕ → NodeId → NodeStatus,
      (∀ t, HasStatuses (statusAt t) (seen t).state) ∧
      ∀ t t', t ≤ t' → Ages (statusAt t) (statusAt t') ∧ ∀ nodeId, statusAt t nodeId = .removed →
        ∃ ops, (seen t').past = (seen t).past ++ ops ∧
          recordsOf nodeId (recordsWritten N ops) = [] := by
  obtain ⟨seen', hseen', hrelated⟩ := hseen.syncDir
  obtain ⟨status, hregistered⟩ := h.registered fs.syncDir_syncDir
  obtain ⟨statusAt, hlabel, hleads⟩ := hseen'.labels (R := lifecycle N)
    hregistered.file.hasStatuses (refines_lifecycleEvents hregistered events)
  refine ⟨statusAt, fun t ↦ ?_, fun t t' ht ↦ ?_⟩
  · exact (hlabel t).1.congr (alike_iff.mp (hrelated t).2).2.2
  · obtain ⟨ops, hpast, hsteps⟩ := hleads t t' ht
    obtain ⟨hages, hsilent⟩ := steps_lifecycle hsteps
    refine ⟨hages, fun nodeId hremoved ↦ ⟨ops, ?_, hsilent nodeId hremoved⟩⟩
    rw [(hrelated t).1, (hrelated t').1, hpast]

/-- When no checkpoint of a node is on disk and none is written any more, none is seen in the
segments that are there. -/
theorem no_checkpoint_visible {journal journal' : Journal N} (hstored : Stored journal fs)
    (hextends : journal.Extends journal') {later : List (NodeId × Record N)}
    (hwritten : journal'.written = journal.written ++ later) (hsilent : recordsOf nodeId later = [])
    (hnone : ¬ ∃ position, fs.HasCheckpoint N nodeId position) :
    ∀ entry ∈ journal'.visible fs.segments.keys, entry.isCheckpointOf nodeId = false := by
  intro entry hentry
  by_contra hcheckpoint
  rw [Bool.not_eq_false] at hcheckpoint
  simp only [Journal.visible, List.mem_filter, decide_eq_true_eq, Std.ExtTreeMap.mem_keys] at hentry
  obtain ⟨rest, hentries⟩ := hextends.entries
  rcases List.mem_append.mp (hentries ▸ hentry.1) with hold | hnew
  · exact hnone ⟨entry.position,
      hstored.hasCheckpoint_iff.mpr ⟨hentry.2, entry, hold, rfl, hcheckpoint⟩⟩
  · have hrest : rest.map (·.frame.nodeRecord) = later := by
      rw [← Journal.map_entries_written, ← Journal.map_entries_written, ← hentries, List.map_append,
        List.append_cancel_left_eq] at hwritten
      exact hwritten
    obtain ⟨checkpoint, hrecord⟩ := isCheckpointOf_iff.mp hcheckpoint
    have hmem : (nodeId, Record.snapshotCheckpoint checkpoint) ∈ later := by
      rw [← hrest, ← hrecord]
      exact List.mem_map_of_mem hnew
    have hrecords : Record.snapshotCheckpoint checkpoint ∈ recordsOf nodeId later :=
      List.mem_map.mpr ⟨_, List.mem_filter.mpr ⟨hmem, decide_eq_true rfl⟩, rfl⟩
    rw [hsilent] at hrecords
    cases hrecords

/-! ### Reported states -/

/-- A reported state is a plain history of the node exactly if a checkpoint of the node is on disk
when the call lists the directory for the last time. -/
theorem report_isHistory_iff {written : List (NodeId × Record N)} {states : ReplayState N}
    {state : NodeState N} {stop : ℕ} (h : Reachable N written fs)
    (hseen : Interleaves N events fs seen) (call : ReadCall)
    (hreport : directory.observe (fun t ↦ (seen t).state) (reportStates N call).run 0 =
      (.ok states, stop))
    (hstate : states[nodeId]? = some state) :
    IsHistory N nodeId 0 (written ++ recordsWritten N (seen stop).past) state ↔
      ∃ listing, directory.AsksLast (fun t ↦ (seen t).state) .readDir listing
          (reportStates N call).run 0 ∧
        ∃ position, (seen listing).state.HasCheckpoint N nodeId position := by
  obtain ⟨ledger, rfl, hholds⟩ := h.holds
  obtain ⟨journalAt, htended, hwritten, hshelf⟩ := hseen.tended hholds
  obtain ⟨statusAt, hstatus, hages⟩ := hseen.statuses hholds
  have hperform := (reportStates_replayed htended call 0).observe
  rw [← observe_syncDir, hreport] at hperform
  obtain ⟨registry, hregistry, hreplay⟩ := hperform states rfl
  obtain ⟨hactive, start, listing, replayed, -, hstop, hlast, hreplayed⟩ :=
    hreplay nodeId state hstate
  have hlists : directory.AsksLast (fun t ↦ (seen t).state) .readDir listing
      (reportStates N call).run 0 :=
    bisimulation_alike.asksLast (fun t ↦ alike_syncDir (seen t).state) hlast
  have hanchored (t : ℕ) (hactive : statusAt t nodeId = .active) :
      AnchoredIn (journalAt t) (seen t).state.syncDir.segments.keys nodeId := by
    obtain ⟨registry, hregistry, hstatus⟩ := hstatus t
    refine ((htended.recoverable t).anchored registry nodeId ⟨_, .inl rfl, hregistry⟩ ?_).anchoredIn
    rwa [← NodeRegistry.status_eq_active_iff, hstatus]
  have hstart : statusAt 0 nodeId = .active := by
    rw [(hstatus 0).unique ⟨registry, hregistry, rfl⟩]
    exact NodeRegistry.status_eq_active_iff.mpr hactive
  have hstored := (htended.recoverable listing).toStored
  constructor
  · intro hhistory
    refine ⟨listing, hlists, ?_⟩
    by_contra hnone
    have hremoved : statusAt listing nodeId = .removed := by
      cases hlisted : statusAt listing nodeId with
      | removed => rfl
      | creatable =>
        refine absurd hlisted ((hages 0 listing (Nat.zero_le _)).1.taken nodeId ?_)
        rw [hstart]
        nofun
      | active =>
        obtain ⟨entry, hentry, hcheckpoint, hcovers⟩ := hanchored listing hlisted
        refine absurd ⟨entry.position, ?_⟩ hnone
        rw [← Fs.hasCheckpoint_syncDir]
        have hpresent := hcovers _ le_rfl (Journal.segment_lt_of_mem hentry)
        exact hstored.hasCheckpoint_iff.mpr
          ⟨Std.ExtTreeMap.mem_keys.mp hpresent, entry, hentry, rfl, hcheckpoint⟩
    obtain ⟨-, hafter⟩ := hages listing replayed hreplayed.le
    obtain ⟨ops, hpast, hsilent⟩ := hafter nodeId hremoved
    have hlater : (journalAt replayed).written =
        (journalAt listing).written ++ recordsWritten N ops := by
      rw [hwritten, hwritten, hpast, recordsWritten, List.filterMap_append, ← List.append_assoc]
      rfl
    have hdefault := hreplayed.snapshot_eq_none (no_checkpoint_visible hstored
      (htended.mono listing replayed hreplayed.le) hlater hsilent
      (by simpa only [Fs.hasCheckpoint_syncDir] using hnone))
    obtain ⟨cut, -, -, hplain⟩ := hhistory
    exact hplain.snapshot_ne_none hdefault
  · rintro ⟨listing', hlists', position, hposition⟩
    obtain rfl := hlists.unique hlists'
    have hcovered := (hanchored 0 hstart).of_leads (htended.mono 0 listing (Nat.zero_le _)) hstored
      (by simpa only [Fs.present_syncDir] using hshelf 0 listing (Nat.zero_le _))
      ⟨position, Fs.hasCheckpoint_syncDir.mpr hposition⟩
    rw [← hwritten]
    obtain ⟨cut, -, hcut, hplain⟩ := hreplayed.isHistory htended hcovered (Nat.zero_le _) hstop
    exact ⟨cut, Nat.zero_le _, hcut, hplain⟩

/-- A node that has voted is removed. -/
def removalEvents : List (Event Noraft.ofLists) :=
  [.start 64, .call (.createNode 1 ⟨true, ⟨"null"⟩⟩), .call (.saveVotedFor 1 (some 2)),
    .call (.removeNode 1)]

def removalVisit (step : ℕ) : Visit fileSystem Fs :=
  (visits Noraft.ofLists removalEvents .empty).getD step ⟨[], .empty⟩

/-- A reader that reads the registry before the node is removed, and goes on when its checkpoint is
gone. -/
def removalSeen : ℕ → Visit fileSystem Fs
  | 0 => removalVisit 137
  | _ + 1 => removalVisit 144

theorem interleaves_removalSeen :
    Interleaves Noraft.ofLists removalEvents .empty removalSeen := by
  have hlength : (visits Noraft.ofLists removalEvents .empty).length = 145 := by decide +kernel
  have hvisit {step : ℕ} (hstep : step < 145) :
      (visits Noraft.ofLists removalEvents .empty)[step]? = some (removalVisit step) := by
    have hget := List.getElem?_eq_getElem (hlength.symm ▸ hstep)
    rw [removalVisit, List.getD_eq_getElem?_getD, hget, Option.getD_some]
  exact .two (show 137 ≤ 144 by decide) (hvisit (by decide)) fun _ ↦ hvisit (by decide)

/-- The reader reports a vote and no snapshot. -/
theorem observe_removalSeen : ∃ (states : ReplayState Noraft.ofLists)
    (state : NodeState Noraft.ofLists), directory.observe (fun t ↦ (removalSeen t).state)
      (reportStates Noraft.ofLists (.load 1)).run 0 = (.ok states, 7) ∧
    states[(1 : NodeId)]? = some state ∧ state.votedFor = some 2 ∧ state.snapshot = none := by
  have hrun : (directory.observe (fun t ↦ (removalSeen t).state)
      (reportStates Noraft.ofLists (.load 1)).run 0).1.toOption.any (fun states ↦
        states[(1 : NodeId)]?.any fun state ↦
          state.votedFor = some 2 && state.snapshot.isNone) = true ∧
      (directory.observe (fun t ↦ (removalSeen t).state)
        (reportStates Noraft.ofLists (.load 1)).run 0).2 = 7 := by
    decide +kernel
  simp only [Option.any_eq_true, toOption_eq_some_iff, Bool.and_eq_true, decide_eq_true_eq,
    Option.isNone_iff_eq_none] at hrun
  obtain ⟨⟨states, hstates, state, hstate, hvoted, hsnapshot⟩, hstop⟩ := hrun
  exact ⟨states, state, Prod.ext hstates hstop, hstate, hvoted, hsnapshot⟩

/-- A reported state with a vote of the removed node and without the checkpoint before it. -/
theorem load_removed_not_isHistory :
    Interleaves Noraft.ofLists removalEvents .empty removalSeen ∧
      ∃ (states : ReplayState Noraft.ofLists) (state : NodeState Noraft.ofLists),
        directory.observe (fun t ↦ (removalSeen t).state)
          (reportStates Noraft.ofLists (.load 1)).run 0 = (.ok states, 7) ∧
        states[(1 : NodeId)]? = some state ∧ state.votedFor = some 2 ∧
        ¬ IsHistory Noraft.ofLists 1 0
          ([] ++ recordsWritten Noraft.ofLists (removalSeen 7).past) state := by
  obtain ⟨states, state, hreport, hstate, hvoted, hsnapshot⟩ := observe_removalSeen
  refine ⟨interleaves_removalSeen, states, state, hreport, hstate, hvoted, ?_⟩
  rintro ⟨cut, -, -, hplain⟩
  exact hplain.snapshot_ne_none hsnapshot

/-- The reader has listed the directory when no checkpoint of the node was there. -/
theorem report_isHistory_iff_removed :
    ¬ ∃ listing, directory.AsksLast (fun t ↦ (removalSeen t).state) .readDir listing
        (reportStates Noraft.ofLists (.load 1)).run 0 ∧
      ∃ position, (removalSeen listing).state.HasCheckpoint Noraft.ofLists 1 position := by
  obtain ⟨states, state, hreport, hstate, -, hsnapshot⟩ := observe_removalSeen
  intro hlisting
  obtain ⟨cut, -, -, hplain⟩ := (report_isHistory_iff .empty interleaves_removalSeen (.load 1)
    hreport hstate).mpr hlisting
  exact hplain.snapshot_ne_none hsnapshot

end Sukari
