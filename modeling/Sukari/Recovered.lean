import Sukari.NodeReplay
import Sukari.Engine

/-!
# What the visible part of a journal says about a node

A node is anchored in a set of segments by a checkpoint when the set contains the segment of the
checkpoint and every later one. Whatever else is missing, a replay of the visible entries from the
noted checkpoint on then gives the recovered state of the node
(`foldlM_visible_eq_recoveredState`), and a replay from any older checkpoint on gives it when it
succeeds (`recoveredState_of_foldlM_visible`). A replay of several nodes gives the states of all of
them, or it fails because one of them has no state (`loadsAll_collectNodes`).
-/

set_option autoImplicit false
set_option relaxedAutoImplicit false

namespace Sukari

variable {N : Noraft}

/-- The records of a node among some entries. -/
def entryRecords (nodeId : NodeId) (entries : List (Entry N)) : List (Record N) :=
  recordsOf nodeId (entries.map fun entry ↦ entry.frame.nodeRecord)

/-- The records of a journal, in the order in which they were written. -/
def Journal.written (journal : Journal N) : List (NodeId × Record N) :=
  journal.flatten.map Frame.nodeRecord

theorem Journal.map_entries_written (journal : Journal N) :
    journal.entries.map (fun entry ↦ entry.frame.nodeRecord) = journal.written := by
  rw [written, ← map_frame_entries, List.map_map]
  rfl

theorem Journal.written_prefix {journal journal' : Journal N}
    (h : journal.entries <+: journal'.entries) : journal.written <+: journal'.written := by
  rw [← map_entries_written, ← map_entries_written]
  exact h.map _

theorem entryRecords_entries (nodeId : NodeId) (journal : Journal N) :
    entryRecords nodeId journal.entries = recordsOf nodeId journal.written := by
  rw [entryRecords, Journal.map_entries_written]

theorem entryRecords_cons (nodeId : NodeId) (entry : Entry N) (entries : List (Entry N)) :
    entryRecords nodeId (entry :: entries) =
      if entry.frame.nodeId = nodeId then entry.frame.record :: entryRecords nodeId entries
      else entryRecords nodeId entries := by
  by_cases hnode : entry.frame.nodeId = nodeId <;>
    simp [entryRecords, recordsOf, Frame.nodeRecord, hnode]

theorem entryRecords_append (nodeId : NodeId) (first second : List (Entry N)) :
    entryRecords nodeId (first ++ second) =
      entryRecords nodeId first ++ entryRecords nodeId second := by simp [entryRecords]

/-- A fold over the entries of a node is a fold over its records. -/
theorem foldlM_entries {nodeId : NodeId} {p : Entry N → Bool} {entries : List (Entry N)}
    (state : NodeState N) :
    (entries.filter fun entry ↦ entry.frame.nodeId = nodeId && p entry).foldlM
        (fun state entry ↦ applyRecordToState state entry.frame.record) state =
      (entryRecords nodeId (entries.filter p)).foldlM applyRecordToState state := by
  induction entries generalizing state with
  | nil => rfl
  | cons entry rest ih =>
    by_cases hp : p entry = true
    · by_cases hnode : entry.frame.nodeId = nodeId
      · rw [List.filter_cons_of_pos (by simp [hp, hnode]), List.filter_cons_of_pos hp,
          List.foldlM_cons]
        simp only [ih, entryRecords_cons, if_pos hnode, List.foldlM_cons]
      · rw [List.filter_cons_of_neg (by simp [hnode]), List.filter_cons_of_pos hp, ih,
          entryRecords_cons, if_neg hnode]
    · rw [List.filter_cons_of_neg (by simp [hp]), List.filter_cons_of_neg hp, ih]

/-- The entries of a node from its last checkpoint on. -/
structure LastCheckpoint (nodeId : NodeId) (entries before : List (Entry N)) (last : Entry N)
    (after : List (Entry N)) : Prop where
  split : entries = before ++ last :: after
  checkpoint : last.isCheckpointOf nodeId = true
  none_after : ∀ entry ∈ after, entry.isCheckpointOf nodeId = false
  before_lt : ∀ entry ∈ before, entry.position < last.position
  lt_after : ∀ entry ∈ after, last.position < entry.position

theorem exists_lastCheckpoint {nodeId : NodeId} {entries : List (Entry N)}
    (hsorted : entries.Pairwise fun first second ↦ first.position < second.position)
    (h : ∃ entry ∈ entries, entry.isCheckpointOf nodeId = true) :
    ∃ before last after, LastCheckpoint nodeId entries before last after := by
  obtain ⟨before, last, after, rfl, hlast, hafter⟩ := exists_last h
  rw [List.pairwise_append, List.pairwise_cons] at hsorted
  exact ⟨before, last, after, rfl, hlast, hafter,
    fun entry hentry ↦ hsorted.2.2 entry hentry last (by simp), hsorted.2.1.1⟩

namespace LastCheckpoint

variable {nodeId : NodeId} {entries before after : List (Entry N)} {last : Entry N}

/-- Every checkpoint of the node stands at the last one or before it. -/
theorem position_le (h : LastCheckpoint nodeId entries before last after) {entry : Entry N}
    (hentry : entry ∈ entries) (hcheckpoint : entry.isCheckpointOf nodeId = true) :
    entry.position ≤ last.position := by
  rw [h.split] at hentry
  rcases List.mem_append.mp hentry with hmem | hmem
  · exact (h.before_lt entry hmem).le
  · rcases List.mem_cons.mp hmem with rfl | hmem
    · exact le_rfl
    · rw [h.none_after entry hmem] at hcheckpoint
      nomatch hcheckpoint

/-- Entries before the last checkpoint may be left out. -/
theorem filter (h : LastCheckpoint nodeId entries before last after) {p : Entry N → Bool}
    (hlast : p last = true) (hafter : ∀ entry ∈ after, p entry = true) :
    LastCheckpoint nodeId (entries.filter p) (before.filter p) last after where
  split := by
    rw [h.split, List.filter_append, List.filter_cons_of_pos hlast, List.filter_eq_self.mpr hafter]
  checkpoint := h.checkpoint
  none_after := h.none_after
  before_lt entry hentry := h.before_lt entry (List.mem_of_mem_filter hentry)
  lt_after := h.lt_after

theorem notedCheckpoint_eq (h : LastCheckpoint nodeId entries before last after)
    (start : Option RecordPosition) (hstart : ∀ position ∈ start, position ≤ last.position) :
    notedCheckpoint start nodeId entries = some last.position := by
  have hfrom : last.from start = true := by
    cases start with
    | none => rfl
    | some position => simpa [Entry.from] using hstart position rfl
  have hnone : (after.filter fun entry ↦ entry.from start && entry.isCheckpointOf nodeId) = [] :=
    List.filter_eq_nil_iff.mpr fun entry hentry ↦ by simp [h.none_after entry hentry]
  rw [notedCheckpoint, checkpointsFrom, h.split, List.filter_append, List.filter_cons_of_pos
    (by simp [hfrom, h.checkpoint]), hnone]
  simp

theorem filter_from (h : LastCheckpoint nodeId entries before last after) :
    entries.filter (Entry.from (some last.position)) = last :: after := by
  have hnone : before.filter (Entry.from (some last.position)) = [] :=
    List.filter_eq_nil_iff.mpr fun entry hentry ↦ by
      simpa [Entry.from] using h.before_lt entry hentry
  rw [h.split, List.filter_append, hnone, List.nil_append, List.filter_eq_self.mpr]
  intro entry hentry
  rcases List.mem_cons.mp hentry with rfl | hmem
  · simp [Entry.from]
  · simpa [Entry.from] using (h.lt_after entry hmem).le

theorem entryRecords_last (h : LastCheckpoint nodeId entries before last after) :
    entryRecords nodeId (last :: after) = last.frame.record :: entryRecords nodeId after := by
  have hnode : last.frame.nodeId = nodeId := by
    have := h.checkpoint
    simp only [Entry.isCheckpointOf, Bool.and_eq_true, decide_eq_true_eq] at this
    exact this.1
  rw [entryRecords_cons, if_pos hnode]

/-- The recovered state is that of the last checkpoint with the records after it. -/
theorem recoveredState_eq (h : LastCheckpoint nodeId entries before last after)
    (earlier : List (Record N)) (state : NodeState N) :
    recoveredState (earlier ++ entryRecords nodeId (last :: after)) =
      (entryRecords nodeId (last :: after)).foldlM applyRecordToState state := by
  rw [h.entryRecords_last]
  have hcheckpoint : last.frame.record.isCheckpoint = true := by
    have := h.checkpoint
    simp only [Entry.isCheckpointOf, Bool.and_eq_true] at this
    exact this.2
  refine recoveredState_append_cons hcheckpoint (fun record hrecord ↦ ?_) state
  simp only [entryRecords, recordsOf, List.mem_map, List.mem_filter, decide_eq_true_eq] at hrecord
  obtain ⟨item, ⟨⟨entry, hentry, rfl⟩, hnode⟩, rfl⟩ := hrecord
  have hframe : entry.frame.nodeId = nodeId := hnode
  simpa [Entry.isCheckpointOf, Frame.nodeRecord, hframe] using h.none_after entry hentry

end LastCheckpoint

/-- A checkpoint of the node stands in the journal, and the segments from it on are all there. -/
def AnchoredIn (journal : Journal N) (segments : List ℕ) (nodeId : NodeId) : Prop :=
  ∃ entry ∈ journal.entries, entry.isCheckpointOf nodeId = true ∧
    ∀ segment, entry.position.segment ≤ segment → segment < journal.length → segment ∈ segments

/-- A node with a checkpoint in the journal has one among its records. -/
theorem exists_checkpoint_of_mem {journal : Journal N} {nodeId : NodeId} {entry : Entry N}
    (hentry : entry ∈ journal.entries) (hcheckpoint : entry.isCheckpointOf nodeId = true) :
    ∃ record ∈ recordsOf nodeId journal.written, record.isCheckpoint = true := by
  simp only [Entry.isCheckpointOf, Bool.and_eq_true, decide_eq_true_eq] at hcheckpoint
  refine ⟨entry.frame.record, ?_, hcheckpoint.2⟩
  rw [← Journal.map_entries_written, recordsOf, List.mem_map]
  exact ⟨entry.frame.nodeRecord, List.mem_filter.mpr ⟨List.mem_map_of_mem hentry,
    decide_eq_true hcheckpoint.1⟩, rfl⟩

theorem AnchoredIn.lastCheckpoint {journal : Journal N} {segments : List ℕ} {nodeId : NodeId}
    (h : AnchoredIn journal segments nodeId) : ∃ before last after,
      LastCheckpoint nodeId journal.entries before last after ∧
        LastCheckpoint nodeId (journal.visible segments)
          (before.filter fun entry ↦ entry.position.segment ∈ segments) last after := by
  obtain ⟨anchor, hanchor, hcheckpoint, hcovers⟩ := h
  obtain ⟨before, last, after, hlast⟩ :=
    exists_lastCheckpoint journal.pairwise_entries ⟨anchor, hanchor, hcheckpoint⟩
  have hle := RecordPosition.segment_le (hlast.position_le hanchor hcheckpoint)
  have hmem (entry : Entry N) (hentry : entry ∈ last :: after) : entry ∈ journal.entries := by
    rw [hlast.split]
    simp only [List.mem_append]
    exact .inr hentry
  refine ⟨before, last, after, hlast, hlast.filter ?_ fun entry hentry ↦ ?_⟩
  · simpa using hcovers _ hle (Journal.segment_lt_of_mem (hmem last (by simp)))
  · have hlater := RecordPosition.segment_le (hlast.lt_after entry hentry).le
    simpa using hcovers _ (hle.trans hlater)
      (Journal.segment_lt_of_mem (hmem entry (by simp [hentry])))

/-- A replay that starts at the noted checkpoint gives the recovered state. -/
theorem foldlM_visible_eq_recoveredState {journal : Journal N} {segments : List ℕ}
    {nodeId : NodeId} (h : AnchoredIn journal segments nodeId) {start : Option RecordPosition}
    (hstart : ∀ position ∈ start, ∃ entry ∈ journal.entries,
      entry.isCheckpointOf nodeId = true ∧ position ≤ entry.position) (state : NodeState N) :
    ((journal.visible segments).filter fun entry ↦ entry.frame.nodeId = nodeId &&
        entry.from (notedCheckpoint start nodeId (journal.visible segments))).foldlM
        (fun state entry ↦ applyRecordToState state entry.frame.record) state =
      recoveredState (recordsOf nodeId journal.written) := by
  obtain ⟨before, last, after, hlast, hvisible⟩ := h.lastCheckpoint
  have hnoted := hvisible.notedCheckpoint_eq start fun position hposition ↦ by
    obtain ⟨entry, hentry, hcheckpoint, hle⟩ := hstart position hposition
    exact hle.trans (hlast.position_le hentry hcheckpoint)
  rw [foldlM_entries, hnoted, hvisible.filter_from, ← entryRecords_entries, hlast.split,
    entryRecords_append, hlast.recoveredState_eq]

/-- A replay that starts at any checkpoint gives the recovered state when it succeeds. -/
theorem recoveredState_of_foldlM_visible {journal : Journal N} {segments : List ℕ}
    {nodeId : NodeId} (h : AnchoredIn journal segments nodeId) {start : Option RecordPosition}
    (hstart : ∀ position ∈ start, ∃ entry ∈ journal.entries,
      entry.isCheckpointOf nodeId = true ∧ position ≤ entry.position)
    {state result : NodeState N}
    (hfold : ((journal.visible segments).filter fun entry ↦ entry.frame.nodeId = nodeId &&
        entry.from start).foldlM
        (fun state entry ↦ applyRecordToState state entry.frame.record) state = .ok result) :
    recoveredState (recordsOf nodeId journal.written) = .ok result := by
  obtain ⟨before, last, after, hlast, hvisible⟩ := h.lastCheckpoint
  have hfrom (entry : Entry N) (hentry : entry ∈ last :: after) : entry.from start = true := by
    cases start with
    | none => rfl
    | some position =>
      obtain ⟨checkpoint, hmem, hcheckpoint, hle⟩ := hstart position rfl
      have hlastLe := hle.trans (hlast.position_le hmem hcheckpoint)
      rcases List.mem_cons.mp hentry with rfl | hafter
      · simpa [Entry.from] using hlastLe
      · simpa [Entry.from] using hlastLe.trans (hlast.lt_after entry hafter).le
  have hreplayed := hvisible.filter (p := Entry.from start) (hfrom last (by simp))
    fun entry hentry ↦ hfrom entry (by simp [hentry])
  rw [foldlM_entries, hreplayed.split, entryRecords_append, hreplayed.entryRecords_last] at hfold
  have hcheckpoint : last.frame.record.isCheckpoint = true := by
    have := hlast.checkpoint
    simp only [Entry.isCheckpointOf, Bool.and_eq_true] at this
    exact this.2
  have hresult := resets_applyRecordToState.foldlM_eq hcheckpoint hfold state
  rw [← entryRecords_entries, hlast.split, entryRecords_append, hlast.recoveredState_eq _ state,
    hlast.entryRecords_last, hresult]

/-! ### Several nodes -/

/-- What loading some nodes may return: the states of exactly these nodes, or an error because
there is no state for one of them. -/
def LoadsAll (nodeIds : NodeIdSet) (states : NodeId → Except IoError (NodeState N)) :
    Except IoError (ReplayState N) → Prop
  | .ok nodes =>
    (∀ nodeId ∈ nodeIds, ∃ state, states nodeId = .ok state ∧ nodes[nodeId]? = some state) ∧
      ∀ (nodeId : NodeId), nodeId ∉ nodeIds → nodes[nodeId]? = none
  | .error _ => ∃ nodeId ∈ nodeIds, ¬ Succeeds (states nodeId)

section SeveralNodes

variable {nodeIds : NodeIdSet} {start : NodeId → Option RecordPosition} {entries : List (Entry N)}

theorem getElem?_collectNodes (replay : ReplayState N) (nodeIds : NodeIdSet) (nodeId : NodeId) :
    (StorageEngine.collectNodes replay nodeIds)[nodeId]? =
      if nodeId ∈ nodeIds then some (replay[nodeId]?.getD (.default N)) else none := by
  rw [StorageEngine.collectNodes, getElem?_foldl_insert_const, Std.ExtTreeMap.getElem?_empty]
  simp

/-- Among the entries that a replay of several nodes takes, the ones of one node. -/
theorem filter_replayed {nodeId : NodeId} (hnode : nodeId ∈ nodeIds) :
    (entries.filter fun entry ↦ inFilter (some nodeIds) entry.frame.nodeId &&
        entry.from (start entry.frame.nodeId)).filter (·.frame.nodeId = nodeId) =
      entries.filter fun entry ↦ entry.frame.nodeId = nodeId && entry.from (start nodeId) := by
  rw [List.filter_filter]
  refine List.filter_congr fun entry _ ↦ ?_
  by_cases hentry : entry.frame.nodeId = nodeId
  · simp [hentry, inFilter, hnode]
  · simp [hentry]

/-- A replay of several nodes that succeeds replays each of them. -/
theorem foldlM_node_of_replay (start : NodeId → Option RecordPosition) {replay : ReplayState N}
    (h : (entries.filter fun entry ↦ inFilter (some nodeIds) entry.frame.nodeId &&
      entry.from (start entry.frame.nodeId)).foldlM
        (keyedStep (fun entry : Entry N ↦ entry.frame.nodeId)
        (fun state entry ↦ applyRecordToState state entry.frame.record) (.default N)) ∅ =
          .ok replay)
    {nodeId : NodeId} (hnode : nodeId ∈ nodeIds) :
    (entries.filter fun entry ↦ entry.frame.nodeId = nodeId && entry.from (start nodeId)).foldlM
      (fun state entry ↦ applyRecordToState state entry.frame.record) (.default N) =
        .ok (replay[nodeId]?.getD (.default N)) := by
  have hfold := keyedFold_eq_ok h nodeId
  rw [filter_replayed hnode] at hfold
  simpa using hfold

/-- A replay of several nodes succeeds when the replays of all of them do. -/
theorem succeeds_replay (nodeIds : NodeIdSet) (start : NodeId → Option RecordPosition)
    (entries : List (Entry N))
    (h : ∀ nodeId ∈ nodeIds, Succeeds ((entries.filter fun entry ↦ entry.frame.nodeId = nodeId &&
      entry.from (start nodeId)).foldlM
        (fun state entry ↦ applyRecordToState state entry.frame.record) (.default N))) :
    Succeeds ((entries.filter fun entry ↦ inFilter (some nodeIds) entry.frame.nodeId &&
      entry.from (start entry.frame.nodeId)).foldlM
        (keyedStep (fun entry : Entry N ↦ entry.frame.nodeId)
        (fun state entry ↦ applyRecordToState state entry.frame.record) (.default N)) ∅) := by
  refine keyedFold_succeeds fun nodeId ↦ ?_
  rw [Std.ExtTreeMap.getElem?_empty, Option.getD_none]
  by_cases hnode : nodeId ∈ nodeIds
  · rw [filter_replayed hnode]
    exact h nodeId hnode
  · have hnone : (entries.filter fun entry ↦ inFilter (some nodeIds) entry.frame.nodeId &&
        entry.from (start entry.frame.nodeId)).filter (·.frame.nodeId = nodeId) = [] := by
      rw [List.filter_filter, List.filter_eq_nil_iff]
      intro entry _
      by_cases hentry : entry.frame.nodeId = nodeId
      · simp [hentry, inFilter, hnode]
      · simp [hentry]
    rw [hnone]
    trivial

theorem loadsAll_collectNodes (start : NodeId → Option RecordPosition)
    {states : NodeId → Except IoError (NodeState N)}
    {result : Except IoError (ReplayState N)}
    (hresult : result = (entries.filter fun entry ↦ inFilter (some nodeIds) entry.frame.nodeId &&
      entry.from (start entry.frame.nodeId)).foldlM
        (keyedStep (fun entry : Entry N ↦ entry.frame.nodeId)
        (fun state entry ↦ applyRecordToState state entry.frame.record) (.default N)) ∅)
    (hstates : ∀ nodeId ∈ nodeIds, (entries.filter fun entry ↦ entry.frame.nodeId = nodeId &&
      entry.from (start nodeId)).foldlM
        (fun state entry ↦ applyRecordToState state entry.frame.record) (.default N) =
          states nodeId) :
    LoadsAll nodeIds states
      (result.map fun replay ↦ StorageEngine.collectNodes replay nodeIds) := by
  cases result with
  | error error =>
    by_contra hall
    have hsucceeds := succeeds_replay nodeIds start entries
      fun nodeId hnode ↦ by
        rw [hstates nodeId hnode]
        by_contra hfails
        exact hall ⟨nodeId, hnode, hfails⟩
    rw [← hresult] at hsucceeds
    exact hsucceeds
  | ok replay =>
    refine ⟨fun nodeId hnode ↦ ?_, fun nodeId hnode ↦ ?_⟩
    · refine ⟨replay[nodeId]?.getD (.default N), ?_, by rw [getElem?_collectNodes, if_pos hnode]⟩
      rw [← hstates nodeId hnode]
      exact foldlM_node_of_replay start hresult.symm hnode
    · rw [getElem?_collectNodes, if_neg hnode]

end SeveralNodes

end Sukari
