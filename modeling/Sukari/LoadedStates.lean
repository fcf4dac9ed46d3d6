import Sukari.CheckpointRecovery

/-!
# Loaded states are well formed

Whatever records are applied to the default state, a state that comes out is well formed
(`wellFormed_of_foldlM`): it has a payload for every command entry of its log and no other one, each
payload comes from the last record that wrote the entry, and the log starts at the snapshot, or at
position zero when there is none.
-/

set_option autoImplicit false
set_option relaxedAutoImplicit false

namespace Sukari

variable {N : Noraft}

/-- The log entries that a record brings, with their payloads. -/
def Record.logAppend : Record N → Option (LogAppend N)
  | .append appended => some appended
  | .snapshotCheckpoint checkpoint => some checkpoint.suffix
  | .currentTerm _ | .votedFor _ => none

/-- The record has a log entry for the index. -/
def Record.writes (record : Record N) (index : LogIndex) : Bool :=
  record.logAppend.any fun append ↦ (N.getEntry append.entries index).isSome

/-- The payload that a record brings for the index. -/
def Record.payload (record : Record N) (index : LogIndex) : Option CommandPayload :=
  record.logAppend.bind fun append ↦ append.commandPayloads[index]?

/-- The log starts at the snapshot with its configuration, or at position zero. -/
def NodeState.BasedOnSnapshot (state : NodeState N) : Prop :=
  match state.snapshot with
  | some snapshot => N.prevPosition (N.entries state.log) = snapshot.lastIncluded ∧
      N.snapshotConfig state.log = snapshot.config
  | none => N.prevPosition (N.entries state.log) = .zero

/-- The payloads are those of the command entries, from the last records that wrote them. -/
structure WellFormed (records : List (Record N)) (state : NodeState N) : Prop where
  keys : ∀ index, index ∈ state.commandPayloads ↔
    N.getEntry (N.entries state.log) index = some .command
  supplied : ∀ index payload, state.commandPayloads[index]? = some payload →
    ∃ before record after, records = before ++ record :: after ∧
      record.payload index = some payload ∧ ∀ other ∈ after, other.writes index = false
  based : state.BasedOnSnapshot

/-! ### Entries of a log after a suffix was appended -/

theorem getEntry_none_of_le {entries : N.LogEntries} {index : LogIndex}
    (h : index ≤ (N.prevPosition entries).index) : N.getEntry entries index = none := by
  rw [N.getEntry_eq, if_neg (UInt64.not_lt.mpr h)]

/-- Up to the anchor the log is the old one, behind it the suffix. -/
theorem getEntry_appendSuffix {log log' : N.Log} {suffix : N.LogEntries}
    (h : N.appendSuffix log suffix = (true, log')) (index : LogIndex) :
    N.getEntry (N.entries log') index =
      if index ≤ (N.prevPosition suffix).index then N.getEntry (N.entries log) index
      else N.getEntry suffix index := by
  by_cases hanchor : N.prevPosition suffix ∈ N.prevPosition (N.entries log) ::
      positionsFrom (N.prevPosition (N.entries log)) (N.iter (N.entries log))
  · obtain ⟨log'', happend, -, hprev, hiter⟩ := N.appendSuffix_some log suffix hanchor
    obtain rfl : log'' = log' := (Prod.mk.inj (happend.symm.trans h)).2
    have hbounds := index_of_mem_positionsFrom (N.index_lt (N.entries log)) hanchor
    simp only [N.getEntry_eq, hprev, hiter, UInt64.lt_iff_toNat_lt, UInt64.le_iff_toNat_le]
    have hlength : ((N.iter (N.entries log)).take ((N.prevPosition suffix).index.toNat -
        (N.prevPosition (N.entries log)).index.toNat)).length =
          (N.prevPosition suffix).index.toNat - (N.prevPosition (N.entries log)).index.toNat := by
      rw [List.length_take]
      omega
    by_cases hle : index.toNat ≤ (N.prevPosition suffix).index.toNat
    · rw [if_pos hle]
      split
      · next hlt =>
        rw [List.getElem?_append_left (by omega), List.getElem?_take, if_pos (by omega)]
      · rfl
    · rw [if_neg hle, if_pos (by omega), if_pos (by omega),
        List.getElem?_append_right (by omega), hlength]
      congr 1
      omega
  · rw [N.appendSuffix_none log suffix hanchor] at h
    simp at h

/-- An append keeps what is before the log. -/
theorem base_appendSuffix {log log' : N.Log} {suffix : N.LogEntries}
    (h : N.appendSuffix log suffix = (true, log')) :
    N.prevPosition (N.entries log') = N.prevPosition (N.entries log) ∧
      N.snapshotConfig log' = N.snapshotConfig log := by
  by_cases hanchor : N.prevPosition suffix ∈ N.prevPosition (N.entries log) ::
      positionsFrom (N.prevPosition (N.entries log)) (N.iter (N.entries log))
  · obtain ⟨log'', happend, hconfig, hprev, -⟩ := N.appendSuffix_some log suffix hanchor
    obtain rfl : log'' = log' := (Prod.mk.inj (happend.symm.trans h)).2
    exact ⟨hprev, hconfig⟩
  · rw [N.appendSuffix_none log suffix hanchor] at h
    simp at h

/-! ### Appending to a well-formed state -/

theorem getElem?_applyAppend_payloads (payloads appended : CommandPayloads)
    (anchor index : LogIndex) :
    (payloads.filter (fun index _ ↦ decide (index ≤ anchor)) ∪ appended)[index]? =
      appended[index]?.or (if index ≤ anchor then payloads[index]? else none) := by
  rw [Std.ExtTreeMap.getElem?_union, Std.ExtTreeMap.getElem?_filter']
  by_cases hle : index ≤ anchor
  · simp only [hle, decide_true, if_true]
    cases payloads[index]? <;> rfl
  · simp [hle]

/-- What an append does to a state. -/
theorem applyAppend_eq_ok {state state' : NodeState N} {append : LogAppend N}
    (h : state.applyAppend append = .ok state') : append.validate = .ok () ∧
      N.appendSuffix state.log append.entries = (true, state'.log) ∧
      state'.snapshot = state.snapshot ∧ ∀ index, state'.commandPayloads[index]? =
        append.commandPayloads[index]?.or
          (if index ≤ (N.prevPosition append.entries).index then state.commandPayloads[index]?
          else none) := by
  rw [NodeState.applyAppend, check_bind_eq_ok_iff] at h
  obtain ⟨hvalid, h⟩ := h
  simp only [check_bind_eq_ok_iff, failIf_eq_ok_iff, not_not] at h
  obtain ⟨hfound, h⟩ := h
  obtain rfl := Except.ok.inj h
  exact ⟨hvalid, Prod.ext hfound rfl, rfl, fun index ↦ getElem?_applyAppend_payloads _ _ _ _⟩

/-- An append keeps a state well formed. -/
theorem WellFormed.append {records : List (Record N)} {state state' : NodeState N}
    {append : LogAppend N} {record : Record N} (hrecord : record.logAppend = some append)
    (h : WellFormed records state) (happend : state.applyAppend append = .ok state') :
    WellFormed (records ++ [record]) state' := by
  obtain ⟨hvalid, hlog, hsnapshot, hpayloads⟩ := applyAppend_eq_ok happend
  have hmem := logAppend_validate_iff_getEntry.mp hvalid
  have hnone {index : LogIndex} (hle : index ≤ (N.prevPosition append.entries).index) :
      append.commandPayloads[index]? = none := by
    refine Std.ExtTreeMap.getElem?_eq_none fun hindex ↦ ?_
    rw [hmem, getEntry_none_of_le hle] at hindex
    nomatch hindex
  have hwrites (index : LogIndex) : record.writes index =
      (N.getEntry append.entries index).isSome := by rw [Record.writes, hrecord, Option.any_some]
  refine ⟨fun index ↦ ?_, fun index payload hpayload ↦ ?_, ?_⟩
  · rw [getEntry_appendSuffix hlog, Std.ExtTreeMap.mem_iff_isSome_getElem?, hpayloads]
    by_cases hle : index ≤ (N.prevPosition append.entries).index
    · rw [if_pos hle, if_pos hle, hnone hle, Option.none_or,
        ← Std.ExtTreeMap.mem_iff_isSome_getElem?]
      exact h.keys index
    · rw [if_neg hle, if_neg hle, Option.or_none, ← Std.ExtTreeMap.mem_iff_isSome_getElem?]
      exact hmem index
  · rw [hpayloads] at hpayload
    by_cases hle : index ≤ (N.prevPosition append.entries).index
    · rw [if_pos hle, hnone hle, Option.none_or] at hpayload
      obtain ⟨before, writer, after, rfl, hwriter, hafter⟩ := h.supplied index payload hpayload
      refine ⟨before, writer, after ++ [record], by simp, hwriter, fun other hother ↦ ?_⟩
      rcases List.mem_append.mp hother with hother | hother
      · exact hafter other hother
      · rw [List.mem_singleton.mp hother, hwrites, getEntry_none_of_le hle]
        rfl
    · rw [if_neg hle, Option.or_none] at hpayload
      refine ⟨records, record, [], rfl, ?_, by simp⟩
      rw [Record.payload, hrecord]
      exact hpayload
  · have hbased := h.based
    obtain ⟨hprev, hconfig⟩ := base_appendSuffix hlog
    rw [NodeState.BasedOnSnapshot] at hbased ⊢
    rw [hsnapshot, hprev, hconfig]
    exact hbased

theorem wellFormed_default : WellFormed [] (NodeState.default N) := by
  refine ⟨fun index ↦ ?_, fun index payload hpayload ↦ ?_, ?_⟩
  · simp [NodeState.default, N.entries_new, N.getEntry_eq, N.iter_newEntries]
  · simp [NodeState.default] at hpayload
  · change N.prevPosition (N.entries (N.newLog .new (N.newEntries .zero))) = .zero
    rw [N.entries_new, N.prevPosition_new]

/-- A checkpoint makes a well-formed state out of nothing. -/
theorem WellFormed.intoState (records : List (Record N)) {checkpoint : SnapshotCheckpoint N}
    {state : NodeState N} (h : checkpoint.intoState = .ok state) :
    WellFormed (records ++ [.snapshotCheckpoint checkpoint]) state := by
  rw [SnapshotCheckpoint.intoState, check_bind_eq_ok_iff, bind_eq_ok_iff] at h
  obtain ⟨-, based, hsnapshot, happend⟩ := h
  simp only [NodeState.applySnapshot, NodeState.applyCurrentTerm, NodeState.applyVotedFor,
    bind_eq_ok_iff] at hsnapshot
  obtain ⟨retained, hretained, hbased⟩ := hsnapshot
  rw [show N.entries (NodeState.default N).log = N.newEntries .zero from N.entries_new _ _]
    at hretained
  have hposition : checkpoint.snapshot.lastIncluded.index ≠ 0 ∨
      checkpoint.snapshot.lastIncluded.term = 0 := by
    by_contra hnot
    exact retainedLogEntries_empty.2 hnot (succeeds_iff.mpr ⟨retained, hretained⟩)
  rw [retainedLogEntries_empty.1 hposition, Except.ok.injEq] at hretained
  subst hretained
  obtain rfl := Except.ok.inj hbased
  have hnone (index : LogIndex) : ((NodeState.default N).commandPayloads.filter fun index _ ↦
      decide (checkpoint.snapshot.lastIncluded.index < index))[index]? = none := by
    rw [Std.ExtTreeMap.getElem?_filter']
    simp [NodeState.default]
  refine WellFormed.append rfl ⟨fun index ↦ ?_, fun index payload hpayload ↦ ?_, ?_⟩ happend
  · rw [Std.ExtTreeMap.mem_iff_isSome_getElem?, hnone]
    simp [N.entries_new, N.getEntry_eq, N.iter_newEntries]
  · rw [hnone] at hpayload
    cases hpayload
  · simp [NodeState.BasedOnSnapshot, N.entries_new, N.prevPosition_new, N.snapshotConfig_new]

/-- One record keeps a state well formed. -/
theorem WellFormed.applyRecord {records : List (Record N)} {state state' : NodeState N}
    (h : WellFormed records state) {record : Record N}
    (hrecord : applyRecordToState state record = .ok state') :
    WellFormed (records ++ [record]) state' := by
  have hsupplied (hnone : record.logAppend = none) (index : LogIndex) (payload : CommandPayload)
      (hpayload : state.commandPayloads[index]? = some payload) :
      ∃ before writer after, records ++ [record] = before ++ writer :: after ∧
        writer.payload index = some payload ∧ ∀ other ∈ after, other.writes index = false := by
    obtain ⟨before, writer, after, rfl, hwriter, hafter⟩ := h.supplied index payload hpayload
    refine ⟨before, writer, after ++ [record], by simp, hwriter, fun other hother ↦ ?_⟩
    rcases List.mem_append.mp hother with hother | hother
    · exact hafter other hother
    · rw [List.mem_singleton.mp hother, Record.writes, hnone]
      rfl
  cases record with
  | currentTerm term =>
    obtain rfl := Except.ok.inj hrecord
    exact ⟨h.keys, hsupplied rfl, h.based⟩
  | votedFor votedFor =>
    obtain rfl := Except.ok.inj hrecord
    exact ⟨h.keys, hsupplied rfl, h.based⟩
  | append append => exact h.append rfl hrecord
  | snapshotCheckpoint checkpoint => exact .intoState records hrecord

/-- A state that is loaded from any records is well formed. -/
theorem wellFormed_of_foldlM {records : List (Record N)} {state : NodeState N}
    (h : records.foldlM applyRecordToState (.default N) = .ok state) :
    WellFormed records state := by
  have hrun {before after : List (Record N)} {state state' : NodeState N}
      (hbefore : WellFormed before state)
      (hafter : after.foldlM applyRecordToState state = .ok state') :
      WellFormed (before ++ after) state' := by
    induction after generalizing before state with
    | nil =>
      obtain rfl := Except.ok.inj hafter
      simpa using hbefore
    | cons record rest ih =>
      rw [List.foldlM_cons, bind_eq_ok_iff] at hafter
      obtain ⟨middle, hrecord, hrest⟩ := hafter
      simpa using ih (hbefore.applyRecord hrecord) hrest
  exact hrun wellFormed_default h

/-- A command entry after a vote. -/
def votedCommand : List (Record Noraft.ofLists) :=
  [.votedFor (some 2),
    .append ⟨⟨.zero, [.command], by decide⟩, (∅ : CommandPayloads).insert 1 ⟨0, []⟩⟩]

theorem wellFormed_of_foldlM_command : ∃ state : NodeState Noraft.ofLists,
    votedCommand.foldlM applyRecordToState (.default Noraft.ofLists) = .ok state ∧
      WellFormed votedCommand state := by
  obtain ⟨state, hstate⟩ := succeeds_iff.mp (by decide +kernel :
    Succeeds (votedCommand.foldlM applyRecordToState (.default Noraft.ofLists)))
  exact ⟨state, hstate, wellFormed_of_foldlM hstate⟩

end Sukari
