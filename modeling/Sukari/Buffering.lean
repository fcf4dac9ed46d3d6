import Sukari.NodeStore
import Sukari.Reserved

/-!
# The records behind a store

`Buffers store written synced` relates a store to the records that were written to the segments, of
which the first `synced` are covered by a sync: the durable states come from some of the covered
records, and the buffer has the records after them. The records of an ID that is not taken do not
count. Writing, syncing, creating a node and losing the last records on one side correspond to the
same on the other side.
-/

set_option autoImplicit false
set_option relaxedAutoImplicit false

namespace Sukari

open Effects

variable {N : Noraft} {store : NodeStore N} {written added : List (NodeId × Record N)}
  {synced : ℕ} {nodeId : NodeId}

/-- The ID is taken, by a node or by one that was removed. -/
def NodeStore.taken (store : NodeStore N) (record : NodeId × Record N) : Bool :=
  store.status record.1 ≠ .creatable

structure BuffersFrom (store : NodeStore N) (durable recent : List (NodeId × Record N)) : Prop where
  buffered : store.buffered = recent.filter store.taken
  states : ∀ nodeId, store.status nodeId = .active →
    store.durable nodeId = recoveredState (recordsOf nodeId durable)

/-- The store has the records that were written. -/
def Buffers (store : NodeStore N) (written : List (NodeId × Record N)) (synced : ℕ) : Prop :=
  ∃ durable recent, written = durable ++ recent ∧ durable.length ≤ synced ∧
    BuffersFrom store durable recent

theorem recordsOf_filter {records : List (NodeId × Record N)} {p : NodeId × Record N → Bool}
    (h : ∀ record ∈ records, record.1 = nodeId → p record = true) :
    recordsOf nodeId (records.filter p) = recordsOf nodeId records := by
  rw [recordsOf, recordsOf, List.filter_filter]
  congr 1
  refine List.filter_congr fun record hrecord ↦ ?_
  by_cases hnode : record.1 = nodeId
  · simp [hnode, h record hrecord hnode]
  · simp [hnode]

theorem recordsOf_taken (hactive : store.status nodeId = .active)
    (records : List (NodeId × Record N)) :
    recordsOf nodeId (records.filter store.taken) = recordsOf nodeId records := by
  refine recordsOf_filter fun record _ hnode ↦ ?_
  simp [NodeStore.taken, hnode, hactive]

/-! ### States -/

/-- The state of a node is the one that is recovered from its records. -/
theorem Buffers.state (h : Buffers store written synced) (hactive : store.status nodeId = .active) :
    store.state nodeId = recoveredState (recordsOf nodeId written) := by
  obtain ⟨durable, recent, rfl, -, hfrom⟩ := h
  rw [NodeStore.state, hfrom.buffered, hfrom.states nodeId hactive, recordsOf_taken hactive,
    recordsOf_append, recoveredState_append]

theorem Buffers.mono {synced' : ℕ} (h : Buffers store written synced) (hle : synced ≤ synced') :
    Buffers store written synced' := by
  obtain ⟨durable, recent, hwritten, hlength, hfrom⟩ := h
  exact ⟨durable, recent, hwritten, hlength.trans hle, hfrom⟩

/-- Opening and closing an engine has no effect on the records. -/
theorem Buffers.congr {store' : NodeStore N} (h : Buffers store written synced)
    (hbuffered : store'.buffered = store.buffered) (hdurable : store'.durable = store.durable)
    (htaken : ∀ nodeId, store'.status nodeId = .creatable ↔ store.status nodeId = .creatable)
    (hactive : ∀ nodeId, store'.status nodeId = .active → store.status nodeId = .active) :
    Buffers store' written synced := by
  obtain ⟨durable, recent, hwritten, hlength, hfrom⟩ := h
  refine ⟨durable, recent, hwritten, hlength, ?_, fun nodeId hnode ↦ ?_⟩
  · rw [hbuffered, hfrom.buffered]
    refine List.filter_congr fun record _ ↦ ?_
    simp only [NodeStore.taken, ne_eq, htaken]
  · rw [hdurable, hfrom.states nodeId (hactive nodeId hnode)]

/-! ### Writing and syncing -/

theorem Buffers.write (h : Buffers store written synced) {records : List (NodeId × Record N)}
    (hrecords : records = added.filter store.taken) :
    Buffers (store.write records) (written ++ added) synced := by
  obtain ⟨durable, recent, rfl, hlength, hfrom⟩ := h
  refine ⟨durable, recent ++ added, List.append_assoc .., hlength, ?_, hfrom.states⟩
  rw [List.filter_append]
  exact congrArg₂ _ hfrom.buffered hrecords

/-- The durable states of the first buffered records. -/
theorem BuffersFrom.flush {durable recent : List (NodeId × Record N)}
    {kept : List (NodeId × Record N)}
    (h : BuffersFrom store durable recent) {count : ℕ}
    (hkept : store.buffered.take count = kept.filter store.taken)
    (hactive : store.status nodeId = .active) :
    (store.flush count).durable nodeId = recoveredState (recordsOf nodeId (durable ++ kept)) := by
  simp only [NodeStore.flush]
  rw [hkept, h.states nodeId hactive, recordsOf_taken hactive, recordsOf_append,
    recoveredState_append]

/-- A flush of the whole buffer, when every record is synced. -/
theorem Buffers.flush (h : Buffers store written synced) (hsynced : written.length ≤ synced) :
    Buffers (store.flush store.buffered.length) written synced := by
  obtain ⟨durable, recent, rfl, -, hfrom⟩ := h
  refine ⟨durable ++ recent, [], by simp, hsynced, List.drop_length, fun nodeId hactive ↦ ?_⟩
  refine hfrom.flush ?_ hactive
  rw [List.take_length]
  exact hfrom.buffered

/-- A sync after records were written. -/
theorem NodeStore.sync_write (store : NodeStore N) {records : List (NodeId × Record N)}
    (hrecords : records ≠ []) : (store.write records).sync = { store with
      durable := fun nodeId ↦
        (recordsOf nodeId (store.buffered ++ records)).foldl advance (store.durable nodeId)
      buffered := []
      unsynced := false } := by
  have hunsynced : (store.write records).unsynced = true := by simp [write, hrecords]
  rw [sync, if_pos hunsynced, flush, List.take_length, List.drop_length]
  rfl

theorem Buffers.sync (h : Buffers store written synced)
    (hsynced : store.unsynced = true → written.length ≤ synced) :
    Buffers store.sync written synced := by
  unfold NodeStore.sync
  split
  · next hunsynced =>
    exact (h.flush (hsynced hunsynced)).congr rfl rfl (fun _ ↦ Iff.rfl) fun _ hnode ↦ hnode
  · exact h

/-- A node is created: its initial checkpoint is written and everything is synced. -/
theorem Buffers.create (h : Buffers store written synced) (metadata : NodeMetadata) {synced' : ℕ}
    (hsynced : written.length + 1 ≤ synced') :
    Buffers (store.after (.createNode nodeId metadata))
      (written ++ [(nodeId, .snapshotCheckpoint (initialCheckpoint N))]) synced' := by
  have hafter := store.sync_write (List.cons_ne_nil
    (nodeId, (.snapshotCheckpoint (initialCheckpoint N) : Record N)) [])
  refine ⟨_, [], (List.append_nil _).symm, by simpa using hsynced, ?_, fun other hactive ↦ ?_⟩
  · exact congrArg NodeStore.buffered hafter
  refine (congrFun (congrArg NodeStore.durable hafter) other).trans ?_
  simp only
  rw [recordsOf_append, recordsOf_append, List.foldl_append, recoveredState_append]
  by_cases hnew : nodeId = other
  · -- the checkpoint replaces what was there
    subst hnew
    simp [recordsOf, advance]
  · have hold : store.status other = .active := by
      have hstatus : (Command.createNode (N := N) nodeId metadata).statusAfter other
        (store.status other) = .active := hactive
      rwa [Command.statusAfter, if_neg fun hboth ↦ hnew hboth.1] at hstatus
    have hstate := h.state hold
    rw [NodeStore.state] at hstate
    rw [hstate]

/-! ### Losing the last records -/

/-- A prefix of a list, seen through a filter. -/
theorem exists_take_filter {ι : Type} (p : ι → Bool) (items : List ι) (cut : ℕ) :
    ∃ count, (items.filter p).take count = (items.take cut).filter p := by
  refine ⟨((items.take cut).filter p).length, ?_⟩
  have hsplit : items.filter p = (items.take cut).filter p ++ (items.drop cut).filter p := by
    rw [← List.filter_append, List.take_append_drop]
  rw [hsplit, List.take_left]

/-- A cut behind the synced records takes back the end of the buffer. -/
theorem Buffers.lose (h : Buffers store written synced) {cut : ℕ} (hcut : synced ≤ cut)
    (hle : cut ≤ written.length) :
    ∃ count, Buffers (store.lose count) (written.take cut) cut := by
  obtain ⟨durable, recent, rfl, hlength, hfrom⟩ := h
  obtain ⟨count, hcount⟩ := exists_take_filter store.taken recent (cut - durable.length)
  have hkept : (durable ++ recent).take cut = durable ++ recent.take (cut - durable.length) := by
    rw [List.take_append, List.take_of_length_le (hlength.trans hcut)]
  refine ⟨count, _, [], (List.append_nil _).symm, ?_, rfl, fun nodeId hactive ↦ ?_⟩
  · exact (List.length_take_le cut _)
  · rw [hkept]
    exact hfrom.flush (hfrom.buffered ▸ hcount) hactive

end Sukari
