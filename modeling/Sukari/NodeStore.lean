import Sukari.Effects.Simulation
import Sukari.Statuses

/-!
# The store that an application sees

What the storage engine is for, without files: every node ID has a status, every node has a state,
and a call is performed as a whole or not at all. Records are buffered until a sync, so the state of
a node is the durable one with the buffered records applied (`NodeStore.state`), and a power loss
takes back the end of the buffer (`NodeStore.lose`). `NodeStore.Step` says what can be observed of
the store: what the calls return, what the read-only functions return, and how much of a call is
left when the process is killed or the power is lost in the middle of it.
-/

set_option autoImplicit false
set_option relaxedAutoImplicit false

namespace Sukari

open Effects

variable {N : Noraft}

/-! ### The state of a node -/

/-- The state of a node after one more record. A checkpoint replaces what was there. -/
def advance (state : Except IoError (NodeState N)) : Record N → Except IoError (NodeState N)
  | .snapshotCheckpoint checkpoint => checkpoint.intoState
  | record => do applyRecordToState (← state) record

theorem sinceLast_append_singleton {ι : Type} {p : ι → Bool} {items : List ι} {item : ι}
    (h : p item = false) : sinceLast p (items ++ [item]) = sinceLast p items ++ [item] := by
  induction items with
  | nil => simp [sinceLast]
  | cons first rest ih =>
    simp only [List.cons_append, sinceLast, List.any_append, List.any_cons, List.any_nil, h,
      Bool.or_false]
    split
    · exact ih
    · rfl

theorem recoveredState_append_singleton (records : List (Record N)) (record : Record N) :
    recoveredState (records ++ [record]) = advance (recoveredState records) record := by
  by_cases hcheckpoint : record.isCheckpoint = true
  · have hlast := @recoveredState_append_cons N records [] record hcheckpoint (by simp) (.default N)
    rw [hlast, List.foldlM_cons]
    cases record with
    | snapshotCheckpoint checkpoint => exact bind_pure _
    | currentTerm | votedFor | append => cases hcheckpoint
  · rw [recoveredState_eq, recoveredState_eq,
      sinceLast_append_singleton (Bool.eq_false_iff.mpr hcheckpoint), List.foldlM_append]
    cases record with
    | snapshotCheckpoint checkpoint => exact absurd rfl hcheckpoint
    | currentTerm | votedFor | append => simp [advance]

/-- The recovered state grows with the records. -/
theorem recoveredState_append (records later : List (Record N)) :
    recoveredState (records ++ later) = later.foldl advance (recoveredState records) := by
  induction later generalizing records with
  | nil => simp
  | cons record rest ih =>
    rw [List.append_cons, ih, recoveredState_append_singleton, List.foldl_cons]

/-! ### The store -/

/-- The calls that sync the record that they write, or what was written before. -/
def Command.syncs : Command N → Bool
  | .createNode _ _ | .saveSnapshot _ _ | .sync => true
  | _ => false

namespace NodeStatus

def ensureExists : NodeStatus → Except IoError Unit
  | .creatable => .error nodeNotFoundError
  | .active => .ok ()
  | .removed => .error nodeRemovedError

def ensureCreatable : NodeStatus → Except IoError Unit
  | .creatable => .ok ()
  | .active | .removed => .error nodeAlreadyExistsError

end NodeStatus

structure NodeStore (N : Noraft) where
  status : NodeId → NodeStatus
  /-- The states that no power loss takes back. -/
  durable : NodeId → Except IoError (NodeState N)
  /-- The records that were accepted since then, in their order. -/
  buffered : List (NodeId × Record N)
  /-- An engine is open. -/
  serving : Bool
  /-- The engine has accepted a record since its last sync. -/
  unsynced : Bool

namespace NodeStore

variable (N) in
def empty : NodeStore N := ⟨fun _ ↦ .creatable, fun _ ↦ .ok (.default N), [], false, false⟩

variable (store : NodeStore N)

def state (nodeId : NodeId) : Except IoError (NodeState N) :=
  (recordsOf nodeId store.buffered).foldl advance (store.durable nodeId)

/-- The first buffered records become durable. -/
def flush (count : ℕ) : NodeStore N :=
  { store with
    durable := fun nodeId ↦
      (recordsOf nodeId (store.buffered.take count)).foldl advance (store.durable nodeId)
    buffered := store.buffered.drop count }

def write (records : List (NodeId × Record N)) : NodeStore N :=
  { store with
    buffered := store.buffered ++ records
    unsynced := store.unsynced || !records.isEmpty }

/-- A sync has something to do only if the engine has accepted a record since the last one. -/
def sync : NodeStore N :=
  if store.unsynced then { store.flush store.buffered.length with unsynced := false } else store

def opened : NodeStore N := { store with serving := true, unsynced := false }

def closed : NodeStore N := { store with serving := false, unsynced := false }

/-- A power loss leaves the first buffered records, and they are durable then. -/
def lose (count : ℕ) : NodeStore N := { (store.flush count).closed with buffered := [] }

@[simp] theorem status_sync : store.sync.status = store.status := by
  unfold sync
  split <;> rfl

@[simp] theorem serving_sync : store.sync.serving = store.serving := by
  unfold sync
  split <;> rfl

@[simp] theorem unsynced_sync : store.sync.unsynced = false := by
  unfold sync
  split
  · rfl
  · next hsynced => simpa using hsynced

/-! ### Calls -/

/-- Why a call is refused, if it is. -/
def check : Command N → Except IoError Unit
  | .createNode nodeId _ => (store.status nodeId).ensureCreatable
  | .removeNode nodeId | .saveCurrentTerm nodeId _ | .saveVotedFor nodeId _ | .load nodeId =>
    (store.status nodeId).ensureExists
  | .appendEntries nodeId append => do
    (store.status nodeId).ensureExists
    let _ ← encodeRecordFrame nodeId (.append append)
  | .saveSnapshot nodeId checkpoint => do
    (store.status nodeId).ensureExists
    checkpoint.validate
    let _ ← encodeRecordFrame nodeId (.snapshotCheckpoint checkpoint)
  | .sync | .loadAll => .ok ()

/-- The store after a call that was performed. -/
def after (command : Command N) : NodeStore N :=
  let written := store.write command.records
  { if command.syncs then written.sync else written with
    status := fun nodeId ↦ command.statusAfter nodeId (store.status nodeId) }

@[simp] theorem serving_after (command : Command N) :
    (store.after command).serving = store.serving := by
  simp only [after]
  split
  · exact serving_sync _
  · rfl

@[simp] theorem after_load (nodeId : NodeId) : store.after (.load nodeId) = store := by
  simp [after, write, Command.records, Command.syncs, Command.statusAfter]

@[simp] theorem after_loadAll : store.after .loadAll = store := by
  simp [after, write, Command.records, Command.syncs, Command.statusAfter]

/-- A call that was performed leaves something to sync only if there was something to sync before,
or the call has written a record. -/
theorem unsynced_after {command : Command N} (h : (store.after command).unsynced = true) :
    store.unsynced = true ∨ command.records ≠ [] := by
  simp only [after] at h
  split at h
  · rw [unsynced_sync] at h
    cases h
  · simpa [write] using h

/-- The store when the record of a call is written but not synced. -/
def recorded (command : Command N) : NodeStore N :=
  store.write (command.records.filter fun record ↦ store.status record.1 = .active)

/-- What `load` returns. -/
def load (nodeId : NodeId) : Except IoError (NodeState N) := do
  (store.status nodeId).ensureExists
  store.state nodeId

/-- What `load_all` may return: the states of the nodes, or an error because there is no state for
one of them. -/
def LoadsAll : Except IoError (ReplayState N) → Prop
  | .ok nodes => ∀ nodeId, if store.status nodeId = .active then
      ∃ state, store.state nodeId = .ok state ∧ nodes[nodeId]? = some state
    else nodes[nodeId]? = none
  | .error _ => ∃ nodeId, store.status nodeId = .active ∧ ¬ Succeeds (store.state nodeId)

/-- What a call may return when it is performed. -/
def Answers : Command N → Except IoError (Answer N) → Prop
  | .load nodeId, answer => answer = (store.state nodeId).map .state
  | .loadAll, answer => ∃ result, store.LoadsAll result ∧ answer = result.map .nodes
  | _, answer => answer = .ok .done

/-- What a call may return, and the store after it. -/
inductive Calls (command : Command N) : Except IoError (Answer N) → NodeStore N → Prop
  | refused {error : IoError} (h : store.check command = .error error) :
      Calls command (.error error) store
  /-- There is no room for the record. -/
  | full {error : IoError} (h : store.check command = .ok ()) (hrecords : command.records ≠ [])
      (herror : error = invalidData "segment ID overflow" ∨ error = fileTooLarge) :
      Calls command (.error error) store
  | performed {answer : Except IoError (Answer N)} (h : store.check command = .ok ())
      (hanswer : store.Answers command answer) : Calls command answer (store.after command)

/-- How much of a call, or of an opening, is left when it stops in the middle. -/
inductive Interrupted : Option (Command N) → NodeStore N → Prop
  | undone {command : Option (Command N)} : Interrupted command store
  | recorded {command : Command N} (h : store.check command = .ok ()) :
      Interrupted (some command) (store.recorded command)
  | done {command : Command N} (h : store.check command = .ok ()) :
      Interrupted (some command) (store.after command)

end NodeStore

/-! ### Observations -/

variable (N) in
/-- What is observed of a store. A process is killed, or loses its power, while it performs a call
or while it opens the directory. -/
inductive Observation
  | opened (maxSegmentLen : ℕ) (result : Except IoError Unit)
  | answered (command : Command N) (answer : Except IoError (Answer N))
  | read (nodeId : NodeId) (result : Except IoError (NodeState N))
  | readAll (result : Except IoError (ReplayState N))
  | killed (command : Option (Command N))
  | powerLoss (command : Option (Command N))

namespace NodeStore

inductive Step : Observation N → NodeStore N → NodeStore N → Prop
  | opened {store : NodeStore N} {maxSegmentLen : ℕ} (h : maxSegmentLen ≠ 0) :
      Step (.opened maxSegmentLen (.ok ())) store store.opened
  | notOpened {store : NodeStore N} :
      Step (.opened 0 (.error (invalidInput "max segment length must be non-zero"))) store
        store.closed
  | answered {store store' : NodeStore N} {command : Command N}
      {answer : Except IoError (Answer N)} (hserving : store.serving = true)
      (h : store.Calls command answer store') : Step (.answered command answer) store store'
  | read {store : NodeStore N} {nodeId : NodeId} :
      Step (.read nodeId (store.load nodeId)) store store
  | readAll {store : NodeStore N} {result : Except IoError (ReplayState N)}
      (h : store.LoadsAll result) : Step (.readAll result) store store
  | killed {store store' : NodeStore N} {command : Option (Command N)}
      (hserving : command = none ∨ store.serving = true) (h : store.Interrupted command store') :
      Step (.killed command) store store'.closed
  | powerLoss {store store' : NodeStore N} {command : Option (Command N)} {count : ℕ}
      (hserving : command = none ∨ store.serving = true) (h : store.Interrupted command store') :
      Step (.powerLoss command) store (store'.lose count)

variable (N) in
/-- The store as a transition system. -/
def system : System (NodeStore N) (Observation N) := ⟨(· = empty N), Step⟩

end NodeStore

end Sukari
