import Sukari.CheckpointRecovery
import Sukari.Statuses

/-!
# Node IDs are reserved for good

`Lifetime` are the runs over one directory: it is opened and called again and again, with the result
of every call, and a power loss may come at any point of an opening or of a call. Over every such
run, an ID that was created cannot be created again, an ID that was removed is gone for good, and a
call that a power loss interrupts is undone or done as a whole (`nodeIds_reserved`).
-/

set_option autoImplicit false
set_option relaxedAutoImplicit false

namespace Sukari

open Effects

/-! ### Runs with power losses -/

/-- The records that are left when a power loss comes in the middle of a program. -/
def survivingRecords (N : Noraft) (written : List (NodeId × Record N))
    (visit : Visit fileSystem Fs) (fs' : Fs) : List (NodeId × Record N) :=
  (written ++ recordsWritten N visit.past).take
    ((written ++ recordsWritten N visit.past).length - lostRecords N visit.state fs')

/-- The states that a program goes through, with the one that it starts in. -/
def states {α : Type} (p : Program fileSystem α) (fs : Fs) : List (Visit fileSystem Fs) :=
  ⟨[], fs⟩ :: directory.trace [] p fs

/-- The runs over one directory, with the records that it holds, the calls with their results and
the engine that is open. -/
inductive Lifetime (N : Noraft) : List (NodeId × Record N) →
    List (Command N × Except IoError Unit) →
    Option StorageEngine → Fs → Prop
  | empty : Lifetime N [] [] none .empty
  /-- The directory is opened, after the engine that was open before has been closed. -/
  | reopen {written : List (NodeId × Record N)} {past : List (Command N × Except IoError Unit)}
      {current : Option StorageEngine} {fs fs' : Fs} {maxSegmentLen : ℕ}
      {result : Except IoError StorageEngine} (h : Lifetime N written past current fs)
      (hrun : directory.run (StorageEngine.withMaxSegmentLen N maxSegmentLen).run fs =
        (result, fs')) : Lifetime N written past result.toOption fs'
  | call {written : List (NodeId × Record N)} {past : List (Command N × Except IoError Unit)}
      {engine engine' : StorageEngine} {fs fs' : Fs} {command : Command N}
      {result : Except IoError Unit} (h : Lifetime N written past (some engine) fs)
      (hrun : directory.run ((StorageEngine.call command).run engine) fs =
        ((result, engine'), fs')) :
      Lifetime N (written ++ acceptedRecords command.records result) (past ++ [(command, result)])
        (some engine') fs'
  | powerLossInOpen {written : List (NodeId × Record N)}
      {past : List (Command N × Except IoError Unit)} {current : Option StorageEngine} {fs fs' : Fs}
      {maxSegmentLen : ℕ} {visit : Visit fileSystem Fs} (h : Lifetime N written past current fs)
      (hvisit : visit ∈ states (StorageEngine.withMaxSegmentLen N maxSegmentLen).run fs)
      (hsurvivor : Survivor visit.state fs') :
      Lifetime N (survivingRecords N written visit fs') past none fs'
  | powerLossInCall {written : List (NodeId × Record N)}
      {past : List (Command N × Except IoError Unit)} {engine : StorageEngine} {fs fs' : Fs}
      {command : Command N} {visit : Visit fileSystem Fs}
      (h : Lifetime N written past (some engine) fs)
      (hvisit : visit ∈ states ((StorageEngine.call command).run engine) fs)
      (hsurvivor : Survivor visit.state fs') :
      Lifetime N (survivingRecords N written visit fs') past none fs'

variable {N : Noraft} {written accepted : List (NodeId × Record N)}
  {past : List (Command N × Except IoError Unit)} {current : Option StorageEngine}
  {engine engine' : StorageEngine} {ledger : Ledger N} {fs fs' : Fs} {nodeId : NodeId}
  {status status' : NodeId → NodeStatus}

def CreatedIn (past : List (Command N × Except IoError Unit)) (nodeId : NodeId) : Prop :=
  ∃ metadata, (.createNode nodeId metadata, .ok ()) ∈ past

def RemovedIn (past : List (Command N × Except IoError Unit)) (nodeId : NodeId) : Prop :=
  (.removeNode nodeId, .ok ()) ∈ past

/-! ### The invariant of a run -/

/-- The statuses tell what was created and what was removed. -/
structure Remembers (past : List (Command N × Except IoError Unit))
    (status : NodeId → NodeStatus) : Prop where
  created : ∀ nodeId, CreatedIn past nodeId → status nodeId ≠ .creatable
  removed : ∀ nodeId, RemovedIn past nodeId → status nodeId = .removed

/-- The records of an ID that is not taken are left over from creations that did not complete. -/
def Leftover (status : NodeId → NodeStatus) (written : List (NodeId × Record N)) : Prop :=
  ∀ nodeId, status nodeId = .creatable → ∀ record, (nodeId, record) ∈ written →
    record = .snapshotCheckpoint (initialCheckpoint N)

/-- The invariant of a run. -/
structure Lasting (written : List (NodeId × Record N))
    (past : List (Command N × Except IoError Unit))
    (current : Option StorageEngine) (status : NodeId → NodeStatus) (fs : Fs) : Prop where
  served : ∃ ledger : Ledger N, ledger.journal.written = written ∧ Served ⟨current, []⟩ ledger fs
  file : Statuses status fs
  engine : ∀ engine, current = some engine → engine.registry.status = status
  remembers : Remembers past status
  leftover : Leftover status written

theorem Command.statusAfter_eq_creatable {command : Command N} {status : NodeStatus}
    (h : command.statusAfter nodeId status = .creatable) : status = .creatable := by
  cases command with
  | createNode | removeNode =>
    simp only [statusAfter] at h
    split at h
    · cases h
    · exact h
  | _ => exact h

theorem Command.statusAfter_removed (command : Command N) :
    command.statusAfter nodeId .removed = .removed := by
  cases command <;> simp [statusAfter]

theorem Remembers.statusAfter (h : Remembers past status) (command : Command N) :
    Remembers past fun nodeId ↦ command.statusAfter nodeId (status nodeId) := by
  constructor
  · exact fun nodeId hcreated hcreatable ↦
      h.created nodeId hcreated (Command.statusAfter_eq_creatable hcreatable)
  · intro nodeId hremoved
    rw [h.removed nodeId hremoved, Command.statusAfter_removed]

/-- A call that succeeds was not refused. -/
theorem not_refused {command : Command N}
    (hrun : directory.run ((StorageEngine.call command).run engine) fs = ((.ok (), engine'), fs')) :
    ¬ Refused engine command := by
  intro hrefused
  obtain ⟨error, hstops⟩ := hrefused.stops fs
  rw [hstops] at hrun
  nomatch hrun

/-- A record that a call has written for an ID that is not taken is an initial checkpoint. -/
theorem leftover_of_accepted {command : Command N} {result : Except IoError Unit}
    (hrun : directory.run ((StorageEngine.call command).run engine) fs = ((result, engine'), fs')) :
    Leftover engine.registry.status (acceptedRecords command.records result) := by
  intro nodeId hcreatable record hrecord
  have hinactive : engine.registry.isActive nodeId = false := by
    rw [Bool.eq_false_iff, ne_eq, ← NodeRegistry.status_eq_active_iff, hcreatable]
    nofun
  cases result with
  | error error => nomatch hrecord
  | ok value =>
    have hnot := not_refused hrun
    cases command with
    | createNode | saveCurrentTerm | saveVotedFor | appendEntries | saveSnapshot =>
      obtain ⟨rfl, rfl⟩ := Prod.mk.inj (List.mem_singleton.mp hrecord)
      simp_all [Refused]
    | removeNode | sync | load | loadAll => nomatch hrecord

theorem lasting_empty :
    Lasting ([] : List (NodeId × Record N)) [] none (fun _ ↦ .creatable) .empty where
  served := ⟨⟨[], 0⟩, rfl, Ledger.holds_empty.served Fs.syncDir_empty⟩
  file := ⟨none, .default, rfl, rfl, funext NodeRegistry.status_default⟩
  engine := nofun
  remembers := ⟨nofun, nofun⟩
  leftover := nofun

/-! ### What a power loss leaves -/

/-- A program whose statuses and records are known up to a power loss. -/
structure Interruptible {α : Type} (status status' : NodeId → NodeStatus)
    (accepted : List (NodeId × Record N)) (p : Program fileSystem α) (ledger : Ledger N) (fs : Fs) :
    Prop where
  refines : ∃ Q : α → Ledger N → Fs → Prop, (storage N).Refines Q p ledger fs
  written : ∃ ledger' : Ledger N, (storage N).Steps (directory.performed p fs) ledger ledger' ∧
    ledger'.journal.written = ledger.journal.written ++ accepted
  statuses : ∃ Q : α → Unit → Fs → Prop,
    (directory.always (EitherStatuses status status')).Refines Q p () fs

theorem Statuses.either (h : Statuses status fs) : EitherStatuses status status' fs := by
  obtain ⟨document, registry, hsettled, hregistry, hstatus⟩ := h
  exact eitherStatuses_of_settled hregistry (.inl hstatus) hsettled

/-- What a power loss leaves of a program: the statuses from before or the ones to be reached, and
no other records than the ones from before and the accepted ones. -/
theorem Interruptible.survivor {α : Type} {p : Program fileSystem α}
    (h : Interruptible status status' accepted p ledger fs) (hholds : ledger.Holds fs)
    (hfile : Statuses status fs) {visit : Visit fileSystem Fs} (hvisit : visit ∈ states p fs)
    (hsurvivor : Survivor visit.state fs') :
    (∃ ledger' : Ledger N,
        ledger'.journal.written = survivingRecords N ledger.journal.written visit fs' ∧
        Served ⟨none, []⟩ ledger' fs') ∧
      (∀ record ∈ survivingRecords N ledger.journal.written visit fs',
        record ∈ ledger.journal.written ∨ record ∈ accepted) ∧
      ∃ status'', Statuses status'' fs' ∧ (status'' = status ∨ status'' = status') := by
  obtain ⟨⟨Q, hrefines⟩, ⟨final, hfinal, haccepted⟩, ⟨Q', hstatuses⟩⟩ := h
  have hstate : ∃ ledger', (storage N).Steps visit.past ledger ledger' ∧ ledger'.Holds visit.state ∧
      EitherStatuses status status' visit.state ∧ visit.past <+: directory.performed p fs := by
    rcases List.mem_cons.mp hvisit with rfl | hvisit
    · exact ⟨ledger, .refl ledger, hholds, hfile.either, List.nil_prefix⟩
    · obtain ⟨ops, ledger', hpast, hsteps, hholds'⟩ := hrefines.visit hvisit
      obtain ⟨_, _, -, -, heither⟩ := hstatuses.visit hvisit
      exact ⟨ledger', by rwa [hpast], hholds', heither, directory.past_prefix hvisit⟩
  obtain ⟨ledger', hsteps, hholds', heither, hprefix⟩ := hstate
  have hwritten := (steps_written hsteps).1
  obtain ⟨ledger'', hholds'', hkeeps, -, hsurviving⟩ := hholds'.survivor hsurvivor
  refine ⟨⟨ledger'', by rw [hsurviving, hwritten]; rfl, hholds'', ?_, nofun⟩, ?_, ?_⟩
  · exact fun active file _ hactive ↦ (hsurvivor.synced hactive).2
  · intro record hrecord
    have hmem := List.mem_of_mem_take hrecord
    have hall : recordsWritten N (directory.performed p fs) = accepted :=
      List.append_cancel_left ((steps_written hfinal).1.symm.trans haccepted)
    obtain ⟨rest, hrest⟩ := hprefix
    rw [← hrest, recordsWritten, List.filterMap_append] at hall
    rcases List.mem_append.mp hmem with hold | hnew
    · exact .inl hold
    · exact .inr (hall ▸ List.mem_append_left _ hnew)
  · have hdocument : ∃ document, Settled .nodes document fs' := by
      rcases hsurvivor.nodes with hnodes | hnodes <;> exact ⟨_, hnodes⟩
    obtain ⟨document, hsettled⟩ := hdocument
    have hnodes : fs'.nodes = ⟨document, document⟩ := hsettled
    have hcurrent : fs'.nodes.Holds document := .inl (by rw [hnodes])
    obtain ⟨registry, hregistry⟩ := hholds''.recoverable.registries document hcurrent
    exact ⟨registry.status, ⟨document, registry, hsettled, hregistry, rfl⟩,
      heither registry ⟨document, hsurvivor.nodes_holds hcurrent, hregistry⟩⟩

/-! ### The steps of a run -/

theorem Lasting.reopen (h : Lasting written past current status fs) {maxSegmentLen : ℕ}
    {result : Except IoError StorageEngine} (hrun : directory.run
      (StorageEngine.withMaxSegmentLen N maxSegmentLen).run fs = (result, fs')) :
    Lasting written past result.toOption status fs' := by
  obtain ⟨ledger, rfl, hserved⟩ := h.served
  obtain ⟨-, -, hfile, hengine⟩ :=
    (@refines_statuses_open N _ _ status h.file maxSegmentLen).run
  obtain ⟨ledger', -, hopen⟩ :=
    (refines_withMaxSegmentLen hserved.holds hserved.linked maxSegmentLen).run
  rw [hrun] at hfile hengine hopen
  refine ⟨?_, hfile, fun engine hsome ↦ hengine engine (toOption_eq_some_iff.mp hsome),
    h.remembers, h.leftover⟩
  rcases hopen with ⟨-, hfails, rfl, rfl⟩ | ⟨-, engine, rfl, hopens⟩
  · cases result with
    | ok engine => exact absurd trivial hfails
    | error error => exact ⟨ledger', rfl, hserved.holds, hserved.linked, nofun⟩
  · exact ⟨ledger', hopens.written, hopens.ready.served []⟩

theorem Lasting.call (h : Lasting written past (some engine) status fs) {command : Command N}
    {result : Except IoError Unit}
    (hrun : directory.run ((StorageEngine.call command).run engine) fs =
      ((result, engine'), fs')) :
    Lasting (written ++ acceptedRecords command.records result) (past ++ [(command, result)])
      (some engine') engine'.registry.status fs' := by
  obtain ⟨ledger, rfl, hserved⟩ := h.served
  obtain ⟨opened, hready⟩ := hserved.ready engine rfl
  have hstatus := h.engine engine rfl
  obtain ⟨-, -, hfile, hreached⟩ := (refines_statuses (hstatus ▸ h.file) command rfl).run
  obtain ⟨ledger', -, hadds⟩ := (refines_call hready command).run
  rw [hrun] at hfile hreached hadds
  have hremembers : Remembers past engine'.registry.status := by
    rcases hreached with hreached | ⟨-, hsame⟩
    · rw [hreached, hstatus]
      exact h.remembers.statusAfter command
    · rw [hsame, hstatus]
      exact h.remembers
  have hcreatable {nodeId : NodeId} (hnew : engine'.registry.status nodeId = .creatable) :
      engine.registry.status nodeId = .creatable := by
    rcases hreached with hreached | ⟨-, hsame⟩
    · rw [hreached] at hnew
      exact Command.statusAfter_eq_creatable hnew
    · rwa [hsame] at hnew
  refine ⟨⟨ledger', hadds.written, hadds.ready.served []⟩, hfile,
    fun other hother ↦ by rw [← Option.some.inj hother], ⟨?_, ?_⟩, ?_⟩
  · rintro nodeId ⟨metadata, hcreated⟩
    rcases List.mem_append.mp hcreated with hold | hnew
    · exact hremembers.created nodeId ⟨metadata, hold⟩
    · obtain ⟨rfl, rfl⟩ := Prod.mk.inj (List.mem_singleton.mp hnew)
      rcases hreached with hreached | ⟨hfails, -⟩
      · intro hnone
        have hold := hcreatable hnone
        rw [hreached] at hnone
        simp [Command.statusAfter, hold] at hnone
      · exact absurd trivial hfails
  · intro nodeId hremoved
    rcases List.mem_append.mp hremoved with hold | hnew
    · exact hremembers.removed nodeId hold
    · obtain ⟨rfl, rfl⟩ := Prod.mk.inj (List.mem_singleton.mp hnew)
      rcases hreached with hreached | ⟨hfails, -⟩
      · have hactive := Bool.of_not_eq_false (not_refused hrun)
        rw [← NodeRegistry.status_eq_active_iff] at hactive
        rw [hreached]
        simp [Command.statusAfter, hactive]
      · exact absurd trivial hfails
  · intro nodeId hnew record hrecord
    have hold := hcreatable hnew
    rcases List.mem_append.mp hrecord with hrecord | hrecord
    · exact h.leftover nodeId (hstatus ▸ hold) record hrecord
    · exact leftover_of_accepted hrun nodeId hold record hrecord

/-- What a power loss in an opening leaves. -/
theorem Lasting.powerLossInOpen (h : Lasting written past current status fs) {maxSegmentLen : ℕ}
    {visit : Visit fileSystem Fs}
    (hvisit : visit ∈ states (StorageEngine.withMaxSegmentLen N maxSegmentLen).run fs)
    (hsurvivor : Survivor visit.state fs') :
    Lasting (survivingRecords N written visit fs') past none status fs' := by
  obtain ⟨ledger, rfl, hserved⟩ := h.served
  have hrefines := refines_withMaxSegmentLen hserved.holds hserved.linked maxSegmentLen
  have hinterruptible : Interruptible status status []
      (StorageEngine.withMaxSegmentLen N maxSegmentLen).run ledger fs := by
    refine ⟨⟨_, hrefines⟩, ?_, ⟨_, refines_statuses_open h.file maxSegmentLen⟩⟩
    obtain ⟨ledger', hsteps, ⟨-, -, rfl, -⟩ | ⟨-, engine, -, hopens⟩⟩ := hrefines.run
    · exact ⟨ledger', hsteps, by simp⟩
    · exact ⟨ledger', hsteps, by simp [hopens.written]⟩
  obtain ⟨hleft, hrecords, status', hfile, hstatus⟩ :=
    hinterruptible.survivor hserved.holds h.file hvisit hsurvivor
  obtain rfl : status' = status := hstatus.elim id id
  refine ⟨hleft, hfile, nofun, h.remembers, fun nodeId hcreatable record hrecord ↦ ?_⟩
  rcases hrecords _ hrecord with hold | hnew
  · exact h.leftover nodeId hcreatable record hold
  · nomatch hnew

/-- What a power loss in a call leaves. -/
theorem Lasting.powerLossInCall (h : Lasting written past (some engine) status fs)
    {command : Command N} {visit : Visit fileSystem Fs}
    (hvisit : visit ∈ states ((StorageEngine.call command).run engine) fs)
    (hsurvivor : Survivor visit.state fs') :
    ∃ status', Lasting (survivingRecords N written visit fs') past none status' fs' ∧
      (status' = status ∨ status' = fun nodeId ↦ command.statusAfter nodeId (status nodeId)) ∧
      ∀ record ∈ survivingRecords N written visit fs', record ∈ written ∨
        record ∈ acceptedRecords command.records
          (directory.run ((StorageEngine.call command).run engine) fs).1.1 := by
  obtain ⟨ledger, rfl, hserved⟩ := h.served
  obtain ⟨opened, hready⟩ := hserved.ready engine rfl
  have hstatus := h.engine engine rfl
  have hrefines := refines_call hready command
  have hinterruptible : Interruptible engine.registry.status
      (fun nodeId ↦ command.statusAfter nodeId (engine.registry.status nodeId))
      (acceptedRecords command.records
        (directory.run ((StorageEngine.call command).run engine) fs).1.1)
      ((StorageEngine.call command).run engine) ledger fs := by
    refine ⟨⟨_, hrefines⟩, ?_, ⟨_, refines_statuses (hstatus ▸ h.file) command rfl⟩⟩
    obtain ⟨ledger', hsteps, hadds⟩ := hrefines.run
    exact ⟨ledger', hsteps, hadds.written⟩
  obtain ⟨hleft, hrecords, status', hfile, hcases⟩ :=
    hinterruptible.survivor hserved.holds (hstatus ▸ h.file) hvisit hsurvivor
  rw [hstatus] at hcases
  have hcreatable {nodeId : NodeId} (hnew : status' nodeId = .creatable) :
      status nodeId = .creatable := by
    rcases hcases with rfl | rfl
    · exact hnew
    · exact Command.statusAfter_eq_creatable hnew
  refine ⟨status', ⟨hleft, hfile, nofun, ?_, fun nodeId hnew record hrecord ↦ ?_⟩, hcases, hrecords⟩
  · rcases hcases with rfl | rfl
    · exact h.remembers
    · exact h.remembers.statusAfter command
  · rcases hrecords _ hrecord with hold | hadded
    · exact h.leftover nodeId (hcreatable hnew) record hold
    · exact leftover_of_accepted rfl nodeId (hstatus ▸ hcreatable hnew) record hadded

/-- Every run satisfies the invariant. -/
theorem Lifetime.lasting (h : Lifetime N written past current fs) :
    ∃ status, Lasting written past current status fs := by
  induction h with
  | empty => exact ⟨_, lasting_empty⟩
  | reopen _ hrun ih =>
    obtain ⟨status, hlasting⟩ := ih
    exact ⟨status, hlasting.reopen hrun⟩
  | call _ hrun ih =>
    obtain ⟨status, hlasting⟩ := ih
    exact ⟨_, hlasting.call hrun⟩
  | powerLossInOpen _ hvisit hsurvivor ih =>
    obtain ⟨status, hlasting⟩ := ih
    exact ⟨status, hlasting.powerLossInOpen hvisit hsurvivor⟩
  | powerLossInCall _ hvisit hsurvivor ih =>
    obtain ⟨status, hlasting⟩ := ih
    obtain ⟨status', hlasting', -⟩ := hlasting.powerLossInCall hvisit hsurvivor
    exact ⟨status', hlasting'⟩

/-! ### What a directory shows of a node -/

/-- The call fails with an error of the kind and changes nothing. -/
def Fails {α : Type} (kind : ErrorKind) (action : EngineM α) (engine : StorageEngine) (fs : Fs) :
    Prop :=
  ∃ error : IoError, error.kind = kind ∧
    directory.run (action.run engine) fs = ((.error error, engine), fs)

/-- The calls that need the node to be active. -/
def Command.Needs (nodeId : NodeId) : Command N → Prop
  | .removeNode needed | .saveCurrentTerm needed _ | .saveVotedFor needed _
  | .appendEntries needed _ | .saveSnapshot needed _ | .load needed => needed = nodeId
  | .createNode _ _ | .sync | .loadAll => False

variable (N) in
/-- The read-only functions do not find the node. -/
structure Unreadable (fs : Fs) (nodeId : NodeId) : Prop where
  load : ∃ error : IoError, error.kind = .notFound ∧
    directory.run (Sukari.load N nodeId).run fs = (.error error, fs)
  loadAll : ∀ nodes, (directory.run (Sukari.loadAll N).run fs).1 = .ok nodes → nodes[nodeId]? = none

variable (N) in
/-- The engine does not find the node. -/
structure Absent (engine : StorageEngine) (fs : Fs) (nodeId : NodeId) : Prop where
  inactive : engine.registry.isActive nodeId = false
  nodes : ∀ metadata, (nodeId, metadata) ∉ engine.nodes
  calls : ∀ command : Command N, command.Needs nodeId →
    Fails .notFound (StorageEngine.call command) engine fs
  loadAll : ∀ nodes, (directory.run ((StorageEngine.loadAll N).run engine) fs).1.1 = .ok nodes →
    nodes[nodeId]? = none

variable (N) in
/-- The node can be created, unless its first record cannot be appended. -/
def Creatable (engine : StorageEngine) (fs : Fs) (nodeId : NodeId) : Prop :=
  ∀ position engine' fs', directory.run ((StorageEngine.onWriter (SegmentWriter.append nodeId
      (.snapshotCheckpoint (initialCheckpoint N)))).run engine) fs =
        ((.ok position, engine'), fs') →
    ∀ metadata, (directory.run ((StorageEngine.createNode N nodeId metadata).run engine) fs).1.1 =
      .ok ()

/-- The node is active, and its load gives the plain history of its records. -/
structure Loadable (written : List (NodeId × Record N)) (engine : StorageEngine) (fs : Fs)
    (nodeId : NodeId) : Prop where
  active : engine.registry.isActive nodeId = true
  load : PlainHistory (recordsOf nodeId written)
    (directory.run ((StorageEngine.load N nodeId).run engine) fs).1.1
  applied : ∀ state, (recordsOf nodeId written).foldlM applyRecordToState (.default N) = .ok state →
    (directory.run ((StorageEngine.load N nodeId).run engine) fs).1.1 = .ok state
  loadAll : ∀ nodes, (directory.run ((StorageEngine.loadAll N).run engine) fs).1.1 = .ok nodes →
    ∃ state, nodes[nodeId]? = some state ∧
      (directory.run ((StorageEngine.load N nodeId).run engine) fs).1.1 = .ok state

/-- What an engine shows of a node: it can be created, it is active, or it was removed. -/
def Shows (written : List (NodeId × Record N)) (engine : StorageEngine) (fs : Fs)
    (nodeId : NodeId) : Prop :=
  match engine.registry.status nodeId with
  | .creatable => Absent N engine fs nodeId ∧ Creatable N engine fs nodeId
  | .active => Loadable written engine fs nodeId
  | .removed => Absent N engine fs nodeId ∧
    ∀ metadata, Fails .alreadyExists (StorageEngine.createNode N nodeId metadata) engine fs

theorem Fails.bind {α β : Type} {kind : ErrorKind} {action : EngineM α}
    (h : Fails kind action engine fs) (next : α → EngineM β) :
    Fails kind (action >>= next) engine fs := by
  obtain ⟨error, hkind, hrun⟩ := h
  exact ⟨error, hkind, Machine.run_bindMethod_error hrun⟩

/-- Inactive nodes are not found. -/
theorem ensureNodeExists_notFound {registry : NodeRegistry}
    (h : registry.isActive nodeId = false) :
    ∃ error : IoError, error.kind = .notFound ∧
      ensureNodeExists registry nodeId = .error error := by
  rw [ensureNodeExists, if_neg (by simp [h])]
  split
  · exact ⟨_, rfl, rfl⟩
  · exact ⟨_, rfl, rfl⟩

theorem fails_ensureNodeExists (h : engine.registry.isActive nodeId = false) :
    Fails .notFound (StorageEngine.ensureNodeExists nodeId) engine fs := by
  obtain ⟨error, hkind, herror⟩ := ensureNodeExists_notFound h
  refine ⟨error, hkind, (Machine.run_bindMethod_ok passes_get).trans ?_⟩
  simp only [herror]
  rfl

theorem Command.Needs.fails {command : Command N} (h : command.Needs nodeId)
    (hinactive : engine.registry.isActive nodeId = false) :
    Fails .notFound (StorageEngine.call command) engine fs := by
  cases command with
  | removeNode | saveCurrentTerm | saveVotedFor | appendEntries | saveSnapshot =>
    obtain rfl := h
    exact (fails_ensureNodeExists hinactive).bind _
  | load =>
    obtain rfl := h
    exact ((fails_ensureNodeExists hinactive).bind _).bind _
  | createNode | sync | loadAll => exact absurd h id

theorem fails_createNode (h : engine.registry.status nodeId ≠ .creatable)
    (metadata : NodeMetadata) :
    Fails .alreadyExists (StorageEngine.createNode N nodeId metadata) engine fs := by
  have htaken : engine.registry.nodes.contains nodeId = true := by
    rwa [ne_eq, NodeRegistry.status_eq_creatable_iff, Bool.not_eq_false] at h
  have herror : engine.registry.createNode nodeId metadata = .error nodeAlreadyExistsError :=
    if_pos htaken
  refine ⟨nodeAlreadyExistsError, rfl, (Machine.run_bindMethod_ok passes_get).trans ?_⟩
  rw [herror]
  exact Machine.run_bindMethod_error rfl

theorem isActive_of_mem_nodes {metadata : NodeMetadata} (h : (nodeId, metadata) ∈ engine.nodes) :
    engine.registry.isActive nodeId = true := by
  obtain ⟨⟨other, entry⟩, hmem, hitem⟩ := List.mem_map.mp h
  obtain ⟨rfl, -⟩ := Prod.mk.inj hitem
  rw [Std.ExtTreeMap.mem_toList_iff_getElem?_eq_some] at hmem
  have hentry : engine.registry.nodes[other]? = some entry ∧ entry.removed = false := by
    simpa [Std.ExtTreeMap.getElem?_filter, Option.filter_eq_some_iff] using hmem
  exact NodeRegistry.isActive_iff.mpr ⟨entry, hentry⟩

theorem Lasting.absent (h : Lasting written past (some engine) status fs)
    (hinactive : engine.registry.isActive nodeId = false) : Absent N engine fs nodeId := by
  obtain ⟨ledger, -, hserved⟩ := h.served
  obtain ⟨opened, hready⟩ := hserved.ready engine rfl
  refine ⟨hinactive, fun metadata hmem ↦ ?_, fun command hneeds ↦ hneeds.fails hinactive,
    fun nodes hnodes ↦ ?_⟩
  · rw [isActive_of_mem_nodes hmem] at hinactive
    nomatch hinactive
  · obtain ⟨-, -, hloads, -⟩ := (refines_loadAll hready).run
    rw [hnodes] at hloads
    exact hloads.2 nodeId (by simp [hinactive])

theorem Lasting.unreadable (h : Lasting written past current status fs)
    (hstatus : status nodeId ≠ .active) : Unreadable N fs nodeId := by
  obtain ⟨ledger, -, hserved⟩ := h.served
  obtain ⟨document, registry, hsettled, hregistry, hsame⟩ := h.file
  have hnodes : fs.nodes = ⟨document, document⟩ := hsettled
  have hcurrent : NodeRegistry.ofFile fs.nodes.current = .ok registry := by
    rw [hnodes]
    exact hregistry
  have hinactive : registry.isActive nodeId = false := by
    rwa [Bool.eq_false_iff, ne_eq, ← NodeRegistry.status_eq_active_iff, hsame]
  have hrecoverable := hserved.holds.recoverable
  constructor
  · obtain ⟨hunchanged, -, storage, hstorage, rfl, -⟩ :=
      (@readOnlyStorage_new_recovered N 0 _ _ _ hrecoverable hcurrent).run
    obtain ⟨error, hkind, herror⟩ := ensureNodeExists_notFound hinactive
    refine ⟨error, hkind, (Machine.run_bindExcept_ok (Prod.ext hstorage hunchanged)).trans ?_⟩
    refine Machine.run_bindExcept_error ?_
    rw [herror]
    rfl
  · intro nodes hnodes
    obtain ⟨-, -, hloads⟩ := (@loadAll_recovered N 0 _ _ _ hrecoverable hcurrent).run
    rw [hnodes] at hloads
    exact hloads.2 nodeId (by simp [hinactive])

theorem Lasting.loadable (h : Lasting written past (some engine) status fs)
    (hactive : engine.registry.isActive nodeId = true) : Loadable written engine fs nodeId := by
  obtain ⟨ledger, rfl, hserved⟩ := h.served
  obtain ⟨opened, hready⟩ := hserved.ready engine rfl
  obtain ⟨-, -, hload, -⟩ := (refines_load hready nodeId).run
  rw [hactive, LoadsNode, if_pos rfl] at hload
  have hhistory := hready.plainHistory hactive
  refine ⟨hactive, hload ▸ hhistory, fun state hstate ↦ ?_, fun nodes hnodes ↦ ?_⟩
  · obtain ⟨before, checkpoint, later, hsplit, -⟩ := hhistory
    rw [hload]
    exact recoveredState_of_foldlM ⟨.snapshotCheckpoint checkpoint, by simp [hsplit], rfl⟩ hstate
  · obtain ⟨-, -, hloads, -⟩ := (refines_loadAll hready).run
    rw [hnodes] at hloads
    obtain ⟨state, hstate, hnode⟩ := hloads.1 nodeId (by simp [hactive])
    exact ⟨state, hnode, hload.trans hstate⟩

theorem exists_run_sync (engine : StorageEngine) (fs : Fs) : ∃ engine' fs', directory.run
    ((StorageEngine.onWriter SegmentWriter.sync).run engine) fs = ((.ok (), engine'), fs') := by
  have hsync (s : MeteredWriter) : ∃ s' fs',
      directory.run (SegmentWriter.sync.run s) fs = ((.ok (), s'), fs') := by
    by_cases hpending : s.metrics.unsyncedRecords ≠ 0 ∨ s.metrics.unsyncedBytes ≠ 0
    · refine ⟨⟨s.writer, s.metrics.segmentSynced⟩, fs.syncData s.writer.activeSegment, ?_⟩
      refine (Machine.run_bindMethod_ok rfl).trans ?_
      rw [onlyIf, if_pos hpending]
      rfl
    · refine ⟨s, fs, (Machine.run_bindMethod_ok rfl).trans ?_⟩
      rw [onlyIf, if_neg hpending]
      rfl
  obtain ⟨s, fs', hrun⟩ := hsync ⟨engine.writer, engine.metrics⟩
  refine ⟨{ engine with writer := s.writer, metrics := s.metrics }, fs', ?_⟩
  refine (Machine.run_bind directory _ _ fs).trans ?_
  rw [show directory.run (SegmentWriter.sync ⟨engine.writer, engine.metrics⟩) fs = _ from hrun]
  rfl

theorem creatable_of_status (h : engine.registry.status nodeId = .creatable) :
    Creatable N engine fs nodeId := by
  intro position engine₁ fs₁ happend metadata
  have hnew : ∃ registry, engine.registry.createNode nodeId metadata = .ok registry := by
    rw [NodeRegistry.status_eq_creatable_iff] at h
    exact ⟨_, if_neg (by simp [h])⟩
  obtain ⟨registry, hregistry⟩ := hnew
  obtain ⟨engine₂, fs₂, hsync⟩ := exists_run_sync engine₁ fs₁
  have hcreated : directory.run ((liftM (engine.registry.createNode nodeId metadata) :
      EngineM NodeRegistry).run engine) fs = ((.ok registry, engine), fs) := by
    rw [hregistry]
    rfl
  have hrun : directory.run ((StorageEngine.createNode N nodeId metadata).run engine) fs = _ :=
    (Machine.run_bindMethod_ok passes_get).trans ((Machine.run_bindMethod_ok hcreated).trans
      ((Machine.run_bindMethod_ok happend).trans (Machine.run_bindMethod_ok hsync)))
  rw [hrun]
  rfl

/-- An engine shows every node as its registry has it. -/
theorem Lasting.shows (h : Lasting written past (some engine) status fs) (nodeId : NodeId) :
    Shows written engine fs nodeId := by
  have hinactive (hstatus : engine.registry.status nodeId ≠ .active) :
      engine.registry.isActive nodeId = false := by
    rwa [Bool.eq_false_iff, ne_eq, ← NodeRegistry.status_eq_active_iff]
  unfold Shows
  cases hstatus : engine.registry.status nodeId with
  | creatable => exact ⟨h.absent (hinactive (by rw [hstatus]; nofun)), creatable_of_status hstatus⟩
  | active => exact h.loadable (NodeRegistry.status_eq_active_iff.mp hstatus)
  | removed =>
    exact ⟨h.absent (hinactive (by rw [hstatus]; nofun)), fails_createNode (by rw [hstatus]; nofun)⟩

/-- A history of nothing but initial checkpoints stands for the initial state. -/
theorem PlainHistory.initial {records : List (Record N)} {result : Except IoError (NodeState N)}
    (h : PlainHistory records result)
    (hinitial : ∀ record ∈ records, record = .snapshotCheckpoint (initialCheckpoint N)) :
    result = .ok (initialCheckpoint N).state := by
  obtain ⟨before, checkpoint, later, rfl, hlater, rfl⟩ := h
  have hcheckpoint := hinitial (.snapshotCheckpoint checkpoint) (by simp)
  obtain rfl := Record.snapshotCheckpoint.inj hcheckpoint
  have hnone : later = [] := by
    rcases later with - | ⟨record, rest⟩
    · rfl
    · have hrecord := hlater record (by simp)
      rw [hinitial record (by simp)] at hrecord
      nomatch hrecord
  have hstate := (intoState_of_validate (@initialCheckpoint_validate N)).mpr (.inr rfl)
  rw [hnone, hstate]
  rfl

/-- Node IDs are reserved for good: over every run with refused calls, reopens and power losses, an
ID that was created cannot be created again, and an ID that was removed is gone. A call that a power
loss interrupts has changed the statuses of all nodes as it was to, or not at all, and a node that
it was to create shows its initial state, or nothing. -/
theorem nodeIds_reserved (h : Lifetime N written past current fs) (nodeId : NodeId) :
    (CreatedIn past nodeId → ∀ engine, current = some engine → ∀ metadata,
      Fails .alreadyExists (StorageEngine.createNode N nodeId metadata) engine fs) ∧
    (RemovedIn past nodeId → Unreadable N fs nodeId ∧
      ∀ engine, current = some engine → Absent N engine fs nodeId) ∧
    ∀ (engine : StorageEngine) (command : Command N) (visit : Visit fileSystem Fs) (fs' : Fs)
      (maxSegmentLen : ℕ), current = some engine →
      visit ∈ states ((StorageEngine.call command).run engine) fs → Survivor visit.state fs' →
      maxSegmentLen ≠ 0 → ∃ engine' fs'',
        directory.run (StorageEngine.withMaxSegmentLen N maxSegmentLen).run fs' =
          (.ok engine', fs'') ∧
        (engine'.registry.status = engine.registry.status ∨ engine'.registry.status =
          fun other ↦ command.statusAfter other (engine.registry.status other)) ∧
        Shows (survivingRecords N written visit fs') engine' fs'' nodeId ∧
        (engine.registry.status nodeId = .creatable → engine'.registry.status nodeId = .active →
          (directory.run ((StorageEngine.load N nodeId).run engine') fs'').1.1 =
            .ok (initialCheckpoint N).state) := by
  obtain ⟨status, hlasting⟩ := h.lasting
  refine ⟨?_, fun hremoved ↦ ?_, ?_⟩
  · rintro hcreated engine rfl metadata
    refine fails_createNode ?_ metadata
    rw [hlasting.engine engine rfl]
    exact hlasting.remembers.created nodeId hcreated
  · have hstatus := hlasting.remembers.removed nodeId hremoved
    refine ⟨hlasting.unreadable (by rw [hstatus]; nofun), ?_⟩
    rintro engine rfl
    refine hlasting.absent ?_
    rw [Bool.eq_false_iff, ne_eq, ← NodeRegistry.status_eq_active_iff, hlasting.engine engine rfl,
      hstatus]
    nofun
  · rintro engine command visit fs' maxSegmentLen rfl hvisit hsurvivor hmax
    obtain ⟨status', hlasting', hcases, hrecords⟩ := hlasting.powerLossInCall hvisit hsurvivor
    obtain ⟨ledger, -, hserved⟩ := hlasting'.served
    obtain ⟨ledger', -, ⟨hzero, -⟩ | ⟨-, engine', hengine', -⟩⟩ :=
      (refines_withMaxSegmentLen hserved.holds hserved.linked maxSegmentLen).run
    · exact absurd hzero hmax
    have hopen : directory.run (StorageEngine.withMaxSegmentLen N maxSegmentLen).run fs' =
        (.ok engine',
          (directory.run (StorageEngine.withMaxSegmentLen N maxSegmentLen).run fs').2) := by
      rw [← hengine']
    have hreopened := hlasting'.reopen hopen
    have hstatus := hlasting.engine engine rfl
    have hstatus' := hreopened.engine engine' rfl
    have hshows := hreopened.shows nodeId
    refine ⟨engine', _, hopen, by rwa [hstatus', hstatus], hshows, fun hcreatable hactive ↦ ?_⟩
    rw [Shows, hactive] at hshows
    refine hshows.load.initial fun record hrecord ↦ ?_
    have hmem : (nodeId, record) ∈ survivingRecords N written visit fs' := by
      simpa [recordsOf] using hrecord
    rcases hrecords _ hmem with hold | hadded
    · exact hlasting.leftover nodeId (hstatus ▸ hcreatable) record hold
    · exact leftover_of_accepted rfl nodeId hcreatable record hadded

/-- A node that was created and removed. -/
theorem nodeIds_reserved_removed : ∃ (past : List (Command Noraft.ofLists × Except IoError Unit))
    (engine : StorageEngine) (fs : Fs), CreatedIn past 1 ∧ RemovedIn past 1 ∧
      (∀ metadata, Fails .alreadyExists (StorageEngine.createNode Noraft.ofLists 1 metadata)
        engine fs) ∧ Unreadable Noraft.ofLists fs 1 ∧ Absent Noraft.ofLists engine fs 1 := by
  let create : Command Noraft.ofLists := .createNode 1 ⟨true, ⟨"null"⟩⟩
  let opened := directory.run (StorageEngine.withMaxSegmentLen Noraft.ofLists 64).run .empty
  let called (command : Command Noraft.ofLists) (state : StorageEngine × Fs) :=
    directory.run ((StorageEngine.call command).run state.1) state.2
  have hruns : opened.1.toOption.any (fun engine ↦
      let created := called create (engine, opened.2)
      Succeeds created.1.1 ∧ Succeeds (called (.removeNode 1) (created.1.2, created.2)).1.1) =
        true := by
    decide +kernel
  simp only [Option.any_eq_true, toOption_eq_some_iff, decide_eq_true_eq] at hruns
  obtain ⟨engine, hopen, hcreate, hremove⟩ := hruns
  have hok {σ : Type} {out : (Except IoError Unit × σ) × Fs} (h : Succeeds out.1.1) :
      out = ((.ok (), out.1.2), out.2) := by
    obtain ⟨⟨result, s⟩, fs⟩ := out
    obtain ⟨value, rfl⟩ := succeeds_iff.mp h
    rfl
  have hstart : Lifetime Noraft.ofLists [] [] (some engine) opened.2 := by
    have hreopen := (Lifetime.empty (N := Noraft.ofLists)).reopen
      (show directory.run (StorageEngine.withMaxSegmentLen Noraft.ofLists 64).run .empty =
        (opened.1, opened.2) from rfl)
    rwa [hopen] at hreopen
  have hlife := (hstart.call (hok hcreate)).call (hok hremove)
  have hcreated := List.mem_append_left [((Command.removeNode 1 : Command Noraft.ofLists),
    (.ok () : Except IoError Unit))] (List.mem_singleton_self (create, Except.ok ()))
  have hreserved := nodeIds_reserved hlife 1
  have hremoved := hreserved.2.1 (by simp [RemovedIn])
  exact ⟨_, _, _, ⟨_, hcreated⟩, by simp [RemovedIn], hreserved.1 ⟨_, hcreated⟩ _ rfl, hremoved.1,
    hremoved.2 _ rfl⟩

end Sukari
