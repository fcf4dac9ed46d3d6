import Sukari.Reserved

/-!
# The order of statuses in a run

An ID is taken for good when its node is created, and gone for good when its node is removed: in a
run of an application, the statuses in the registry file only go that way (`Ages`). From the moment
at which a node is removed in the registry file, nothing is written for it
(`refines_lifecycleEvents`, `steps_lifecycle`).
-/

set_option autoImplicit false
set_option relaxedAutoImplicit false

namespace Sukari

open Effects

variable {N : Noraft} {opened ledger : Ledger N} {fs : Fs} {engine : StorageEngine}
  {status status' first later : NodeId → NodeStatus}

/-- An ID that was taken is not free later, and a removed one stays removed. -/
structure Ages (first later : NodeId → NodeStatus) : Prop where
  taken : ∀ nodeId, first nodeId ≠ .creatable → later nodeId ≠ .creatable
  removed : ∀ nodeId, first nodeId = .removed → later nodeId = .removed

theorem Ages.refl (status : NodeId → NodeStatus) : Ages status status :=
  ⟨fun _ htaken ↦ htaken, fun _ hremoved ↦ hremoved⟩

theorem Ages.trans {middle : NodeId → NodeStatus} (h : Ages first middle) (h' : Ages middle later) :
    Ages first later :=
  ⟨fun nodeId htaken ↦ h'.taken nodeId (h.taken nodeId htaken),
    fun nodeId hremoved ↦ h'.removed nodeId (h.removed nodeId hremoved)⟩

theorem ages_statusAfter (command : Command N) (status : NodeId → NodeStatus) :
    Ages status fun nodeId ↦ command.statusAfter nodeId (status nodeId) where
  taken _ htaken hcreatable := htaken (Command.statusAfter_eq_creatable hcreatable)
  removed nodeId hremoved := by
    simp only [hremoved]
    exact command.statusAfter_removed

/-- The registry file has the statuses. -/
def HasStatuses (status : NodeId → NodeStatus) (fs : Fs) : Prop :=
  ∃ registry, NodeRegistry.ofFile fs.nodes.current = .ok registry ∧ registry.status = status

theorem HasStatuses.unique (h : HasStatuses status fs) (h' : HasStatuses status' fs) :
    status = status' := by
  obtain ⟨registry, hregistry, rfl⟩ := h
  obtain ⟨registry', hregistry', rfl⟩ := h'
  rw [hregistry, Except.ok.injEq] at hregistry'
  rw [hregistry']

theorem HasStatuses.congr {fs' : Fs} (h : HasStatuses status fs)
    (hnodes : fs'.nodes.current = fs.nodes.current) : HasStatuses status fs' := by
  rwa [HasStatuses, hnodes]

theorem Statuses.hasStatuses (h : Statuses status fs) : HasStatuses status fs := by
  obtain ⟨document, registry, hsettled, hregistry, hstatus⟩ := h
  refine ⟨registry, ?_, hstatus⟩
  rwa [show fs.nodes.current = document from congrArg JsonFile.current hsettled]

/-! ### Replacing the registry once -/

/-- Programs that change the statuses at most once, from the first ones to the second ones. -/
def registering (status status' : NodeId → NodeStatus) :
    Refinement directory (NodeId → NodeStatus) where
  step _ first later := later = first ∨ first = status ∧ later = status'
  holds current fs := (current = status ∨ current = status') ∧ HasStatuses current fs

section Registering

variable {α : Type} {p : Program fileSystem α}

theorem refines_registering_keeps (hkeeps : p.Within (FsOp.KeepsJson .nodes))
    (h : (registering status status').holds first fs) :
    (registering status status').Refines (fun _ later fs' ↦ later = first ∧
      (registering status status').holds first fs') p first fs := by
  induction p generalizing fs with
  | done value => exact ⟨rfl, h⟩
  | request op next ih =>
    have hafter : (registering status status').holds first (Fs.after op fs) :=
      ⟨h.1, h.2.congr (Fs.current_after hkeeps.1 fs)⟩
    refine ⟨fun fs' hfs' ↦ ⟨h.1, h.2.congr ?_⟩, first, .inl rfl, hafter, ih _ (hkeeps.2 _) hafter⟩
    have hnodes : fs'.json .nodes = fs.json .nodes := Fs.json_during hfs'
    exact congrArg JsonFile.current hnodes

theorem refines_registering_save {registry : NodeRegistry} (hstatus : registry.status = status') :
    (registering status status').Refines
      (fun _ later fs' ↦ (registering status status').holds later fs') registry.save.run status
      fs := by
  have hsaved : HasStatuses status' (fs.replaceJson .nodes (formatNodeRegistry registry)) :=
    ⟨_, NodeRegistry.ofFile_format registry, hstatus ▸ funext registry.status_reloaded⟩
  exact .bindExcept (refines_io status' nofun (.inr ⟨rfl, rfl⟩) ⟨.inr rfl, hsaved⟩
    (refines_io status' nofun (.inl rfl) ⟨.inr rfl, hsaved⟩ ⟨.inr rfl, hsaved⟩))

variable {Q : α → (NodeId → NodeStatus) → Fs → Prop}

/-- Before the registry is saved, and after it was saved. -/
theorem registering_step (hkeeps : p.Within (FsOp.KeepsJson .nodes))
    (h : (registering status status').holds first fs)
    (hQ : ∀ value fs', (registering status status').holds first fs' → Q value first fs') :
    (registering status status').Refines Q p first fs := by
  refine (refines_registering_keeps hkeeps h).mono ?_
  rintro value later fs' ⟨rfl, hholds⟩
  exact hQ value fs' hholds

theorem refines_registering_createNode (hfile : HasStatuses engine.registry.status fs)
    (nodeId : NodeId) (metadata : NodeMetadata) :
    (registering engine.registry.status fun other ↦ (Command.createNode (N := N) nodeId
        metadata).statusAfter other (engine.registry.status other)).Refines
      (fun _ later fs' ↦ HasStatuses later fs')
      ((StorageEngine.createNode N nodeId metadata).run engine) engine.registry.status fs := by
  refine .bindMethod (refines_get (.bindMethod (refines_liftM ?_)))
  cases hcreated : engine.registry.createNode nodeId metadata with
  | error error => exact hfile
  | ok created =>
    refine .bindMethod (refines_onWriter (registering_step (methodWithin_append _ _ _)
      ⟨.inl rfl, hfile⟩ ?_))
    rintro ⟨result, s⟩ fs₁ hholds₁
    cases result with
    | error error => exact hholds₁.2
    | ok position =>
      refine .bindMethod (refines_onWriter (registering_step (methodWithin_sync _) hholds₁ ?_))
      rintro ⟨result, s⟩ fs₂ hholds₂
      cases result with
      | error error => exact hholds₂.2
      | ok value =>
        refine .bindMethod (refines_get (.bindMethod (refines_liftIo
          (registering_step (within_saveIndex keepsJson_replaceIndex _) hholds₂ ?_))))
        intro result fs₃ hholds₃
        cases result with
        | error error => exact hholds₃.2
        | ok value =>
          refine .bindMethod (refines_liftIo ((refines_registering_save
            (funext (NodeRegistry.status_createNode hcreated))).mono ?_))
          intro result later fs₄ hholds₄
          cases result <;> exact hholds₄.2

theorem refines_registering_removeNode (hfile : HasStatuses engine.registry.status fs)
    (nodeId : NodeId) :
    (registering engine.registry.status fun other ↦ (Command.removeNode (N := N)
        nodeId).statusAfter other (engine.registry.status other)).Refines
      (fun _ later fs' ↦ HasStatuses later fs')
      ((StorageEngine.removeNode nodeId).run engine) engine.registry.status fs := by
  refine .bindMethod (refines_ensureNodeExists (fun error ↦ hfile) fun hactive ↦ ?_)
  refine .bindMethod (refines_get (.bindMethod (refines_liftM ?_)))
  obtain ⟨removed, hremoved⟩ := NodeRegistry.removeNode_of_isActive hactive
  simp only [hremoved]
  refine .bindMethod (refines_liftIo ((refines_registering_save
    (funext (NodeRegistry.status_removeNode hremoved))).mono ?_))
  intro result later fs₁ hholds
  cases result with
  | error error => exact hholds.2
  | ok value =>
    refine .bindMethod (refines_modify (registering_step ?_ hholds fun _ _ hholds' ↦ hholds'.2))
    exact .bindMethod trivial fun _ s ↦
      .bindMethod (methodWithin_liftIo (within_saveIndex keepsJson_replaceIndex _) s) fun _ s ↦
        .bindMethod trivial fun _ s ↦ methodWithin_collectGarbage keepsJson_remove s

/-- Every call replaces the registry at most once. -/
theorem refines_registering_call (hfile : HasStatuses engine.registry.status fs)
    (command : Command N) :
    (registering engine.registry.status fun nodeId ↦ command.statusAfter nodeId
        (engine.registry.status nodeId)).Refines (fun _ later fs' ↦ HasStatuses later fs')
      ((StorageEngine.call command).run engine) engine.registry.status fs := by
  have hkeeps (hwithin : MethodKeepsJson .nodes (StorageEngine.call command)) :
      (registering engine.registry.status fun nodeId ↦ command.statusAfter nodeId
        (engine.registry.status nodeId)).Refines (fun _ later fs' ↦ HasStatuses later fs')
      ((StorageEngine.call command).run engine) engine.registry.status fs :=
    registering_step (hwithin engine) ⟨.inl rfl, hfile⟩ fun _ _ hholds ↦ hholds.2
  cases command with
  | createNode nodeId metadata => exact refines_registering_createNode hfile nodeId metadata
  | removeNode nodeId => exact refines_registering_removeNode hfile nodeId
  | saveCurrentTerm | saveVotedFor | appendEntries => exact hkeeps (methodWithin_saveRecord _ _)
  | saveSnapshot =>
    exact hkeeps (methodWithin_saveSnapshot keepsJson_replaceIndex keepsJson_remove _ _)
  | sync => exact hkeeps (methodWithin_onWriter methodWithin_sync)
  | load nodeId => exact hkeeps fun s ↦ .bindMethod (methodWithin_load nodeId s) fun _ _ ↦ trivial
  | loadAll => exact hkeeps fun s ↦ .bindMethod (methodWithin_loadAll s) fun _ _ ↦ trivial

end Registering

/-! ### Nothing is written for a removed node -/

/-- The request writes no record of a removed node. -/
def Silent (N : Noraft) (status : NodeId → NodeStatus) (exchange : Exchange fileSystem) : Prop :=
  ∀ nodeId, status nodeId = .removed → ∀ record, recordWritten N exchange ≠ some (nodeId, record)

variable (N) in
/-- The statuses in the registry file. -/
def lifecycle : Refinement directory (NodeId → NodeStatus) where
  step exchange first later := Ages first later ∧ Silent N first exchange
  holds := HasStatuses

theorem steps_lifecycle {past : List (Exchange fileSystem)}
    (h : (lifecycle N).Steps past first later) : Ages first later ∧
      ∀ nodeId, first nodeId = .removed → recordsOf nodeId (recordsWritten N past) = [] := by
  induction h with
  | refl status => exact ⟨.refl status, fun _ _ ↦ rfl⟩
  | @cons exchange rest status middle last hfirst hrest ih =>
    refine ⟨hfirst.1.trans ih.1, fun nodeId hremoved ↦ ?_⟩
    have hafter := ih.2 nodeId (hfirst.1.removed nodeId hremoved)
    have hsilent := hfirst.2 nodeId hremoved
    rw [recordsWritten, List.filterMap_cons]
    cases hrecord : recordWritten N exchange with
    | none => exact hafter
    | some nodeRecord =>
      have hother : nodeRecord.1 ≠ nodeId := fun hsame ↦
        hsilent nodeRecord.2 (by rw [hrecord, ← hsame])
      simp only [recordsOf]
      rw [List.filter_cons_of_neg (by simpa using hother)]
      exact hafter

/-- A program that replaces the registry at most once, and writes nothing for the nodes that are
removed when it ends. -/
theorem refines_lifecycle {α : Type} {p : Program fileSystem α}
    {Q : α → (NodeId → NodeStatus) → Fs → Prop}
    (h : (registering status status').Refines Q p first fs) (hages : Ages status status')
    (hsilent : ∀ exchange ∈ directory.performed p fs, Silent N status' exchange)
    (hfirst : first = status ∨ first = status') : (lifecycle N).Refines Q p first fs := by
  induction p generalizing first fs with
  | done value => exact h
  | request op next ih =>
    obtain ⟨hduring, later, hstep, hholds, hnext⟩ := h
    have hremoved (nodeId : NodeId) (hremoved : first nodeId = .removed) :
        status' nodeId = .removed := by
      rcases hfirst with rfl | rfl
      · exact hages.removed nodeId hremoved
      · exact hremoved
    refine ⟨fun fs' hfs' ↦ (hduring fs' hfs').2, later, ⟨?_, fun nodeId hnode ↦ ?_⟩, hholds.2,
      ih _ hnext (fun exchange hexchange ↦ hsilent exchange (List.mem_cons_of_mem _ hexchange))
        hholds.1⟩
    · rcases hstep with rfl | ⟨rfl, rfl⟩
      · exact .refl _
      · exact hages
    · exact hsilent _ (List.mem_cons_self ..) nodeId (hremoved nodeId hnode)

/-- A call writes a record only for a node that is active when it ends. -/
theorem silent_call (h : Ready opened engine ledger fs) (command : Command N) :
    ∀ exchange ∈ directory.performed ((StorageEngine.call command).run engine) fs,
      Silent N (fun nodeId ↦ command.statusAfter nodeId (engine.registry.status nodeId))
        exchange := by
  obtain ⟨ledger', hsteps, hadds⟩ := (refines_call h command).run
  have hwritten := hadds.written
  rw [(steps_written hsteps).1, List.append_cancel_left_eq] at hwritten
  intro exchange hexchange nodeId hremoved record hrecord
  have haccepted : (nodeId, record) ∈ acceptedRecords command.records
      (directory.run ((StorageEngine.call command).run engine) fs).1.1 := by
    rw [← hwritten]
    exact List.mem_filterMap.mpr ⟨exchange, hexchange, hrecord⟩
  cases hresult : (directory.run ((StorageEngine.call command).run engine) fs).1.1 with
  | error error =>
    rw [hresult] at haccepted
    cases haccepted
  | ok value =>
    have hnot : ¬ Refused engine command :=
      not_refused (Prod.ext (Prod.ext hresult rfl) rfl)
    rw [hresult] at haccepted
    have hactive {other : NodeId} (hother : ¬ engine.registry.isActive other = false) :
        engine.registry.status other = .active :=
      NodeRegistry.status_eq_active_iff.mpr (Bool.not_eq_false _ ▸ hother)
    cases command with
    | createNode =>
      obtain ⟨rfl, rfl⟩ := Prod.mk.inj (List.mem_singleton.mp haccepted)
      have hfree := NodeRegistry.status_eq_creatable_iff.mpr (Bool.eq_false_iff.mpr hnot)
      simp [Command.statusAfter, hfree] at hremoved
    | saveCurrentTerm | saveVotedFor =>
      obtain ⟨rfl, rfl⟩ := Prod.mk.inj (List.mem_singleton.mp haccepted)
      simp [Command.statusAfter, hactive hnot] at hremoved
    | appendEntries | saveSnapshot =>
      obtain ⟨rfl, rfl⟩ := Prod.mk.inj (List.mem_singleton.mp haccepted)
      simp [Command.statusAfter, hactive fun hinactive ↦ hnot (.inl hinactive)] at hremoved
    | removeNode | sync | load | loadAll => cases haccepted

/-! ### Applications -/

/-- The engine of an application agrees with the registry file. -/
structure Registered (session : Session N) (status : NodeId → NodeStatus) (fs : Fs) : Prop where
  served : ∃ ledger : Ledger N, Served session ledger fs
  file : Statuses status fs
  engine : ∀ engine, session.engine = some engine → engine.registry.status = status

/-- An application that has not opened the directory yet. -/
theorem Ledger.Holds.registered (h : ledger.Holds fs) (hnames : fs.syncDir = fs) :
    ∃ status, Registered (.closed : Session N) status fs := by
  obtain ⟨registry, hregistry⟩ := h.recoverable.registries _ (.inl rfl)
  have hsettled : Settled .nodes fs.nodes.current fs := by
    rw [← hnames]
    rfl
  exact ⟨registry.status, ⟨ledger, h.served hnames⟩, ⟨_, registry, hsettled, hregistry, rfl⟩, nofun⟩

theorem refines_lifecycleCall {accepted : List (NodeId × Record N)}
    (h : Registered ⟨some engine, accepted⟩ status fs) (command : Command N) :
    (lifecycle N).Refines (fun out later fs' ↦
        ∀ accepted', Registered (⟨some out.2, accepted'⟩ : Session N) later fs')
      ((StorageEngine.call command).run engine) status fs := by
  obtain ⟨ledger, hserved⟩ := h.served
  obtain ⟨opened, hready⟩ := hserved.ready engine rfl
  obtain rfl := h.engine engine rfl
  obtain ⟨-, -, hregisters⟩ := (refines_statuses h.file command rfl).run
  obtain ⟨ledger', -, hadds⟩ := (refines_call hready command).run
  refine (refines_lifecycle (refines_registering_call h.file.hasStatuses command)
    (ages_statusAfter command _) (silent_call hready command) (.inl rfl)).returned.mono ?_
  rintro ⟨result, engine'⟩ later fs' ⟨hrun, hlater⟩ accepted'
  rw [hrun] at hregisters hadds
  obtain rfl := hlater.unique hregisters.file.hasStatuses
  refine ⟨⟨ledger', hadds.ready.served _⟩, hregisters.file, fun other hother ↦ ?_⟩
  rw [← Option.some.inj hother]

theorem refines_lifecycleEvent {session : Session N} (h : Registered session status fs)
    (event : Event N) :
    (lifecycle N).Refines (fun session' later fs' ↦ Registered session' later fs')
      (event.perform session) status fs := by
  obtain ⟨ledger, hserved⟩ := h.served
  cases event with
  | start maxSegmentLen =>
    obtain ⟨ledger', hsteps, hserved', added, haccepted, hwritten⟩ :=
      (refines_event hserved (.start maxSegmentLen)).run
    have hnone : recordsWritten N (directory.performed
        ((Event.start maxSegmentLen).perform session) fs) = [] := by
      have hsame : session.accepted = session.accepted ++ added := by
        rw [← haccepted, Event.perform, Machine.run_bind]
        rfl
      rw [(steps_written hsteps).1, List.append_cancel_left_eq] at hwritten
      rw [hwritten]
      exact List.self_eq_append_right.mp hsame
    have hsilent : ∀ exchange ∈ directory.performed
        ((Event.start maxSegmentLen).perform session) fs, Silent N status exchange := by
      intro exchange hexchange nodeId _ record hrecord
      have hmem : (nodeId, record) ∈ recordsWritten N (directory.performed
          ((Event.start maxSegmentLen).perform session) fs) :=
        List.mem_filterMap.mpr ⟨exchange, hexchange, hrecord⟩
      rw [hnone] at hmem
      cases hmem
    have hopens : (directory.always (EitherStatuses status status)).Refines _
        (StorageEngine.withMaxSegmentLen N maxSegmentLen).run () fs :=
      refines_statuses_open h.file maxSegmentLen
    obtain ⟨-, -, hfile, hengine⟩ := hopens.run
    have hkeeps : ((Event.start maxSegmentLen).perform session).Within (FsOp.KeepsJson .nodes) :=
      (within_withMaxSegmentLen maxSegmentLen).bind fun _ ↦ trivial
    refine (refines_lifecycle (Q := fun _ later fs' ↦ HasStatuses later fs')
      (registering_step hkeeps ⟨.inl rfl, h.file.hasStatuses⟩ fun _ _ hholds ↦ hholds.2)
      (.refl status) hsilent (.inl rfl)).returned.mono ?_
    rintro session' later fs' ⟨hrun, hlater⟩
    rw [hrun] at hserved'
    rw [Event.perform, Machine.run_bind] at hrun
    obtain ⟨rfl, rfl⟩ := Prod.mk.inj hrun
    obtain rfl := hlater.unique hfile.hasStatuses
    refine ⟨⟨ledger', hserved'⟩, hfile, fun engine hopened ↦ hengine engine ?_⟩
    exact toOption_eq_some_iff.mp hopened
  | call command =>
    cases hengine : session.engine with
    | none =>
      simp only [Event.perform, hengine]
      exact h
    | some engine =>
      simp only [Event.perform, hengine]
      have hcurrent : Registered ⟨some engine, session.accepted⟩ status fs := by
        obtain ⟨current, accepted⟩ := session
        exact hengine ▸ h
      exact .bind ((refines_lifecycleCall hcurrent command).mono fun _ _ _ hout ↦ hout _)

/-- In every run of an application, statuses only go forward, and nothing is written for a removed
node. -/
theorem refines_lifecycleEvents {session : Session N} (h : Registered session status fs)
    (events : List (Event N)) :
    (lifecycle N).Refines (fun session' later fs' ↦ Registered session' later fs')
      (performEvents events session) status fs := by
  induction events generalizing session status fs with
  | nil => exact h
  | cons event rest ih =>
    rw [performEvents, List.foldlM_cons]
    exact .bind ((refines_lifecycleEvent h event).mono fun _ _ _ hregistered ↦ ih hregistered)

end Sukari
