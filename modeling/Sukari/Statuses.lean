import Sukari.Footprints
import Sukari.Rules
import Sukari.RefusedCalls

/-!
# The status of a node ID

A node ID can be created, or its node is active, or its node was removed. A call that creates or
removes a node changes the status of this ID and of no other one, and no other call changes any
(`Command.statusAfter`). The registry file is replaced in one step: in every state that a call goes
through, a power loss leaves the statuses from before the call or the ones that it is to reach
(`refines_statuses`).
-/

set_option autoImplicit false
set_option relaxedAutoImplicit false

namespace Sukari

open Effects

variable {N : Noraft} {fs : Fs} {engine : StorageEngine} {registry registry' : NodeRegistry}

inductive NodeStatus
  | creatable
  | active
  | removed
  deriving DecidableEq

def NodeRegistryEntry.status (entry : NodeRegistryEntry) : NodeStatus :=
  if entry.removed then .removed else .active

def NodeRegistry.status (registry : NodeRegistry) (nodeId : NodeId) : NodeStatus :=
  (registry.nodes[nodeId]?.map NodeRegistryEntry.status).getD .creatable

/-- The status of a node ID after a call that is to change it. -/
def Command.statusAfter (nodeId : NodeId) (status : NodeStatus) : Command N → NodeStatus
  | .createNode created _ => if created = nodeId ∧ status = .creatable then .active else status
  | .removeNode removed => if removed = nodeId ∧ status = .active then .removed else status
  | _ => status

/-! ### The registry -/

namespace NodeRegistry

theorem status_eq_creatable_iff {nodeId : NodeId} :
    registry.status nodeId = .creatable ↔ registry.nodes.contains nodeId = false := by
  have hentry (entry : NodeRegistryEntry) : entry.status ≠ .creatable := by
    unfold NodeRegistryEntry.status
    split <;> nofun
  rw [status, Bool.eq_false_iff, ne_eq, Std.ExtTreeMap.contains_iff_mem,
    Std.ExtTreeMap.mem_iff_isSome_getElem?]
  cases registry.nodes[nodeId]? <;> simp [hentry]

theorem status_eq_active_iff {nodeId : NodeId} :
    registry.status nodeId = .active ↔ registry.isActive nodeId = true := by
  rw [status, isActive]
  cases registry.nodes[nodeId]? with
  | none => simp
  | some entry => cases hremoved : entry.removed <;> simp [NodeRegistryEntry.status, hremoved]

@[simp] theorem status_default (nodeId : NodeId) : default.status nodeId = .creatable := by
  simp [status, default]

@[simp] theorem status_reloaded (registry : NodeRegistry) (nodeId : NodeId) :
    registry.reloaded.status nodeId = registry.status nodeId := by
  rw [status, status, reloaded, Std.ExtTreeMap.getElem?_map, Option.map_map]
  rfl

theorem status_insert (nodeId : NodeId) (entry : NodeRegistryEntry) (other : NodeId) :
    status ⟨registry.nodes.insert nodeId entry⟩ other =
      if nodeId = other then entry.status else registry.status other := by
  by_cases hsame : nodeId = other <;> simp [status, Std.ExtTreeMap.getElem?_insert, hsame]

/-- Creating a node makes a node ID active that was not taken. -/
theorem status_createNode {nodeId : NodeId} {metadata : NodeMetadata}
    (h : registry.createNode nodeId metadata = .ok registry') (other : NodeId) :
    registry'.status other = (Command.createNode (N := N) nodeId metadata).statusAfter other
      (registry.status other) := by
  unfold createNode at h
  split at h
  · nomatch h
  · next hnew =>
    rw [← Except.ok.inj h, status_insert, Command.statusAfter]
    by_cases hsame : nodeId = other
    · subst hsame
      rw [if_pos rfl, status_eq_creatable_iff.mpr (Bool.eq_false_iff.mpr hnew), if_pos ⟨rfl, rfl⟩]
      rfl
    · rw [if_neg hsame, if_neg fun hboth ↦ hsame hboth.1]

/-- Removing a node takes it from the active ones for good. -/
theorem status_removeNode {nodeId : NodeId} (h : registry.removeNode nodeId = .ok registry')
    (other : NodeId) : registry'.status other =
      (Command.removeNode (N := N) nodeId).statusAfter other (registry.status other) := by
  unfold removeNode at h
  split at h
  · nomatch h
  · next entry hentry =>
    split at h
    · nomatch h
    · next hremoved =>
      rw [← Except.ok.inj h, status_insert, Command.statusAfter]
      by_cases hsame : nodeId = other
      · subst hsame
        have hactive : registry.status nodeId = .active := by
          simp [status, hentry, NodeRegistryEntry.status, hremoved]
        rw [if_pos rfl, hactive, if_pos ⟨rfl, rfl⟩]
        rfl
      · rw [if_neg hsame, if_neg fun hboth ↦ hsame hboth.1]

end NodeRegistry

/-! ### The registry file -/

/-- A power loss leaves the registry file as it is, and the file has the statuses. -/
def Statuses (status : NodeId → NodeStatus) (fs : Fs) : Prop :=
  ∃ document registry, Settled .nodes document fs ∧ NodeRegistry.ofFile document = .ok registry ∧
    registry.status = status

/-- Every registry file that a power loss may leave has the one or the other statuses. -/
def EitherStatuses (status status' : NodeId → NodeStatus) (fs : Fs) : Prop :=
  ∀ registry, fs.HasRegistry registry → registry.status = status ∨ registry.status = status'

theorem eitherStatuses_of_settled {status status' : NodeId → NodeStatus} {document : Option Json}
    (hregistry : NodeRegistry.ofFile document = .ok registry)
    (hstatus : registry.status = status ∨ registry.status = status')
    (h : Settled .nodes document fs) : EitherStatuses status status' fs := by
  rintro registry' ⟨document', hholds, hdocument⟩
  have hnodes : fs.nodes = ⟨document, document⟩ := h
  obtain rfl : document' = document := by
    rw [hnodes] at hholds
    exact hholds.elim id id
  rw [hregistry, Except.ok.injEq] at hdocument
  exact hdocument ▸ hstatus

/-! ### Calls that leave the registry alone -/

/-- The method leaves the registry in memory alone. -/
def LeavesRegistry {α : Type} (action : EngineM α) : Prop :=
  ∀ engine, Program.Returns (fun out ↦ out.2.registry = engine.registry) (action.run engine)

namespace LeavesRegistry

variable {α β : Type}

theorem bind {action : EngineM α} {next : α → EngineM β} (h : LeavesRegistry action)
    (hnext : ∀ value, LeavesRegistry (next value)) : LeavesRegistry (action >>= next) := by
  intro engine
  rw [run_bindMethod]
  refine (h engine).bind fun out hsame ↦ ?_
  obtain ⟨result, engine'⟩ := out
  have hengine : engine'.registry = engine.registry := hsame
  cases result with
  | ok value => exact hengine ▸ hnext value engine'
  | error error => exact hengine

theorem returns {action : EngineM α} (h : LeavesRegistry action)
    (hengine : engine.registry = registry) :
    Program.Returns (fun out ↦ out.2.registry = registry) (action.run engine) :=
  hengine ▸ h engine

theorem get : LeavesRegistry (get : EngineM StorageEngine) := fun _ ↦ rfl

theorem pure (value : α) : LeavesRegistry (pure value : EngineM α) := fun _ ↦ rfl

theorem modify {f : StorageEngine → StorageEngine}
    (h : ∀ engine, (f engine).registry = engine.registry) :
    LeavesRegistry (modify f : EngineM PUnit) := fun engine ↦ h engine

theorem liftM (result : Except IoError α) : LeavesRegistry (liftM result : EngineM α) := by
  intro engine
  cases result <;> rfl

theorem liftIo (action : IoM α) : LeavesRegistry (liftIo action : EngineM α) :=
  fun _ ↦ (Program.Returns.any action.run).bind fun _ _ ↦ rfl

theorem onlyIf {condition : Prop} [Decidable condition] {action : EngineM Unit}
    (h : LeavesRegistry action) : LeavesRegistry (onlyIf condition action) := by
  unfold Sukari.onlyIf
  split
  · exact h
  · exact pure ()

theorem onWriter (action : WriterM α) : LeavesRegistry (StorageEngine.onWriter action) :=
  fun engine ↦
    (Program.Returns.any (action.run ⟨engine.writer, engine.metrics⟩)).bind fun _ _ ↦ rfl

theorem ensureNodeExists (nodeId : NodeId) :
    LeavesRegistry (StorageEngine.ensureNodeExists nodeId) := get.bind fun _ ↦ liftM _

theorem collectGarbage : LeavesRegistry StorageEngine.collectGarbage := by
  refine get.bind fun engine ↦ ?_
  split
  · exact pure ()
  · exact (liftIo _).bind fun _ ↦ (liftIo _).bind fun _ ↦ onlyIf (liftIo _)

theorem load (nodeId : NodeId) : LeavesRegistry (StorageEngine.load N nodeId) :=
  (ensureNodeExists nodeId).bind fun _ ↦ get.bind fun _ ↦ liftIo _

theorem loadAll : LeavesRegistry (StorageEngine.loadAll N) := by
  refine get.bind fun engine ↦ ?_
  simp only
  split
  · exact pure _
  · exact (liftIo _).bind fun _ ↦ pure _

theorem saveRecord (nodeId : NodeId) (record : Record N) :
    LeavesRegistry (StorageEngine.saveRecord nodeId record) :=
  (ensureNodeExists nodeId).bind fun _ ↦ (onWriter _).bind fun _ ↦ pure ()

theorem saveSnapshot (nodeId : NodeId) (checkpoint : SnapshotCheckpoint N) :
    LeavesRegistry (StorageEngine.saveSnapshot nodeId checkpoint) := by
  refine (ensureNodeExists nodeId).bind fun _ ↦ (liftM _).bind fun _ ↦ (onWriter _).bind fun _ ↦
    (onWriter _).bind fun _ ↦ get.bind fun _ ↦ (liftIo _).bind fun _ ↦ bind ?_ fun _ ↦
      collectGarbage
  exact modify fun _ ↦ rfl

end LeavesRegistry

/-! ### The statuses during a call -/

/-- What a call has done to the statuses when it returns. -/
structure Registers (status status' : NodeId → NodeStatus)
    (out : Except IoError Unit × StorageEngine) (fs : Fs) : Prop where
  file : Statuses out.2.registry.status fs
  reached : out.2.registry.status = status' ∨
    ¬ Succeeds out.1 ∧ out.2.registry.status = status

section Calls

variable {α : Type} {document : Option Json} {status status' : NodeId → NodeStatus}

/-- A program that does not replace the registry file. -/
theorem refines_settled {p : Program fileSystem α} (post : α → Prop)
    {Q : α → Unit → Fs → Prop} (hregistry : NodeRegistry.ofFile document = .ok registry)
    (hstatus : registry.status = status ∨ registry.status = status')
    (hsettled : Settled .nodes document fs) (hkeeps : p.Within (FsOp.KeepsJson .nodes))
    (hreturns : p.Returns post)
    (hQ : ∀ value fs', post value → Settled .nodes document fs' → Q value () fs') :
    (directory.always (EitherStatuses status status')).Refines Q p () fs :=
  (hreturns.refines (hkeeps.refines (maintains_settled document)
    (fun _ ↦ eitherStatuses_of_settled hregistry hstatus) hsettled)).mono
      fun value _ fs' hvalue ↦ hQ value fs' hvalue.1 hvalue.2

/-- Saving a registry with the statuses to be reached. -/
theorem refines_saveStatuses (hregistry : NodeRegistry.ofFile document = .ok registry)
    (hstatus : registry.status = status) (hstatus' : registry'.status = status')
    (hsettled : Settled .nodes document fs) :
    (directory.always (EitherStatuses status status')).Refines
      (fun result _ fs' ↦ result = .ok () ∧
        Settled .nodes (some (formatNodeRegistry registry')) fs')
      registry'.save.run () fs := by
  have hsaved : ∀ fs', fs'.nodes = ⟨some (formatNodeRegistry registry'), document⟩ ∨
      Settled .nodes (some (formatNodeRegistry registry')) fs' →
      EitherStatuses status status' fs' := by
    rintro fs' hfile other ⟨document', hholds, hdocument⟩
    have hcases : document' = some (formatNodeRegistry registry') ∨ document' = document := by
      rcases hfile with hfile | hfile
      · rw [hfile] at hholds
        exact hholds
      · have hnodes : fs'.nodes = _ := hfile
        rw [hnodes] at hholds
        exact .inl (hholds.elim id id)
    rcases hcases with rfl | rfl
    · rw [NodeRegistry.ofFile_format, Except.ok.injEq] at hdocument
      exact .inr (by rw [← hstatus', ← hdocument]; exact funext registry'.status_reloaded)
    · rw [hregistry, Except.ok.injEq] at hdocument
      exact .inl (hdocument ▸ hstatus)
  have hnodes : fs.nodes = ⟨document, document⟩ := hsettled
  have hreplaced : (fs.replaceJson .nodes (formatNodeRegistry registry')).nodes =
      ⟨some (formatNodeRegistry registry'), document⟩ := by
    change (⟨some (formatNodeRegistry registry'), fs.nodes.durable⟩ : JsonFile) = _
    rw [hnodes]
  have hsynced : Settled .nodes (some (formatNodeRegistry registry'))
      (fs.replaceJson .nodes (formatNodeRegistry registry')).syncDir := rfl
  exact .bindExcept (refines_io () nofun trivial (hsaved _ (.inl hreplaced))
    (refines_io () nofun trivial (hsaved _ (.inr hsynced)) ⟨rfl, hsynced⟩))

/-- A call that is not about the registry. -/
theorem refines_registered {command : Command N} {engine : StorageEngine}
    (hfile : Statuses engine.registry.status fs)
    (hkeeps : MethodKeepsJson .nodes (StorageEngine.call command))
    (hleaves : LeavesRegistry (StorageEngine.call command)) :
    (directory.always (EitherStatuses engine.registry.status status')).Refines
      (fun out _ fs' ↦ out.2.registry = engine.registry ∧ Statuses engine.registry.status fs')
      ((StorageEngine.call command).run engine) () fs := by
  obtain ⟨document, registry, hsettled, hregistry, hstatus⟩ := hfile
  exact refines_settled _ hregistry (.inl hstatus) hsettled (hkeeps engine) (hleaves engine)
    fun _ _ hsame hsettled' ↦ ⟨hsame, document, registry, hsettled', hregistry, hstatus⟩

theorem refines_statuses_createNode {engine : StorageEngine}
    (hfile : Statuses engine.registry.status fs) (nodeId : NodeId) (metadata : NodeMetadata)
    (hstatus' : status' = fun other ↦
      (Command.createNode (N := N) nodeId metadata).statusAfter other
      (engine.registry.status other)) :
    (directory.always (EitherStatuses engine.registry.status status')).Refines
      (fun out _ fs' ↦ Registers engine.registry.status status' out fs')
      ((StorageEngine.createNode N nodeId metadata).run engine) () fs := by
  obtain ⟨document, registry, hsettled, hregistry, hstatus⟩ := hfile
  have hfails {error : IoError} {engine' : StorageEngine} {fs' : Fs}
      (hsame : engine'.registry = engine.registry) (hsettled' : Settled .nodes document fs') :
      Registers engine.registry.status status' (.error error, engine') fs' :=
    ⟨⟨document, registry, hsettled', hregistry, by rw [hstatus, hsame]⟩,
      .inr ⟨not_false, by rw [hsame]⟩⟩
  have hstep {α : Type} {p : Program fileSystem α} {Q : α → Unit → Fs → Prop} {fs : Fs}
      (hsettled : Settled .nodes document fs) (hkeeps : p.Within (FsOp.KeepsJson .nodes))
      (hQ : ∀ value fs', Settled .nodes document fs' → Q value () fs') :
      (directory.always (EitherStatuses engine.registry.status status')).Refines Q p () fs :=
    refines_settled _ hregistry (.inl hstatus) hsettled hkeeps (.any p) fun value fs' _ ↦
      hQ value fs'
  refine .bindMethod (refines_get (.bindMethod (refines_liftM ?_)))
  cases hcreated : engine.registry.createNode nodeId metadata with
  | error error => exact hfails rfl hsettled
  | ok created =>
    refine .bindMethod (refines_onWriter (hstep hsettled (methodWithin_append _ _ _) ?_))
    rintro ⟨result, s⟩ fs₁ hsettled₁
    cases result with
    | error error => exact hfails rfl hsettled₁
    | ok position =>
      refine .bindMethod (refines_onWriter (hstep hsettled₁ (methodWithin_sync _) ?_))
      rintro ⟨result, s⟩ fs₂ hsettled₂
      cases result with
      | error error => exact hfails rfl hsettled₂
      | ok value =>
        refine .bindMethod (refines_get (.bindMethod (refines_liftIo
          (hstep hsettled₂ (within_saveIndex keepsJson_replaceIndex _) ?_))))
        intro result fs₃ hsettled₃
        cases result with
        | error error => exact hfails rfl hsettled₃
        | ok value =>
          have hreached : created.status = status' := by
            rw [hstatus']
            exact funext (NodeRegistry.status_createNode hcreated)
          refine .bindMethod (refines_liftIo ((refines_saveStatuses hregistry hstatus hreached
            hsettled₃).mono ?_))
          rintro _ ⟨⟩ fs₄ ⟨rfl, hsettled₄⟩
          exact refines_modify ⟨⟨_, _, hsettled₄, NodeRegistry.ofFile_format created,
            funext created.status_reloaded⟩, .inl hreached⟩

theorem refines_statuses_removeNode {engine : StorageEngine}
    (hfile : Statuses engine.registry.status fs) (nodeId : NodeId)
    (hstatus' : status' = fun other ↦ (Command.removeNode (N := N) nodeId).statusAfter other
      (engine.registry.status other)) :
    (directory.always (EitherStatuses engine.registry.status status')).Refines
      (fun out _ fs' ↦ Registers engine.registry.status status' out fs')
      ((StorageEngine.removeNode nodeId).run engine) () fs := by
  obtain ⟨document, registry, hsettled, hregistry, hstatus⟩ := hfile
  have hfails (error : IoError) :
      Registers engine.registry.status status' (.error error, engine) fs :=
    ⟨⟨document, registry, hsettled, hregistry, hstatus⟩, .inr ⟨not_false, rfl⟩⟩
  refine .bindMethod (refines_ensureNodeExists hfails fun hactive ↦ ?_)
  refine .bindMethod (refines_get (.bindMethod (refines_liftM ?_)))
  obtain ⟨removed, hremoved⟩ := NodeRegistry.removeNode_of_isActive hactive
  simp only [hremoved]
  have hreached : removed.status = status' := by
    rw [hstatus']
    exact funext (NodeRegistry.status_removeNode hremoved)
  refine .bindMethod (refines_liftIo ((refines_saveStatuses hregistry hstatus hreached
    hsettled).mono ?_))
  rintro _ ⟨⟩ fs₁ ⟨rfl, hsettled₁⟩
  have hreloaded := NodeRegistry.ofFile_format removed
  have hreached' : removed.reloaded.status = status' :=
    (funext removed.status_reloaded).trans hreached
  refine .bindMethod (refines_modify (refines_settled
    (fun out ↦ out.2.registry = removed) hreloaded (.inr hreached') hsettled₁ ?_ ?_ ?_))
  · exact .bindMethod trivial fun _ s ↦
      .bindMethod (methodWithin_liftIo (within_saveIndex keepsJson_replaceIndex _) s) fun _ s ↦
        .bindMethod trivial fun _ s ↦ methodWithin_collectGarbage keepsJson_remove s
  · refine LeavesRegistry.returns (.bind .get fun _ ↦ .bind (.liftIo _) fun _ ↦
      .bind ?_ fun _ ↦ .collectGarbage) rfl
    exact .modify fun _ ↦ rfl
  · intro out fs₂ hregistry' hsettled₂
    refine ⟨⟨_, _, hsettled₂, hreloaded, ?_⟩, .inl (by rw [hregistry', hreached])⟩
    rw [hregistry', hreached, hreached']

/-- In every state of a call, a power loss leaves the statuses from before the call or the ones that
it is to reach; a call that succeeds has reached them. -/
theorem refines_statuses {engine : StorageEngine} (hfile : Statuses engine.registry.status fs)
    (command : Command N) (hstatus' : status' = fun other ↦
      command.statusAfter other (engine.registry.status other)) :
    (directory.always (EitherStatuses engine.registry.status status')).Refines
      (fun out _ fs' ↦ Registers engine.registry.status status' out fs')
      ((StorageEngine.call command).run engine) () fs := by
  have hother (hkeeps : MethodKeepsJson .nodes (StorageEngine.call command))
      (hleaves : LeavesRegistry (StorageEngine.call command))
      (hsame : status' = engine.registry.status) :
      (directory.always (EitherStatuses engine.registry.status status')).Refines
        (fun out _ fs' ↦ Registers engine.registry.status status' out fs')
        ((StorageEngine.call command).run engine) () fs := by
    refine (refines_registered hfile hkeeps hleaves).mono ?_
    rintro out ⟨⟩ fs' ⟨hregistry, hfile'⟩
    exact ⟨by rw [hregistry]; exact hfile', .inl (by rw [hregistry, hsame])⟩
  cases command with
  | createNode nodeId metadata => exact refines_statuses_createNode hfile nodeId metadata hstatus'
  | removeNode nodeId => exact refines_statuses_removeNode hfile nodeId hstatus'
  | saveCurrentTerm | saveVotedFor | appendEntries =>
    exact hother (methodWithin_saveRecord _ _) (.saveRecord _ _) hstatus'
  | saveSnapshot =>
    exact hother (methodWithin_saveSnapshot keepsJson_replaceIndex keepsJson_remove _ _)
      (.saveSnapshot _ _) hstatus'
  | sync => exact hother (methodWithin_onWriter methodWithin_sync) (.onWriter _) hstatus'
  | load nodeId =>
    exact hother (fun s ↦ .bindMethod (methodWithin_load nodeId s) fun _ _ ↦ trivial)
      ((LeavesRegistry.load nodeId).bind fun _ ↦ .pure ()) hstatus'
  | loadAll =>
    exact hother (fun s ↦ .bindMethod (methodWithin_loadAll s) fun _ _ ↦ trivial)
      (LeavesRegistry.loadAll.bind fun _ ↦ .pure ()) hstatus'

/-- Opening the directory takes the statuses from the registry file. -/
theorem refines_statuses_open (hfile : Statuses status fs) (maxSegmentLen : ℕ) :
    (directory.always (EitherStatuses status status')).Refines
      (fun result _ fs' ↦ Statuses status fs' ∧
        ∀ engine, result = .ok engine → engine.registry.status = status)
      (StorageEngine.withMaxSegmentLen N maxSegmentLen).run () fs := by
  obtain ⟨document, registry, hsettled, hregistry, hstatus⟩ := hfile
  have hkept {fs' : Fs} (hsettled' : Settled .nodes document fs') : Statuses status fs' :=
    ⟨document, registry, hsettled', hregistry, hstatus⟩
  have hfails {error : IoError} {fs' : Fs} (hsettled' : Settled .nodes document fs') :
      Statuses status fs' ∧ ∀ engine : StorageEngine, Except.error error = .ok engine →
        engine.registry.status = status := ⟨hkept hsettled', nofun⟩
  have hstep {α : Type} {p : Program fileSystem α} {Q : α → Unit → Fs → Prop} {fs : Fs}
      (hsettled : Settled .nodes document fs) (hkeeps : p.Within (FsOp.KeepsJson .nodes))
      (hQ : ∀ value fs', Settled .nodes document fs' → Q value () fs') :
      (directory.always (EitherStatuses status status')).Refines Q p () fs :=
    refines_settled _ hregistry (.inl hstatus) hsettled hkeeps (.any p) fun value fs' _ ↦
      hQ value fs'
  refine .bindExcept (hstep hsettled within_failIf fun result fs₁ hsettled₁ ↦ ?_)
  cases result with
  | error error => exact hfails hsettled₁
  | ok value =>
    refine .bindExcept (hstep hsettled₁ within_selectActiveAppendSegment
      fun result fs₂ hsettled₂ ↦ ?_)
    cases result with
    | error error => exact hfails hsettled₂
    | ok active =>
      refine .bindExcept (hstep hsettled₂ (within_recoverStorageDir active)
        fun result fs₃ hsettled₃ ↦ ?_)
      cases result with
      | error error => exact hfails hsettled₃
      | ok value =>
        have hnodes : fs₃.nodes = ⟨document, document⟩ := hsettled₃
        have hread : NodeRegistry.ofFile (Fs.reply (.readJson .nodes) fs₃) = .ok registry := by
          rw [show Fs.reply (.readJson .nodes) fs₃ = document from congrArg JsonFile.current hnodes]
          exact hregistry
        have hholds : EitherStatuses status status' fs₃ :=
          eitherStatuses_of_settled hregistry (.inl hstatus) hsettled₃
        refine .bindExcept (.bindExcept (refines_io () nofun trivial hholds
          (refines_liftExcept ?_)))
        rw [hread]
        refine .bindExcept (hstep hsettled₃ (within_loadIndex registry)
          fun result fs₄ hsettled₄ ↦ ?_)
        cases result with
        | error error => exact hfails hsettled₄
        | ok index =>
          refine .bindExcept (hstep hsettled₄ (within_newWriter active maxSegmentLen)
            fun result fs₅ hsettled₅ ↦ ?_)
          cases result with
          | error error => exact hfails hsettled₅
          | ok writer =>
            exact ⟨hkept hsettled₅, fun engine hengine ↦ by
              rw [← Except.ok.inj hengine, ← hstatus]⟩

end Calls

end Sukari
