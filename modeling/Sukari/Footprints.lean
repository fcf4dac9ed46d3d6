import Sukari.PassFootprints
import Sukari.Engine

/-!
# Which functions replace the metadata files and remove segments

Whatever they find in the directory, only the two `save` functions replace metadata files, and only
garbage collection removes segments. The footprint of a function is stated for any set of requests
that allows the ordinary ones (`AllowsOrdinary`), or for any set that allows the ones that keep the
names of the directory (`AllowsContents`). `FsOp.KeepsJson name` are the requests that do not
replace the file `name`; a file that is durable as it stands stays so under them
(`maintains_settled`).
-/

set_option autoImplicit false
set_option relaxedAutoImplicit false

namespace Sukari

open Effects

variable {N : Noraft} {α σ : Type} {name : JsonName} {allowed : FsOp → Prop}

/-- The request does not replace the metadata file. -/
def FsOp.KeepsJson (name : JsonName) (op : FsOp) : Prop :=
  ∀ document, op ≠ .replaceJson name document

theorem keepsJson_remove (segment : ℕ) : (FsOp.remove segment).KeepsJson name := nofun

theorem keepsJson_replaceIndex (document : Json) :
    (FsOp.replaceJson .checkpoints document).KeepsJson .nodes := nofun

/-- The request does not remove a segment. -/
def FsOp.KeepsSegments (op : FsOp) : Prop := ∀ segment, op ≠ .remove segment

theorem keepsSegments_replaceJson (name : JsonName) (document : Json) :
    (FsOp.replaceJson name document).KeepsSegments := nofun

/-- The method makes only allowed requests. -/
abbrev MethodWithin (allowed : FsOp → Prop) (action : MethodM σ α) : Prop :=
  ∀ s, (action.run s).Within allowed

/-- The method never replaces the metadata file. -/
abbrev MethodKeepsJson (name : JsonName) (action : MethodM σ α) : Prop :=
  MethodWithin (FsOp.KeepsJson name) action

/-- The request replaces no metadata file and removes no segment. -/
def FsOp.IsOrdinary : FsOp → Prop
  | .replaceJson _ _ | .remove _ => False
  | _ => True

/-- All ordinary requests are allowed. -/
class AllowsOrdinary (allowed : FsOp → Prop) : Prop where
  ordinary : ∀ op : FsOp, op.IsOrdinary → allowed op

/-- The request leaves the names of the directory as they are, or makes them durable. -/
def FsOp.KeepsNames : FsOp → Prop
  | .create _ | .replaceJson _ _ | .remove _ => False
  | _ => True

/-- All requests that keep the names are allowed. -/
class AllowsContents (allowed : FsOp → Prop) : Prop where
  contents : ∀ op : FsOp, op.KeepsNames → allowed op

instance [AllowsContents allowed] : AllowsPass allowed where
  read _ := AllowsContents.contents _ trivial
  setLen _ _ := AllowsContents.contents _ trivial

instance [AllowsOrdinary allowed] : AllowsContents allowed where
  contents op hop := AllowsOrdinary.ordinary op (by cases op <;> trivial)

instance : AllowsContents FsOp.KeepsNames := ⟨fun _ hop ↦ hop⟩

instance : AllowsOrdinary (FsOp.KeepsJson name) where
  ordinary _ hop _ heq := by
    subst heq
    exact hop

instance : AllowsOrdinary FsOp.KeepsSegments where
  ordinary _ hop _ heq := by
    subst heq
    exact hop

/-! ### Building blocks -/

theorem methodWithin_liftM (result : Except IoError α) :
    MethodWithin allowed (liftM result : MethodM σ α) := by
  intro s
  cases result <;> trivial

theorem methodWithin_liftIo {action : IoM α} (h : IoWithin allowed action) :
    MethodWithin allowed (liftIo action : MethodM σ α) :=
  fun _ ↦ h.bind fun _ ↦ trivial

theorem methodWithin_failIf {condition : Prop} [Decidable condition] {error : IoError} :
    MethodWithin allowed (failIf condition error : MethodM σ Unit) := by
  intro s
  unfold failIf
  split <;> trivial

theorem methodWithin_onlyIf {condition : Prop} [Decidable condition] {action : MethodM σ Unit}
    (h : MethodWithin allowed action) : MethodWithin allowed (onlyIf condition action) := by
  unfold onlyIf
  split
  · exact h
  · exact fun _ ↦ trivial

theorem methodWithin_onWriter {action : WriterM α} (h : MethodWithin allowed action) :
    MethodWithin allowed (StorageEngine.onWriter action) :=
  fun _ ↦ (h _).bind fun _ ↦ trivial

theorem methodWithin_ensureNodeExists (nodeId : NodeId) :
    MethodWithin allowed (StorageEngine.ensureNodeExists nodeId) :=
  fun _ ↦ .bindMethod trivial fun _ s ↦ methodWithin_liftM _ s

/-! ### Reading and recovering segments -/

section Contents

variable [AllowsContents allowed]

theorem within_contents {op : FsOp} (h : op.KeepsNames) : IoWithin allowed (io op) :=
  within_io (AllowsContents.contents op h)

theorem within_discoverSegmentPaths : IoWithin allowed discoverSegmentPaths :=
  .bindExcept (within_contents trivial) fun _ ↦ trivial

theorem within_selectActiveAppendSegment : IoWithin allowed selectActiveAppendSegment :=
  .bindExcept within_discoverSegmentPaths fun _ ↦ trivial

theorem within_passSegments {pass : ℕ → Bool → σ → IoM σ}
    (h : ∀ segment allowPartial acc, IoWithin allowed (pass segment allowPartial acc))
    (startSegment : Option ℕ) (activeSegment : ℕ) (recoverPartial : Bool) (acc : σ) :
    IoWithin allowed (passSegments pass startSegment activeSegment recoverPartial acc) :=
  .bindExcept within_discoverSegmentPaths fun segments ↦
    within_passes h startSegment _ segments acc

theorem within_findCheckpointPositionsFrom (activeSegment : ℕ) (nodeFilter : Option NodeIdSet)
    (startPosition : Option RecordPosition) (recoverPartial : Bool) :
    IoWithin allowed
      (findCheckpointPositionsFrom N activeSegment nodeFilter startPosition recoverPartial) :=
  within_passSegments (fun _ _ _ ↦ within_passSegment _ _ _ _ _ _ _) _ _ _ _

theorem within_replayNodeState (activeSegment : ℕ) (nodeId : NodeId)
    (checkpointHint : Option RecordPosition) (recoverPartial : Bool) :
    IoWithin allowed (replayNodeState N activeSegment nodeId checkpointHint recoverPartial) :=
  .bindExcept (within_findCheckpointPositionsFrom _ _ _ _) fun _ ↦
    within_passSegments (fun _ _ _ ↦ within_passSegment _ _ _ _ _ _ _) _ _ _ _

theorem within_replayStorageDir (activeSegment : ℕ) (nodeFilter : Option NodeIdSet)
    (checkpointHints : Option CheckpointPositions) (recoverPartial : Bool) :
    IoWithin allowed
      (replayStorageDir N activeSegment nodeFilter checkpointHints recoverPartial) := by
  have hpositions : IoWithin allowed (checkpointPositionsForReplay N activeSegment nodeFilter
      checkpointHints recoverPartial) := by
    unfold checkpointPositionsForReplay
    split
    · exact .bindExcept (within_findCheckpointPositionsFrom _ _ _ _) fun _ ↦ trivial
    · split
      · trivial
      · exact .bindExcept (within_findCheckpointPositionsFrom _ _ _ _) fun _ ↦ trivial
  exact hpositions.bindExcept fun _ ↦
    within_passSegments (fun _ _ _ ↦ within_passSegment _ _ _ _ _ _ _) _ _ _ _

theorem within_recoverStorageDir (activeSegment : ℕ) :
    IoWithin allowed (recoverStorageDir activeSegment) :=
  .bindExcept within_discoverSegmentPaths fun segments ↦
    .forM (fun _ ↦ within_passSegment _ _ _ _ _ _ _) segments

/-! ### Metadata files -/

theorem within_loadRegistry : IoWithin allowed NodeRegistry.load :=
  .bindExcept (within_contents trivial) fun _ ↦ within_liftM _

theorem within_loadIndex (registry : NodeRegistry) :
    IoWithin allowed (CheckpointIndex.load N registry) := by
  have hvalidate (nodeId : NodeId) (position : RecordPosition) :
      IoWithin allowed (validateCheckpointPosition N nodeId position) :=
    .bindExcept (within_contents trivial) fun _ ↦ .bindExcept within_failIf fun _ ↦
      .bindExcept (within_openSegment _) fun _ ↦
        .bindExcept (within_readSegmentHeader _ _ _ _) fun _ ↦ within_liftM _
  refine .bindExcept (within_contents trivial) fun contents ↦ ?_
  cases contents with
  | none => trivial
  | some document =>
    simp only
    split
    · trivial
    · refine .bindExcept ?_ fun _ ↦ trivial
      unfold CheckpointIndex.validateCheckpointPositions
      exact .forM (fun item : NodeId × RecordPosition ↦ hvalidate item.1 item.2) _

theorem within_syncDir : IoWithin allowed syncDir := within_contents trivial

/-- Saving the index replaces its file and no other one. -/
theorem within_saveIndex (hallowed : ∀ document, allowed (.replaceJson .checkpoints document))
    (index : CheckpointIndex) : IoWithin allowed index.save :=
  .bindExcept (within_io (hallowed _)) fun _ ↦ within_syncDir

/-- Saving the registry replaces its file and no other one. -/
theorem within_saveRegistry (hallowed : ∀ document, allowed (.replaceJson .nodes document))
    (registry : NodeRegistry) : IoWithin allowed registry.save :=
  .bindExcept (within_io (hallowed _)) fun _ ↦ within_syncDir

/-! ### The writer -/

theorem within_writeAll (segment : ℕ) (bytes : List UInt8) :
    IoWithin allowed (writeAll segment bytes) :=
  .bindExcept (within_contents trivial) fun _ ↦ within_liftM _

theorem methodWithin_syncCurrentSegment :
    MethodWithin allowed SegmentWriter.syncCurrentSegment := by
  have hsync (segment : ℕ) : IoWithin allowed (io (.syncData segment)) := within_contents trivial
  exact fun _ ↦ .bindMethod trivial fun _ s ↦
    .bindMethod (methodWithin_liftIo (hsync _) s) fun _ _ ↦ trivial

theorem methodWithin_sync : MethodWithin allowed SegmentWriter.sync :=
  fun _ ↦ .bindMethod trivial fun _ _ ↦
    methodWithin_onlyIf methodWithin_syncCurrentSegment _

theorem methodWithin_writeFrame (frame : List UInt8) :
    MethodWithin allowed (SegmentWriter.writeFrame frame) :=
  fun _ ↦ .bindMethod trivial fun _ s ↦
    .bindMethod (methodWithin_liftIo (within_writeAll _ _) s) fun _ s ↦
      .bindMethod (methodWithin_failIf s) fun _ _ ↦ .bindMethod trivial fun _ _ ↦ trivial

/-! ### The engine -/

theorem methodWithin_collectGarbage (hallowed : ∀ segment, allowed (.remove segment)) :
    MethodWithin allowed StorageEngine.collectGarbage := by
  intro s
  refine .bindMethod trivial fun engine s ↦ ?_
  split
  · trivial
  · refine .bindMethod (methodWithin_liftIo within_discoverSegmentPaths s) fun segments s ↦
      .bindMethod (methodWithin_liftIo (.foldlM ?_ _ _) s) fun _ s ↦
        methodWithin_onlyIf (methodWithin_liftIo within_syncDir) s
    intro deleted segment
    split_ifs
    · trivial
    · trivial
    · exact .bindExcept (within_io (hallowed _)) fun _ ↦ trivial

theorem methodWithin_load (nodeId : NodeId) :
    MethodWithin allowed (StorageEngine.load N nodeId) :=
  fun s ↦ .bindMethod (methodWithin_ensureNodeExists nodeId s) fun _ _ ↦
    .bindMethod trivial fun _ s ↦
      methodWithin_liftIo (within_replayNodeState _ _ _ _) s

theorem methodWithin_loadAll : MethodWithin allowed (StorageEngine.loadAll N) := by
  refine fun s ↦ .bindMethod trivial fun engine s ↦ ?_
  simp only
  split
  · trivial
  · exact .bindMethod (methodWithin_liftIo (within_replayStorageDir _ _ _ _) s)
      fun _ _ ↦ trivial

end Contents

/-! ### Creating segments -/

section Ordinary

variable [AllowsOrdinary allowed]

theorem within_ordinary {op : FsOp} (h : op.IsOrdinary) : IoWithin allowed (io op) :=
  within_io (AllowsOrdinary.ordinary op h)

theorem within_newWriter (activeSegment maxSegmentLen : ℕ) :
    IoWithin allowed (SegmentWriter.new activeSegment maxSegmentLen) := by
  have hopen : IoWithin allowed (openActiveSegmentFile activeSegment) :=
    .bindExcept (within_ordinary trivial) fun _ ↦ .bindExcept (within_ordinary trivial) fun _ ↦
      within_onlyIf (within_writeAll _ _)
  exact .bindExcept (within_ordinary trivial) fun _ ↦ .bindExcept hopen fun _ ↦
    .bindExcept (within_onlyIf within_syncDir) fun _ ↦
      .bindExcept (within_ordinary trivial) fun _ ↦ trivial

theorem methodWithin_rotate : MethodWithin allowed SegmentWriter.rotate := by
  have hcreate (segment : ℕ) : IoWithin allowed (createActiveSegmentFile segment) :=
    .bindExcept (within_ordinary trivial) fun _ ↦ .bindExcept within_failIf fun _ ↦
      within_writeAll _ _
  exact fun s ↦ .bindMethod (methodWithin_syncCurrentSegment s) fun _ _ ↦
    .bindMethod trivial fun _ s ↦ .bindMethod (methodWithin_liftM _ s) fun _ s ↦
      .bindMethod (methodWithin_liftIo (hcreate _) s) fun _ s ↦
        .bindMethod (methodWithin_liftIo within_syncDir s) fun _ _ ↦ trivial

theorem methodWithin_append (nodeId : NodeId) (record : Record N) :
    MethodWithin allowed (SegmentWriter.append nodeId record) :=
  fun s ↦ .bindMethod (methodWithin_liftM _ s) fun _ _ ↦ .bindMethod trivial fun _ s ↦
    .bindMethod (methodWithin_onlyIf methodWithin_rotate s) fun _ s ↦
      methodWithin_writeFrame _ s

theorem within_withMaxSegmentLen (maxSegmentLen : ℕ) :
    IoWithin allowed (StorageEngine.withMaxSegmentLen N maxSegmentLen) :=
  .bindExcept within_failIf fun _ ↦
    .bindExcept within_selectActiveAppendSegment fun _ ↦
      .bindExcept (within_recoverStorageDir _) fun _ ↦
        .bindExcept within_loadRegistry fun _ ↦
          .bindExcept (within_loadIndex _) fun _ ↦
            .bindExcept (within_newWriter _ _) fun _ ↦ trivial

theorem methodWithin_saveRecord (nodeId : NodeId) (record : Record N) :
    MethodWithin allowed (StorageEngine.saveRecord nodeId record) :=
  fun s ↦ .bindMethod (methodWithin_ensureNodeExists nodeId s) fun _ s ↦
    .bindMethod (methodWithin_onWriter (methodWithin_append _ _) s) fun _ _ ↦ trivial

theorem methodWithin_saveSnapshot
    (hreplace : ∀ document, allowed (.replaceJson .checkpoints document))
    (hremove : ∀ segment, allowed (.remove segment)) (nodeId : NodeId)
    (checkpoint : SnapshotCheckpoint N) :
    MethodWithin allowed (StorageEngine.saveSnapshot nodeId checkpoint) :=
  fun s ↦ .bindMethod (methodWithin_ensureNodeExists nodeId s) fun _ s ↦
    .bindMethod (methodWithin_liftM _ s) fun _ s ↦
      .bindMethod (methodWithin_onWriter (methodWithin_append _ _) s) fun _ s ↦
        .bindMethod (methodWithin_onWriter methodWithin_sync s) fun _ _ ↦
          .bindMethod trivial fun _ s ↦
            .bindMethod (methodWithin_liftIo (within_saveIndex hreplace _) s) fun _ _ ↦
              .bindMethod trivial fun _ s ↦ methodWithin_collectGarbage hremove s

end Ordinary

/-! ### Files that are durable as they stand -/

/-- The metadata file has the document, and a power loss leaves it the document. -/
def Settled (name : JsonName) (document : Option Json) (fs : Fs) : Prop :=
  fs.json name = ⟨document, document⟩

theorem Fs.json_after {op : FsOp} (h : op.KeepsJson name) (fs : Fs) :
    (Fs.after op fs).json name = fs.json name ∨
      (Fs.after op fs).json name = ⟨(fs.json name).current, (fs.json name).current⟩ := by
  cases op with
  | writeAll segment bytes =>
    refine .inl ?_
    simp only [Fs.after]
    split <;> cases name <;> rfl
  | syncDir => exact .inr (by cases name <;> rfl)
  | replaceJson other document =>
    refine .inl ?_
    cases name <;> cases other <;> first | rfl | exact absurd rfl (h document)
  | remove segment =>
    refine .inl ?_
    simp only [Fs.after, Fs.remove]
    split <;> cases name <;> rfl
  | readDir | isFile | read | fileLen | setLen | create | syncData | readJson =>
    exact .inl (by cases name <;> rfl)

theorem Fs.current_after {op : FsOp} (h : op.KeepsJson name) (fs : Fs) :
    ((Fs.after op fs).json name).current = (fs.json name).current := by
  rcases Fs.json_after h fs with hsame | hsynced
  · rw [hsame]
  · rw [hsynced]

theorem Fs.json_during {op : FsOp} {fs fs' : Fs} (h : fs' ∈ Fs.during op fs) :
    fs'.json name = fs.json name := by
  cases op with
  | writeAll segment bytes =>
    simp only [Fs.during] at h
    split at h
    · obtain ⟨len, -, rfl⟩ := List.mem_map.mp h
      cases name <;> rfl
    · nomatch h
  | _ => nomatch h

theorem maintains_settled (document : Option Json) :
    directory.Maintains (FsOp.KeepsJson name) (Settled name document) where
  after op fs hop hsettled := by
    rcases Fs.json_after hop fs with hsame | hsynced
    · exact hsame.trans hsettled
    · refine hsynced.trans ?_
      rw [hsettled]
  during _ _ _ hsettled _ hduring := (Fs.json_during hduring).trans hsettled

end Sukari
