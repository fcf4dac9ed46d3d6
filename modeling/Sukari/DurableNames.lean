import Sukari.Effects.Residual
import Sukari.Footprints
import Sukari.RefusedCalls
import Sukari.Rotation

/-!
# When the names of a directory are durable

A file that was created, replaced or removed has its new name on disk only after a sync of the
directory. Every call and every opening syncs the directory after the last name that it has changed,
on every path through it, so it leaves all names durable if it finds them so
(`methodKeepsNames_answer`, `keepsNames_withMaxSegmentLen`). A process that is killed in between may
leave names that are not durable. No request fails here other than a write behind the largest file:
a header that cannot be written or a file that cannot be removed would end the call in between.
-/

set_option autoImplicit false
set_option relaxedAutoImplicit false

namespace Sukari

open Effects

variable {N : Noraft} {fs fs' : Fs} {α β σ : Type}

/-- A power loss leaves the names in the directory as they are. -/
structure Fs.NamesDurable (fs : Fs) : Prop where
  linked : ∀ (segment : ℕ) (file : SegmentFile), fs.segments[segment]? = some file →
    file.linked = true
  unlinked : fs.unlinked = ∅
  json : ∀ name, (fs.json name).durable = (fs.json name).current

theorem Fs.namesDurable_syncDir (fs : Fs) : fs.syncDir.NamesDurable where
  linked segment file hfile := by
    rw [Fs.getElem?_syncDir, Option.map_eq_some_iff] at hfile
    obtain ⟨old, -, rfl⟩ := hfile
    rfl
  unlinked := rfl
  json name := by cases name <;> rfl

/-- A directory sync changes nothing exactly if all names are durable. -/
theorem Fs.namesDurable_iff : fs.NamesDurable ↔ fs.syncDir = fs := by
  constructor
  · intro h
    have hsegments : fs.syncDir.segments = fs.segments :=
      Std.ExtTreeMap.ext_getElem? fun segment ↦ by
        rw [Fs.getElem?_syncDir]
        cases hfile : fs.segments[segment]? with
        | none => rfl
        | some file =>
          have hlinked := h.linked segment file hfile
          rw [Option.map_some, ← hlinked]
    have hcheckpoints : (⟨fs.checkpoints.current, fs.checkpoints.current⟩ : JsonFile) =
        fs.checkpoints := congrArg (JsonFile.mk fs.checkpoints.current) (h.json .checkpoints).symm
    have hnodes : (⟨fs.nodes.current, fs.nodes.current⟩ : JsonFile) = fs.nodes :=
      congrArg (JsonFile.mk fs.nodes.current) (h.json .nodes).symm
    calc fs.syncDir
        = ⟨fs.syncDir.segments, ∅, ⟨fs.checkpoints.current, fs.checkpoints.current⟩,
            ⟨fs.nodes.current, fs.nodes.current⟩⟩ := rfl
      _ = fs := by rw [hsegments, hcheckpoints, hnodes, ← h.unlinked]
  · intro h
    rw [← h]
    exact fs.namesDurable_syncDir

theorem Fs.NamesDurable.modifySegment (h : fs.NamesDurable) (name : ℕ)
    {f : SegmentFile → SegmentFile} (hf : ∀ file, (f file).linked = file.linked) :
    (fs.modifySegment name f).NamesDurable where
  linked segment file hfile := by
    rw [Fs.getElem?_modifySegment] at hfile
    split at hfile
    · obtain ⟨old, hold, rfl⟩ := Option.map_eq_some_iff.mp hfile
      rw [hf, h.linked segment old hold]
    · exact h.linked segment file hfile
  unlinked := h.unlinked
  json := by
    have hjson : (fs.modifySegment name f).json = fs.json := rfl
    rw [hjson]
    exact h.json

/-- A request that changes no name keeps the names durable. -/
theorem Fs.NamesDurable.after (h : fs.NamesDurable) {op : FsOp} (hop : op.KeepsNames) :
    (Fs.after op fs).NamesDurable := by
  cases op with
  | setLen name len => exact h.modifySegment name fun _ ↦ rfl
  | syncData name => exact h.modifySegment name fun _ ↦ rfl
  | writeAll name bytes =>
    simp only [Fs.after]
    split
    · exact h.modifySegment name fun _ ↦ rfl
    · exact h
  | syncDir => exact fs.namesDurable_syncDir
  | create | replaceJson | remove => exact hop.elim
  | readDir | isFile | read | fileLen | readJson => exact h

/-! ### Programs that leave the names durable -/

/-- The program leaves all names durable if it finds them so. -/
def KeepsNames (p : Program fileSystem α) : Prop :=
  ∀ fs : Fs, fs.NamesDurable → (directory.run p fs).2.NamesDurable

theorem KeepsNames.done (value : α) : KeepsNames (.done value) := fun _ h ↦ h

theorem KeepsNames.bind {p : Program fileSystem α} {f : α → Program fileSystem β}
    (h : KeepsNames p) (hf : ∀ value, KeepsNames (f value)) : KeepsNames (p >>= f) := by
  intro fs hfs
  rw [Machine.run_bind]
  exact hf _ _ (h fs hfs)

/-- The names are durable when the program has ended. -/
theorem KeepsNames.reached {p : Program fileSystem α} (h : KeepsNames p)
    {past : List (Exchange fileSystem)} {value : α}
    (hreached : directory.Reached p fs past (.done value) fs') (hfs : fs.NamesDurable) :
    fs'.NamesDurable := by
  have hkept := h fs hfs
  rwa [hreached.done] at hkept

/-- A program that ends with a directory sync. -/
theorem KeepsNames.of_syncDir {p : Program fileSystem α}
    (h : ∀ fs, ∃ fs' : Fs, (directory.run p fs).2 = fs'.syncDir) : KeepsNames p := by
  intro fs _
  obtain ⟨fs', hsynced⟩ := h fs
  rw [hsynced]
  exact fs'.namesDurable_syncDir

theorem keepsNames_of_within {p : Program fileSystem α} (h : p.Within FsOp.KeepsNames) :
    KeepsNames p := by
  induction p with
  | done value => exact .done value
  | request op next ih => exact fun fs hfs ↦ ih _ (h.2 _) _ (hfs.after h.1)

abbrev IoKeepsNames (action : IoM α) : Prop := KeepsNames action.run

theorem IoKeepsNames.bind {action : IoM α} {next : α → IoM β} (h : IoKeepsNames action)
    (hnext : ∀ value, IoKeepsNames (next value)) : IoKeepsNames (action >>= next) := by
  unfold IoKeepsNames
  rw [run_bindExcept]
  refine KeepsNames.bind h fun result ↦ ?_
  cases result with
  | ok value => exact hnext value
  | error error => exact .done _

def MethodKeepsNames (action : MethodM σ α) : Prop := ∀ s, KeepsNames (action.run s)

theorem methodKeepsNames_of_within {action : MethodM σ α}
    (h : MethodWithin FsOp.KeepsNames action) : MethodKeepsNames action :=
  fun s ↦ keepsNames_of_within (h s)

namespace MethodKeepsNames

theorem bind {action : MethodM σ α} {next : α → MethodM σ β} (h : MethodKeepsNames action)
    (hnext : ∀ value, MethodKeepsNames (next value)) : MethodKeepsNames (action >>= next) := by
  intro s
  rw [run_bindMethod]
  refine (h s).bind fun out ↦ ?_
  obtain ⟨result, s'⟩ := out
  cases result with
  | ok value => exact hnext value s'
  | error error => exact .done _

theorem pure (value : α) : MethodKeepsNames (pure value : MethodM σ α) := fun _ ↦ .done _

theorem get : MethodKeepsNames (get : MethodM σ σ) := fun _ ↦ .done _

theorem modify (f : σ → σ) : MethodKeepsNames (modify f : MethodM σ PUnit) := fun _ ↦ .done _

theorem liftM (result : Except IoError α) : MethodKeepsNames (liftM result : MethodM σ α) :=
  methodKeepsNames_of_within (methodWithin_liftM result)

theorem liftIo {action : IoM α} (h : IoKeepsNames action) :
    MethodKeepsNames (liftIo action : MethodM σ α) :=
  fun _ ↦ KeepsNames.bind h fun _ ↦ .done _

theorem onlyIf {condition : Prop} [Decidable condition] {action : MethodM σ Unit}
    (h : MethodKeepsNames action) : MethodKeepsNames (onlyIf condition action) := by
  unfold Sukari.onlyIf
  split
  · exact h
  · exact pure ()

theorem onWriter {action : WriterM α} (h : MethodKeepsNames action) :
    MethodKeepsNames (StorageEngine.onWriter action) :=
  fun _ ↦ (h _).bind fun _ ↦ .done _

theorem ensureNodeExists (nodeId : NodeId) :
    MethodKeepsNames (StorageEngine.ensureNodeExists nodeId) :=
  methodKeepsNames_of_within (methodWithin_ensureNodeExists nodeId)

end MethodKeepsNames

/-! ### Metadata files -/

theorem keepsNames_saveIndex (index : CheckpointIndex) : IoKeepsNames index.save :=
  KeepsNames.of_syncDir fun fs ↦ ⟨fs.replaceJson .checkpoints (formatCheckpointIndex index), rfl⟩

theorem keepsNames_saveRegistry (registry : NodeRegistry) : IoKeepsNames registry.save :=
  KeepsNames.of_syncDir fun fs ↦ ⟨fs.replaceJson .nodes (formatNodeRegistry registry), rfl⟩

/-! ### Segments that are created -/

/-- What follows a segment that is created ends with all names durable, whatever it finds. -/
theorem MethodKeepsNames.bind_create {name : ℕ} {next : Unit → MethodM σ β}
    (hnext : ∀ s fs, (directory.run ((next ()).run s) fs).2.NamesDurable) :
    MethodKeepsNames (Sukari.liftIo (createActiveSegmentFile name) >>= next) := by
  intro s fs hfs
  by_cases hknown : name ∈ fs.segments
  · have hcreate : Fs.after (.create name) fs = fs := Fs.create_of_mem hknown
    have hold : Fs.reply (.create name) fs = false := by
      have hcontains : fs.segments.contains name = true := hknown
      rw [Fs.reply, hcontains]
      rfl
    have hfails : directory.run (createActiveSegmentFile name).run fs =
        (.error fileAlreadyExists, fs) := by
      refine (Machine.run_bindExcept_ok (run_io (.create name) fs)).trans ?_
      rw [hcreate, hold]
      rfl
    rw [Machine.run_bindMethod_error (run_liftIo hfails)]
    exact hfs
  · rw [Machine.run_bindMethod_ok (run_liftIo (run_createActiveSegmentFile hknown))]
    exact hnext _ _

theorem methodKeepsNames_rotate : MethodKeepsNames SegmentWriter.rotate := by
  refine (methodKeepsNames_of_within methodWithin_syncCurrentSegment).bind fun _ ↦
    MethodKeepsNames.get.bind fun s ↦ (MethodKeepsNames.liftM _).bind fun next ↦ ?_
  refine MethodKeepsNames.bind_create fun s fs ↦ ?_
  have hsync : directory.run syncDir.run fs = (.ok (), fs.syncDir) := rfl
  rw [Machine.run_bindMethod_ok (run_liftIo hsync)]
  exact fs.namesDurable_syncDir

theorem methodKeepsNames_append (nodeId : NodeId) (record : Record N) :
    MethodKeepsNames (SegmentWriter.append nodeId record) :=
  (MethodKeepsNames.liftM _).bind fun _ ↦ MethodKeepsNames.get.bind fun _ ↦
    methodKeepsNames_rotate.onlyIf.bind fun _ ↦
      methodKeepsNames_of_within (methodWithin_writeFrame _)

/-- The new writer of a segment that is there creates nothing. -/
theorem run_newWriter_of_mem {active : ℕ} (h : active ∈ fs.segments) (maxSegmentLen : ℕ) :
    directory.run (SegmentWriter.new active maxSegmentLen).run fs = directory.run (do
      let len : ℕ ← io (.fileLen active)
      onlyIf (len = 0) (writeAll active segmentFormatMagic)
      let segmentLen : ℕ ← io (.fileLen active)
      return ⟨active, segmentLen, maxSegmentLen⟩ : IoM SegmentWriter).run fs := by
  have hexisted : Fs.reply (.isFile active) fs = true := h
  have hcreate : Fs.after (.create active) fs = fs := Fs.create_of_mem h
  refine (Machine.run_bindExcept_ok (run_io (.isFile active) fs)).trans ?_
  simp only [openActiveSegmentFile, hexisted, onlyIf, Bool.true_eq_false, if_false]
  change directory.run _ (Fs.after (.create active) fs) = _
  rw [hcreate]
  rfl

/-- The new writer of a new segment syncs the directory. -/
theorem namesDurable_newWriter {active : ℕ} (h : active ∉ fs.segments) (maxSegmentLen : ℕ) :
    (directory.run (SegmentWriter.new active maxSegmentLen).run fs).2.NamesDurable := by
  have hnew : fs.segments.contains active = false := by
    rwa [Bool.eq_false_iff, ne_eq, Std.ExtTreeMap.contains_iff_mem]
  have hlen : (fs.create active).fileLen active = 0 := by
    simp [Fs.fileLen, Fs.getElem?_create h]
  have haccepts : (fs.create active).accepts active segmentFormatMagic = true := by
    have hfile := Fs.getElem?_create h active
    rw [if_pos rfl] at hfile
    simp [Fs.accepts, hfile, segmentFormatMagic, maxFileLen]
  have hopen : directory.run (openActiveSegmentFile active).run fs =
      (.ok (), (fs.create active).append active segmentFormatMagic) := by
    refine (Machine.run_bindExcept_ok (run_io (.create active) fs)).trans ?_
    refine (Machine.run_bindExcept_ok (run_io (.fileLen active) (fs.create active))).trans ?_
    have hreply : Fs.reply (.fileLen active) (fs.create active) =
        (fs.create active).fileLen active :=
      rfl
    rw [hreply, hlen, onlyIf, if_pos rfl, run_writeAll]
    exact if_pos haccepts
  have hrest : directory.run (SegmentWriter.new active maxSegmentLen).run fs = _ :=
    (Machine.run_bindExcept_ok (run_io (.isFile active) fs)).trans
      (Machine.run_bindExcept_ok hopen)
  rw [hrest]
  simp only [Fs.reply, hnew, onlyIf, if_true]
  exact Fs.namesDurable_syncDir _

theorem keepsNames_newWriter (active maxSegmentLen : ℕ) :
    IoKeepsNames (SegmentWriter.new active maxSegmentLen) := by
  intro fs hfs
  by_cases hknown : active ∈ fs.segments
  · rw [run_newWriter_of_mem hknown]
    refine keepsNames_of_within ?_ fs hfs
    exact .bindExcept (within_contents trivial) fun _ ↦
      .bindExcept (within_onlyIf (within_writeAll _ _)) fun _ ↦
        .bindExcept (within_contents trivial) fun _ ↦ trivial
  · exact namesDurable_newWriter hknown maxSegmentLen

/-! ### Segments that are removed -/

theorem Fs.remove_of_not_mem {name : ℕ} (h : name ∉ fs.segments) : fs.remove name = fs := by
  rw [Fs.remove, Std.ExtTreeMap.getElem?_eq_none h]

/-- The loop of the garbage collection counts what it removes: it returns the count that it started
with only if it has removed nothing. -/
theorem run_removeSegments (active : ℕ) (barrier : GcBarrier) (segments : List ℕ) (deleted : ℕ)
    (fs : Fs) : ∃ count fs', directory.run (segments.foldlM (fun deleted segment ↦
        if segment = active then return deleted
        else if barrier.allowsDelete segment = false then return deleted
        else do
          let existed : Bool ← io (.remove segment)
          return if existed then deleted + 1 else deleted) deleted : IoM ℕ).run fs =
      (.ok (deleted + count), fs') ∧ (count = 0 → fs' = fs) := by
  induction segments generalizing deleted fs with
  | nil => exact ⟨0, fs, rfl, fun _ ↦ rfl⟩
  | cons segment rest ih =>
    rw [List.foldlM_cons]
    split_ifs with hactive hkept
    · exact ih deleted fs
    · exact ih deleted fs
    · have hstep : directory.run (do
          let existed : Bool ← io (.remove segment)
          return if existed then deleted + 1 else deleted : IoM ℕ).run fs =
          (.ok (if fs.segments.contains segment then deleted + 1 else deleted),
            fs.remove segment) :=
        rfl
      rw [Machine.run_bindExcept_ok hstep]
      by_cases hknown : segment ∈ fs.segments
      · obtain ⟨count, fs', hrun, -⟩ := ih (deleted + 1) (fs.remove segment)
        refine ⟨count + 1, fs', ?_, fun hzero ↦ absurd hzero (Nat.succ_ne_zero count)⟩
        rw [if_pos (Std.ExtTreeMap.contains_iff_mem.mpr hknown), hrun, Nat.add_right_comm,
          Nat.add_assoc]
      · rw [if_neg (mt Std.ExtTreeMap.contains_iff_mem.mp hknown), Fs.remove_of_not_mem hknown]
        exact ih deleted fs

theorem methodKeepsNames_collectGarbage : MethodKeepsNames StorageEngine.collectGarbage := by
  refine MethodKeepsNames.get.bind fun engine ↦ ?_
  split
  · exact .pure ()
  · next barrier _ =>
    refine (MethodKeepsNames.liftIo (keepsNames_of_within within_discoverSegmentPaths)).bind
      fun segments ↦ ?_
    intro s fs hfs
    obtain ⟨count, fs', hrun, hnone⟩ :=
      run_removeSegments engine.writer.activeSegment barrier segments 0 fs
    rw [Machine.run_bindMethod_ok (run_liftIo hrun), Nat.zero_add]
    by_cases hzero : count = 0
    · rw [onlyIf, if_neg (not_not.mpr hzero), hnone hzero]
      exact hfs
    · rw [onlyIf, if_pos hzero]
      exact fs'.namesDurable_syncDir

/-! ### Calls and openings -/

theorem methodKeepsNames_call (command : Command N) :
    MethodKeepsNames (StorageEngine.call command) := by
  have hrecord (nodeId : NodeId) (record : Record N) :
      MethodKeepsNames (StorageEngine.saveRecord nodeId record) :=
    (MethodKeepsNames.ensureNodeExists nodeId).bind fun _ ↦
      (methodKeepsNames_append nodeId record).onWriter.bind fun _ ↦ .pure ()
  have hsync : MethodKeepsNames (StorageEngine.onWriter SegmentWriter.sync) :=
    methodKeepsNames_of_within (methodWithin_onWriter methodWithin_sync)
  cases command with
  | createNode nodeId metadata =>
    exact MethodKeepsNames.get.bind fun _ ↦ (MethodKeepsNames.liftM _).bind fun _ ↦
      (methodKeepsNames_append nodeId _).onWriter.bind fun _ ↦ hsync.bind fun _ ↦
        MethodKeepsNames.get.bind fun _ ↦
          (MethodKeepsNames.liftIo (keepsNames_saveIndex _)).bind fun _ ↦
            (MethodKeepsNames.liftIo (keepsNames_saveRegistry _)).bind fun _ ↦ .modify _
  | removeNode nodeId =>
    exact (MethodKeepsNames.ensureNodeExists nodeId).bind fun _ ↦ MethodKeepsNames.get.bind fun _ ↦
      (MethodKeepsNames.liftM _).bind fun _ ↦
        (MethodKeepsNames.liftIo (keepsNames_saveRegistry _)).bind fun _ ↦
          (MethodKeepsNames.modify _).bind fun _ ↦ MethodKeepsNames.get.bind fun _ ↦
            (MethodKeepsNames.liftIo (keepsNames_saveIndex _)).bind fun _ ↦
              (MethodKeepsNames.modify _).bind fun _ ↦ methodKeepsNames_collectGarbage
  | saveSnapshot nodeId checkpoint =>
    exact (MethodKeepsNames.ensureNodeExists nodeId).bind fun _ ↦
      (MethodKeepsNames.liftM _).bind fun _ ↦
        (methodKeepsNames_append nodeId _).onWriter.bind fun _ ↦ hsync.bind fun _ ↦
          MethodKeepsNames.get.bind fun _ ↦
            (MethodKeepsNames.liftIo (keepsNames_saveIndex _)).bind fun _ ↦
              (MethodKeepsNames.modify _).bind fun _ ↦ methodKeepsNames_collectGarbage
  | saveCurrentTerm | saveVotedFor | appendEntries => exact hrecord _ _
  | sync => exact hsync
  | load nodeId =>
    exact (methodKeepsNames_of_within (methodWithin_load nodeId)).bind fun _ ↦ .pure ()
  | loadAll => exact (methodKeepsNames_of_within methodWithin_loadAll).bind fun _ ↦ .pure ()

/-- A call leaves the names durable, whether it succeeds or not. -/
theorem methodKeepsNames_answer (command : Command N) :
    MethodKeepsNames (StorageEngine.answer command) := by
  cases command with
  | load nodeId =>
    exact (methodKeepsNames_of_within (methodWithin_load nodeId)).bind fun _ ↦ .pure _
  | loadAll => exact (methodKeepsNames_of_within methodWithin_loadAll).bind fun _ ↦ .pure _
  | createNode | removeNode | saveCurrentTerm | saveVotedFor | appendEntries
  | saveSnapshot | sync =>
    exact (methodKeepsNames_call _).bind fun _ ↦ .pure _

/-- An opening leaves the names durable, whether it succeeds or not. -/
theorem keepsNames_withMaxSegmentLen (maxSegmentLen : ℕ) :
    IoKeepsNames (StorageEngine.withMaxSegmentLen N maxSegmentLen) :=
  IoKeepsNames.bind (keepsNames_of_within within_failIf) fun _ ↦
    IoKeepsNames.bind (keepsNames_of_within within_selectActiveAppendSegment) fun _ ↦
      IoKeepsNames.bind (keepsNames_of_within (within_recoverStorageDir _)) fun _ ↦
        IoKeepsNames.bind (keepsNames_of_within within_loadRegistry) fun _ ↦
          IoKeepsNames.bind (keepsNames_of_within (within_loadIndex _)) fun _ ↦
            IoKeepsNames.bind (keepsNames_newWriter _ _) fun _ ↦ .done _

end Sukari
