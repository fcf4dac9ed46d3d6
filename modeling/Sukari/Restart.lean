import Sukari.Effects.Bisimulation
import Sukari.Opening

/-!
# What a new process sees

When a process stops and another one takes over, everything that was written is still there, whether
it is durable or not. `Alike fs fs'` says that two directories differ only in which names are
durable. No reply depends on that (`bisimulation_alike`), so a directory that a process leaves
behind may be taken for the one with all names durable, `fs.syncDir`.
-/

set_option autoImplicit false
set_option relaxedAutoImplicit false

namespace Sukari

open Effects

variable {N : Noraft} {fs fs' : Fs}

/-- The directories are the same after a directory sync. -/
def Alike (fs fs' : Fs) : Prop := fs.syncDir = fs'.syncDir

theorem alike_iff : Alike fs fs' ↔
    (∀ segment : ℕ, fs.syncDir.segments[segment]? = fs'.syncDir.segments[segment]?) ∧
      fs.checkpoints.current = fs'.checkpoints.current ∧ fs.nodes.current = fs'.nodes.current := by
  constructor
  · intro h
    exact ⟨fun segment ↦ congrArg (fun fs : Fs ↦ fs.segments[segment]?) h,
      congrArg (fun fs ↦ fs.checkpoints.current) h, congrArg (fun fs ↦ fs.nodes.current) h⟩
  · rintro ⟨hsegments, hcheckpoints, hnodes⟩
    have hmap : fs.syncDir.segments = fs'.syncDir.segments :=
      Std.ExtTreeMap.ext_getElem? fun segment ↦ hsegments segment
    simp only [Alike, Fs.syncDir, hcheckpoints, hnodes] at hmap ⊢
    rw [hmap]

theorem alike_syncDir (fs : Fs) : Alike fs.syncDir fs := by
  refine alike_iff.mpr ⟨fun segment ↦ ?_, rfl, rfl⟩
  rw [Fs.getElem?_syncDir, Fs.getElem?_syncDir, Option.map_map]
  rfl

namespace Alike

theorem segments (h : Alike fs fs') (segment : ℕ) :
    (fs.segments[segment]?.map fun file ↦ { file with linked := true }) =
      fs'.segments[segment]?.map fun file ↦ { file with linked := true } := by
  rw [← Fs.getElem?_syncDir, ← Fs.getElem?_syncDir]
  exact (alike_iff.mp h).1 segment

theorem mem_iff (h : Alike fs fs') (segment : ℕ) :
    segment ∈ fs.segments ↔ segment ∈ fs'.segments := by
  rw [← Fs.mem_syncDir, show fs.syncDir = fs'.syncDir from h, Fs.mem_syncDir]

theorem keys (h : Alike fs fs') : fs.segments.keys = fs'.segments.keys := by
  have hkeys : fs.syncDir.segments.keys = fs'.syncDir.segments.keys := by
    rw [show fs.syncDir = fs'.syncDir from h]
  simpa only [Fs.syncDir, Std.ExtTreeMap.keys_map] using hkeys

/-- The file of a segment, in both directories. -/
theorem file (h : Alike fs fs') (segment : ℕ) :
    (fs.segments[segment]? = none ∧ fs'.segments[segment]? = none) ∨
      ∃ file file', fs.segments[segment]? = some file ∧ fs'.segments[segment]? = some file' ∧
        file.bytes = file'.bytes ∧ file.synced = file'.synced := by
  have hsegments := h.segments segment
  cases hfile : fs.segments[segment]? <;> cases hfile' : fs'.segments[segment]? <;>
    simp_all

theorem modifySegment (h : Alike fs fs') (name : ℕ) {f : SegmentFile → SegmentFile}
    (hf : ∀ file : SegmentFile, { f file with linked := true } = f { file with linked := true }) :
    Alike (fs.modifySegment name f) (fs'.modifySegment name f) := by
  obtain ⟨-, hcheckpoints, hnodes⟩ := alike_iff.mp h
  refine alike_iff.mpr ⟨fun segment ↦ ?_, hcheckpoints, hnodes⟩
  have hsegments := h.segments segment
  simp only [Fs.getElem?_syncDir, Fs.getElem?_modifySegment]
  split
  · simp only [Option.map_map, Function.comp_def, hf]
    simpa only [Option.map_map, Function.comp_def] using congrArg (Option.map f) hsegments
  · exact hsegments

theorem append (h : Alike fs fs') (name : ℕ) (bytes : List UInt8) :
    Alike (fs.append name bytes) (fs'.append name bytes) := h.modifySegment name fun _ ↦ rfl

theorem create (h : Alike fs fs') (name : ℕ) : Alike (fs.create name) (fs'.create name) := by
  obtain ⟨-, hcheckpoints, hnodes⟩ := alike_iff.mp h
  refine alike_iff.mpr ⟨fun segment ↦ ?_, hcheckpoints, hnodes⟩
  simp only [Fs.getElem?_syncDir, Fs.create, Std.ExtTreeMap.getElem?_insertIfNew, h.mem_iff name]
  split
  · rfl
  · exact h.segments segment

theorem remove (h : Alike fs fs') (name : ℕ) : Alike (fs.remove name) (fs'.remove name) := by
  obtain ⟨-, hcheckpoints, hnodes⟩ := alike_iff.mp h
  refine alike_iff.mpr ⟨fun segment ↦ ?_, by simpa using hcheckpoints, by simpa using hnodes⟩
  simp only [Fs.getElem?_syncDir, Fs.getElem?_remove]
  split
  · rfl
  · exact h.segments segment

theorem replaceJson (h : Alike fs fs') (name : JsonName) (document : Json) :
    Alike (fs.replaceJson name document) (fs'.replaceJson name document) := by
  obtain ⟨hsegments, hcheckpoints, hnodes⟩ := alike_iff.mp h
  cases name with
  | checkpoints => exact alike_iff.mpr ⟨hsegments, rfl, hnodes⟩
  | nodes => exact alike_iff.mpr ⟨hsegments, hcheckpoints, rfl⟩

theorem accepts (h : Alike fs fs') (name : ℕ) (bytes : List UInt8) :
    fs.accepts name bytes = fs'.accepts name bytes := by
  rcases h.file name with ⟨hnone, hnone'⟩ | ⟨file, file', hfile, hfile', hbytes, -⟩
  · simp only [Fs.accepts, hnone, hnone']
  · simp only [Fs.accepts, hfile, hfile', hbytes]

theorem contains (h : Alike fs fs') (name : ℕ) :
    fs.segments.contains name = fs'.segments.contains name := by
  rw [Bool.eq_iff_iff, Std.ExtTreeMap.contains_iff_mem, Std.ExtTreeMap.contains_iff_mem]
  exact h.mem_iff name

theorem entries (h : Alike fs fs') : fs.entries = fs'.entries := by
  obtain ⟨-, hcheckpoints, hnodes⟩ := alike_iff.mp h
  simp only [Fs.entries, hcheckpoints, hnodes, h.keys]

theorem bytes (h : Alike fs fs') (name : ℕ) :
    fs.segments[name]?.map SegmentFile.bytes = fs'.segments[name]?.map SegmentFile.bytes := by
  rcases h.file name with ⟨hnone, hnone'⟩ | ⟨file, file', hfile, hfile', hbytes, -⟩
  · rw [hnone, hnone']
  · rw [hfile, hfile', Option.map_some, Option.map_some, hbytes]

theorem fileLen (h : Alike fs fs') (name : ℕ) : fs.fileLen name = fs'.fileLen name := by
  rcases h.file name with ⟨hnone, hnone'⟩ | ⟨file, file', hfile, hfile', hbytes, -⟩
  · simp only [Fs.fileLen, hnone, hnone']
  · simp only [Fs.fileLen, hfile, hfile', hbytes]

theorem reply (h : Alike fs fs') (op : FsOp) : Fs.reply op fs = Fs.reply op fs' := by
  obtain ⟨-, hcheckpoints, hnodes⟩ := alike_iff.mp h
  cases op with
  | readDir => exact h.entries
  | isFile name | remove name => exact h.contains name
  | create name => exact congrArg Bool.not (h.contains name)
  | read name => exact h.bytes name
  | fileLen name => exact h.fileLen name
  | writeAll name bytes => simp only [Fs.reply, h.accepts name bytes]
  | readJson name =>
    cases name with
    | checkpoints => exact hcheckpoints
    | nodes => exact hnodes
  | setLen | syncData | syncDir | replaceJson => rfl

theorem after (h : Alike fs fs') (op : FsOp) : Alike (Fs.after op fs) (Fs.after op fs') := by
  cases op with
  | setLen name len => exact h.modifySegment name fun _ ↦ rfl
  | create name => exact h.create name
  | writeAll name bytes =>
    simp only [Fs.after, h.accepts name bytes]
    split
    · exact h.append name bytes
    · exact h
  | syncData name => exact h.modifySegment name fun _ ↦ rfl
  | syncDir => exact congrArg Fs.syncDir h
  | replaceJson name document => exact h.replaceJson name document
  | remove name => exact h.remove name
  | readDir | isFile | read | fileLen | readJson => exact h

end Alike

/-- A program does not see which names are durable. -/
theorem bisimulation_alike : Bisimulation directory Alike where
  reply op _ _ h := h.reply op
  after op _ _ h := h.after op
  during op fs fs' h := by
    cases op with
    | writeAll name bytes =>
      simp only [directory, Fs.during, h.accepts name bytes]
      split
      · rw [List.forall₂_map_left_iff, List.forall₂_map_right_iff, List.forall₂_same]
        exact fun len _ ↦ h.append name _
      · exact .nil
    | _ => exact .nil

theorem Fs.syncDir_syncDir (fs : Fs) : fs.syncDir.syncDir = fs.syncDir := alike_syncDir fs

/-! ### Programs in alike directories -/

section Alike

variable {opened ledger : Ledger N} {engine : StorageEngine}

theorem Ledger.Holds.syncDir (h : ledger.Holds fs) : ledger.Holds fs.syncDir :=
  h.keeps rfl (.syncDir h.recoverable.toStored) (.refl _)

theorem Ready.syncDir (h : Ready opened engine ledger fs) :
    Ready opened engine ledger fs.syncDir :=
  ⟨⟨h.state.holds.syncDir, h.state.writer.syncDir, h.state.gauges⟩,
    h.documented.congr ⟨rfl, rfl⟩ rfl rfl⟩

theorem Ready.of_alike (h : Ready opened engine ledger fs') (halike : Alike fs fs') :
    Ready opened engine ledger fs.syncDir := by
  rw [show fs.syncDir = fs'.syncDir from halike]
  exact h.syncDir

/-- What a program does in a directory, seen in the one with all names durable. -/
theorem run_of_refines {α γ : Type} {R : Refinement directory γ} {g : γ} {Q : α → γ → Fs → Prop}
    {p : Program fileSystem α} (h : R.Refines Q p g fs.syncDir) : ∃ g' fs',
      R.Steps (directory.performed p fs) g g' ∧
        Alike (directory.run p fs).2 fs' ∧ Q (directory.run p fs).1 g' fs' := by
  obtain ⟨hvalue, halike⟩ := bisimulation_alike.run p (alike_syncDir fs).symm
  obtain ⟨g', hsteps, hQ⟩ := h.run
  rw [← bisimulation_alike.performed p (alike_syncDir fs).symm] at hsteps
  exact ⟨g', _, hsteps, halike, hvalue ▸ hQ⟩

/-- A state of a program, seen in the directory with all names durable. -/
theorem visit_of_refines {α γ : Type} {R : Refinement directory γ} {g : γ} {Q : α → γ → Fs → Prop}
    {p : Program fileSystem α} {visit : Visit fileSystem Fs} (h : R.Refines Q p g fs.syncDir)
    (hholds : R.holds g fs.syncDir) (hvisit : visit ∈ ⟨[], fs⟩ :: directory.trace [] p fs) :
    ∃ g' fs', R.Steps visit.past g g' ∧ Alike visit.state fs' ∧ R.holds g' fs' := by
  rcases List.mem_cons.mp hvisit with rfl | hvisit
  · exact ⟨g, fs.syncDir, .refl g, (alike_syncDir fs).symm, hholds⟩
  · obtain ⟨visit', hvisit', hpast, halike⟩ :=
      bisimulation_alike.visit (alike_syncDir fs).symm hvisit
    obtain ⟨ops, g', hops, hsteps, hholds'⟩ := h.visit hvisit'
    rw [List.nil_append] at hops
    exact ⟨g', visit'.state, hpast ▸ hops ▸ hsteps, halike, hholds'⟩

/-- A load of an engine whose directory is taken for the one with all names durable. -/
theorem Ready.load (h : Ready opened engine ledger fs.syncDir) (nodeId : NodeId) :
    LoadsNode (engine.registry.isActive nodeId)
      (recoveredState (recordsOf nodeId ledger.journal.written))
      (directory.run ((StorageEngine.load N nodeId).run engine) fs).1.1 := by
  obtain ⟨-, -, -, -, hload, -⟩ := run_of_refines (refines_load h nodeId)
  exact hload

theorem Ready.loadAll (h : Ready opened engine ledger fs.syncDir) :
    LoadsAll engine.registry.activeNodeIds
      (fun nodeId ↦ recoveredState (recordsOf nodeId ledger.journal.written))
      (directory.run ((StorageEngine.loadAll N).run engine) fs).1.1 := by
  obtain ⟨-, -, -, -, hload, -⟩ := run_of_refines (refines_loadAll h)
  exact hload

theorem activeLinked_syncDir (journal : Journal N) (fs : Fs) : ActiveLinked journal fs.syncDir := by
  intro active file _ hfile
  rw [Fs.getElem?_syncDir, Option.map_eq_some_iff] at hfile
  obtain ⟨file', -, rfl⟩ := hfile
  rfl

/-- Opening a directory that is taken for the one with all names durable. -/
theorem Ledger.Holds.opens (h : ledger.Holds fs.syncDir) {maxSegmentLen : ℕ}
    (hmax : maxSegmentLen ≠ 0) : ∃ engine fs' ledger',
      directory.run (StorageEngine.withMaxSegmentLen N maxSegmentLen).run fs = (.ok engine, fs') ∧
        Opens ledger fs.syncDir engine ledger' fs'.syncDir := by
  obtain ⟨ledger', fs', -, halike, ⟨hzero, -⟩ | ⟨-, engine, hengine, hopens⟩⟩ :=
    run_of_refines (refines_withMaxSegmentLen h (activeLinked_syncDir _ _) maxSegmentLen)
  · exact absurd hzero hmax
  · refine ⟨engine, _, ledger', Prod.ext hengine rfl, hopens.ready.of_alike halike, ?_,
      hopens.metrics, hopens.ledger⟩
    obtain ⟨-, hcheckpoints, hnodes⟩ := alike_iff.mp halike
    exact ⟨hnodes.trans hopens.documents.nodes, hcheckpoints.trans hopens.documents.checkpoints⟩

end Alike

end Sukari
