import Sukari.Recoverable

/-!
# What the requests of an engine keep

For every request that changes a storage directory, the conditions under which the directory stays
recoverable. The requests that change the bytes of the active file share one lemma,
`Keeps.modifyActive`. A segment may be removed when no node is anchored at it or before it and no
index entry of an active node points into it (`Recoverable.remove`).
-/

set_option autoImplicit false
set_option relaxedAutoImplicit false

namespace Sukari

variable {N : Noraft} {journal journal' : Journal N} {fs : Fs}

/-! ### The active file -/

theorem Stored.modifyActive (h : Stored journal fs) {active : ℕ} {file : SegmentFile}
    {frames : List (Frame N)} {f : SegmentFile → SegmentFile}
    (hactive : active + 1 = journal.length) (hfile : fs.segments[active]? = some file)
    (hextends : journal.Extends journal') (hlength : journal'.length = journal.length)
    (hframes : journal'[active]? = some frames) (hnew : ActiveFile frames (f file))
    (hbound : (f file).bytes.length ≤ maxFileLen) (hlinked : (f file).linked = file.linked) :
    Stored journal' (fs.modifySegment active f) where
  length_le := hlength ▸ h.length_le
  bounded segment file' hfile' := by
    rw [Fs.getElem?_modifySegment] at hfile'
    split at hfile'
    · next hsame =>
      subst hsame
      rw [hfile, Option.map_some, Option.some.injEq] at hfile'
      exact hfile' ▸ hbound
    · exact h.bounded segment file' hfile'
  present segment hsegment := hlength ▸ h.present segment (by simpa using hsegment)
  sealedFile segment file' frames' hfile' hframes' hsealed := by
    rw [Fs.getElem?_modifySegment, if_neg (by omega)] at hfile'
    rw [hlength] at hsealed
    rw [← hextends.complete segment hsealed] at hframes'
    exact h.sealedFile segment file' frames' hfile' hframes' hsealed
  activeFile segment file' frames' hfile' hframes' hlast := by
    obtain rfl : active = segment := by omega
    rw [Fs.getElem?_modifySegment, if_pos rfl, hfile, Option.map_some, Option.some.injEq] at hfile'
    rw [hframes, Option.some.injEq] at hframes'
    exact hfile' ▸ hframes' ▸ hnew
  active segment hlast := by simpa using h.active segment (hlength ▸ hlast)
  previous segment file' hsecond hfile' hunlinked := by
    obtain rfl : active = segment + 1 := by omega
    rw [Fs.getElem?_modifySegment, if_pos rfl, hfile, Option.map_some, Option.some.injEq] at hfile'
    rw [← hfile', hlinked] at hunlinked
    simpa using h.previous segment file (hlength ▸ hsecond) hfile hunlinked
  unlinked segment file' hfile' := by
    obtain ⟨habsent, hsealed, hbounded, hcontents⟩ := h.unlinked segment file' hfile'
    refine ⟨by simpa using habsent, hlength ▸ hsealed, hbounded, fun frames' hframes' ↦ ?_⟩
    rw [← hextends.complete segment hsealed] at hframes'
    exact hcontents frames' hframes'

/-- A change of the active file that leaves its durable part alone. -/
theorem Keeps.modifyActive (h : Stored journal fs) {active : ℕ} {file : SegmentFile}
    {frames : List (Frame N)} {f : SegmentFile → SegmentFile}
    (hactive : active + 1 = journal.length) (hfile : fs.segments[active]? = some file)
    (hextends : journal.Extends journal') (hlength : journal'.length = journal.length)
    (hframes : journal'[active]? = some frames) (hnew : ActiveFile frames (f file))
    (hbound : (f file).bytes.length ≤ maxFileLen) (hlinked : (f file).linked = file.linked)
    (hsynced : ∀ entry ∈ journal.inSegment active,
      entry.position.offset + entry.frame.bytes.length ≤ file.synced →
      entry.position.offset + entry.frame.bytes.length ≤ (f file).synced) :
    Keeps journal fs journal' (fs.modifySegment active f) where
  stored := h.modifyActive hactive hfile hextends hlength hframes hnew hbound hlinked
  durable entry hentry hdurable := by
    refine ⟨hextends.entries.subset hentry, ?_⟩
    rcases hdurable with hsealed | ⟨file', hfile', hend⟩
    · exact .inl (hlength ▸ hsealed)
    · by_cases hsame : active = entry.position.segment
      · subst hsame
        rw [hfile, Option.some.injEq] at hfile'
        subst hfile'
        refine .inr ⟨f file, ?_, hsynced entry (Journal.mem_entries.mp hentry) hend⟩
        rw [Fs.getElem?_modifySegment, if_pos rfl, hfile, Option.map_some]
      · exact .inr ⟨file', by rw [Fs.getElem?_modifySegment, if_neg hsame, hfile'], hend⟩
  present segment hsegment _ := by simpa using hsegment
  new segment hnew hlast := by omega
  nodes _ := id
  checkpoints _ := id

/-- Bytes behind the records of the active file, which holds no more than its records. -/
theorem Keeps.append (h : Stored journal fs) {active : ℕ} {file : SegmentFile}
    {frames : List (Frame N)} {bytes : List UInt8} (hactive : active + 1 = journal.length)
    (hfile : fs.segments[active]? = some file) (hextends : journal.Extends journal')
    (hlength : journal'.length = journal.length) (hframes : journal'[active]? = some frames)
    (hcontents : Contents frames (file.bytes ++ bytes))
    (hlinked : file.linked = true ∨ frames = [])
    (hbound : (file.bytes ++ bytes).length ≤ maxFileLen) :
    Keeps journal fs journal' (fs.append active bytes) := by
  have hfileActive := h.activeFile active file _ hfile
    (List.getElem?_eq_getElem (by omega)) hactive
  refine .modifyActive h hactive hfile hextends hlength hframes
    ⟨hcontents, ?_, fun hnew ↦ ?_⟩ hbound
    rfl fun _ _ hend ↦ hend
  · have hsynced := hfileActive.synced
    simp only [List.length_append]
    omega
  · rcases hlinked with hlinked | hframes
    · have hfalse : file.linked = false := hnew
      rw [hlinked] at hfalse
      nomatch hfalse
    · exact hframes

theorem Keeps.syncData (h : Stored journal fs) {active : ℕ}
    (hactive : active + 1 = journal.length) :
    Keeps journal fs journal (fs.syncData active) := by
  obtain ⟨file, hfile⟩ := mem_iff_exists_getElem?.mp (h.active active hactive)
  have hframes : journal[active]? = some journal[active] := List.getElem?_eq_getElem (by omega)
  have hfileActive := h.activeFile active file _ hfile hframes hactive
  exact .modifyActive h hactive hfile (.refl journal) rfl hframes
    ⟨hfileActive.contents, le_rfl, hfileActive.linked⟩ (h.bounded active file hfile) rfl
    fun _ _ hend ↦ hend.trans hfileActive.synced

/-- What recovery cuts off the active file is not part of a record. -/
theorem Keeps.setLen (h : Stored journal fs) {active len : ℕ} {file : SegmentFile}
    {frames : List (Frame N)} (hactive : active + 1 = journal.length)
    (hfile : fs.segments[active]? = some file) (hframes : journal[active]? = some frames)
    (hcontents : Contents frames (file.bytes.take len))
    (hlen : frames = [] ∨ segmentFileHeaderLen + (framesBytes frames).length ≤ len) :
    Keeps journal fs journal (fs.setLen active len) := by
  have hfileActive := h.activeFile active file _ hfile hframes hactive
  have hbound := h.bounded active file hfile
  refine .modifyActive h hactive hfile (.refl journal) rfl hframes
    ⟨hcontents, ?_, hfileActive.linked⟩ ?_ rfl fun entry hentry hend ↦ ?_
  · have hsynced := hfileActive.synced
    simp only [List.length_take]
    omega
  · simp only [List.length_take]
    omega
  · rw [Journal.inSegment, hframes, Option.getD_some] at hentry
    have hoffset := (offset_of_mem_placedFrom hentry).2
    rcases hlen with rfl | hlen
    · simp [placedFrom] at hentry
    · exact le_min hend (hoffset.trans hlen)

/-! ### New segments -/

theorem Fs.create_of_mem {name : ℕ} (h : name ∈ fs.segments) : fs.create name = fs := by
  have hsame : fs.segments.insertIfNew name ⟨[], 0, false⟩ = fs.segments := by
    ext segment : 1
    rw [Std.ExtTreeMap.getElem?_insertIfNew, if_neg fun hnew ↦ hnew.2 h]
  rw [create, hsame]

theorem Fs.getElem?_create {name : ℕ} (h : name ∉ fs.segments) (segment : ℕ) :
    (fs.create name).segments[segment]? =
      if name = segment then some ⟨[], 0, false⟩ else fs.segments[segment]? := by
  rw [create, Std.ExtTreeMap.getElem?_insertIfNew]
  simp [h]

/-- The next segment, once the active file is complete and durable. -/
theorem Keeps.create (h : Stored journal fs) (hlength : journal.length + 1 ≤ 2 ^ 64)
    (hsealed : ∀ (active : ℕ) (file : SegmentFile) (frames : List (Frame N)),
      active + 1 = journal.length → fs.segments[active]? = some file →
      journal[active]? = some frames → SealedFile frames file) :
    Keeps journal fs journal.newSegment (fs.create journal.length) := by
  have hfresh : journal.length ∉ fs.segments := fun hmem ↦ (h.present _ hmem).false
  have hold {segment : ℕ} {frames : List (Frame N)} (hsegment : segment < journal.length)
      (hframes : journal.newSegment[segment]? = some frames) : journal[segment]? = some frames := by
    rwa [Journal.newSegment, List.getElem?_append_left hsegment] at hframes
  have hsealedFile : ∀ (segment : ℕ) (file : SegmentFile) (frames : List (Frame N)),
      segment < journal.length → fs.segments[segment]? = some file →
      journal.newSegment[segment]? = some frames → SealedFile frames file := by
    intro segment file frames hsegment hfile hframes
    rcases Nat.lt_or_eq_of_le (Nat.succ_le_of_lt hsegment) with hlast | hlast
    · exact h.sealedFile segment file frames hfile (hold hsegment hframes) hlast
    · exact hsealed segment file frames hlast hfile (hold hsegment hframes)
  have hmem (segment : ℕ) : segment ∈ (fs.create journal.length).segments ↔
      segment = journal.length ∨ segment ∈ fs.segments := by
    rw [Fs.create, Std.ExtTreeMap.mem_insertIfNew, Nat.compare_eq_eq, eq_comm]
  refine ⟨⟨by simpa using hlength, ?_, ?_, ?_, ?_, ?_, ?_, ?_⟩, ?_, ?_, ?_, fun _ ↦ id, fun _ ↦ id⟩
  · intro segment file hfile
    rw [Fs.getElem?_create hfresh] at hfile
    split at hfile
    · rw [← Option.some.inj hfile]
      exact Nat.zero_le _
    · exact h.bounded segment file hfile
  · intro segment hsegment
    rw [Journal.length_newSegment]
    rcases (hmem segment).mp hsegment with rfl | hsegment
    · exact Nat.lt_succ_self _
    · exact (h.present segment hsegment).trans (Nat.lt_succ_self _)
  · intro segment file frames hfile hframes hlast
    rw [Journal.length_newSegment] at hlast
    rw [Fs.getElem?_create hfresh, if_neg (by omega)] at hfile
    exact hsealedFile segment file frames (by omega) hfile hframes
  · intro segment file frames hfile hframes hlast
    rw [Journal.length_newSegment] at hlast
    obtain rfl : segment = journal.length := by omega
    rw [Fs.getElem?_create hfresh, if_pos rfl, Option.some.injEq] at hfile
    have hempty : frames = [] := by
      rw [Journal.newSegment, List.getElem?_append_right le_rfl] at hframes
      simpa [eq_comm] using hframes
    subst hempty hfile
    refine ⟨.partialHeader [] rfl (List.nil_prefix) (by decide), Nat.zero_le _, fun _ ↦ rfl⟩
  · intro segment hlast
    rw [Journal.length_newSegment] at hlast
    exact (hmem segment).mpr (.inl (by omega))
  · intro segment file hsecond hfile hunlinked
    rw [Journal.length_newSegment] at hsecond
    exact (hmem segment).mpr (.inr (h.active segment (by omega)))
  · intro segment file hfile
    obtain ⟨habsent, hlast, hbounded, hcontents⟩ := h.unlinked segment file hfile
    refine ⟨fun hsegment ↦ ?_, by rw [Journal.length_newSegment]; omega, hbounded,
      fun frames hframes ↦ hcontents frames (hold (by omega) hframes)⟩
    rcases (hmem segment).mp hsegment with rfl | hsegment
    · omega
    · exact habsent hsegment
  · intro entry hentry _
    refine ⟨by rwa [Journal.entries_newSegment], .inl ?_⟩
    rw [Journal.length_newSegment]
    have := Journal.segment_lt_of_mem hentry
    omega
  · exact fun segment hsegment _ ↦ (hmem segment).mpr (.inr hsegment)
  · intro segment hnew hlast
    rw [Journal.length_newSegment] at hlast
    exact (hmem segment).mpr (.inl (by omega))

/-! ### Directory syncs and metadata files -/

theorem Keeps.syncDir (h : Stored journal fs) : Keeps journal fs journal fs.syncDir := by
  have hget (segment : ℕ) : fs.syncDir.segments[segment]? =
      fs.segments[segment]?.map fun file ↦ { file with linked := true } := by
    rw [Fs.syncDir, Std.ExtTreeMap.getElem?_map]
  have hmem (segment : ℕ) : segment ∈ fs.syncDir.segments ↔ segment ∈ fs.segments := by
    rw [Std.ExtTreeMap.mem_iff_isSome_getElem?, Std.ExtTreeMap.mem_iff_isSome_getElem?, hget,
      Option.isSome_map]
  have hfileOf {segment : ℕ} {file : SegmentFile}
      (hfile : fs.syncDir.segments[segment]? = some file) :
      ∃ file', fs.segments[segment]? = some file' ∧ file = { file' with linked := true } := by
    rw [hget, Option.map_eq_some_iff] at hfile
    obtain ⟨file', hfile', heq⟩ := hfile
    exact ⟨file', hfile', heq.symm⟩
  refine ⟨⟨h.length_le, ?_, fun segment hsegment ↦ h.present segment ((hmem segment).mp hsegment),
    ?_, ?_, fun segment hlast ↦ (hmem segment).mpr (h.active segment hlast), ?_, ?_⟩, ?_,
    fun segment hsegment _ ↦ (hmem segment).mpr hsegment, fun _ _ _ ↦ by omega, ?_, ?_⟩
  · intro segment file hfile
    obtain ⟨file', hfile', rfl⟩ := hfileOf hfile
    exact h.bounded segment file' hfile'
  · intro segment file frames hfile hframes hlast
    obtain ⟨file', hfile', rfl⟩ := hfileOf hfile
    have hsealed := h.sealedFile segment file' frames hfile' hframes hlast
    exact ⟨hsealed.bytes, hsealed.synced, rfl⟩
  · intro segment file frames hfile hframes hlast
    obtain ⟨file', hfile', rfl⟩ := hfileOf hfile
    have hactive := h.activeFile segment file' frames hfile' hframes hlast
    exact ⟨hactive.contents, hactive.synced, fun hunlinked ↦ by cases hunlinked⟩
  · intro segment file _ hfile hunlinked
    obtain ⟨file', hfile', rfl⟩ := hfileOf hfile
    cases hunlinked
  · intro segment file hfile
    simp [Fs.syncDir] at hfile
  · rintro entry hentry (hsealed | ⟨file, hfile, hend⟩)
    · exact ⟨hentry, .inl hsealed⟩
    · exact ⟨hentry, .inr ⟨{ file with linked := true }, by rw [hget, hfile]; rfl, hend⟩⟩
  · rintro document (hdocument | hdocument) <;> exact .inl hdocument
  · rintro document (hdocument | hdocument) <;> exact .inl hdocument

theorem Stored.setJson (h : Stored journal fs) (name : JsonName) (file : JsonFile) :
    Stored journal (fs.setJson name file) := by
  cases name <;> exact ⟨h.length_le, h.bounded, h.present, h.sealedFile, h.activeFile, h.active,
    h.previous, h.unlinked⟩

/-- A new registry, when its active nodes are anchored. -/
theorem Recoverable.replaceNodes (h : Recoverable journal fs) {document : Json}
    {registry : NodeRegistry} (hdocument : NodeRegistry.ofFile (some document) = .ok registry)
    (hanchored : ∀ nodeId, registry.isActive nodeId = true → Anchored journal fs nodeId)
    (hpresent : ∀ (index : CheckpointIndex) (nodeId : NodeId) (position : RecordPosition),
      fs.HasIndex index → registry.isActive nodeId = true →
      index.nodes[nodeId]? = some position → position.segment ∈ fs.segments) :
    Recoverable journal (fs.replaceJson .nodes document) := by
  have hversion : ∀ document', (fs.replaceJson .nodes document).nodes.Holds document' →
      document' = some document ∨ fs.nodes.Holds document' := by
    rintro document' (hnew | hold)
    · exact .inl hnew
    · exact .inr (.inr hold)
  have hregistry : ∀ registry', (fs.replaceJson .nodes document).HasRegistry registry' →
      registry' = registry ∨ fs.HasRegistry registry' := by
    rintro registry' ⟨document', hholds, hparsed⟩
    rcases hversion document' hholds with rfl | hold
    · rw [hdocument, Except.ok.injEq] at hparsed
      exact .inl hparsed.symm
    · exact .inr ⟨document', hold, hparsed⟩
  refine ⟨h.toStored.setJson _ _, fun document' hholds ↦ ?_, h.indexes, ?_,
    fun index nodeId position hindex hposition ↦
      (h.marked index nodeId position hindex hposition).of_segments_eq rfl, ?_⟩
  · rcases hversion document' hholds with rfl | hold
    · exact ⟨registry, hdocument⟩
    · exact h.registries document' hold
  · intro registry' nodeId hholds hactive
    rcases hregistry registry' hholds with rfl | hold
    · exact (hanchored nodeId hactive).of_segments_eq rfl
    · exact (h.anchored registry' nodeId hold hactive).of_segments_eq rfl
  · intro registry' index nodeId position hholds hindex hactive hposition
    rcases hregistry registry' hholds with rfl | hold
    · exact hpresent index nodeId position hindex hactive hposition
    · exact h.markedPresent registry' index nodeId position hold hindex hactive hposition

/-- A new index, when its entries mark checkpoints. -/
theorem Recoverable.replaceCheckpoints (h : Recoverable journal fs) {document : Json}
    {index : CheckpointIndex} (hdocument : CheckpointIndex.ofFile (some document) = .ok index)
    (hmarked : ∀ (nodeId : NodeId) (position : RecordPosition),
      index.nodes[nodeId]? = some position → Marked journal fs nodeId position)
    (hpresent : ∀ (registry : NodeRegistry) (nodeId : NodeId) (position : RecordPosition),
      fs.HasRegistry registry → registry.isActive nodeId = true →
      index.nodes[nodeId]? = some position → position.segment ∈ fs.segments) :
    Recoverable journal (fs.replaceJson .checkpoints document) := by
  have hversion : ∀ document', (fs.replaceJson .checkpoints document).checkpoints.Holds document' →
      document' = some document ∨ fs.checkpoints.Holds document' := by
    rintro document' (hnew | hold)
    · exact .inl hnew
    · exact .inr (.inr hold)
  have hindex : ∀ index', (fs.replaceJson .checkpoints document).HasIndex index' →
      index' = index ∨ fs.HasIndex index' := by
    rintro index' ⟨document', hholds, hparsed⟩
    rcases hversion document' hholds with rfl | hold
    · rw [hdocument, Except.ok.injEq] at hparsed
      exact .inl hparsed.symm
    · exact .inr ⟨document', hold, hparsed⟩
  refine ⟨h.toStored.setJson _ _, h.registries, fun document' hholds ↦ ?_,
    fun registry nodeId hregistry hactive ↦
      (h.anchored registry nodeId hregistry hactive).of_segments_eq rfl, ?_, ?_⟩
  · rcases hversion document' hholds with rfl | hold
    · exact ⟨index, hdocument⟩
    · exact h.indexes document' hold
  · intro index' nodeId position hholds hposition
    rcases hindex index' hholds with rfl | hold
    · exact (hmarked nodeId position hposition).of_segments_eq rfl
    · exact (h.marked index' nodeId position hold hposition).of_segments_eq rfl
  · intro registry index' nodeId position hregistry hholds hactive hposition
    rcases hindex index' hholds with rfl | hold
    · exact hpresent registry nodeId position hregistry hactive hposition
    · exact h.markedPresent registry index' nodeId position hregistry hold hactive hposition

/-! ### Removing a segment -/

theorem Fs.segments_remove (fs : Fs) (name : ℕ) :
    (fs.remove name).segments = fs.segments.erase name := by
  unfold remove
  split
  · rfl
  · next hnone =>
    ext segment : 1
    rw [Std.ExtTreeMap.getElem?_erase]
    by_cases hsame : name = segment
    · simp [← hsame, hnone]
    · simp [hsame]

theorem Fs.mem_remove {name segment : ℕ} :
    segment ∈ (fs.remove name).segments ↔ segment ≠ name ∧ segment ∈ fs.segments := by
  rw [segments_remove, Std.ExtTreeMap.mem_erase, ne_eq, Nat.compare_eq_eq, eq_comm]

theorem Fs.getElem?_remove {name segment : ℕ} : (fs.remove name).segments[segment]? =
    if name = segment then none else fs.segments[segment]? := by
  rw [segments_remove, Std.ExtTreeMap.getElem?_erase]
  simp

@[simp] theorem Fs.nodes_remove (fs : Fs) (name : ℕ) : (fs.remove name).nodes = fs.nodes := by
  unfold remove
  split <;> rfl

@[simp] theorem Fs.checkpoints_remove (fs : Fs) (name : ℕ) :
    (fs.remove name).checkpoints = fs.checkpoints := by
  unfold remove
  split <;> rfl

theorem Fs.getElem?_unlinked_remove {name segment : ℕ} {file : SegmentFile}
    (h : (fs.remove name).unlinked[segment]? = some file) :
    fs.unlinked[segment]? = some file ∨ segment = name ∧ fs.segments[segment]? = some file := by
  unfold remove at h
  split at h
  · next file' hfile' =>
    rw [Std.ExtTreeMap.getElem?_insert] at h
    by_cases hsame : name = segment
    · subst hsame
      simp only [Std.compare_self, if_true, Option.some.injEq] at h
      exact .inr ⟨rfl, h ▸ hfile'⟩
    · exact .inl (by simpa [hsame] using h)
  · exact .inl h

theorem Stored.remove (h : Stored journal fs) {name : ℕ} (hsealed : name + 1 < journal.length)
    (hlinked : ∀ (active : ℕ) (file : SegmentFile), active + 1 = journal.length →
      fs.segments[active]? = some file → file.linked = true) : Stored journal (fs.remove name) := by
  have hfileOf {segment : ℕ} {file : SegmentFile}
      (hfile : (fs.remove name).segments[segment]? = some file) : fs.segments[segment]? =
        some file := by
    rw [Fs.getElem?_remove] at hfile
    split at hfile
    · nomatch hfile
    · exact hfile
  refine ⟨h.length_le, fun segment file hfile ↦ h.bounded segment file (hfileOf hfile),
    fun segment hsegment ↦ h.present segment (Fs.mem_remove.mp hsegment).2,
    fun segment file frames hfile ↦ h.sealedFile segment file frames (hfileOf hfile),
    fun segment file frames hfile ↦ h.activeFile segment file frames (hfileOf hfile),
    fun segment hlast ↦ Fs.mem_remove.mpr ⟨by omega, h.active segment hlast⟩, ?_, ?_⟩
  · intro segment file hsecond hfile hunlinked
    rw [hlinked (segment + 1) file hsecond (hfileOf hfile)] at hunlinked
    nomatch hunlinked
  · intro segment file hfile
    rcases Fs.getElem?_unlinked_remove hfile with hunlinked | ⟨rfl, hremoved⟩
    · obtain ⟨habsent, hrest⟩ := h.unlinked segment file hunlinked
      exact ⟨fun hmem ↦ habsent (Fs.mem_remove.mp hmem).2, hrest⟩
    · exact ⟨fun hmem ↦ (Fs.mem_remove.mp hmem).1 rfl, hsealed, h.bounded segment file hremoved,
        fun frames hframes ↦ h.sealedFile segment file frames hremoved hframes hsealed⟩

theorem Durable.remove {entry : Entry N} (h : Durable journal fs entry) {name : ℕ}
    (hsealed : name + 1 < journal.length) : Durable journal (fs.remove name) entry := by
  rcases h with h | ⟨file, hfile, hend⟩
  · exact .inl h
  · by_cases hsame : name = entry.position.segment
    · exact .inl (hsame ▸ hsealed)
    · exact .inr ⟨file, by rw [Fs.getElem?_remove, if_neg hsame, hfile], hend⟩

/-- A sealed segment, when the nodes are anchored behind it. -/
theorem Recoverable.remove (h : Recoverable journal fs) {name : ℕ}
    (hsealed : name + 1 < journal.length)
    (hlinked : ∀ (active : ℕ) (file : SegmentFile), active + 1 = journal.length →
      fs.segments[active]? = some file → file.linked = true)
    (hanchored : ∀ (registry : NodeRegistry) (nodeId : NodeId), fs.HasRegistry registry →
      registry.isActive nodeId = true → ∃ entry, DurableCheckpoint journal fs nodeId entry ∧
        name < entry.position.segment ∧ ∀ segment, entry.position.segment ≤ segment →
          segment < journal.length → segment ∈ fs.segments)
    (hpresent : ∀ (registry : NodeRegistry) (index : CheckpointIndex) (nodeId : NodeId)
      (position : RecordPosition), fs.HasRegistry registry → fs.HasIndex index →
      registry.isActive nodeId = true → index.nodes[nodeId]? = some position →
      position.segment ≠ name) :
    Recoverable journal (fs.remove name) := by
  have hcheckpoint {nodeId : NodeId} {entry : Entry N}
      (hentry : DurableCheckpoint journal fs nodeId entry) :
      DurableCheckpoint journal (fs.remove name) nodeId entry :=
    ⟨hentry.mem, hentry.checkpoint, hentry.durable.remove hsealed⟩
  have hregistry {registry : NodeRegistry} (hholds : (fs.remove name).HasRegistry registry) :
      fs.HasRegistry registry := by simpa [Fs.HasRegistry] using hholds
  have hindex {index : CheckpointIndex} (hholds : (fs.remove name).HasIndex index) :
      fs.HasIndex index := by simpa [Fs.HasIndex] using hholds
  refine ⟨h.toStored.remove hsealed hlinked, by simpa using h.registries,
    by simpa using h.indexes, ?_, ?_, ?_⟩
  · intro registry nodeId hholds hactive
    obtain ⟨entry, hentry, hlater, hcovers⟩ := hanchored registry nodeId (hregistry hholds) hactive
    refine ⟨entry, hcheckpoint hentry, fun segment hsegment hlength ↦ ?_⟩
    exact Fs.mem_remove.mpr ⟨by omega, hcovers segment hsegment hlength⟩
  · intro index nodeId position hholds hposition
    obtain ⟨entry, hentry, hat⟩ := h.marked index nodeId position (hindex hholds) hposition
    exact ⟨entry, hcheckpoint hentry, hat⟩
  · intro registry index nodeId position hholds hholds' hactive hposition
    exact Fs.mem_remove.mpr ⟨hpresent registry index nodeId position (hregistry hholds)
      (hindex hholds') hactive hposition, h.markedPresent registry index nodeId position
        (hregistry hholds) (hindex hholds') hactive hposition⟩

end Sukari
