import Sukari.Recovered

/-!
# Directories that an engine can recover

`Recoverable journal fs` is the invariant of a storage directory: in every state, also in the
middle of an operation. It is about all versions of the metadata files that a power loss may leave.
Every version is well formed, every entry of an index marks a durable checkpoint of its node, and
every node that is active in some version of the registry is anchored: there is a durable
checkpoint of it, and no segment is missing from there on.

`Keeps` says what a request must not destroy for the invariant to hold on (`Recoverable.keeps`).
-/

set_option autoImplicit false
set_option relaxedAutoImplicit false

namespace Sukari

variable {N : Noraft}

/-- A power loss cannot take the entry away: its segment is sealed, or it stands in the durable
part of the active file. -/
def Durable (journal : Journal N) (fs : Fs) (entry : Entry N) : Prop :=
  entry.position.segment + 1 < journal.length ∨
    ∃ file : SegmentFile, fs.segments[entry.position.segment]? = some file ∧
      entry.position.offset + entry.frame.bytes.length ≤ file.synced

/-- The entry is a checkpoint of the node that a power loss cannot take away. -/
structure DurableCheckpoint (journal : Journal N) (fs : Fs) (nodeId : NodeId) (entry : Entry N) :
    Prop where
  mem : entry ∈ journal.entries
  checkpoint : entry.isCheckpointOf nodeId = true
  durable : Durable journal fs entry

/-- No segment is missing from a durable checkpoint of the node on. -/
def Anchored (journal : Journal N) (fs : Fs) (nodeId : NodeId) : Prop :=
  ∃ entry, DurableCheckpoint journal fs nodeId entry ∧
    ∀ segment, entry.position.segment ≤ segment → segment < journal.length → segment ∈ fs.segments

/-- There is a durable checkpoint of the node at the position. -/
def Marked (journal : Journal N) (fs : Fs) (nodeId : NodeId) (position : RecordPosition) : Prop :=
  ∃ entry, DurableCheckpoint journal fs nodeId entry ∧ entry.position = position

theorem Anchored.anchoredIn {journal : Journal N} {fs : Fs} {nodeId : NodeId}
    (h : Anchored journal fs nodeId) : AnchoredIn journal fs.segments.keys nodeId := by
  obtain ⟨entry, hentry, hcovers⟩ := h
  exact ⟨entry, hentry.mem, hentry.checkpoint, fun segment hsegment hlength ↦
    Std.ExtTreeMap.mem_keys.mpr (hcovers segment hsegment hlength)⟩

section SameSegments

variable {journal : Journal N} {fs fs' : Fs} {nodeId : NodeId}

theorem DurableCheckpoint.of_segments_eq {entry : Entry N}
    (h : DurableCheckpoint journal fs nodeId entry) (hsegments : fs'.segments = fs.segments) :
    DurableCheckpoint journal fs' nodeId entry :=
  ⟨h.mem, h.checkpoint, by simpa only [Durable, hsegments] using h.durable⟩

theorem Anchored.of_segments_eq (h : Anchored journal fs nodeId)
    (hsegments : fs'.segments = fs.segments) : Anchored journal fs' nodeId := by
  obtain ⟨entry, hentry, hcovers⟩ := h
  exact ⟨entry, hentry.of_segments_eq hsegments, hsegments ▸ hcovers⟩

theorem Marked.of_segments_eq {position : RecordPosition} (h : Marked journal fs nodeId position)
    (hsegments : fs'.segments = fs.segments) : Marked journal fs' nodeId position := by
  obtain ⟨entry, hentry, hposition⟩ := h
  exact ⟨entry, hentry.of_segments_eq hsegments, hposition⟩

end SameSegments

/-- The file may have the document after a power loss, or has it now. -/
def JsonFile.Holds (file : JsonFile) (document : Option Json) : Prop :=
  document = file.current ∨ document = file.durable

def Fs.HasRegistry (fs : Fs) (registry : NodeRegistry) : Prop :=
  ∃ document, fs.nodes.Holds document ∧ NodeRegistry.ofFile document = .ok registry

def Fs.HasIndex (fs : Fs) (index : CheckpointIndex) : Prop :=
  ∃ document, fs.checkpoints.Holds document ∧ CheckpointIndex.ofFile document = .ok index

/-- The invariant of a storage directory. -/
structure Recoverable (journal : Journal N) (fs : Fs) : Prop extends Stored journal fs where
  registries : ∀ document, fs.nodes.Holds document →
    ∃ registry, NodeRegistry.ofFile document = .ok registry
  indexes : ∀ document, fs.checkpoints.Holds document →
    ∃ index, CheckpointIndex.ofFile document = .ok index
  anchored : ∀ (registry : NodeRegistry) (nodeId : NodeId), fs.HasRegistry registry →
    registry.isActive nodeId = true → Anchored journal fs nodeId
  marked : ∀ (index : CheckpointIndex) (nodeId : NodeId) (position : RecordPosition),
    fs.HasIndex index → index.nodes[nodeId]? = some position → Marked journal fs nodeId position
  markedPresent : ∀ (registry : NodeRegistry) (index : CheckpointIndex) (nodeId : NodeId)
    (position : RecordPosition), fs.HasRegistry registry → fs.HasIndex index →
    registry.isActive nodeId = true → index.nodes[nodeId]? = some position →
    position.segment ∈ fs.segments

/-- What was durable stays, and so do the segment files and the versions of the metadata files. -/
structure Keeps (journal : Journal N) (fs : Fs) (journal' : Journal N) (fs' : Fs) : Prop where
  stored : Stored journal' fs'
  durable : ∀ entry ∈ journal.entries, Durable journal fs entry →
    entry ∈ journal'.entries ∧ Durable journal' fs' entry
  present : ∀ segment ∈ fs.segments, segment < journal'.length → segment ∈ fs'.segments
  new : ∀ segment, journal.length ≤ segment → segment < journal'.length → segment ∈ fs'.segments
  nodes : ∀ document, fs'.nodes.Holds document → fs.nodes.Holds document
  checkpoints : ∀ document, fs'.checkpoints.Holds document → fs.checkpoints.Holds document

section Keeps

variable {journal journal' : Journal N} {fs fs' : Fs} {nodeId : NodeId}

theorem DurableCheckpoint.keeps {entry : Entry N} (h : DurableCheckpoint journal fs nodeId entry)
    (hkeeps : Keeps journal fs journal' fs') : DurableCheckpoint journal' fs' nodeId entry :=
  have hentry := hkeeps.durable entry h.mem h.durable
  ⟨hentry.1, h.checkpoint, hentry.2⟩

theorem Anchored.keeps (h : Anchored journal fs nodeId) (hkeeps : Keeps journal fs journal' fs') :
    Anchored journal' fs' nodeId := by
  obtain ⟨entry, hentry, hcovers⟩ := h
  refine ⟨entry, hentry.keeps hkeeps, fun segment hsegment hlength ↦ ?_⟩
  by_cases hold : segment < journal.length
  · exact hkeeps.present segment (hcovers segment hsegment hold) hlength
  · exact hkeeps.new segment (Nat.not_lt.mp hold) hlength

theorem Marked.keeps {position : RecordPosition} (h : Marked journal fs nodeId position)
    (hkeeps : Keeps journal fs journal' fs') : Marked journal' fs' nodeId position := by
  obtain ⟨entry, hentry, hposition⟩ := h
  exact ⟨entry, hentry.keeps hkeeps, hposition⟩

theorem Keeps.hasRegistry (h : Keeps journal fs journal' fs') {registry : NodeRegistry}
    (hregistry : fs'.HasRegistry registry) : fs.HasRegistry registry := by
  obtain ⟨document, hholds, hdocument⟩ := hregistry
  exact ⟨document, h.nodes document hholds, hdocument⟩

theorem Keeps.hasIndex (h : Keeps journal fs journal' fs') {index : CheckpointIndex}
    (hindex : fs'.HasIndex index) : fs.HasIndex index := by
  obtain ⟨document, hholds, hdocument⟩ := hindex
  exact ⟨document, h.checkpoints document hholds, hdocument⟩

theorem Recoverable.keeps (h : Recoverable journal fs) (hkeeps : Keeps journal fs journal' fs') :
    Recoverable journal' fs' where
  toStored := hkeeps.stored
  registries document hdocument := h.registries document (hkeeps.nodes document hdocument)
  indexes document hdocument := h.indexes document (hkeeps.checkpoints document hdocument)
  anchored registry nodeId hregistry hactive :=
    (h.anchored registry nodeId (hkeeps.hasRegistry hregistry) hactive).keeps hkeeps
  marked index nodeId position hindex hposition :=
    (h.marked index nodeId position (hkeeps.hasIndex hindex) hposition).keeps hkeeps
  markedPresent registry index nodeId position hregistry hindex hactive hposition := by
    have hold := hkeeps.hasIndex hindex
    obtain ⟨entry, hentry, hat⟩ := (h.marked index nodeId position hold hposition).keeps hkeeps
    refine hkeeps.present position.segment (h.markedPresent registry index nodeId position
      (hkeeps.hasRegistry hregistry) hold hactive hposition) ?_
    rw [← hat]
    exact Journal.segment_lt_of_mem hentry.mem

end Keeps

end Sukari
