import Sukari.Contents
import Sukari.Listing

/-!
# Directories that store a journal

`Stored journal fs` relates the segment files of a directory to a journal. Every segment but the
last is sealed: its file, if it is still there, is complete and durable. The active segment always
has a file, which may be cut short. Removed files that may come back are sealed.
-/

set_option autoImplicit false
set_option relaxedAutoImplicit false

namespace Sukari

open Effects

variable {N : Noraft}

/-- The file of a segment that the writer has left. -/
structure SealedFile (frames : List (Frame N)) (file : SegmentFile) : Prop where
  bytes : file.bytes = segmentBytes frames
  synced : file.synced = file.bytes.length
  linked : file.linked = true

/-- The file of the active segment. The first frame is written after its name is durable. -/
structure ActiveFile (frames : List (Frame N)) (file : SegmentFile) : Prop where
  contents : Contents frames file.bytes
  synced : file.synced ≤ file.bytes.length
  linked : file.linked = false → frames = []

structure Stored (journal : Journal N) (fs : Fs) : Prop where
  length_le : journal.length ≤ 2 ^ 64
  bounded : ∀ (segment : ℕ) (file : SegmentFile),
    fs.segments[segment]? = some file → file.bytes.length ≤ maxFileLen
  present : ∀ segment ∈ fs.segments, segment < journal.length
  sealedFile : ∀ (segment : ℕ) (file : SegmentFile) (frames : List (Frame N)),
    fs.segments[segment]? = some file → journal[segment]? = some frames →
    segment + 1 < journal.length → SealedFile frames file
  activeFile : ∀ (segment : ℕ) (file : SegmentFile) (frames : List (Frame N)),
    fs.segments[segment]? = some file → journal[segment]? = some frames →
    segment + 1 = journal.length → ActiveFile frames file
  active : ∀ segment, segment + 1 = journal.length → segment ∈ fs.segments
  previous : ∀ (segment : ℕ) (file : SegmentFile), segment + 2 = journal.length →
    fs.segments[segment + 1]? = some file → file.linked = false → segment ∈ fs.segments
  unlinked : ∀ (segment : ℕ) (file : SegmentFile), fs.unlinked[segment]? = some file →
    segment ∉ fs.segments ∧ segment + 1 < journal.length ∧ file.bytes.length ≤ maxFileLen ∧
      ∀ frames, journal[segment]? = some frames → SealedFile frames file

/-- Every segment file ends with a complete frame. -/
def Whole (journal : Journal N) (fs : Fs) : Prop :=
  ∀ (segment : ℕ) (file : SegmentFile) (frames : List (Frame N)),
    fs.segments[segment]? = some file → journal[segment]? = some frames →
    file.bytes = segmentBytes frames

theorem SealedFile.contents {frames : List (Frame N)} {file : SegmentFile}
    (h : SealedFile frames file) : Contents frames file.bytes := by
  rw [h.bytes]
  exact contents_segmentBytes frames

namespace Stored

variable {journal : Journal N} {fs : Fs}

/-- Every segment file holds the frames of its segment. -/
theorem contents (h : Stored journal fs) {segment : ℕ} {file : SegmentFile}
    (hfile : fs.segments[segment]? = some file) : ∃ frames, journal[segment]? = some frames ∧
      Contents frames file.bytes := by
  have hlt := h.present segment (mem_iff_exists_getElem?.mpr ⟨_, hfile⟩)
  refine ⟨_, List.getElem?_eq_getElem hlt, ?_⟩
  rcases Nat.lt_or_eq_of_le (Nat.succ_le_of_lt hlt) with hsealed | hactive
  · exact SealedFile.contents
      (h.sealedFile segment file _ hfile (List.getElem?_eq_getElem hlt) hsealed)
  · exact (h.activeFile segment file _ hfile (List.getElem?_eq_getElem hlt) hactive).contents

theorem synced_le (h : Stored journal fs) {segment : ℕ} {file : SegmentFile}
    (hfile : fs.segments[segment]? = some file) : file.synced ≤ file.bytes.length := by
  have hlt := h.present segment (mem_iff_exists_getElem?.mpr ⟨_, hfile⟩)
  have hframes := List.getElem?_eq_getElem hlt
  rcases Nat.lt_or_eq_of_le (Nat.succ_le_of_lt hlt) with hsealed | hactive
  · exact (h.sealedFile segment file _ hfile hframes hsealed).synced.le
  · exact (h.activeFile segment file _ hfile hframes hactive).synced

/-- The segments of the directory, as the storage code lists them. -/
theorem discoverSegments_eq (h : Stored journal fs) :
    discoverSegments fs.entries = fs.segments.keys :=
  discoverSegments_entries fun segment hsegment ↦
    (h.present segment hsegment).trans_le h.length_le

theorem discoverSegmentPaths_sees (h : Stored journal fs) :
    directory.Sees (fun _ ↦ fs) (fun result _ ↦ result = .ok fs.segments.keys)
      discoverSegmentPaths.run 0 :=
  .bindExcept (sees_io inquiry_readDir (congrArg Except.ok h.discoverSegments_eq))

theorem pairwise_keys (fs : Fs) : fs.segments.keys.Pairwise (· < ·) :=
  fs.segments.ordered_keys.imp Nat.compare_eq_lt.mp

/-- The greatest segment of a directory is the active one. -/
theorem getLast?_keys (h : Stored journal fs) {active : ℕ}
    (hactive : active + 1 = journal.length) : fs.segments.keys.getLast? = some active := by
  have hmem : active ∈ fs.segments.keys :=
    Std.ExtTreeMap.mem_keys.mpr (h.active active hactive)
  obtain ⟨before, last, hkeys⟩ : ∃ before last, fs.segments.keys = before ++ [last] :=
    ⟨_, _, (List.dropLast_append_getLast (List.ne_nil_of_mem hmem)).symm⟩
  have hlast : last < journal.length :=
    h.present last (Std.ExtTreeMap.mem_keys.mp (by simp [hkeys]))
  have hsorted := pairwise_keys fs
  rw [hkeys, List.pairwise_append] at hsorted
  rw [hkeys, List.getLast?_append, List.getLast?_singleton, Option.some_or, Option.some.injEq]
  rw [hkeys] at hmem
  rcases List.mem_append.mp hmem with hmem | hmem
  · have hlt : active < last := hsorted.2.2 active hmem last (by simp)
    have hle : last ≤ active := by omega
    exact absurd hlt hle.not_gt
  · exact (List.mem_singleton.mp hmem).symm

end Stored

end Sukari
