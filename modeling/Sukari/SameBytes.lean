import Sukari.Restart

/-!
# Directories with the same contents

No program sees how much of a file is durable: directories whose files have the same bytes give the
same replies and stay alike (`bisimulation_sameBytes`).
-/

set_option autoImplicit false
set_option relaxedAutoImplicit false

namespace Sukari

open Effects

variable {fs fs' : Fs}

/-- The files have the same names and bytes. -/
structure SameBytes (fs fs' : Fs) : Prop where
  bytes : ∀ segment : ℕ, fs.segments[segment]?.map SegmentFile.bytes =
    fs'.segments[segment]?.map SegmentFile.bytes
  checkpoints : fs.checkpoints.current = fs'.checkpoints.current
  nodes : fs.nodes.current = fs'.nodes.current

namespace SameBytes

theorem refl (fs : Fs) : SameBytes fs fs := ⟨fun _ ↦ rfl, rfl, rfl⟩

theorem map_eq (h : SameBytes fs fs') :
    fs.segments.map (fun _ file ↦ file.bytes) = fs'.segments.map fun _ file ↦ file.bytes := by
  refine Std.ExtTreeMap.ext_getElem? fun segment ↦ ?_
  rw [Std.ExtTreeMap.getElem?_map, Std.ExtTreeMap.getElem?_map]
  exact h.bytes segment

theorem keys (h : SameBytes fs fs') : fs.segments.keys = fs'.segments.keys := by
  simpa only [Std.ExtTreeMap.keys_map] using congrArg Std.ExtTreeMap.keys h.map_eq

theorem contains (h : SameBytes fs fs') (name : ℕ) :
    fs.segments.contains name = fs'.segments.contains name := by
  rw [Bool.eq_iff_iff, Std.ExtTreeMap.contains_iff_mem, Std.ExtTreeMap.contains_iff_mem,
    ← Std.ExtTreeMap.mem_keys, h.keys, Std.ExtTreeMap.mem_keys]

theorem mem_iff (h : SameBytes fs fs') (name : ℕ) : name ∈ fs.segments ↔ name ∈ fs'.segments := by
  rw [← Std.ExtTreeMap.mem_keys, h.keys, Std.ExtTreeMap.mem_keys]

theorem accepts (h : SameBytes fs fs') (name : ℕ) (bytes : List UInt8) :
    fs.accepts name bytes = fs'.accepts name bytes := by
  have hbytes := h.bytes name
  unfold Fs.accepts
  cases hfile : fs.segments[name]? <;> cases hfile' : fs'.segments[name]? <;> simp_all

theorem fileLen (h : SameBytes fs fs') (name : ℕ) : fs.fileLen name = fs'.fileLen name := by
  have hbytes := h.bytes name
  unfold Fs.fileLen
  cases hfile : fs.segments[name]? <;> cases hfile' : fs'.segments[name]? <;> simp_all

theorem reply (h : SameBytes fs fs') (op : FsOp) : Fs.reply op fs = Fs.reply op fs' := by
  cases op with
  | readDir =>
    change fs.entries = fs'.entries
    simp only [Fs.entries, h.checkpoints, h.nodes, h.keys]
  | isFile name | remove name => exact h.contains name
  | create name => exact congrArg Bool.not (h.contains name)
  | read name => exact h.bytes name
  | fileLen name => exact h.fileLen name
  | writeAll name bytes => simp only [Fs.reply, h.accepts name bytes]
  | readJson name =>
    cases name with
    | checkpoints => exact h.checkpoints
    | nodes => exact h.nodes
  | setLen | syncData | syncDir | replaceJson => rfl

theorem modifySegment (h : SameBytes fs fs') (name : ℕ) {f : SegmentFile → SegmentFile}
    {g : List UInt8 → List UInt8} (hf : ∀ file, (f file).bytes = g file.bytes) :
    SameBytes (fs.modifySegment name f) (fs'.modifySegment name f) := by
  refine ⟨fun segment ↦ ?_, h.checkpoints, h.nodes⟩
  have hbytes := h.bytes segment
  simp only [Fs.getElem?_modifySegment]
  split
  · simp only [Option.map_map, Function.comp_def, hf]
    simpa only [Option.map_map, Function.comp_def] using congrArg (Option.map g) hbytes
  · exact hbytes

theorem append (h : SameBytes fs fs') (name : ℕ) (bytes : List UInt8) :
    SameBytes (fs.append name bytes) (fs'.append name bytes) :=
  h.modifySegment name (g := fun old ↦ old ++ bytes) fun _ ↦ rfl

theorem after (h : SameBytes fs fs') (op : FsOp) :
    SameBytes (Fs.after op fs) (Fs.after op fs') := by
  cases op with
  | setLen name len => exact h.modifySegment name (g := fun bytes ↦ bytes.take len) fun _ ↦ rfl
  | create name =>
    refine ⟨fun segment ↦ ?_, h.checkpoints, h.nodes⟩
    simp only [Fs.after, Fs.create, Std.ExtTreeMap.getElem?_insertIfNew, h.mem_iff name]
    split
    · rfl
    · exact h.bytes segment
  | writeAll name bytes =>
    simp only [Fs.after, h.accepts name bytes]
    split
    · exact h.append name bytes
    · exact h
  | syncData name => exact h.modifySegment name (g := id) fun _ ↦ rfl
  | syncDir =>
    refine ⟨fun segment ↦ ?_, h.checkpoints, h.nodes⟩
    simp only [Fs.after, Fs.getElem?_syncDir, Option.map_map, Function.comp_def]
    exact h.bytes segment
  | replaceJson name document =>
    cases name with
    | checkpoints => exact ⟨h.bytes, rfl, h.nodes⟩
    | nodes => exact ⟨h.bytes, h.checkpoints, rfl⟩
  | remove name =>
    refine ⟨fun segment ↦ ?_, by simpa [Fs.after] using h.checkpoints,
      by simpa [Fs.after] using h.nodes⟩
    simp only [Fs.after, Fs.getElem?_remove]
    split
    · rfl
    · exact h.bytes segment
  | readDir | isFile | read | fileLen | readJson => exact h

end SameBytes

/-- A program does not see what is durable. -/
theorem bisimulation_sameBytes : Bisimulation directory SameBytes where
  reply op _ _ h := h.reply op
  after op _ _ h := h.after op
  during op fs fs' h := by
    cases op with
    | writeAll name bytes =>
      simp only [directory, Fs.during, h.accepts name bytes]
      split
      · rw [List.forall₂_map_left_iff, List.forall₂_map_right_iff, List.forall₂_same]
        exact fun len _ ↦ h.append name _
      · exact .nil
    | _ => exact .nil

end Sukari
