import Sukari.Writing
import Sukari.Survey

/-!
# What a power loss leaves

A power loss takes records from the end of the journal and nothing else: what is left is recoverable
again, with a journal of which the old one is an extension (`Recoverable.survivor`). All durable
records are left. The journal is cut inside the active segment, or the active segment is missing,
when it was new and had no durable name; then the segment before it takes its place.
-/

set_option autoImplicit false
set_option relaxedAutoImplicit false

namespace Sukari

variable {N : Noraft} {journal journal' : Journal N} {fs fs' : Fs}

/-! ### The files that are left -/

/-- A sealed file is left as it is. -/
theorem SealedFile.survivor {frames : List (Frame N)} {file file' : SegmentFile}
    (h : SealedFile frames file) (hsurvivor : file.Survivor file') : SealedFile frames file' := by
  obtain ⟨len, hsynced, hlen, rfl⟩ := hsurvivor
  have hall : len = file.bytes.length := le_antisymm hlen (h.synced ▸ hsynced)
  exact ⟨by simp only [hall, List.take_length, h.bytes], by simp [hall], rfl⟩

namespace Survivor

theorem file (hs : Survivor fs fs') {segment : ℕ} {file' : SegmentFile}
    (hfile' : fs'.segments[segment]? = some file') :
    ∃ file, file.Survivor file' ∧ (fs.segments[segment]? = some file ∨
      segment ∉ fs.segments ∧ fs.unlinked[segment]? = some file) := by
  cases hfile : fs.segments[segment]? with
  | some file =>
    rcases hs.kept segment file hfile with ⟨file'', hfile'', hsurvivor⟩ | ⟨-, hmissing⟩
    · rw [hfile', Option.some.injEq] at hfile''
      exact ⟨file, hfile'' ▸ hsurvivor, .inl rfl⟩
    · exact absurd (mem_iff_exists_getElem?.mpr ⟨_, hfile'⟩) hmissing
  | none =>
    have habsent : segment ∉ fs.segments := by
      rw [Std.ExtTreeMap.mem_iff_isSome_getElem?, hfile]
      exact Bool.false_ne_true
    obtain ⟨file, hunlinked, hsurvivor⟩ := hs.back segment file' habsent hfile'
    exact ⟨file, hsurvivor, .inr ⟨habsent, hunlinked⟩⟩

/-- Everything that is left is durable. -/
theorem synced (hs : Survivor fs fs') {segment : ℕ} {file' : SegmentFile}
    (hfile' : fs'.segments[segment]? = some file') :
    file'.synced = file'.bytes.length ∧ file'.linked = true := by
  obtain ⟨file, ⟨len, -, hlen, rfl⟩, -⟩ := hs.file hfile'
  exact ⟨by simp [hlen], rfl⟩

theorem bounded (hs : Survivor fs fs') (h : Stored journal fs) {segment : ℕ} {file' : SegmentFile}
    (hfile' : fs'.segments[segment]? = some file') : file'.bytes.length ≤ maxFileLen := by
  obtain ⟨file, ⟨len, -, hlen, rfl⟩, hfile | ⟨-, hunlinked⟩⟩ := hs.file hfile'
  · exact (List.length_take_le' _ _).trans (h.bounded segment file hfile)
  · exact (List.length_take_le' _ _).trans (h.unlinked segment file hunlinked).2.2.1

theorem segment_lt (hs : Survivor fs fs') (h : Stored journal fs) {segment : ℕ}
    (hpresent : segment ∈ fs'.segments) :
    segment < journal.length := by
  obtain ⟨file', hfile'⟩ := mem_iff_exists_getElem?.mp hpresent
  obtain ⟨file, -, hfile | ⟨-, hunlinked⟩⟩ := hs.file hfile'
  · exact h.present segment (mem_iff_exists_getElem?.mpr ⟨_, hfile⟩)
  · have := (h.unlinked segment file hunlinked).2.1
    omega

theorem sealedFile (hs : Survivor fs fs') (h : Stored journal fs) {segment : ℕ}
    {file' : SegmentFile} {frames : List (Frame N)} (hfile' : fs'.segments[segment]? = some file')
    (hframes : journal[segment]? = some frames) (hsealed : segment + 1 < journal.length) :
    SealedFile frames file' := by
  obtain ⟨file, hsurvivor, hfile | ⟨-, hunlinked⟩⟩ := hs.file hfile'
  · exact (h.sealedFile segment file frames hfile hframes hsealed).survivor hsurvivor
  · exact ((h.unlinked segment file hunlinked).2.2.2 frames hframes).survivor hsurvivor

/-- Sealed segments stay. -/
theorem mem_of_sealed (hs : Survivor fs fs') (h : Stored journal fs) {segment : ℕ}
    (hpresent : segment ∈ fs.segments)
    (hsealed : segment + 1 < journal.length) : segment ∈ fs'.segments := by
  obtain ⟨file, hfile⟩ := mem_iff_exists_getElem?.mp hpresent
  obtain ⟨frames, hframes, -⟩ := h.contents hfile
  rcases hs.kept segment file hfile with ⟨file', hfile', -⟩ | ⟨hunlinked, -⟩
  · exact mem_iff_exists_getElem?.mpr ⟨_, hfile'⟩
  · rw [(h.sealedFile segment file frames hfile hframes hsealed).linked] at hunlinked
    nomatch hunlinked

theorem nodes_holds (hs : Survivor fs fs') {document : Option Json} (h : fs'.nodes.Holds document) :
    fs.nodes.Holds document := by
  rcases hs.nodes with heq | heq <;> rw [heq] at h <;> rcases h with h | h
  · exact .inl h
  · exact .inl h
  · exact .inr h
  · exact .inr h

theorem checkpoints_holds (hs : Survivor fs fs') {document : Option Json}
    (h : fs'.checkpoints.Holds document) :
    fs.checkpoints.Holds document := by
  rcases hs.checkpoints with heq | heq <;> rw [heq] at h <;> rcases h with h | h
  · exact .inl h
  · exact .inl h
  · exact .inr h
  · exact .inr h

end Survivor

/-! ### The journal that is left -/

/-- The journal with only some frames of its active segment. -/
def Journal.cut (journal : Journal N) (count : ℕ) : Journal N :=
  journal.dropLast ++ [(journal.getLast?.getD []).take count]

section Cut

variable {active count : ℕ} {frames : List (Frame N)}

theorem Journal.length_cut (hactive : active + 1 = journal.length) :
    (journal.cut count).length = journal.length := by
  simp only [cut, List.length_append, List.length_dropLast, List.length_singleton]
  omega

theorem Journal.getElem?_cut_of_lt {segment : ℕ} (h : segment + 1 < journal.length) :
    (journal.cut count)[segment]? = journal[segment]? := by
  have hlt : segment < journal.dropLast.length := by
    rw [List.length_dropLast]
    omega
  rw [cut, List.getElem?_append_left hlt, List.getElem?_dropLast, if_pos (by omega)]

theorem Journal.getElem?_cut_last (hactive : active + 1 = journal.length)
    (hframes : journal[active]? = some frames) :
    (journal.cut count)[active]? = some (frames.take count) := by
  have hlength : journal.dropLast.length = active := by
    rw [List.length_dropLast]
    omega
  have hget : journal.getLast? = some frames := by
    rw [List.getLast?_eq_getElem?, ← hactive, Nat.add_sub_cancel, hframes]
  rw [cut, List.getElem?_append_right hlength.le, hlength, hget]
  simp

/-- The entries of the journal are those of the cut one and the frames that were cut off. -/
theorem Journal.entries_cut (hactive : active + 1 = journal.length)
    (hframes : journal[active]? = some frames) : journal.entries = (journal.cut count).entries ++
      placedFrom active (segmentFileHeaderLen + (framesBytes (frames.take count)).length)
        (frames.drop count) := by
  have hsealed : (List.range active).flatMap (journal.cut count).inSegment =
      (List.range active).flatMap journal.inSegment :=
    List.flatMap_congr fun segment hsegment ↦ inSegment_eq
      (getElem?_cut_of_lt (by have := List.mem_range.mp hsegment; omega))
  rw [entries, entries, length_cut hactive, ← hactive, List.range_succ, List.flatMap_append,
    List.flatMap_append, hsealed, List.flatMap_singleton, List.flatMap_singleton,
    List.append_assoc]
  congr 1
  rw [inSegment, inSegment, getElem?_cut_last hactive hframes, hframes, Option.getD_some,
    Option.getD_some, ← placedFrom_append, List.take_append_drop]

theorem Journal.cut_extends (hactive : active + 1 = journal.length)
    (hframes : journal[active]? = some frames) : (journal.cut count).Extends journal where
  entries := by
    rw [@entries_cut _ _ _ count _ hactive hframes]
    exact List.prefix_append _ _
  length := (length_cut hactive).le
  complete segment hsegment := getElem?_cut_of_lt (length_cut hactive ▸ hsegment)

end Cut

/-! ### Recoverable directories stay recoverable -/

/-- A journal that is left, when the files of the directory store it. -/
theorem Stored.keeps_survivor (h : Stored journal fs) (hs : Survivor fs fs')
    (hstored : Stored journal' fs') (hextends : journal'.Extends journal)
    (hactive : ∀ (active : ℕ) (file : SegmentFile), active + 1 = journal.length →
      fs.segments[active]? = some file → ∀ entry ∈ journal.inSegment active,
      entry.position.offset + entry.frame.bytes.length ≤ file.synced → entry ∈ journal'.entries)
    (hsealed : ∀ segment, segment + 1 < journal.length →
      journal'.inSegment segment = journal.inSegment segment)
    (hpresent : ∀ active, active + 1 = journal.length → active < journal'.length →
      active ∈ fs'.segments) : Keeps journal fs journal' fs' where
  stored := hstored
  durable entry hentry hdurable := by
    have hplaced := Journal.mem_entries.mp hentry
    have hlt := Journal.segment_lt_of_mem hentry
    have hmem : entry ∈ journal'.entries := by
      rcases Nat.lt_or_eq_of_le (Nat.succ_le_of_lt hlt) with hbefore | hlast
      · exact Journal.mem_entries.mpr (by rwa [hsealed _ hbefore])
      · rcases hdurable with hbefore | ⟨file, hfile, hend⟩
        · omega
        · exact hactive _ file hlast hfile entry hplaced hend
    exact ⟨hmem, hstored.durable (fun _ file' _ hfile' ↦ (hs.synced hfile').1) hmem⟩
  present segment hsegment hlength := by
    rcases Nat.lt_or_eq_of_le (Nat.succ_le_of_lt (h.present segment hsegment)) with hbefore | hlast
    · exact hs.mem_of_sealed h hsegment hbefore
    · exact hpresent segment hlast hlength
  new segment hnew hlength := absurd (hlength.trans_le hextends.length) hnew.not_gt
  nodes _ := hs.nodes_holds
  checkpoints _ := hs.checkpoints_holds

/-- The active file is left, with some of its frames. -/
theorem Stored.survivor_cut (h : Stored journal fs) (hs : Survivor fs fs') {active : ℕ}
    {file' : SegmentFile} (hactive : active + 1 = journal.length)
    (hfile' : fs'.segments[active]? = some file') : ∃ count frames,
      journal[active]? = some frames ∧ Contents (frames.take count) file'.bytes ∧
      Keeps journal fs (journal.cut count) fs' := by
  obtain ⟨file, ⟨len, hsynced, hlen, rfl⟩, hfile | ⟨habsent, -⟩⟩ := hs.file hfile'
  · obtain ⟨frames, hframes, hcontents⟩ := h.contents hfile
    obtain ⟨count, hcount, hcut, hkept⟩ := exists_contents_take hcontents len
    have hlength := @Journal.length_cut _ journal _ count hactive
    have hlast := @Journal.getElem?_cut_last _ journal _ count _ hactive hframes
    have hextends := @Journal.cut_extends _ journal _ count _ hactive hframes
    have hstored : Stored (journal.cut count) fs' := by
      refine ⟨hlength ▸ h.length_le, fun segment file' hfile' ↦ hs.bounded h hfile',
        fun segment hsegment ↦ hlength ▸ hs.segment_lt h hsegment, ?_, ?_, ?_, ?_, ?_⟩
      · intro segment file'' frames' hfile'' hframes' hsealed
        rw [hlength] at hsealed
        rw [Journal.getElem?_cut_of_lt hsealed] at hframes'
        exact hs.sealedFile h hfile'' hframes' hsealed
      · intro segment file'' frames' hfile'' hframes' hsegment
        obtain rfl : active = segment := by omega
        rw [hfile', Option.some.injEq] at hfile''
        rw [hlast, Option.some.injEq] at hframes'
        subst hfile'' hframes'
        exact ⟨hcut, by simp [hlen], nofun⟩
      · intro segment hsegment
        obtain rfl : active = segment := by omega
        exact mem_iff_exists_getElem?.mpr ⟨_, hfile'⟩
      · intro segment file'' _ hfile'' hunlinked
        rw [(hs.synced hfile'').2] at hunlinked
        nomatch hunlinked
      · intro segment file'' hfile''
        simp [hs.unlinked] at hfile''
    refine ⟨count, frames, hframes, hcut, h.keeps_survivor hs hstored hextends ?_ ?_ ?_⟩
    · intro segment file'' hsegment hfile'' entry hentry hend
      obtain rfl : active = segment := by omega
      rw [hfile, Option.some.injEq] at hfile''
      subst hfile''
      rw [Journal.inSegment, hframes, Option.getD_some] at hentry
      obtain ⟨before, after, hsplit, hposition⟩ := exists_of_mem_placedFrom hentry
      have hbefore : before.length + 1 ≤ count := by
        have htake : frames.take (before.length + 1) = before ++ [entry.frame] := by
          rw [hsplit, List.take_append, List.take_of_length_le (Nat.le_succ _)]
          simp
        refine hkept (before.length + 1) (by simp [hsplit]) (by simp [hsplit]) ?_
        have hend' : entry.position.offset + entry.frame.bytes.length ≤ len := hend.trans hsynced
        rw [hposition] at hend'
        rw [htake]
        simpa [Nat.add_assoc] using hend'
      have hmem : entry ∈ (journal.cut count).inSegment active := by
        rw [Journal.inSegment, hlast, Option.getD_some, hsplit, List.take_append,
          List.take_of_length_le (by omega)]
        obtain ⟨more, hmore⟩ := Nat.exists_eq_add_of_le hbefore
        rw [hmore, Nat.add_assoc, Nat.add_sub_cancel_left, Nat.add_comm 1 more,
          List.take_succ_cons]
        have hplaced := mem_placedFrom_of_split active segmentFileHeaderLen before
          (after.take more) entry.frame
        rwa [← hposition] at hplaced
      refine Journal.mem_entries.mpr ?_
      rwa [(Journal.mem_inSegment hmem).1]
    · exact fun segment hsegment ↦ Journal.inSegment_eq (Journal.getElem?_cut_of_lt hsegment)
    · intro segment hsegment _
      obtain rfl : active = segment := by omega
      exact mem_iff_exists_getElem?.mpr ⟨_, hfile'⟩
  · exact absurd (h.active active hactive) habsent

theorem Journal.eq_newSegment {active : ℕ} (hactive : active + 1 = journal.length)
    (hempty : journal[active]? = some []) : journal = Journal.newSegment journal.dropLast := by
  have hne : journal ≠ [] := List.length_pos_iff.mp (by omega)
  have hlast : journal.getLast hne = [] := by
    have hget : journal.getLast? = some [] := by
      rw [List.getLast?_eq_getElem?, ← hactive, Nat.add_sub_cancel, hempty]
    rwa [List.getLast?_eq_some_getLast hne, Option.some.injEq] at hget
  rw [newSegment, ← hlast, List.dropLast_append_getLast]

/-- The active file is missing: it was new. -/
theorem Stored.survivor_dropLast (h : Stored journal fs) (hs : Survivor fs fs') {active : ℕ}
    (hactive : active + 1 = journal.length) (hmissing : active ∉ fs'.segments) :
    journal[active]? = some [] ∧ Keeps journal fs journal.dropLast fs' := by
  obtain ⟨file, hfile⟩ := mem_iff_exists_getElem?.mp (h.active active hactive)
  obtain ⟨frames, hframes, hcontents⟩ := h.contents hfile
  have hunlinked : file.linked = false := by
    rcases hs.kept active file hfile with ⟨file', hfile', -⟩ | ⟨hunlinked, -⟩
    · exact absurd (mem_iff_exists_getElem?.mpr ⟨_, hfile'⟩) hmissing
    · exact hunlinked
  obtain rfl : frames = [] :=
    (h.activeFile active file frames hfile hframes hactive).linked hunlinked
  have hnew := Journal.eq_newSegment hactive hframes
  have hextends : Journal.Extends journal.dropLast journal := by
    have hextends := Journal.extends_newSegment journal.dropLast
    rwa [← hnew] at hextends
  have hlength : journal.dropLast.length + 1 = journal.length := by
    rw [List.length_dropLast]
    omega
  have hlast {segment : ℕ} (hsegment : segment < journal.dropLast.length) :
      journal.dropLast[segment]? = journal[segment]? := by
    rw [List.getElem?_dropLast, if_pos (by omega)]
  have hsealedFile {segment : ℕ} {file' : SegmentFile} {frames : List (Frame N)}
      (hfile' : fs'.segments[segment]? = some file')
      (hframes' : journal.dropLast[segment]? = some frames) : SealedFile frames file' := by
    have hlt := (List.getElem?_eq_some_iff.mp hframes').1
    rw [hlast hlt] at hframes'
    exact hs.sealedFile h hfile' hframes' (by omega)
  have hstored : Stored journal.dropLast fs' := by
    refine ⟨(Nat.le_of_succ_le hlength.le).trans h.length_le,
      fun segment file' hfile' ↦ hs.bounded h hfile', fun segment hsegment ↦ ?_,
      fun segment file' frames hfile' hframes' _ ↦ hsealedFile hfile' hframes',
      fun segment file' frames hfile' hframes' _ ↦ ?_, fun segment hsegment ↦ ?_, ?_, ?_⟩
    · have hlt := hs.segment_lt h hsegment
      have hother : segment ≠ active := fun heq ↦ hmissing (heq ▸ hsegment)
      omega
    · have hsealed := hsealedFile hfile' hframes'
      exact ⟨hsealed.contents, hsealed.synced.le, fun hfalse ↦ by
        rw [hsealed.linked] at hfalse
        nomatch hfalse⟩
    · have hsegment' : segment + 2 = journal.length := by omega
      have hactive' : segment + 1 = active := by omega
      exact hs.mem_of_sealed h (h.previous segment file hsegment' (hactive' ▸ hfile) hunlinked)
        (by omega)
    · intro segment file' _ hfile' hfalse
      rw [(hs.synced hfile').2] at hfalse
      nomatch hfalse
    · intro segment file' hfile'
      simp [hs.unlinked] at hfile'
  refine ⟨hframes, h.keeps_survivor hs hstored hextends ?_ ?_ ?_⟩
  · intro segment file' hsegment _ entry hentry
    obtain rfl : active = segment := by omega
    rw [Journal.inSegment, hframes] at hentry
    simp [placedFrom] at hentry
  · intro segment hsegment
    exact Journal.inSegment_eq (hlast (by omega))
  · intro segment hsegment hlt
    omega

/-! ### How many records are lost -/

theorem Fs.recordCount_eq {frames : List (Frame N)} {file : SegmentFile} {name : ℕ}
    (hfile : fs.segments[name]? = some file) (hcontents : Contents frames file.bytes) :
    fs.recordCount N name = frames.length := by
  simp only [recordCount, hfile]
  exact length_segmentRecords hcontents

/-- Only the active segment loses records. -/
theorem Stored.lostRecords_eq (h : Stored journal fs) (hs : Survivor fs fs') {active : ℕ}
    {frames : List (Frame N)} (hactive : active + 1 = journal.length)
    (hframes : journal[active]? = some frames) :
    lostRecords N fs fs' = frames.length - fs'.recordCount N active := by
  obtain ⟨before, hkeys⟩ : ∃ before, fs.segments.keys = before ++ [active] := by
    have hlast := h.getLast?_keys hactive
    exact List.getLast?_eq_some_iff.mp hlast
  have hsealed : ∀ name ∈ before, fs.recordCount N name - fs'.recordCount N name = 0 := by
    intro name hname
    have hsorted := pairwise_keys fs
    rw [hkeys, List.pairwise_append] at hsorted
    have hbefore : name < active := hsorted.2.2 name hname active (by simp)
    have hpresent : name ∈ fs.segments := Std.ExtTreeMap.mem_keys.mp (by simp [hkeys, hname])
    obtain ⟨file, hfile⟩ := mem_iff_exists_getElem?.mp hpresent
    obtain ⟨frames', hframes', hcontents⟩ := h.contents hfile
    obtain ⟨file', hfile'⟩ := mem_iff_exists_getElem?.mp (hs.mem_of_sealed h hpresent (by omega))
    rw [Fs.recordCount_eq hfile hcontents, Fs.recordCount_eq hfile'
      (hs.sealedFile h hfile' hframes' (by omega)).contents, Nat.sub_self]
  obtain ⟨file, hfile⟩ := mem_iff_exists_getElem?.mp (h.active active hactive)
  obtain ⟨frames', hframes', hcontents⟩ := h.contents hfile
  rw [hframes, Option.some.injEq] at hframes'
  rw [lostRecords, hkeys, List.map_append, List.sum_append, List.map_congr_left hsealed,
    List.map_singleton, Fs.recordCount_eq hfile (hframes' ▸ hcontents)]
  simp

/-- A power loss takes the last records of the journal, and no durable ones. -/
theorem Stored.survivor (h : Stored journal fs) (hs : Survivor fs fs') :
    ∃ journal' : Journal N, Keeps journal fs journal' fs' ∧ journal'.Extends journal ∧
      journal'.entries.length + lostRecords N fs fs' = journal.entries.length := by
  by_cases hempty : journal.length = 0
  · obtain rfl := List.length_eq_zero_iff.mp hempty
    have hnone : fs.segments.keys = [] := List.eq_nil_iff_forall_not_mem.mpr fun segment hsegment ↦
      absurd (h.present segment (Std.ExtTreeMap.mem_keys.mp hsegment)) (Nat.not_lt_zero _)
    have hnofile : ∀ (segment : ℕ) (file' : SegmentFile), fs'.segments[segment]? ≠ some file' :=
      fun segment file' hfile' ↦ absurd
        (hs.segment_lt h (mem_iff_exists_getElem?.mpr ⟨file', hfile'⟩)) (Nat.not_lt_zero _)
    refine ⟨[], h.keeps_survivor hs ⟨Nat.zero_le _, fun segment file' hfile' ↦
      absurd hfile' (hnofile segment file'), fun segment hsegment ↦ hs.segment_lt h hsegment,
      fun segment file' _ hfile' ↦ absurd hfile' (hnofile segment file'),
      fun segment file' _ hfile' ↦ absurd hfile' (hnofile segment file'), nofun, nofun,
      fun segment file' hfile' ↦ ?_⟩ (.refl _) nofun (fun _ _ ↦ rfl) nofun, .refl _, ?_⟩
    · simp [hs.unlinked] at hfile'
    · rw [lostRecords, hnone]
      rfl
  · have hactive : journal.length - 1 + 1 = journal.length := by omega
    generalize journal.length - 1 = active at hactive
    cases hfile' : fs'.segments[active]? with
    | some file' =>
      obtain ⟨count, frames, hframes, hcontents, hkeeps⟩ := h.survivor_cut hs hactive hfile'
      refine ⟨_, hkeeps, Journal.cut_extends hactive hframes, ?_⟩
      rw [h.lostRecords_eq hs hactive hframes, Fs.recordCount_eq hfile' hcontents,
        @Journal.entries_cut _ journal _ count _ hactive hframes, List.length_append,
        length_placedFrom, List.length_take, List.length_drop]
      omega
    | none =>
      have hmissing : active ∉ fs'.segments := by
        rw [Std.ExtTreeMap.mem_iff_isSome_getElem?, hfile']
        exact Bool.false_ne_true
      obtain ⟨hframes, hkeeps⟩ := h.survivor_dropLast hs hactive hmissing
      have hnew := Journal.eq_newSegment hactive hframes
      have hextends := Journal.extends_newSegment journal.dropLast
      have hentries := Journal.entries_newSegment journal.dropLast
      rw [← hnew] at hextends hentries
      refine ⟨_, hkeeps, hextends, ?_⟩
      rw [h.lostRecords_eq hs hactive hframes, hentries]
      simp

/-! ### The least that is left -/

/-- What is durable of a directory, and nothing else. -/
def Fs.durablePart (fs : Fs) : Fs where
  segments := (fs.segments.filter fun _ file ↦ file.linked).map fun _ file ↦
    ⟨file.bytes.take file.synced, file.synced, true⟩
  unlinked := ∅
  checkpoints := ⟨fs.checkpoints.durable, fs.checkpoints.durable⟩
  nodes := ⟨fs.nodes.durable, fs.nodes.durable⟩

/-- A power loss may leave nothing but what is durable. -/
theorem survivor_durablePart (hsynced : ∀ (segment : ℕ) (file : SegmentFile),
    fs.segments[segment]? = some file → file.synced ≤ file.bytes.length) :
    Survivor fs fs.durablePart where
  kept name file hfile := by
    cases hlinked : file.linked with
    | true =>
      refine .inl ⟨_, ?_, file.synced, le_rfl, hsynced name file hfile, rfl⟩
      simp [Fs.durablePart, Std.ExtTreeMap.getElem?_filter, hfile, hlinked]
    | false =>
      refine .inr ⟨rfl, fun hmem ↦ ?_⟩
      obtain ⟨file', hfile'⟩ := mem_iff_exists_getElem?.mp hmem
      simp [Fs.durablePart, Std.ExtTreeMap.getElem?_filter, hfile, hlinked] at hfile'
  back name file' habsent hfile' := by
    rw [Fs.durablePart, Std.ExtTreeMap.getElem?_map, Option.map_eq_some_iff] at hfile'
    obtain ⟨file, hfile, -⟩ := hfile'
    rw [Std.ExtTreeMap.getElem?_filter] at hfile
    have hnone : fs.segments[name]? = none := Std.ExtTreeMap.getElem?_eq_none habsent
    simp [hnone] at hfile
  unlinked := rfl
  checkpoints := .inr rfl
  nodes := .inr rfl

end Sukari
