import Sukari.Segment

/-!
# Journals

The abstract content of a storage directory: for every segment, from the first one on, the frames
that were written to it. The last segment is the active one. Segments stay in the journal when
their files are removed. The frames of a segment stand one behind the other after its header, so a
journal gives every frame its position; `Journal.entries` lists the frames with their positions, in
the order in which they were written. `Extends` is the order of journals in time: frames are added
behind the last one, and new segments behind the active one.
-/

set_option autoImplicit false
set_option relaxedAutoImplicit false

namespace Sukari

variable {N : Noraft}

/-- The frames of every segment. -/
abbrev Journal (N : Noraft) := List (List (Frame N))

/-- A frame with the position of its first byte. -/
structure Entry (N : Noraft) where
  position : RecordPosition
  frame : Frame N

theorem RecordPosition.lt_def {first second : RecordPosition} : first < second ↔
    first.segment < second.segment ∨
      first.segment = second.segment ∧ first.offset < second.offset :=
  Prod.Lex.toLex_lt_toLex

theorem RecordPosition.segment_le {first second : RecordPosition} (h : first ≤ second) :
    first.segment ≤ second.segment := by
  rcases h.lt_or_eq with h | rfl
  · rcases RecordPosition.lt_def.mp h with h | h
    · exact h.le
    · exact h.1.le
  · exact le_rfl

/-! ### The frames of one segment -/

/-- The bytes of frames that stand one behind the other. -/
def framesBytes (frames : List (Frame N)) : List UInt8 := frames.flatMap Frame.bytes

@[simp] theorem framesBytes_nil : framesBytes ([] : List (Frame N)) = [] := rfl

@[simp] theorem framesBytes_cons (frame : Frame N) (frames : List (Frame N)) :
    framesBytes (frame :: frames) = frame.bytes ++ framesBytes frames := rfl

@[simp] theorem framesBytes_append (first second : List (Frame N)) :
    framesBytes (first ++ second) = framesBytes first ++ framesBytes second :=
  List.flatMap_append

/-- The frames with their positions, when the first one stands at the offset. -/
def placedFrom (segment : ℕ) : ℕ → List (Frame N) → List (Entry N)
  | _, [] => []
  | offset, frame :: rest =>
    ⟨⟨segment, offset⟩, frame⟩ :: placedFrom segment (offset + frame.bytes.length) rest

theorem placedFrom_append (segment offset : ℕ) (first second : List (Frame N)) :
    placedFrom segment offset (first ++ second) = placedFrom segment offset first ++
      placedFrom segment (offset + (framesBytes first).length) second := by
  induction first generalizing offset with
  | nil => simp [placedFrom]
  | cons frame rest ih => simp [placedFrom, ih, Nat.add_assoc]

@[simp] theorem map_frame_placedFrom (segment offset : ℕ) (frames : List (Frame N)) :
    (placedFrom segment offset frames).map Entry.frame = frames := by
  induction frames generalizing offset with
  | nil => rfl
  | cons frame rest ih => simp [placedFrom, ih]

@[simp] theorem length_placedFrom (segment offset : ℕ) (frames : List (Frame N)) :
    (placedFrom segment offset frames).length = frames.length := by
  rw [← List.length_map Entry.frame, map_frame_placedFrom]

/-- An entry of a segment stands behind the frames before it. -/
theorem exists_of_mem_placedFrom {segment offset : ℕ} {frames : List (Frame N)} {entry : Entry N}
    (h : entry ∈ placedFrom segment offset frames) : ∃ before after,
      frames = before ++ entry.frame :: after ∧
        entry.position = ⟨segment, offset + (framesBytes before).length⟩ := by
  induction frames generalizing offset with
  | nil => simp [placedFrom] at h
  | cons frame rest ih =>
    rcases List.mem_cons.mp h with rfl | h
    · exact ⟨[], rest, rfl, rfl⟩
    · obtain ⟨before, after, rfl, hposition⟩ := ih h
      exact ⟨frame :: before, after, rfl, by simp [hposition, Nat.add_assoc]⟩

theorem mem_placedFrom_of_split (segment offset : ℕ) (before after : List (Frame N))
    (frame : Frame N) : ⟨⟨segment, offset + (framesBytes before).length⟩, frame⟩ ∈
      placedFrom segment offset (before ++ frame :: after) := by
  rw [placedFrom_append]
  simp [placedFrom]

theorem segment_of_mem_placedFrom {segment offset : ℕ} {frames : List (Frame N)}
    {entry : Entry N} (h : entry ∈ placedFrom segment offset frames) :
    entry.position.segment = segment := by
  obtain ⟨_, _, -, hposition⟩ := exists_of_mem_placedFrom h
  rw [hposition]

theorem offset_of_mem_placedFrom {segment offset : ℕ} {frames : List (Frame N)}
    {entry : Entry N} (h : entry ∈ placedFrom segment offset frames) :
    offset ≤ entry.position.offset ∧
      entry.position.offset + entry.frame.bytes.length ≤ offset + (framesBytes frames).length := by
  obtain ⟨before, after, rfl, hposition⟩ := exists_of_mem_placedFrom h
  simp only [hposition, framesBytes_append, framesBytes_cons, List.length_append]
  omega

theorem length_bytes_pos (frame : Frame N) : 0 < frame.bytes.length := by
  rw [Frame.length_bytes]
  omega

theorem pairwise_placedFrom (segment offset : ℕ) (frames : List (Frame N)) :
    (placedFrom segment offset frames).Pairwise fun first second ↦
      first.position < second.position := by
  induction frames generalizing offset with
  | nil => exact .nil
  | cons frame rest ih =>
    refine .cons (fun entry hentry ↦ ?_) (ih _)
    have hpos := length_bytes_pos frame
    have hoffset := (offset_of_mem_placedFrom hentry).1
    exact RecordPosition.lt_def.mpr
      (.inr ⟨(segment_of_mem_placedFrom hentry).symm, by simp only; omega⟩)

namespace Journal

/-! ### The entries of a journal -/

def inSegment (journal : Journal N) (segment : ℕ) : List (Entry N) :=
  placedFrom segment segmentFileHeaderLen (journal[segment]?.getD [])

def entries (journal : Journal N) : List (Entry N) :=
  (List.range journal.length).flatMap journal.inSegment

theorem mem_inSegment {journal : Journal N} {segment : ℕ} {entry : Entry N}
    (h : entry ∈ journal.inSegment segment) :
    entry.position.segment = segment ∧ segment < journal.length := by
  refine ⟨segment_of_mem_placedFrom h, ?_⟩
  by_contra hlength
  rw [inSegment, List.getElem?_eq_none (Nat.not_lt.mp hlength)] at h
  simp [placedFrom] at h

theorem mem_entries {journal : Journal N} {entry : Entry N} :
    entry ∈ journal.entries ↔ entry ∈ journal.inSegment entry.position.segment := by
  rw [entries, List.mem_flatMap]
  constructor
  · rintro ⟨segment, -, hentry⟩
    rwa [(mem_inSegment hentry).1]
  · intro hentry
    exact ⟨_, List.mem_range.mpr (mem_inSegment hentry).2, hentry⟩

theorem segment_lt_of_mem {journal : Journal N} {entry : Entry N} (h : entry ∈ journal.entries) :
    entry.position.segment < journal.length :=
  (mem_inSegment (mem_entries.mp h)).2

/-- The entries stand in the order of their positions. -/
theorem pairwise_entries (journal : Journal N) : journal.entries.Pairwise fun first second ↦
    first.position < second.position := by
  rw [entries, List.pairwise_flatMap]
  refine ⟨fun segment _ ↦ pairwise_placedFrom _ _ _, ?_⟩
  refine List.pairwise_lt_range.imp fun hlt first hfirst second hsecond ↦ ?_
  exact RecordPosition.lt_def.mpr
    (.inl (by rwa [(mem_inSegment hfirst).1, (mem_inSegment hsecond).1]))

theorem map_frame_entries (journal : Journal N) :
    journal.entries.map Entry.frame = journal.flatten := by
  have hsegments : (List.range journal.length).map (fun segment ↦ journal[segment]?.getD []) =
      journal := by
    refine List.ext_getElem (by simp) fun index hindex _ ↦ ?_
    simp at hindex
    simp [hindex]
  calc journal.entries.map Entry.frame
      = (List.range journal.length).flatMap fun segment ↦ journal[segment]?.getD [] := by
        simp [entries, List.map_flatMap, inSegment]
    _ = journal.flatten := by rw [List.flatMap_def, hsegments]

/-- The entries of some of the segments. -/
def visible (journal : Journal N) (segments : List ℕ) : List (Entry N) :=
  journal.entries.filter fun entry ↦ entry.position.segment ∈ segments

/-- Going through segments in order meets their entries in order. -/
theorem flatMap_inSegment {journal : Journal N} {segments : List ℕ}
    (hsorted : segments.Pairwise (· < ·))
    (hbound : ∀ segment ∈ segments, segment < journal.length) :
    segments.flatMap journal.inSegment = journal.visible segments := by
  have hrange : (List.range journal.length).filter (· ∈ segments) = segments := by
    refine @List.Perm.eq_of_pairwise _ (· < ·) _ _ ?_ (List.pairwise_lt_range.filter _) hsorted
      ((List.perm_ext_iff_of_nodup (List.nodup_range.filter _) (hsorted.imp ne_of_lt)).mpr
        fun segment ↦ ?_)
    · exact fun a b _ _ hab hba ↦ absurd hab hba.asymm
    · simpa using hbound segment
  have hfilter : ∀ all : List ℕ, (all.filter (· ∈ segments)).flatMap journal.inSegment =
      (all.flatMap journal.inSegment).filter fun entry ↦ entry.position.segment ∈ segments := by
    intro all
    induction all with
    | nil => rfl
    | cons segment rest ih =>
      rw [List.flatMap_cons, List.filter_append, ← ih]
      by_cases hmem : segment ∈ segments
      · have hkeep : (journal.inSegment segment).filter
            (fun entry ↦ entry.position.segment ∈ segments) = journal.inSegment segment :=
          List.filter_eq_self.mpr fun entry hentry ↦ by
            simpa [(mem_inSegment hentry).1] using hmem
        rw [List.filter_cons_of_pos (by simpa using hmem), List.flatMap_cons, hkeep]
      · have hdrop : (journal.inSegment segment).filter
            (fun entry ↦ entry.position.segment ∈ segments) = [] :=
          List.filter_eq_nil_iff.mpr fun entry hentry ↦ by
            simpa [(mem_inSegment hentry).1] using hmem
        rw [List.filter_cons_of_neg (by simpa using hmem), hdrop, List.nil_append]
  rw [visible, entries, ← hfilter, hrange]

/-! ### Growing journals -/

/-- The journal with a new active segment. -/
def newSegment (journal : Journal N) : Journal N := journal ++ [[]]

/-- The journal with a frame behind the last one of the active segment. -/
def write (journal : Journal N) (frame : Frame N) : Journal N :=
  journal.dropLast ++ [journal.getLast?.getD [] ++ [frame]]

/-- A journal at a later time. -/
structure Extends (journal journal' : Journal N) : Prop where
  entries : journal.entries <+: journal'.entries
  length : journal.length ≤ journal'.length
  complete : ∀ segment, segment + 1 < journal.length → journal[segment]? = journal'[segment]?

theorem Extends.refl (journal : Journal N) : journal.Extends journal :=
  ⟨List.prefix_rfl, le_rfl, fun _ _ ↦ rfl⟩

theorem Extends.trans {first second third : Journal N} (h : first.Extends second)
    (h' : second.Extends third) : first.Extends third where
  entries := h.entries.trans h'.entries
  length := h.length.trans h'.length
  complete segment hsegment := (h.complete segment hsegment).trans
    (h'.complete segment (hsegment.trans_le h.length))

@[simp] theorem length_newSegment (journal : Journal N) :
    journal.newSegment.length = journal.length + 1 := by simp [newSegment]

theorem inSegment_eq {journal journal' : Journal N} {segment : ℕ}
    (h : journal[segment]? = journal'[segment]?) :
    journal.inSegment segment = journal'.inSegment segment := by rw [inSegment, inSegment, h]

@[simp] theorem entries_newSegment (journal : Journal N) :
    journal.newSegment.entries = journal.entries := by
  rw [entries, entries, length_newSegment, List.range_succ, List.flatMap_append]
  have hnew : journal.newSegment.inSegment journal.length = [] := by
    simp [inSegment, newSegment, placedFrom]
  rw [List.flatMap_singleton, hnew, List.append_nil]
  refine List.flatMap_congr fun segment hsegment ↦ inSegment_eq ?_
  rw [newSegment, List.getElem?_append_left (List.mem_range.mp hsegment)]

theorem extends_newSegment (journal : Journal N) : journal.Extends journal.newSegment where
  entries := by rw [entries_newSegment]
  length := by simp
  complete segment hsegment := by
    rw [newSegment, List.getElem?_append_left (Nat.lt_of_succ_lt hsegment)]

theorem length_write {journal : Journal N} (hne : journal ≠ []) (frame : Frame N) :
    (journal.write frame).length = journal.length := by
  have hpos := List.length_pos_iff.mpr hne
  simp only [write, List.length_append, List.length_dropLast, List.length_singleton]
  omega

theorem getElem?_write_of_lt {journal : Journal N} (frame : Frame N) {segment : ℕ}
    (h : segment + 1 < journal.length) : (journal.write frame)[segment]? = journal[segment]? := by
  have hlt : segment < journal.dropLast.length := by
    rw [List.length_dropLast]
    omega
  rw [write, List.getElem?_append_left hlt, List.getElem?_dropLast, if_pos (by omega)]

theorem getElem?_write_last {journal : Journal N} (frame : Frame N) {active : ℕ}
    {frames : List (Frame N)} (hlast : active + 1 = journal.length)
    (hframes : journal[active]? = some frames) :
    (journal.write frame)[active]? = some (frames ++ [frame]) := by
  have hlength : journal.dropLast.length = active := by
    rw [List.length_dropLast]
    omega
  have hget : journal.getLast? = some frames := by
    rw [List.getLast?_eq_getElem?, ← hlast, Nat.add_sub_cancel, hframes]
  rw [write, List.getElem?_append_right hlength.le, hlength, hget]
  simp

theorem entries_write {journal : Journal N} (frame : Frame N) {active : ℕ}
    {frames : List (Frame N)} (hlast : active + 1 = journal.length)
    (hframes : journal[active]? = some frames) :
    (journal.write frame).entries = journal.entries ++
      [⟨⟨active, segmentFileHeaderLen + (framesBytes frames).length⟩, frame⟩] := by
  have hne : journal ≠ [] := List.length_pos_iff.mp (by omega)
  have hsealed : (List.range active).flatMap (journal.write frame).inSegment =
      (List.range active).flatMap journal.inSegment :=
    List.flatMap_congr fun segment hsegment ↦ inSegment_eq
      (getElem?_write_of_lt frame (by have := List.mem_range.mp hsegment; omega))
  have hactive : (journal.write frame).inSegment active = journal.inSegment active ++
      [⟨⟨active, segmentFileHeaderLen + (framesBytes frames).length⟩, frame⟩] := by
    rw [inSegment, inSegment, getElem?_write_last frame hlast hframes, hframes, Option.getD_some,
      Option.getD_some, placedFrom_append]
    rfl
  rw [entries, entries, length_write hne, ← hlast, List.range_succ, List.flatMap_append,
    List.flatMap_append, hsealed, List.flatMap_singleton, List.flatMap_singleton, hactive,
    List.append_assoc]

theorem extends_write (journal : Journal N) (frame : Frame N) :
    journal.Extends (journal.write frame) := by
  by_cases hne : journal = []
  · subst hne
    exact ⟨List.nil_prefix, Nat.zero_le _, fun _ h ↦ nomatch h⟩
  have hpos := List.length_pos_iff.mpr hne
  obtain ⟨frames, hframes⟩ : ∃ frames, journal[journal.length - 1]? = some frames :=
    ⟨_, List.getElem?_eq_getElem (by omega)⟩
  refine ⟨?_, (length_write hne frame).ge, fun segment hsegment ↦
    (getElem?_write_of_lt frame hsegment).symm⟩
  rw [entries_write frame (by omega) hframes]
  exact List.prefix_append _ _

/-! ### The first segments of a journal -/

theorem inSegment_take (journal : Journal N) {count segment : ℕ} (h : segment < count) :
    inSegment (journal.take count) segment = journal.inSegment segment :=
  inSegment_eq (List.getElem?_take_of_lt h)

/-- Entries of the first segments are the same in the first segments alone. -/
theorem visible_take {journal : Journal N} {segments : List ℕ} {count : ℕ}
    (hsorted : segments.Pairwise (· < ·)) (hcount : ∀ segment ∈ segments, segment < count)
    (hbound : ∀ segment ∈ segments, segment < journal.length) :
    visible (journal.take count) segments = journal.visible segments := by
  rw [← flatMap_inSegment hsorted hbound, ← flatMap_inSegment hsorted fun segment hsegment ↦ ?_]
  · exact List.flatMap_congr fun segment hsegment ↦ inSegment_take journal (hcount segment hsegment)
  · rw [List.length_take]
    exact lt_min (hcount segment hsegment) (hbound segment hsegment)

theorem entries_take (journal : Journal N) (count : ℕ) :
    entries (journal.take count) <+: journal.entries := by
  by_cases hcount : journal.length ≤ count
  · rw [List.take_of_length_le hcount]
  · have hlength : (journal.take count).length = count := by
      rw [List.length_take]
      omega
    obtain ⟨rest, hrest⟩ : List.range count <+: List.range journal.length := by
      obtain ⟨more, hmore⟩ := Nat.exists_eq_add_of_le (Nat.le_of_not_le hcount)
      rw [hmore, List.range_add]
      exact List.prefix_append _ _
    rw [entries, entries, hlength, ← hrest, List.flatMap_append]
    refine ⟨rest.flatMap journal.inSegment, ?_⟩
    congr 1
    exact List.flatMap_congr fun segment hsegment ↦
      inSegment_take journal (List.mem_range.mp hsegment)

/-- A later journal without the segments that are new. -/
theorem Extends.take {journal journal' : Journal N} (h : journal.Extends journal') :
    journal.Extends (journal'.take journal.length) where
  entries := by
    refine List.prefix_of_prefix_length_le h.entries (entries_take _ _) ?_
    have hdistinct : journal.entries.Nodup :=
      journal.pairwise_entries.imp fun hlt heq ↦ (heq ▸ hlt).false
    refine (hdistinct.subperm fun entry hentry ↦ ?_).length_le
    have hlater := mem_entries.mp (h.entries.subset hentry)
    rw [← inSegment_take journal' (segment_lt_of_mem hentry)] at hlater
    exact mem_entries.mpr hlater
  length := by
    rw [List.length_take]
    exact le_min le_rfl h.length
  complete segment hsegment := by
    rw [h.complete segment hsegment, List.getElem?_take_of_lt (by omega)]

end Journal

end Sukari
