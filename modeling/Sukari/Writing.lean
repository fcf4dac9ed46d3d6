import Sukari.Rules

/-!
# Writing to the active segment

What the methods of `SegmentWriter` do to the ledger. `WriterState` relates a writer to the
directory: its segment is the last one of the journal, and the file holds the frames of this segment
and nothing else. Appending a record adds one frame to the journal or leaves all records as they
are (`refines_append`); rotating adds an empty segment behind a complete and durable one; syncing
covers all records unless the gauges say that nothing is pending (`refines_sync`).
-/

set_option autoImplicit false
set_option relaxedAutoImplicit false

namespace Sukari

open Effects

variable {N : Noraft} {opened ledger ledger' : Ledger N} {fs fs' : Fs} {s : MeteredWriter}

/-! ### Ledgers that hold -/

theorem Ledger.Holds.keeps (h : ledger.Holds fs) (hsynced : ledger'.synced = ledger.synced)
    (hkeeps : Keeps ledger.journal fs ledger'.journal fs')
    (hextends : ledger.journal.Extends ledger'.journal) : ledger'.Holds fs' where
  recoverable := h.recoverable.keeps hkeeps
  synced_le := hsynced ▸ h.synced_le.trans hextends.entries.length_le
  durable entry hentry := by
    obtain ⟨rest, hrest⟩ := hextends.entries
    rw [hsynced, ← hrest, List.take_append_of_le_length h.synced_le] at hentry
    exact (hkeeps.durable entry (List.mem_of_mem_take hentry) (h.durable entry hentry)).2

/-- A request that changes neither the segments nor what is known of them. -/
theorem Ledger.Holds.of_segments_eq (h : ledger.Holds fs)
    (hrecoverable : Recoverable ledger.journal fs')
    (hsegments : fs'.segments = fs.segments) : ledger.Holds fs' where
  recoverable := hrecoverable
  synced_le := h.synced_le
  durable entry hentry := by simpa only [Durable, hsegments] using h.durable entry hentry

/-- All records are durable when the active file is. -/
theorem Stored.durable {journal : Journal N} (h : Stored journal fs)
    (hsynced : ∀ (active : ℕ) (file : SegmentFile), active + 1 = journal.length →
      fs.segments[active]? = some file → file.synced = file.bytes.length)
    {entry : Entry N} (hentry : entry ∈ journal.entries) : Durable journal fs entry := by
  have hplaced := Journal.mem_entries.mp hentry
  obtain ⟨-, hlt⟩ := Journal.mem_inSegment hplaced
  rcases Nat.lt_or_eq_of_le (Nat.succ_le_of_lt hlt) with hsealed | hlast
  · exact .inl hsealed
  · obtain ⟨file, hfile⟩ := mem_iff_exists_getElem?.mp (h.active _ hlast)
    obtain ⟨frames, hframes, hcontents⟩ := h.contents hfile
    rw [Journal.inSegment, hframes, Option.getD_some] at hplaced
    have hend := (offset_of_mem_placedFrom hplaced).2
    have hlength := length_le_of_contents hcontents fun hempty ↦ by
      simp [hempty, placedFrom] at hplaced
    exact .inr ⟨file, hfile, by rw [hsynced _ file hlast hfile]; omega⟩

theorem Ledger.Holds.syncData (h : ledger.Holds fs) {active : ℕ}
    (hactive : active + 1 = ledger.journal.length) : ledger.sync.Holds (fs.syncData active) := by
  have hstored := h.recoverable.toStored
  refine ⟨h.recoverable.keeps (Keeps.syncData hstored hactive), le_rfl, fun entry hentry ↦ ?_⟩
  refine (Keeps.syncData hstored hactive).stored.durable (fun segment file hlast hfile ↦ ?_)
    (List.mem_of_mem_take hentry)
  have hlast' : segment + 1 = ledger.journal.length := hlast
  obtain rfl : active = segment := by omega
  rw [Fs.syncData, Fs.getElem?_modifySegment, if_pos rfl, Option.map_eq_some_iff] at hfile
  obtain ⟨file', -, rfl⟩ := hfile
  rfl

/-! ### The state of a writer -/

/-- The writer stands at the end of the active file, which holds frames and nothing else. -/
structure WriterAt (writer : SegmentWriter) (journal : Journal N) (fs : Fs) : Prop where
  active : writer.activeSegment + 1 = journal.length
  file : ∃ file frames, fs.segments[writer.activeSegment]? = some file ∧
    journal[writer.activeSegment]? = some frames ∧ file.bytes = segmentBytes frames ∧
      file.linked = true ∧ writer.segmentLen = file.bytes.length

/-- The gauges say that there are records to sync. -/
def StorageMetrics.Pending (metrics : StorageMetrics) : Prop :=
  metrics.unsyncedRecords ≠ 0 ∨ metrics.unsyncedBytes ≠ 0

/-- What the gauges tell about the time since the engine was opened. -/
structure Gauges (opened ledger : Ledger N) (metrics : StorageMetrics) : Prop where
  le : opened.journal.entries.length ≤ ledger.journal.entries.length
  covered : ledger = opened ∨ ledger.synced = ledger.journal.entries.length ∨ metrics.Pending
  grown : metrics.Pending → opened.journal.entries.length < ledger.journal.entries.length

theorem Gauges.sync {metrics : StorageMetrics} (h : Gauges opened ledger metrics) :
    Gauges opened ledger.sync metrics.segmentSynced :=
  ⟨h.le, .inr (.inl rfl), fun hpending ↦ by
    simp [StorageMetrics.Pending, StorageMetrics.segmentSynced] at hpending⟩

theorem pending_recordWritten (metrics : StorageMetrics) (len : ℕ) :
    (metrics.recordWritten len).Pending := by
  left
  simp only [StorageMetrics.recordWritten, StorageMetrics.increment]
  omega

/-- The invariant of a writer. -/
structure WriterState (opened : Ledger N) (s : MeteredWriter) (ledger : Ledger N) (fs : Fs) :
    Prop where
  holds : ledger.Holds fs
  writer : WriterAt s.writer ledger.journal fs
  gauges : Gauges opened ledger s.metrics

/-- The metadata files have the same content. -/
structure SameDocuments (fs fs' : Fs) : Prop where
  nodes : fs'.nodes.current = fs.nodes.current
  checkpoints : fs'.checkpoints.current = fs.checkpoints.current

theorem SameDocuments.refl (fs : Fs) : SameDocuments fs fs := ⟨rfl, rfl⟩

theorem SameDocuments.trans {fs'' : Fs} (h : SameDocuments fs fs') (h' : SameDocuments fs' fs'') :
    SameDocuments fs fs'' := ⟨h'.nodes.trans h.nodes, h'.checkpoints.trans h.checkpoints⟩

/-! ### Syncing -/

theorem refines_syncCurrentSegment (h : WriterState opened s ledger fs) :
    (storage N).Refines (fun out ledger' fs' ↦ out = (.ok (), ⟨s.writer, s.metrics.segmentSynced⟩) ∧
        ledger' = ledger.sync ∧ fs' = fs.syncData s.writer.activeSegment ∧
        WriterState opened out.2 ledger' fs')
      (SegmentWriter.syncCurrentSegment.run s) ledger fs := by
  refine .bindMethod (refines_get ?_)
  have hholds := h.holds.syncData h.writer.active
  refine .bindMethod (refines_liftIo (refines_io ledger.sync nofun rfl hholds ?_))
  refine refines_modify ⟨rfl, rfl, rfl, hholds, ⟨h.writer.active, ?_⟩, h.gauges.sync⟩
  obtain ⟨file, frames, hfile, hframes, hbytes, hlinked, hlen⟩ := h.writer.file
  refine ⟨{ file with synced := file.bytes.length }, frames, ?_, hframes, hbytes, hlinked, hlen⟩
  change (fs.syncData s.writer.activeSegment).segments[s.writer.activeSegment]? = _
  rw [Fs.syncData, Fs.getElem?_modifySegment, if_pos rfl, hfile, Option.map_some]

/-- A sync covers all records, when the gauges say that there is something to do. -/
theorem refines_sync (h : WriterState opened s ledger fs) :
    (storage N).Refines (fun out ledger' fs' ↦ out.1 = .ok () ∧
        (s.metrics.Pending ∧ ledger' = ledger.sync ∨
          ¬ s.metrics.Pending ∧ ledger' = ledger ∧ fs' = fs) ∧
        WriterState opened out.2 ledger' fs' ∧ SameDocuments fs fs')
      (SegmentWriter.sync.run s) ledger fs := by
  refine .bindMethod (refines_get (refines_onlyIf (fun hpending ↦ ?_) fun hnone ↦ ?_))
  · refine (refines_syncCurrentSegment h).mono ?_
    rintro out ledger' fs' ⟨rfl, rfl, rfl, hstate⟩
    exact ⟨rfl, .inl ⟨hpending, rfl⟩, hstate, ⟨rfl, rfl⟩⟩
  · exact ⟨rfl, .inr ⟨hnone, rfl, rfl⟩, h, .refl fs⟩

/-! ### Writing frames -/

theorem refines_writeAll {name : ℕ} {bytes : List UInt8}
    {Q : Except IoError Unit → Ledger N → Fs → Prop}
    (ledger' : Ledger N) (h : ledger.Holds fs)
    (hduring : fs.accepts name bytes = true → ∀ len < bytes.length,
      ledger.Holds (fs.append name (bytes.take len)))
    (hstep : Ledger.Step ⟨.writeAll name bytes, .ok ()⟩ ledger ledger')
    (hholds : fs.accepts name bytes = true → ledger'.Holds (fs.append name bytes))
    (hok : fs.accepts name bytes = true → Q (.ok ()) ledger' (fs.append name bytes))
    (hfails : fs.accepts name bytes = false → Q (.error fileTooLarge) ledger fs) :
    (storage N).Refines Q (writeAll name bytes).run ledger fs := by
  refine .bindExcept ?_
  cases haccepts : fs.accepts name bytes with
  | true =>
    have hreply : Fs.reply (.writeAll name bytes) fs = .ok () := if_pos haccepts
    have hafter : Fs.after (.writeAll name bytes) fs = fs.append name bytes := if_pos haccepts
    refine refines_io ledger' ?_ (hreply ▸ hstep) (hafter ▸ hholds haccepts) ?_
    · intro fs' hfs'
      simp only [Fs.during, haccepts, if_true, List.mem_map, List.mem_range] at hfs'
      obtain ⟨len, hlen, rfl⟩ := hfs'
      exact hduring haccepts len hlen
    · rw [hreply, hafter]
      exact hok haccepts
  | false =>
    have hnot : ¬ fs.accepts name bytes = true := by simp [haccepts]
    have hreply : Fs.reply (.writeAll name bytes) fs = .error fileTooLarge := if_neg hnot
    have hafter : Fs.after (.writeAll name bytes) fs = fs := if_neg hnot
    refine refines_io ledger ?_ (hreply ▸ rfl) (hafter.symm ▸ h) ?_
    · intro fs' hfs'
      simp [Fs.during, haccepts] at hfs'
    · rw [hreply, hafter]
      exact hfails haccepts

theorem Fs.getElem?_append {active : ℕ} {file : SegmentFile} {bytes : List UInt8}
    (hfile : fs.segments[active]? = some file) : (fs.append active bytes).segments[active]? =
      some { file with bytes := file.bytes ++ bytes } := by
  rw [append, getElem?_modifySegment, if_pos rfl, hfile, Option.map_some]

/-- The end of an append. -/
theorem refines_writeFrame (h : WriterState opened s ledger fs) (frame : Frame N) :
    (storage N).Refines (fun out ledger' fs' ↦ WriterState opened out.2 ledger' fs' ∧
        SameDocuments fs fs' ∧ match out.1 with
        | .ok position => ledger' = ledger.write frame ∧ out.2.metrics.Pending ∧
          position.segment + 1 = ledger'.journal.length ∧
          [⟨position, frame⟩] <:+ ledger'.journal.entries
        | .error _ => ledger' = ledger)
      ((SegmentWriter.writeFrame frame.bytes).run s) ledger fs := by
  have hactive := h.writer.active
  obtain ⟨file, frames, hfile, hframes, hbytes, hlinked, hlen⟩ := h.writer.file
  have hlast := Journal.getElem?_write_last frame hactive hframes
  have hne : ledger.journal ≠ [] := List.length_pos_iff.mp (by omega)
  have hlength := Journal.length_write hne frame
  have hstored := h.holds.recoverable.toStored
  have hbound (haccepts : fs.accepts s.writer.activeSegment frame.bytes = true) :
      (file.bytes ++ frame.bytes).length ≤ maxFileLen := by
    simpa [Fs.accepts, hfile] using haccepts
  have hwhole : file.bytes ++ frame.bytes = segmentBytes (frames ++ [frame]) := by
    simp [hbytes, segmentBytes]
  have hentries := Journal.entries_write frame hactive hframes
  have hposition : s.writer.segmentLen = segmentFileHeaderLen + (framesBytes frames).length := by
    rw [hlen, hbytes, length_segmentBytes]
  have hholds (haccepts : fs.accepts s.writer.activeSegment frame.bytes = true) :
      (ledger.write frame).Holds (fs.append s.writer.activeSegment frame.bytes) :=
    h.holds.keeps rfl (.append hstored hactive hfile (Journal.extends_write _ frame) hlength
      hlast (hwhole ▸ contents_segmentBytes _) (.inl hlinked) (hbound haccepts))
        (Journal.extends_write _ frame)
  refine .bindMethod (refines_get (.bindMethod (refines_liftIo
    (refines_writeAll (ledger.write frame) h.holds (fun haccepts len hcut ↦ ?_)
      (.inl ⟨frame, rfl, rfl⟩) hholds (fun haccepts ↦ ?_) fun _ ↦ ⟨h, .refl fs, rfl⟩))))
  · refine h.holds.keeps rfl (.append hstored hactive hfile (.refl _) rfl hframes ?_
      (.inl hlinked) ?_) (.refl _)
    · rw [hbytes]
      exact .records _ (torn_take frame hcut)
    · have := hbound haccepts
      simp only [List.length_append, List.length_take] at this ⊢
      omega
  · have hsmall : ¬ 2 ^ 64 ≤ s.writer.segmentLen + frame.bytes.length := by
      have := hbound haccepts
      simp only [List.length_append, maxFileLen] at this
      omega
    refine .bindMethod (refines_failIf (fun hlarge ↦ absurd hlarge hsmall) fun _ ↦
      .bindMethod (refines_modify (refines_return ?_)))
    refine ⟨⟨hholds haccepts, ⟨hlength ▸ hactive, ?_⟩, ?_⟩, ⟨rfl, rfl⟩, rfl,
      pending_recordWritten _ _, hlength ▸ hactive, ?_⟩
    · refine ⟨_, frames ++ [frame], Fs.getElem?_append hfile, hlast, hwhole, hlinked, ?_⟩
      simp only [List.length_append, hlen]
    · have hgrown : ledger.journal.entries.length + 1 =
          (ledger.write frame).journal.entries.length := by
        simp only [Ledger.write, hentries, List.length_append, List.length_singleton]
      have hle := h.gauges.le
      exact ⟨by omega, .inr (.inr (pending_recordWritten _ _)), fun _ ↦ by omega⟩
    · simp only [Ledger.write, hentries, ← hposition]
      exact List.suffix_append _ _

/-! ### Starting segments -/

/-- The magic is written to a file that is still empty. -/
theorem refines_writeMagic {active : ℕ} {file : SegmentFile} (h : ledger.Holds fs)
    (hactive : active + 1 = ledger.journal.length) (hfile : fs.segments[active]? = some file)
    (hempty : file.bytes = []) (hframes : ledger.journal[active]? = some [])
    {Q : Except IoError Unit → Ledger N → Fs → Prop}
    (hQ : ledger.Holds (fs.append active segmentFormatMagic) →
      Q (.ok ()) ledger (fs.append active segmentFormatMagic)) :
    (storage N).Refines Q (writeAll active segmentFormatMagic).run ledger fs := by
  have haccepts : fs.accepts active segmentFormatMagic = true := by
    simp [Fs.accepts, hfile, hempty, segmentFormatMagic, maxFileLen]
  have hpart (bytes : List UInt8) (hstarts : bytes <+: segmentFormatMagic) :
      ledger.Holds (fs.append active bytes) := by
    have hlength := hstarts.length_le
    refine h.keeps rfl (.append h.recoverable.toStored hactive hfile (.refl _) rfl hframes ?_
      (.inr rfl) ?_) (.refl _)
    · rw [hempty, List.nil_append]
      by_cases hcut : bytes = segmentFormatMagic
      · rw [hcut]
        exact contents_segmentBytes ([] : List (Frame N))
      · exact .partialHeader bytes rfl hstarts hcut
    · simp only [hempty, List.nil_append, segmentFormatMagic, List.length_cons, List.length_nil,
        maxFileLen] at hlength ⊢
      omega
  refine refines_writeAll ledger h (fun _ len _ ↦ hpart _ (List.take_prefix _ _))
    (.inr ⟨by decide, rfl⟩)
    (fun _ ↦ hpart _ List.prefix_rfl) (fun _ ↦ hQ (hpart _ List.prefix_rfl)) fun hrefused ↦ ?_
  rw [haccepts] at hrefused
  cases hrefused

/-- A new segment behind a complete and durable one. -/
theorem refines_createActiveSegmentFile (h : ledger.Holds fs)
    (hlength : ledger.journal.length + 1 ≤ 2 ^ 64)
    (hsealed : ∀ (active : ℕ) (file : SegmentFile) (frames : List (Frame N)),
      active + 1 = ledger.journal.length → fs.segments[active]? = some file →
      ledger.journal[active]? = some frames → SealedFile frames file) :
    (storage N).Refines (fun result ledger' fs' ↦ result = .ok () ∧ ledger' = ledger.newSegment ∧
        ledger'.Holds fs' ∧ SameDocuments fs fs' ∧
        fs'.segments[ledger.journal.length]? = some ⟨segmentFormatMagic, 0, false⟩)
      (createActiveSegmentFile ledger.journal.length).run ledger fs := by
  have hstored := h.recoverable.toStored
  have hfresh : ledger.journal.length ∉ fs.segments := fun hmem ↦ (hstored.present _ hmem).false
  have hreply : Fs.reply (.create ledger.journal.length) fs = true := by
    have habsent : fs.segments.contains ledger.journal.length = false :=
      Bool.eq_false_iff.mpr fun hcontains ↦ hfresh hcontains
    simp only [Fs.reply, habsent]
    rfl
  have hholds : ledger.newSegment.Holds (fs.create ledger.journal.length) :=
    h.keeps rfl (.create hstored hlength hsealed) (Journal.extends_newSegment _)
  have hfile : (fs.create ledger.journal.length).segments[ledger.journal.length]? =
      some ⟨[], 0, false⟩ := by rw [Fs.getElem?_create hfresh, if_pos rfl]
  refine .bindExcept (refines_io ledger.newSegment nofun (.inr rfl) hholds ?_)
  rw [hreply]
  refine .bindExcept (refines_failIfExcept (fun hold ↦ nomatch hold) fun _ ↦ ?_)
  refine refines_writeMagic hholds (by simp [Ledger.newSegment]) hfile rfl ?_
    fun hmagic ↦ ⟨rfl, rfl, hmagic, ⟨rfl, rfl⟩, ?_⟩
  · simp [Ledger.newSegment, Journal.newSegment]
  · rw [Fs.getElem?_append hfile]
    rfl

theorem refines_syncDir (h : ledger.Holds fs) {Q : Except IoError Unit → Ledger N → Fs → Prop}
    (hQ : ledger.Holds fs.syncDir → Q (.ok ()) ledger fs.syncDir) :
    (storage N).Refines Q syncDir.run ledger fs := by
  have hholds : ledger.Holds fs.syncDir :=
    h.keeps rfl (.syncDir h.recoverable.toStored) (.refl _)
  exact refines_io ledger nofun rfl hholds (hQ hholds)

theorem refines_rotate (h : WriterState opened s ledger fs) :
    (storage N).Refines (fun out ledger' fs' ↦ WriterState opened out.2 ledger' fs' ∧
        SameDocuments fs fs' ∧ ledger'.journal.written = ledger.journal.written)
      (SegmentWriter.rotate.run s) ledger fs := by
  refine .bindMethod ((refines_syncCurrentSegment h).mono ?_)
  rintro _ ledger' fs' ⟨rfl, rfl, rfl, hstate⟩
  refine .bindMethod (refines_get (.bindMethod (refines_liftM ?_)))
  have hactive := h.writer.active
  by_cases hlarge : 2 ^ 64 ≤ s.writer.activeSegment + 1
  · have hfails : SegmentName.nextAppend s.writer.activeSegment =
        .error (invalidData "segment ID overflow") := by
      simp only [SegmentName.nextAppend, failIf, if_pos hlarge]
      rfl
    simp only [hfails]
    exact ⟨hstate, ⟨rfl, rfl⟩, rfl⟩
  · have hnext : SegmentName.nextAppend s.writer.activeSegment = .ok ledger.journal.length := by
      rw [← hactive]
      simp only [SegmentName.nextAppend, failIf, if_neg hlarge]
      rfl
    simp only [hnext]
    refine .bindMethod
      (refines_liftIo ((refines_createActiveSegmentFile hstate.holds ?_ ?_).mono ?_))
    · change ledger.journal.length + 1 ≤ 2 ^ 64
      omega
    · intro active file frames hlast hfile hframes
      obtain ⟨file', frames', hfile', hframes', hbytes, hlinked, -⟩ := hstate.writer.file
      have hlast' : active + 1 = ledger.journal.length := hlast
      obtain rfl : active = s.writer.activeSegment := by omega
      rw [hfile', Option.some.injEq] at hfile
      rw [hframes', Option.some.injEq] at hframes
      subst hfile hframes
      refine ⟨hbytes, ?_, hlinked⟩
      rw [Fs.syncData, Fs.getElem?_modifySegment, if_pos rfl, Option.map_eq_some_iff] at hfile'
      obtain ⟨before, -, rfl⟩ := hfile'
      rfl
    rintro _ ledger' fs' ⟨rfl, rfl, hholds, hdocuments, hfile⟩
    refine .bindMethod (refines_liftIo (refines_syncDir hholds fun hsynced ↦ ?_))
    refine refines_modify ⟨⟨hsynced, ⟨?_, ?_⟩, ?_⟩, ⟨hdocuments.nodes, hdocuments.checkpoints⟩, ?_⟩
    · simp [Ledger.newSegment, Ledger.sync]
    · refine ⟨⟨segmentFormatMagic, 0, true⟩, [], ?_, ?_, rfl, rfl, rfl⟩
      · change fs'.segments[ledger.journal.length]? = _ at hfile
        simp only [Fs.syncDir, Std.ExtTreeMap.getElem?_map, hfile]
        rfl
      · simp [Ledger.newSegment, Ledger.sync, Journal.newSegment]
    · refine ⟨?_, .inr (.inl ?_), fun hpending ↦ by
        simpa [Ledger.newSegment] using hstate.gauges.grown hpending⟩
      · simpa [Ledger.newSegment] using hstate.gauges.le
      · simp [Ledger.newSegment, Ledger.sync]
    · exact Journal.written_newSegment _

/-! ### Appending a record -/

/-- An append adds the record behind all others, or it adds nothing. -/
theorem refines_append (h : WriterState opened s ledger fs) (nodeId : NodeId) (record : Record N) :
    (storage N).Refines (fun out ledger' fs' ↦ WriterState opened out.2 ledger' fs' ∧
        SameDocuments fs fs' ∧ match out.1 with
        | .ok position =>
          ledger'.journal.written = ledger.journal.written ++ [(nodeId, record)] ∧
            out.2.metrics.Pending ∧ position.segment + 1 = ledger'.journal.length ∧
            ∃ frame : Frame N, frame.nodeRecord = (nodeId, record) ∧
              [⟨position, frame⟩] <:+ ledger'.journal.entries
        | .error _ => ledger'.journal.written = ledger.journal.written)
      ((SegmentWriter.append nodeId record).run s) ledger fs := by
  refine .bindMethod (refines_liftM ?_)
  cases hencoded : encodeRecordFrame nodeId record with
  | error error => exact ⟨h, .refl fs, rfl⟩
  | ok bytes =>
    obtain ⟨frame, rfl, rfl, rfl⟩ := encodeRecordFrame_eq_ok_iff.mp hencoded
    refine .bindMethod (refines_get (.bindMethod ?_))
    have hrotated :
        (storage N).Refines (fun out ledger' fs' ↦ WriterState opened out.2 ledger' fs' ∧
        SameDocuments fs fs' ∧ ledger'.journal.written = ledger.journal.written)
        ((onlyIf (s.writer.shouldRotate frame.bytes.length) SegmentWriter.rotate).run s)
          ledger fs :=
      refines_onlyIf (fun _ ↦ refines_rotate h) fun _ ↦ ⟨h, .refl fs, rfl⟩
    refine hrotated.mono ?_
    rintro ⟨result, s'⟩ ledger' fs' ⟨hstate, hdocuments, hwritten⟩
    cases result with
    | error error => exact ⟨hstate, hdocuments, hwritten⟩
    | ok value =>
      refine (refines_writeFrame hstate frame).mono ?_
      rintro ⟨result, s''⟩ ledger'' fs'' ⟨hstate', hdocuments', hresult⟩
      refine ⟨hstate', hdocuments.trans hdocuments', ?_⟩
      cases result with
      | error error =>
        obtain rfl : ledger'' = ledger' := hresult
        exact hwritten
      | ok position =>
        obtain ⟨rfl, hpending, hsegment, hentry⟩ := hresult
        refine ⟨?_, hpending, hsegment, frame, rfl, hentry⟩
        rw [← hwritten]
        exact Journal.written_write _ frame

end Sukari
