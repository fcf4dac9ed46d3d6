import Sukari.Commands

/-!
# Opening a directory

`StorageEngine.withMaxSegmentLen` opens every directory that is recoverable and whose active file
has a durable name (`refines_withMaxSegmentLen`). Recovery cuts an incomplete header or frame off
the active file (`refines_recoverStorageDir`), which is no part of the journal. Then the registry
and the index load, and the writer starts behind the last frame; in an empty directory it creates
the first segment.
-/

set_option autoImplicit false
set_option relaxedAutoImplicit false

namespace Sukari

open Effects

variable {N : Noraft} {ledger : Ledger N} {fs fs' : Fs}

/-! ### Recovery -/

/-- The file holds the frames and nothing else, or it is empty. -/
def Trimmed (frames : List (Frame N)) (file : SegmentFile) : Prop :=
  file.bytes = segmentBytes frames ∨ file.bytes = [] ∧ frames = []

/-- The active file needs no more recovery. -/
def TailTrimmed (journal : Journal N) (fs : Fs) : Prop :=
  ∀ (active : ℕ) (file : SegmentFile) (frames : List (Frame N)), active + 1 = journal.length →
    fs.segments[active]? = some file → journal[active]? = some frames → Trimmed frames file

/-- The name of the active file is durable. -/
def ActiveLinked (journal : Journal N) (fs : Fs) : Prop :=
  ∀ (active : ℕ) (file : SegmentFile), active + 1 = journal.length →
    fs.segments[active]? = some file → file.linked = true

/-- What recovery may do to a directory. -/
structure Recovers (ledger : Ledger N) (fs fs' : Fs) : Prop where
  holds : ledger.Holds fs'
  linked : ActiveLinked ledger.journal fs'
  segments : ∀ segment, segment ∈ fs'.segments ↔ segment ∈ fs.segments
  documents : SameDocuments fs fs'

theorem Recovers.refl (h : ledger.Holds fs) (hlinked : ActiveLinked ledger.journal fs) :
    Recovers ledger fs fs := ⟨h, hlinked, fun _ ↦ Iff.rfl, .refl fs⟩

theorem Recovers.trans {fs'' : Fs} (h : Recovers ledger fs fs') (h' : Recovers ledger fs' fs'') :
    Recovers ledger fs fs'' :=
  ⟨h'.holds, h'.linked, fun segment ↦ (h'.segments segment).trans (h.segments segment),
    h.documents.trans h'.documents⟩

/-- Recovery cuts the active file behind its last frame. -/
theorem Recovers.setLen (len : ℕ) {active : ℕ} {file : SegmentFile} {frames : List (Frame N)}
    (h : ledger.Holds fs) (hlinked : ActiveLinked ledger.journal fs)
    (hactive : active + 1 = ledger.journal.length) (hfile : fs.segments[active]? = some file)
    (hframes : ledger.journal[active]? = some frames)
    (htrimmed : Trimmed frames { file with bytes := file.bytes.take len })
    (hlen : frames = [] ∨ segmentFileHeaderLen + (framesBytes frames).length ≤ len) :
    Recovers ledger fs (fs.setLen active len) ∧
      TailTrimmed ledger.journal (fs.setLen active len) := by
  have hcontents : Contents frames (file.bytes.take len) := by
    rcases htrimmed with hbytes | ⟨hbytes, hempty⟩
    · simp only at hbytes
      rw [hbytes]
      exact contents_segmentBytes frames
    · simp only at hbytes
      rw [hbytes]
      exact .partialHeader [] hempty List.nil_prefix nofun
  have hfileOf {segment : ℕ} {file' : SegmentFile} (hlast : segment + 1 = ledger.journal.length)
      (hfile' : (fs.setLen active len).segments[segment]? = some file') :
      file' = { file with bytes := file.bytes.take len, synced := min file.synced len } := by
    obtain rfl : active = segment := by omega
    rw [Fs.setLen, Fs.getElem?_modifySegment, if_pos rfl, hfile, Option.map_some,
      Option.some.injEq] at hfile'
    exact hfile'.symm
  refine ⟨⟨h.keeps rfl (.setLen h.recoverable.toStored hactive hfile hframes hcontents hlen)
    (.refl _), fun segment file' hlast hfile' ↦ ?_, Fs.mem_modifySegment _ _ _, ⟨rfl, rfl⟩⟩,
    fun segment file' frames' hlast hfile' hframes' ↦ ?_⟩
  · rw [hfileOf hlast hfile']
    exact hlinked active file hactive hfile
  · obtain rfl : active = segment := by omega
    rw [hframes, Option.some.injEq] at hframes'
    rw [hfileOf hlast hfile', ← hframes']
    exact htrimmed

/-- Recovery of the active segment. -/
theorem refines_scanActiveSegment {active : ℕ} (h : ledger.Holds fs)
    (hlinked : ActiveLinked ledger.journal fs) (hactive : active + 1 = ledger.journal.length) :
    (storage N).Refines (fun result ledger' fs' ↦ result = .ok () ∧ ledger' = ledger ∧
        Recovers ledger fs fs' ∧ TailTrimmed ledger.journal fs')
      (scanSegment active true).run ledger fs := by
  have hstored := h.recoverable.toStored
  obtain ⟨file, hfile⟩ := mem_iff_exists_getElem?.mp (hstored.active active hactive)
  obtain ⟨frames, hframes, hcontents⟩ := hstored.contents hfile
  have hsame (htrimmed : Trimmed frames file) :
      Recovers ledger fs fs ∧ TailTrimmed ledger.journal fs := by
    refine ⟨.refl h hlinked, fun segment file' frames' hlast hfile' hframes' ↦ ?_⟩
    obtain rfl : active = segment := by omega
    rw [hfile, Option.some.injEq] at hfile'
    rw [hframes, Option.some.injEq] at hframes'
    exact hfile' ▸ hframes' ▸ htrimmed
  have hopen : directory.Sees (fun _ ↦ fs) (fun result _ ↦ result = .ok file.bytes)
      (openSegment active).run 0 := sees_openSegment (by rw [hfile])
  refine .bindExcept ((refines_sees h hopen).mono ?_)
  rintro _ ledger fs ⟨rfl, rfl, -, rfl⟩
  generalize hgiven : file.bytes = bytes at hcontents
  simp only
  cases hcontents with
  | partialHeader _ hempty hstarts hcut =>
    have hshort := length_lt_of_cut hstarts hcut
    by_cases hlength : bytes.length = 0
    · simp only [readSegmentHeader, if_pos hlength]
      exact ⟨rfl, rfl, hsame (.inr ⟨hgiven.trans (List.length_eq_zero_iff.mp hlength), hempty⟩)⟩
    · have htrim := Recovers.setLen 0 h hlinked hactive hfile hframes
        (.inr ⟨rfl, hempty⟩) (.inl hempty)
      simp only [readSegmentHeader, if_neg hlength, if_pos hshort]
      exact .bindExcept (.bindExcept
        (refines_io ledger (List.forall_mem_nil _) rfl htrim.1.holds ⟨rfl, rfl, htrim⟩))
  | records tail htail =>
    have hlength : (segmentBytes frames ++ tail).length =
        segmentFileHeaderLen + (framesBytes frames).length + tail.length := by
      rw [List.length_append, length_segmentBytes]
    have hseek : Stream.seek (segmentBytes frames ++ tail) segmentFileHeaderLen =
        ⟨segmentFileHeaderLen, framesBytes frames ++ tail⟩ := by
      rw [Stream.seek, segmentBytes, List.append_assoc]
      rfl
    have hrounds : frames.length < (segmentBytes frames ++ tail).length + 1 := by
      have := length_le_length_framesBytes frames
      omega
    have hheader : (readSegmentHeader active (segmentBytes frames ++ tail) true true).run =
        .done (.ok true) := by
      rw [segmentBytes, List.append_assoc]
      exact readSegmentHeader_whole _ _ _ _
    have hvisit : ∀ entries : List (Entry N), entries.foldlM
        (fun _ _ ↦ (pure () : Except IoError Unit)) () = .ok () := by
      intro entries
      induction entries with
      | nil => rfl
      | cons entry rest ih => exact ih
    refine .bindExcept ?_
    rw [hheader]
    refine .bindExcept (refines_liftExcept ?_)
    simp only [fromHeader]
    refine .bindExcept (refines_liftExcept ?_)
    rw [hseek, recordLoop_frames readsFrames_scanRecordFrame active htail true hrounds hlength,
      hvisit]
    by_cases hcut : tail = []
    · simp only [hcut, if_true]
      refine ⟨rfl, rfl, hsame (.inl ?_)⟩
      rw [hgiven, hcut, List.append_nil]
    · have htrim := Recovers.setLen (segmentFileHeaderLen + (framesBytes frames).length) h hlinked
        hactive hfile hframes (.inl (by
          rw [hgiven, ← length_segmentBytes]
          exact List.take_left)) (.inr le_rfl)
      simp only [hcut, if_false]
      exact .bindExcept (refines_onlyIfExcept (fun _ ↦ refines_io ledger (List.forall_mem_nil _)
        rfl htrim.1.holds ⟨rfl, rfl, htrim⟩) fun hnot ↦ absurd trivial hnot)

/-- Recovery of a sealed segment finds nothing to cut off. -/
theorem scanSealedSegment_sees {journal : Journal N} (h : Stored journal fs) {segment : ℕ}
    (hpresent : segment ∈ fs.segments) (hsealed : segment + 1 < journal.length) :
    directory.Sees (fun _ ↦ fs) (fun result _ ↦ result = .ok ())
      (scanSegment segment false).run 0 := by
  obtain ⟨file, hfile⟩ := mem_iff_exists_getElem?.mp hpresent
  obtain ⟨frames, hframes, hcontents⟩ := h.contents hfile
  have hbytes := (h.sealedFile segment file frames hfile hframes hsealed).bytes
  have hvisit : ∀ entries : List (Entry N), entries.foldlM
      (fun _ _ ↦ (pure () : Except IoError Unit)) () = .ok () := by
    intro entries
    induction entries with
    | nil => rfl
    | cons entry rest ih => exact ih
  refine (passSegment_sees readsFrames_scanRecordFrame hfile (List.nil_append frames ▸ hcontents)
    (fun _ ↦ hbytes) fun _ ↦ rfl).mono ?_
  rintro result stop ⟨-, rfl⟩
  exact hvisit _

/-- Recovery goes through the segments of the directory. -/
theorem refines_scanSegments {segments : List ℕ} {active : ℕ} (h : ledger.Holds fs)
    (hlinked : ActiveLinked ledger.journal fs) (hactive : active + 1 = ledger.journal.length)
    (hlisted : ∀ segment ∈ segments, segment ≠ active → segment ∈ fs.segments) :
    (storage N).Refines (fun result ledger' fs' ↦ result = .ok () ∧ ledger' = ledger ∧
        Recovers ledger fs fs' ∧
        (TailTrimmed ledger.journal fs ∨ active ∈ segments → TailTrimmed ledger.journal fs'))
      (segments.forM fun segment ↦ scanSegment segment (segment == active)).run ledger fs := by
  induction segments generalizing fs with
  | nil => exact ⟨rfl, rfl, .refl h hlinked, fun htrimmed ↦ htrimmed.elim id nofun⟩
  | cons segment rest ih =>
    refine .bindExcept ?_
    by_cases hsame : segment = active
    · subst hsame
      simp only [beq_self_eq_true]
      refine (refines_scanActiveSegment h hlinked hactive).mono ?_
      rintro _ ledger fs₁ ⟨rfl, rfl, hrecovers, htrimmed⟩
      refine (ih hrecovers.holds hrecovers.linked fun other hother hne ↦
        (hrecovers.segments other).mpr (hlisted other (by simp [hother]) hne)).mono ?_
      rintro _ ledger fs₂ ⟨rfl, rfl, hrecovers', htrimmed'⟩
      exact ⟨rfl, rfl, hrecovers.trans hrecovers', fun _ ↦ htrimmed' (.inl htrimmed)⟩
    · have hstored := h.recoverable.toStored
      have hpresent := hlisted segment (by simp) hsame
      have hsealed : segment + 1 < ledger.journal.length := by
        have := hstored.present segment hpresent
        omega
      simp only [beq_false_of_ne hsame]
      refine (refines_sees h (scanSealedSegment_sees hstored hpresent hsealed)).mono ?_
      rintro _ ledger fs ⟨rfl, rfl, -, rfl⟩
      refine (ih h hlinked fun other hother ↦ hlisted other (by simp [hother])).mono ?_
      rintro _ ledger fs₂ ⟨rfl, rfl, hrecovers, htrimmed⟩
      refine ⟨rfl, rfl, hrecovers, fun hcase ↦ htrimmed (hcase.imp id fun hmem ↦ ?_)⟩
      rcases List.mem_cons.mp hmem with heq | hmem
      · exact absurd heq.symm hsame
      · exact hmem

/-- The active segment is the last one of the journal, or the first one there will be. -/
theorem selectActiveAppendSegment_recovered {journal : Journal N} (h : Stored journal fs) :
    directory.Sees (fun _ ↦ fs) (fun result _ ↦ result = .ok (journal.length - 1))
      selectActiveAppendSegment.run 0 := by
  refine .bindExcept (h.discoverSegmentPaths_sees.mono ?_)
  rintro _ stop rfl
  refine congrArg Except.ok ?_
  rcases List.eq_nil_or_concat journal with rfl | ⟨before, last, rfl⟩
  · have hnone : fs.segments.keys = [] := List.eq_nil_iff_forall_not_mem.mpr fun segment hsegment ↦
      absurd (h.present segment (Std.ExtTreeMap.mem_keys.mp hsegment)) (Nat.not_lt_zero _)
    rw [hnone]
    rfl
  · have hmax : fs.segments.keys.max? = some before.length := by
      refine List.max?_eq_some_iff.mpr ⟨Std.ExtTreeMap.mem_keys.mpr (h.active _ (by simp)),
        fun segment hsegment ↦ ?_⟩
      have := h.present segment (Std.ExtTreeMap.mem_keys.mp hsegment)
      simp only [List.concat_eq_append, List.length_append, List.length_singleton] at this
      omega
    rw [hmax]
    simp

theorem refines_recoverStorageDir (h : ledger.Holds fs) (hlinked : ActiveLinked ledger.journal fs) :
    (storage N).Refines (fun result ledger' fs' ↦ result = .ok () ∧ ledger' = ledger ∧
        Recovers ledger fs fs' ∧ TailTrimmed ledger.journal fs')
      (recoverStorageDir (ledger.journal.length - 1)).run ledger fs := by
  have hstored := h.recoverable.toStored
  refine .bindExcept ((refines_sees h hstored.discoverSegmentPaths_sees).mono ?_)
  rintro _ ledger fs ⟨rfl, rfl, -, rfl⟩
  by_cases hempty : ledger.journal.length = 0
  · have hnone : fs.segments.keys = [] :=
      List.eq_nil_iff_forall_not_mem.mpr fun segment hsegment ↦ by
      have := hstored.present segment (Std.ExtTreeMap.mem_keys.mp hsegment)
      omega
    simp only [hnone]
    refine ⟨rfl, rfl, .refl h hlinked, fun active file frames hactive ↦ ?_⟩
    omega
  · have hactive : ledger.journal.length - 1 + 1 = ledger.journal.length := by omega
    refine (refines_scanSegments h hlinked hactive fun segment hsegment _ ↦
      Std.ExtTreeMap.mem_keys.mp hsegment).mono ?_
    rintro _ ledger fs' ⟨rfl, rfl, hrecovers, htrimmed⟩
    exact ⟨rfl, rfl, hrecovers,
      htrimmed (.inr (Std.ExtTreeMap.mem_keys.mpr (hstored.active _ hactive)))⟩

/-! ### Starting the writer -/

theorem Gauges.opened (ledger : Ledger N) : Gauges ledger ledger .default :=
  ⟨le_rfl, .inl rfl, fun hpending ↦ by
    simp [StorageMetrics.Pending, StorageMetrics.default] at hpending⟩

theorem refines_fileLen (h : ledger.Holds fs) {name : ℕ} {file : SegmentFile}
    (hfile : fs.segments[name]? = some file) {Q : Except IoError ℕ → Ledger N → Fs → Prop}
    (hQ : Q (.ok file.bytes.length) ledger fs) :
    (storage N).Refines Q (io (.fileLen name)).run ledger fs := by
  have hlen : Fs.reply (.fileLen name) fs = file.bytes.length := by
    simp only [Fs.reply, Fs.fileLen, hfile]
    rfl
  refine refines_io ledger (List.forall_mem_nil _) rfl h ?_
  rw [hlen]
  exact hQ

/-- The header is written to the active file if it is empty. -/
theorem refines_openActiveSegmentFile {active : ℕ} {file : SegmentFile} {frames : List (Frame N)}
    (h : ledger.Holds fs) (hlinked : file.linked = true)
    (hactive : active + 1 = ledger.journal.length) (hfile : fs.segments[active]? = some file)
    (hframes : ledger.journal[active]? = some frames) (htrimmed : Trimmed frames file) :
    (storage N).Refines (fun result ledger' fs' ↦ result = .ok () ∧ ledger' = ledger ∧
        ledger.Holds fs' ∧ SameDocuments fs fs' ∧ ∃ file', fs'.segments[active]? = some file' ∧
          file'.bytes = segmentBytes frames ∧ file'.linked = true)
      (openActiveSegmentFile active).run ledger fs := by
  have hpresent : active ∈ fs.segments := h.recoverable.active active hactive
  have hcreate : Fs.after (.create active) fs = fs := Fs.create_of_mem hpresent
  refine .bindExcept (refines_io ledger nofun (.inl rfl) (by rwa [hcreate]) ?_)
  rw [hcreate]
  refine .bindExcept (refines_fileLen h hfile (refines_onlyIfExcept (fun hlen ↦ ?_) fun hlen ↦ ?_))
  · have hempty := List.length_eq_zero_iff.mp hlen
    obtain rfl : frames = [] := by
      rcases htrimmed with hbytes | ⟨-, hnone⟩
      · rw [hempty] at hbytes
        nomatch hbytes
      · exact hnone
    refine refines_writeMagic h hactive hfile hempty hframes fun hholds ↦
      ⟨rfl, rfl, hholds, ⟨rfl, rfl⟩, _, Fs.getElem?_append hfile, ?_, hlinked⟩
    rw [hempty]
    rfl
  · refine ⟨rfl, rfl, h, .refl fs, file, hfile, ?_, hlinked⟩
    rcases htrimmed with hbytes | ⟨hbytes, -⟩
    · exact hbytes
    · exact absurd (List.length_eq_zero_iff.mpr hbytes) hlen

/-- The writer is opened on the active segment of the journal. -/
theorem refines_newWriter (h : ledger.Holds fs) (hlinked : ActiveLinked ledger.journal fs)
    (htrimmed : TailTrimmed ledger.journal fs) (hne : ledger.journal.length ≠ 0)
    (maxSegmentLen : ℕ) :
    (storage N).Refines (fun result ledger' fs' ↦ ∃ writer, result = .ok writer ∧
        ledger' = ledger ∧ WriterState ledger ⟨writer, .default⟩ ledger fs' ∧ SameDocuments fs fs')
      (SegmentWriter.new (ledger.journal.length - 1) maxSegmentLen).run ledger fs := by
  have hactive : ledger.journal.length - 1 + 1 = ledger.journal.length := by omega
  generalize ledger.journal.length - 1 = active at hactive ⊢
  have hpresent : active ∈ fs.segments := h.recoverable.active active hactive
  obtain ⟨file, hfile⟩ := mem_iff_exists_getElem?.mp hpresent
  have hframes : ledger.journal[active]? = some ledger.journal[active] :=
    List.getElem?_eq_getElem (by omega)
  have hexisted : Fs.reply (.isFile active) fs = true := hpresent
  refine .bindExcept (refines_io ledger (List.forall_mem_nil _) rfl h ?_)
  rw [hexisted]
  refine .bindExcept ((refines_openActiveSegmentFile h (hlinked active file hactive hfile) hactive
    hfile hframes (htrimmed active file _ hactive hfile hframes)).mono ?_)
  rintro _ ledger fs' ⟨rfl, rfl, hholds, hdocuments, file', hfile', hbytes, hlinked'⟩
  refine .bindExcept (refines_onlyIfExcept (fun hmissing ↦ nomatch hmissing) fun _ ↦ ?_)
  refine .bindExcept (refines_fileLen hholds hfile' ?_)
  exact ⟨_, rfl, rfl, ⟨hholds, ⟨hactive, file', _, hfile', hframes, hbytes, hlinked', rfl⟩,
    .opened ledger⟩, hdocuments⟩

/-- In an empty directory the writer creates the first segment. -/
theorem refines_newWriter_empty (h : ledger.Holds fs) (hempty : ledger.journal.length = 0)
    (maxSegmentLen : ℕ) :
    (storage N).Refines (fun result ledger' fs' ↦ ∃ writer, result = .ok writer ∧
        ledger' = ledger.newSegment ∧ WriterState ledger' ⟨writer, .default⟩ ledger' fs' ∧
        SameDocuments fs fs')
      (SegmentWriter.new (ledger.journal.length - 1) maxSegmentLen).run ledger fs := by
  have hstored := h.recoverable.toStored
  have hfirst : ledger.journal.length - 1 = ledger.journal.length := by omega
  rw [hfirst]
  have hfresh : ledger.journal.length ∉ fs.segments := fun hmem ↦ (hstored.present _ hmem).false
  have hexisted : Fs.reply (.isFile ledger.journal.length) fs = false :=
    Bool.eq_false_iff.mpr hfresh
  have hcreated : ledger.newSegment.Holds (fs.create ledger.journal.length) :=
    h.keeps rfl (.create hstored (by omega) fun active file frames hactive ↦ by omega)
      (Journal.extends_newSegment _)
  have hfile : (fs.create ledger.journal.length).segments[ledger.journal.length]? =
      some ⟨[], 0, false⟩ := by rw [Fs.getElem?_create hfresh, if_pos rfl]
  have hactive : ledger.journal.length + 1 = ledger.newSegment.journal.length := by
    simp [Ledger.newSegment]
  have hframes : ledger.newSegment.journal[ledger.journal.length]? = some [] := by
    simp [Ledger.newSegment, Journal.newSegment]
  refine .bindExcept (refines_io ledger (List.forall_mem_nil _) rfl h ?_)
  rw [hexisted]
  refine .bindExcept (.bindExcept (refines_io ledger.newSegment (List.forall_mem_nil _)
    (.inr rfl) hcreated ?_))
  refine .bindExcept (refines_fileLen hcreated hfile (refines_onlyIfExcept (fun _ ↦ ?_) fun hlen ↦
    absurd rfl hlen))
  refine refines_writeMagic hcreated hactive hfile rfl hframes fun hmagic ↦ ?_
  refine .bindExcept (refines_onlyIfExcept (fun _ ↦ ?_) fun hmissing ↦ absurd rfl hmissing)
  refine refines_syncDir hmagic fun hsynced ↦ ?_
  have hfile' : ((fs.create ledger.journal.length).append ledger.journal.length
      segmentFormatMagic).syncDir.segments[ledger.journal.length]? =
        some ⟨segmentFormatMagic, 0, true⟩ := by
    rw [Fs.getElem?_syncDir, Fs.getElem?_append hfile]
    rfl
  refine .bindExcept (refines_fileLen hsynced hfile' ?_)
  exact ⟨_, rfl, rfl, ⟨hsynced, ⟨hactive, _, _, hfile', hframes, rfl, rfl, rfl⟩, .opened _⟩,
    ⟨rfl, rfl⟩⟩

/-! ### Opening the engine -/

/-- The registry and the index of a directory at rest load. -/
theorem loadDocuments_recovered {journal : Journal N} (h : Recoverable journal fs) :
    ∃ registry, NodeRegistry.ofFile fs.nodes.current = .ok registry ∧
      directory.Sees (fun _ ↦ fs) (fun result _ ↦ result = .ok registry) NodeRegistry.load.run 0 ∧
      directory.Sees (fun _ ↦ fs) (fun result _ ↦ ∃ index, result = .ok index ∧
        ∀ engine : StorageEngine, engine.registry = registry → engine.checkpointIndex = index →
          Documented engine fs) (CheckpointIndex.load N registry).run 0 := by
  obtain ⟨registry, hregistry⟩ := h.registries _ (.inl rfl)
  refine ⟨registry, hregistry, nodeRegistry_load_sees.mono ?_,
    (checkpointIndex_load_sees h.tended registry).mono ?_⟩
  · rintro _ stop ⟨-, rfl⟩
    exact hregistry
  · rintro result stop ⟨stored, hstored, ⟨index, rfl, -, hindex⟩ |
      ⟨-, nodeId, position, u, -, hactive, hposition, hgone⟩⟩
    · refine ⟨index, rfl, ?_⟩
      rintro engine rfl rfl
      exact ⟨⟨_, hregistry, fun _ ↦ rfl⟩, stored, hstored, hindex⟩
    · exact absurd (h.markedPresent registry stored nodeId position ⟨_, .inl rfl, hregistry⟩
        ⟨_, .inl rfl, hstored⟩ hactive hposition) hgone

/-- An engine opened on a directory. -/
structure Opens (ledger : Ledger N) (fs : Fs) (engine : StorageEngine) (ledger' : Ledger N)
    (fs' : Fs) : Prop where
  ready : Ready ledger' engine ledger' fs'
  documents : SameDocuments fs fs'
  metrics : engine.metrics = .default
  ledger : ledger' = ledger ∨ ledger.journal.length = 0 ∧ ledger' = ledger.newSegment

/-- An engine that was opened has the active nodes of the registry file. -/
theorem Opens.isActive_eq {ledger ledger' : Ledger N} {engine : StorageEngine}
    {registry : NodeRegistry} (h : Opens ledger fs engine ledger' fs')
    (hregistry : NodeRegistry.ofFile fs.nodes.current = .ok registry) (nodeId : NodeId) :
    engine.registry.isActive nodeId = registry.isActive nodeId := by
  obtain ⟨registry', hregistry', hsame⟩ := h.ready.documented.registry
  rw [h.documents.nodes] at hregistry'
  rw [← hsame, Except.ok.inj (hregistry'.symm.trans hregistry)]

/-- The active nodes are the ones of an engine that had the directory open before. -/
theorem Opens.isActive {ledger ledger' : Ledger N} {engine engine' : StorageEngine}
    (h : Opens ledger fs engine' ledger' fs') (hdocumented : Documented engine fs)
    (nodeId : NodeId) : engine'.registry.isActive nodeId = engine.registry.isActive nodeId := by
  obtain ⟨registry, hregistry, hsame⟩ := hdocumented.registry
  rw [h.isActive_eq hregistry, hsame]

/-- A recoverable directory can be opened. -/
theorem refines_withMaxSegmentLen (h : ledger.Holds fs) (hlinked : ActiveLinked ledger.journal fs)
    (maxSegmentLen : ℕ) :
    (storage N).Refines (fun result ledger' fs' ↦
        (maxSegmentLen = 0 ∧ ¬ Succeeds result ∧ ledger' = ledger ∧ fs' = fs) ∨
          maxSegmentLen ≠ 0 ∧ ∃ engine, result = .ok engine ∧ Opens ledger fs engine ledger' fs')
      (StorageEngine.withMaxSegmentLen N maxSegmentLen).run ledger fs := by
  refine .bindExcept (refines_failIfExcept (fun hzero ↦ .inl ⟨hzero, not_false, rfl, rfl⟩)
    fun hnonzero ↦ ?_)
  refine .bindExcept ((refines_sees h (selectActiveAppendSegment_recovered
    h.recoverable.toStored)).mono ?_)
  rintro _ ledger fs ⟨rfl, rfl, -, rfl⟩
  refine .bindExcept ((refines_recoverStorageDir h hlinked).mono ?_)
  rintro _ ledger fs₁ ⟨rfl, rfl, hrecovers, htrimmed⟩
  have hholds := hrecovers.holds
  obtain ⟨registry, hregistry, hloads, hindexes⟩ := loadDocuments_recovered hholds.recoverable
  refine .bindExcept ((refines_sees hholds hloads).mono ?_)
  rintro _ ledger fs₁ ⟨rfl, rfl, -, rfl⟩
  refine .bindExcept ((refines_sees hholds hindexes).mono ?_)
  rintro _ ledger fs₁ ⟨rfl, rfl, -, index, rfl, hdocumented⟩
  have hengine (writer : SegmentWriter) {ledger' : Ledger N} {fs₂ : Fs}
      (hstate : WriterState ledger' ⟨writer, .default⟩ ledger' fs₂)
      (hdocuments : SameDocuments fs₁ fs₂)
      (hledger : ledger' = ledger ∨ ledger.journal.length = 0 ∧ ledger' = ledger.newSegment) :
      Opens ledger fs ⟨.default, registry, index, writer⟩ ledger' fs₂ :=
    ⟨⟨hstate, (hdocumented ⟨.default, registry, index, writer⟩ rfl rfl).congr hdocuments rfl rfl⟩,
      hrecovers.documents.trans hdocuments, rfl, hledger⟩
  by_cases hempty : ledger.journal.length = 0
  · refine .bindExcept ((refines_newWriter_empty hholds hempty maxSegmentLen).mono ?_)
    rintro _ ledger' fs₂ ⟨writer, rfl, hledger, hstate, hdocuments⟩
    exact .inr ⟨hnonzero, _, rfl, hengine writer hstate hdocuments (.inr ⟨hempty, hledger⟩)⟩
  · refine .bindExcept ((refines_newWriter hholds hrecovers.linked htrimmed hempty
      maxSegmentLen).mono ?_)
    rintro _ ledger' fs₂ ⟨writer, rfl, rfl, hstate, hdocuments⟩
    exact .inr ⟨hnonzero, _, rfl, hengine writer hstate hdocuments (.inl rfl)⟩

end Sukari
