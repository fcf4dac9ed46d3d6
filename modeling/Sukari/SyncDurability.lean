import Sukari.CrashAtomicity

/-!
# What a sync makes durable

`StorageEngine::sync` does nothing when the gauges of the engine are zero, and they are zero in an
engine that was just opened. A sync that returns makes all records durable if and only if they were
durable when the engine had opened the directory, or the engine has written a record or synced a
segment since then (`sync_durable_iff`). Records that an earlier process has left without a sync may
therefore be lost after a sync that was successful (`exists_sync_not_durable`).

The names of the segment files and the JSON files are taken for durable here: a power loss is one in
`fs.syncDir`.
-/

set_option autoImplicit false
set_option relaxedAutoImplicit false

namespace Sukari

open Effects

variable {N : Noraft} {opened ledger ledger' : Ledger N} {journal : Journal N} {fs fs' : Fs}
  {engine : StorageEngine}

variable (N) in
/-- The durable bytes of every segment file hold all of its records. -/
def RecordsDurable (fs : Fs) : Prop :=
  ∀ (segment : ℕ) (file : SegmentFile), fs.segments[segment]? = some file →
    segmentRecords N (file.bytes.take file.synced) = segmentRecords N file.bytes

variable (N) in
/-- After any power loss the directory opens, and every active node loads as before. -/
def SurvivesPowerLoss (engine : StorageEngine) (fs : Fs) : Prop :=
  ∀ (maxSegmentLen : ℕ) (fs' : Fs), maxSegmentLen ≠ 0 → Survivor fs.syncDir fs' →
    ∃ engine' fs'',
      directory.run (StorageEngine.withMaxSegmentLen N maxSegmentLen).run fs' =
        (.ok engine', fs'') ∧
      ∀ nodeId, engine.registry.isActive nodeId = true →
        (directory.run ((StorageEngine.load N nodeId).run engine') fs'').1.1 =
          (directory.run ((StorageEngine.load N nodeId).run engine) fs).1.1

variable (N) in
/-- All that can be seen in a directory is durable. -/
structure EverythingDurable (engine : StorageEngine) (fs : Fs) : Prop where
  records : RecordsDurable N fs
  survives : SurvivesPowerLoss N engine fs

variable (N) in
/-- A sync has returned: an engine has opened the directory, which was then `start`, it has made
calls with the requests `past`, and its `sync` has returned `Ok`. -/
inductive SyncReturned (start : Fs) (past : List (Exchange fileSystem)) :
    StorageEngine → Fs → Prop
  | intro {written accepted : List (NodeId × Record N)} {maxSegmentLen : ℕ}
      {commands : List (Command N)} {fs fs' fs'' : Fs} {engine engine' engine'' : StorageEngine}
      (h : Reachable N written fs)
      (hopen : directory.run (StorageEngine.withMaxSegmentLen N maxSegmentLen).run fs =
        (.ok engine, start))
      (hcalls : directory.run (performEvents (commands.map .call) ⟨some engine, []⟩) start =
        (⟨some engine', accepted⟩, fs'))
      (hpast : directory.performed (performEvents (commands.map .call) ⟨some engine, []⟩) start =
        past)
      (hsync : directory.run (StorageEngine.sync.run engine') fs' = ((.ok (), engine''), fs'')) :
      SyncReturned start past engine'' fs''

/-! ### Records at risk -/

/-- A record of the active segment is not durable. -/
def TailAtRisk (journal : Journal N) (fs : Fs) : Prop :=
  ∃ active file frames, active + 1 = journal.length ∧ fs.segments[active]? = some file ∧
    journal[active]? = some frames ∧ frames ≠ [] ∧
      file.synced < segmentFileHeaderLen + (framesBytes frames).length

/-- The durable bytes of a file hold all records, or they do not reach to the end of its frames. -/
theorem segmentRecords_take_eq_iff {frames : List (Frame N)} {bytes : List UInt8} {len : ℕ}
    (h : Contents frames bytes) : segmentRecords N (bytes.take len) = segmentRecords N bytes ↔
      (frames ≠ [] → segmentFileHeaderLen + (framesBytes frames).length ≤ len) := by
  obtain ⟨count, hcount, hcut, hkept⟩ := exists_contents_take h len
  constructor
  · intro hsame hne
    have hlength := congrArg List.length hsame
    rw [length_segmentRecords hcut, length_segmentRecords h, List.length_take] at hlength
    rw [List.take_of_length_le (by omega)] at hcut
    have hend := length_le_of_contents hcut hne
    rw [List.length_take] at hend
    omega
  · intro hlen
    have hwhole : frames.take count = frames := by
      by_cases hne : frames = []
      · rw [hne, List.take_nil]
      · have hall := hkept frames.length le_rfl hne (by rw [List.take_length]; exact hlen hne)
        exact List.take_of_length_le hall
    rw [hwhole] at hcut
    rw [segmentRecords_eq 0 hcut, segmentRecords_eq 0 h]

namespace Stored

/-- All records are durable when those of the active segment are. -/
theorem recordsDurable_iff (h : Stored journal fs) :
    RecordsDurable N fs ↔ ¬ TailAtRisk journal fs := by
  constructor
  · rintro hdurable ⟨active, file, frames, -, hfile, hframes, hne, hrisk⟩
    obtain ⟨frames', hframes', hcontents⟩ := h.contents hfile
    obtain rfl : frames' = frames := Option.some.inj (hframes'.symm.trans hframes)
    have hend := (segmentRecords_take_eq_iff hcontents).mp (hdurable active file hfile) hne
    omega
  · intro hsafe segment file hfile
    obtain ⟨frames, hframes, hcontents⟩ := h.contents hfile
    have hlt := (List.getElem?_eq_some_iff.mp hframes).1
    rcases Nat.lt_or_eq_of_le (Nat.succ_le_of_lt hlt) with hsealed | hactive
    · have hsynced := (h.sealedFile segment file frames hfile hframes hsealed).synced
      rw [hsynced, List.take_length]
    · refine (segmentRecords_take_eq_iff hcontents).mpr fun hne ↦ ?_
      by_contra hrisk
      exact hsafe ⟨segment, file, frames, hactive, hfile, hframes, hne, Nat.not_le.mp hrisk⟩

/-- In terms of the journal. -/
theorem not_tailAtRisk_iff (h : Stored journal fs) :
    ¬ TailAtRisk journal fs ↔ ∀ entry ∈ journal.entries, Durable journal fs entry := by
  constructor
  · intro hsafe entry hentry
    rw [Journal.mem_entries] at hentry
    obtain ⟨-, hlt⟩ := Journal.mem_inSegment hentry
    rcases Nat.lt_or_eq_of_le (Nat.succ_le_of_lt hlt) with hsealed | hactive
    · exact .inl hsealed
    · obtain ⟨file, hfile⟩ := mem_iff_exists_getElem?.mp (h.active _ hactive)
      obtain ⟨frames, hframes, -⟩ := h.contents hfile
      rw [Journal.inSegment, hframes, Option.getD_some] at hentry
      have hend := (offset_of_mem_placedFrom hentry).2
      have hne : frames ≠ [] := by
        rintro rfl
        cases hentry
      refine .inr ⟨file, hfile, hend.trans (Nat.not_lt.mp fun hrisk ↦ hsafe ?_)⟩
      exact ⟨_, file, frames, hactive, hfile, hframes, hne, hrisk⟩
  · rintro hdurable ⟨active, file, frames, hactive, hfile, hframes, hne, hrisk⟩
    -- the last frame of the active segment is the one that is not durable
    obtain ⟨before, last, rfl⟩ := (List.eq_nil_or_concat frames).resolve_left hne
    have hplaced := mem_placedFrom_of_split active segmentFileHeaderLen before [] last
    have hentry : (⟨⟨active, segmentFileHeaderLen + (framesBytes before).length⟩, last⟩ : Entry N) ∈
        journal.entries := by
      rw [Journal.mem_entries, Journal.inSegment, hframes, Option.getD_some]
      simpa using hplaced
    rcases hdurable _ hentry with hsealed | ⟨file', hfile', hend⟩
    · simp only at hsealed
      omega
    · obtain rfl : file' = file := Option.some.inj (hfile'.symm.trans hfile)
      simp only [List.concat_eq_append, framesBytes_append, framesBytes_cons,
        List.length_append] at hrisk
      have hnil : (framesBytes ([] : List (Frame N))).length = 0 := rfl
      simp only at hend
      omega

end Stored

/-- Which names are durable does not matter for the records. -/
@[simp] theorem recordsDurable_syncDir : RecordsDurable N fs.syncDir ↔ RecordsDurable N fs := by
  constructor
  · intro h segment file hfile
    exact h segment { file with linked := true } (by rw [Fs.getElem?_syncDir, hfile]; rfl)
  · intro h segment file hfile
    rw [Fs.getElem?_syncDir, Option.map_eq_some_iff] at hfile
    obtain ⟨file', hfile', rfl⟩ := hfile
    exact h segment file' hfile'

/-! ### Requests that leave a record at risk -/

/-- The active file is still there, with no more durable bytes than before. -/
theorem TailAtRisk.of_file (h : TailAtRisk journal fs)
    (hfile : ∀ (active : ℕ) (file : SegmentFile), active + 1 = journal.length →
      fs.segments[active]? = some file →
      ∃ file', fs'.segments[active]? = some file' ∧ file'.synced ≤ file.synced) :
    TailAtRisk journal fs' := by
  obtain ⟨active, file, frames, hactive, hold, hframes, hne, hrisk⟩ := h
  obtain ⟨file', hnew, hsynced⟩ := hfile active file hactive hold
  exact ⟨active, file', frames, hactive, hnew, hframes, hne, hsynced.trans_lt hrisk⟩

theorem TailAtRisk.modifySegment (h : TailAtRisk journal fs) (name : ℕ)
    {f : SegmentFile → SegmentFile} (hf : ∀ file, (f file).synced ≤ file.synced) :
    TailAtRisk journal (fs.modifySegment name f) := by
  refine h.of_file fun active file _ hfile ↦ ?_
  rw [Fs.getElem?_modifySegment, hfile]
  by_cases hname : name = active
  · exact ⟨f file, by rw [if_pos hname]; rfl, hf file⟩
  · exact ⟨file, if_neg hname, le_rfl⟩

theorem TailAtRisk.syncDir (h : TailAtRisk journal fs) : TailAtRisk journal fs.syncDir := by
  refine h.of_file fun active file _ hfile ↦ ⟨{ file with linked := true }, ?_, le_rfl⟩
  rw [Fs.getElem?_syncDir, hfile]
  rfl

/-- The request neither writes a record nor syncs a segment. -/
def NoProgress (N : Noraft) (exchange : Exchange fileSystem) : Prop :=
  recordWritten N exchange = none ∧ ∀ segment, exchange ≠ ⟨.syncData segment, ()⟩

theorem TailAtRisk.step {op : FsOp} (h : TailAtRisk ledger.journal fs)
    (hnoProgress : NoProgress N ⟨op, Fs.reply op fs⟩)
    (hstep : Ledger.Step ⟨op, Fs.reply op fs⟩ ledger ledger')
    (hholds : ledger'.Holds (Fs.after op fs)) :
    TailAtRisk ledger'.journal (Fs.after op fs) := by
  obtain ⟨hwritten, hsync⟩ := hnoProgress
  have hstored := hholds.recoverable.toStored
  cases op with
  | writeAll name bytes =>
    by_cases haccepts : fs.accepts name bytes = true
    · have hreply : Fs.reply (.writeAll name bytes) fs = .ok () := if_pos haccepts
      have hafter : Fs.after (.writeAll name bytes) fs = fs.append name bytes := if_pos haccepts
      rw [hreply] at hstep hwritten
      rw [hafter]
      rcases hstep with ⟨frame, rfl, -⟩ | ⟨-, rfl⟩
      · rw [recordWritten_frame] at hwritten
        nomatch hwritten
      · exact h.modifySegment name fun file ↦ le_rfl
    · have hreply : Fs.reply (.writeAll name bytes) fs = .error fileTooLarge := if_neg haccepts
      have hafter : Fs.after (.writeAll name bytes) fs = fs := if_neg haccepts
      rw [hreply] at hstep
      obtain rfl : ledger' = ledger := hstep
      rwa [hafter]
  | create name =>
    have hkept (active : ℕ) (file : SegmentFile) (hfile : fs.segments[active]? = some file) :
        (fs.create name).segments[active]? = some file := by
      have hmem := mem_iff_exists_getElem?.mpr ⟨file, hfile⟩
      rw [Fs.create, Std.ExtTreeMap.getElem?_insertIfNew, if_neg, hfile]
      rintro ⟨hname, hnew⟩
      exact hnew (compare_eq_iff_eq.mp hname ▸ hmem)
    rcases hstep with rfl | rfl
    · exact h.of_file fun active file _ hfile ↦ ⟨file, hkept active file hfile, le_rfl⟩
    · -- the segment before a new one is durable
      obtain ⟨active, file, frames, hactive, hfile, hframes, hne, hrisk⟩ := h
      have hlt := (List.getElem?_eq_some_iff.mp hframes).1
      have hsame : ledger.newSegment.journal[active]? = some frames := by
        rw [Ledger.newSegment, Journal.newSegment, List.getElem?_append_left hlt, hframes]
      have hsealed := hstored.sealedFile active file frames (hkept active file hfile) hsame (by
        simp only [Ledger.newSegment, Journal.length_newSegment]
        omega)
      rw [hsealed.synced, hsealed.bytes, length_segmentBytes] at hrisk
      exact absurd hrisk (lt_irrefl _)
  | setLen name len =>
    obtain rfl : ledger' = ledger := hstep
    exact h.modifySegment name fun file ↦ min_le_left _ _
  | remove name =>
    obtain rfl : ledger' = ledger := hstep
    refine h.of_file fun active file hactive hfile ↦ ?_
    have hpresent := hstored.active active hactive
    have hother := (Fs.mem_remove.mp hpresent).1
    exact ⟨file, by
      rw [Fs.after, Fs.getElem?_remove, if_neg hother.symm, hfile], le_rfl⟩
  | syncDir =>
    obtain rfl : ledger' = ledger := hstep
    exact h.syncDir
  | syncData segment => exact absurd rfl (hsync segment)
  | replaceJson name document =>
    obtain rfl : ledger' = ledger := hstep
    refine h.of_file fun active file _ hfile ↦ ⟨file, ?_, le_rfl⟩
    cases name <;> exact hfile
  | readDir | isFile | read | fileLen | readJson =>
    obtain rfl : ledger' = ledger := hstep
    exact h

/-! ### Sessions -/

/-- An engine that has opened a reachable directory. -/
theorem Reachable.ready_of_open {written : List (NodeId × Record N)} (h : Reachable N written fs)
    {maxSegmentLen : ℕ}
    (hopen : directory.run (StorageEngine.withMaxSegmentLen N maxSegmentLen).run fs =
      (.ok engine, fs')) : ∃ ledger : Ledger N, Ready ledger engine ledger fs'.syncDir := by
  obtain ⟨ledger, -, hholds⟩ := h.holds
  obtain ⟨ledger', fs'', -, halike, hopened⟩ :=
    run_of_refines (refines_withMaxSegmentLen hholds (activeLinked_syncDir _ _) maxSegmentLen)
  rw [hopen] at halike hopened
  rcases hopened with ⟨-, hfails, -⟩ | ⟨-, engine', hengine, hopens⟩
  · exact absurd trivial hfails
  · rw [Except.ok.inj hengine]
    exact ⟨ledger', hopens.ready.of_alike halike⟩

/-- The calls of a session keep the invariant of its engine. -/
theorem refines_calls (h : Ready opened engine ledger fs) (commands : List (Command N))
    (accepted : List (NodeId × Record N)) :
    (storage N).Refines (fun session ledger' fs' ↦ ∀ engine', session.engine = some engine' →
        Ready opened engine' ledger' fs')
      (performEvents (commands.map .call) ⟨some engine, accepted⟩) ledger fs := by
  induction commands generalizing engine ledger fs accepted with
  | nil => exact fun engine' hengine ↦ Option.some.inj hengine ▸ h
  | cons command rest ih =>
    rw [List.map_cons, performEvents, List.foldlM_cons]
    refine .bind (.bind ((refines_call h command).mono ?_))
    rintro ⟨result, engine'⟩ ledger' fs' hadds
    exact ih hadds.ready _

/-- Durable records count as synced when an engine has just opened the directory. -/
theorem Ready.sync_opened (h : Ready ledger engine ledger fs) (hdurable : RecordsDurable N fs) :
    Ready ledger.sync engine ledger.sync fs := by
  have hstored := h.state.holds.recoverable.toStored
  have hall := hstored.not_tailAtRisk_iff.mp (hstored.recordsDurable_iff.mp hdurable)
  have hholds : ledger.sync.Holds fs := ⟨h.state.holds.recoverable, le_rfl,
    fun entry hentry ↦ hall entry (List.mem_of_mem_take hentry)⟩
  exact ⟨⟨hholds, h.state.writer, ⟨le_rfl, .inl rfl, h.state.gauges.grown⟩⟩, h.documented⟩

section Session

variable {start : Fs} {past : List (Exchange fileSystem)} {commands : List (Command N)}
  {accepted : List (NodeId × Record N)} {engine' : StorageEngine}

theorem Ready.calls (h : Ready opened engine ledger start.syncDir)
    (hcalls : directory.run (performEvents (commands.map .call) ⟨some engine, []⟩) start =
      (⟨some engine', accepted⟩, fs))
    (hpast : directory.performed (performEvents (commands.map .call) ⟨some engine, []⟩) start =
      past) :
    ∃ ledger', (storage N).Steps past ledger ledger' ∧ Ready opened engine' ledger' fs.syncDir := by
  obtain ⟨ledger', fs', hsteps, halike, hready⟩ := run_of_refines (refines_calls h commands [])
  rw [hpast] at hsteps
  rw [hcalls] at halike hready
  exact ⟨ledger', hsteps, (hready _ rfl).of_alike halike⟩

theorem Ready.calls_atRisk (h : Ready opened engine ledger start.syncDir)
    (hrisk : TailAtRisk ledger.journal start.syncDir)
    (hnone : ∀ exchange ∈ past, NoProgress N exchange)
    (hcalls : directory.run (performEvents (commands.map .call) ⟨some engine, []⟩) start =
      (⟨some engine', accepted⟩, fs))
    (hpast : directory.performed (performEvents (commands.map .call) ⟨some engine, []⟩) start =
      past) :
    ∃ ledger', (storage N).Steps past ledger ledger' ∧ Ready opened engine' ledger' fs.syncDir ∧
      TailAtRisk ledger'.journal fs.syncDir := by
  rw [← hpast, bisimulation_alike.performed _ (alike_syncDir start).symm] at hnone
  obtain ⟨ledger', fs', hsteps, halike, hready, hrisk'⟩ := run_of_refines
    ((refines_calls h commands []).preserves (P := fun ledger fs ↦ TailAtRisk ledger.journal fs)
      hnone hrisk fun op g g' s hallowed hP hstep hholds ↦ hP.step hallowed hstep hholds)
  rw [hpast] at hsteps
  rw [hcalls] at halike hready
  refine ⟨ledger', hsteps, (hready _ rfl).of_alike halike, ?_⟩
  rw [show fs.syncDir = fs'.syncDir from halike]
  exact hrisk'.syncDir

theorem Ready.sync (h : Ready opened engine ledger fs.syncDir)
    (hsync : directory.run (StorageEngine.sync.run engine) fs = ((.ok (), engine'), fs')) :
    ∃ ledger', Ready opened engine' ledger' fs'.syncDir ∧
      (engine.metrics.Pending ∧ ledger' = ledger.sync ∨
        ¬ engine.metrics.Pending ∧ ledger' = ledger ∧ fs'.syncDir = fs.syncDir) := by
  obtain ⟨ledger', fs'', -, halike, -, hready, hledger⟩ := run_of_refines (refines_engineSync h)
  rw [hsync] at halike hready
  refine ⟨ledger', hready.of_alike halike, hledger.imp_right ?_⟩
  rintro ⟨hidle, rfl, rfl⟩
  refine ⟨hidle, rfl, ?_⟩
  rw [show fs'.syncDir = fs.syncDir.syncDir from halike, Fs.syncDir_syncDir]

/-- A session that found all records synced, wrote one or synced a segment ends with all of them
synced. -/
theorem Ready.synced (h : Ready opened engine opened start.syncDir)
    (hsteps : (storage N).Steps past opened ledger)
    (hready : Ready opened engine' ledger fs.syncDir)
    (hprogress : opened.synced = opened.journal.entries.length ∨ recordsWritten N past ≠ [] ∨
      ∃ segment, ⟨.syncData segment, ()⟩ ∈ past) :
    ledger.synced = ledger.journal.entries.length ∨ engine'.metrics.Pending := by
  rcases hready.state.gauges.covered with rfl | hsynced | hpending
  · left
    rcases hprogress with hsynced | hwritten | ⟨segment, hmem⟩
    · exact hsynced
    · have hnone := (steps_written hsteps).1
      rw [List.self_eq_append_right] at hnone
      exact absurd hnone hwritten
    · obtain ⟨before, after, rfl⟩ := List.append_of_mem hmem
      have hcovered := synced_of_mem_past hsteps
      have hle := h.state.holds.synced_le
      omega
  · exact .inl hsynced
  · exact .inr hpending

end Session

/-- After a sync all records count as synced, when the records were durable at the start or the
engine has written a record or synced a segment. -/
theorem SyncReturned.synced {start : Fs} {past : List (Exchange fileSystem)}
    (h : SyncReturned N start past engine fs)
    (hprogress : RecordsDurable N start ∨ recordsWritten N past ≠ [] ∨
      ∃ segment, ⟨.syncData segment, ()⟩ ∈ past) :
    ∃ opened ledger : Ledger N, Ready opened engine ledger fs.syncDir ∧
      ledger.synced = ledger.journal.entries.length := by
  obtain ⟨hreachable, hopen, hcalls, hpast, hsync⟩ := h
  obtain ⟨first, hfirst⟩ := hreachable.ready_of_open hopen
  obtain ⟨opened, hopened, hcovers⟩ : ∃ opened : Ledger N, Ready opened _ opened start.syncDir ∧
      (opened.synced = opened.journal.entries.length ∨ recordsWritten N past ≠ [] ∨
        ∃ segment, ⟨.syncData segment, ()⟩ ∈ past) := by
    rcases hprogress with hdurable | hprogress
    · exact ⟨first.sync, hfirst.sync_opened (recordsDurable_syncDir.mpr hdurable), .inl rfl⟩
    · exact ⟨first, hfirst, .inr hprogress⟩
  obtain ⟨second, hsteps, hsecond⟩ := hopened.calls hcalls hpast
  obtain ⟨ledger, hready, ⟨-, rfl⟩ | ⟨hidle, rfl, -⟩⟩ := hsecond.sync hsync
  · exact ⟨opened, _, hready, rfl⟩
  · exact ⟨opened, _, hready, (hopened.synced hsteps hsecond hcovers).resolve_right hidle⟩

/-- When all records are synced, everything is durable. -/
theorem Ready.everythingDurable (h : Ready opened engine ledger fs.syncDir)
    (hsynced : ledger.synced = ledger.journal.entries.length) : EverythingDurable N engine fs := by
  have hholds := h.state.holds
  have hstored := hholds.recoverable.toStored
  constructor
  · rw [← recordsDurable_syncDir, hstored.recordsDurable_iff, hstored.not_tailAtRisk_iff]
    intro entry hentry
    exact hholds.durable entry (by rwa [hsynced, List.take_length])
  · intro maxSegmentLen fs' hmax hsurvivor
    obtain ⟨survived, hsurvived, hkeeps, hextends, -⟩ := hholds.survivor hsurvivor
    have hlength := hholds.synced_le_of_keeps hkeeps hextends
    have hentries := hextends.entries.eq_of_length_le (hsynced ▸ hlength)
    have hwritten : survived.journal.written = ledger.journal.written := by
      rw [← Journal.map_entries_written, hentries, Journal.map_entries_written]
    obtain ⟨engine', fs'', ledger', hopen, hopens⟩ := hsurvived.syncDir.opens hmax
    have hdocuments : SameDocuments fs.syncDir fs'.syncDir := by
      constructor
      · exact hsurvivor.nodes.elim (congrArg JsonFile.current) (congrArg JsonFile.current)
      · exact hsurvivor.checkpoints.elim (congrArg JsonFile.current) (congrArg JsonFile.current)
    refine ⟨engine', fs'', hopen, fun nodeId hactive ↦ ?_⟩
    have hload := h.load nodeId
    have hload' := hopens.ready.load nodeId
    have hactive' : engine'.registry.isActive nodeId = true := by
      rwa [hopens.isActive (h.documented.congr hdocuments rfl rfl)]
    rw [hactive, LoadsNode, if_pos rfl] at hload
    rw [hactive', LoadsNode, if_pos rfl, hopens.written, hwritten] at hload'
    rw [hload, hload']

/-- A record that was at risk when the engine was opened still is after a sync, when the engine has
neither written a record nor synced a segment. -/
theorem SyncReturned.atRisk {start : Fs} {past : List (Exchange fileSystem)}
    (h : SyncReturned N start past engine fs) (hrisk : ¬ RecordsDurable N start)
    (hpast : ∀ exchange ∈ past, NoProgress N exchange) : ¬ RecordsDurable N fs := by
  obtain ⟨hreachable, hopen, hcalls, rfl, hsync⟩ := h
  obtain ⟨opened, hopened⟩ := hreachable.ready_of_open hopen
  have hstored := hopened.state.holds.recoverable.toStored
  rw [← recordsDurable_syncDir, hstored.recordsDurable_iff, not_not] at hrisk
  obtain ⟨ledger, hsteps, hready, hrisk⟩ := hopened.calls_atRisk hrisk hpast hcalls rfl
  -- the gauges are zero, because no record was written
  have hsame : ledger.journal.entries.length = opened.journal.entries.length := by
    have hnone : recordsWritten N _ = [] := List.filterMap_eq_nil_iff.mpr fun exchange hexchange ↦
      (hpast exchange hexchange).1
    have hwritten := (steps_written hsteps).1
    rw [hnone, List.append_nil] at hwritten
    rw [← Journal.length_written, hwritten, Journal.length_written]
  obtain ⟨ledger', hready', ⟨hpending, -⟩ | ⟨-, rfl, hsync⟩⟩ := hready.sync hsync
  · exact absurd hsame (hready.state.gauges.grown hpending).ne'
  · rw [← recordsDurable_syncDir, hsync, hready.state.holds.recoverable.toStored.recordsDurable_iff,
      not_not]
    exact hrisk

/-- A sync makes everything durable, unless there were records at risk in the directory when it was
opened and the engine has neither written a record nor synced a segment since then. -/
theorem sync_durable_iff {start : Fs} {past : List (Exchange fileSystem)}
    (h : SyncReturned N start past engine fs) : EverythingDurable N engine fs ↔
      RecordsDurable N start ∨ recordsWritten N past ≠ [] ∨
        ∃ segment, ⟨.syncData segment, ()⟩ ∈ past := by
  constructor
  · intro hdurable
    by_contra hnone
    rw [not_or, not_or, not_not] at hnone
    obtain ⟨hrisk, hwritten, hsync⟩ := hnone
    refine h.atRisk hrisk (fun exchange hexchange ↦ ⟨?_, fun segment hsame ↦ ?_⟩) hdurable.records
    · exact List.filterMap_eq_nil_iff.mp hwritten exchange hexchange
    · exact hsync ⟨segment, hsame ▸ hexchange⟩
  · intro hprogress
    obtain ⟨opened, ledger, hready, hsynced⟩ := h.synced hprogress
    exact hready.everythingDurable hsynced

/-- A sync of an engine that has just opened the directory. -/
theorem Reachable.syncReturned {written : List (NodeId × Record N)} {start : Fs}
    {engine' : StorageEngine} {maxSegmentLen : ℕ} (h : Reachable N written fs)
    (hopen : directory.run (StorageEngine.withMaxSegmentLen N maxSegmentLen).run fs =
      (.ok engine, start))
    (hsync : directory.run (StorageEngine.sync.run engine) start = ((.ok (), engine'), fs')) :
    SyncReturned N start [] engine' fs' :=
  have hcalls : directory.run (performEvents (List.map .call ([] : List (Command N)))
      ⟨some engine, []⟩) start = (⟨some engine, []⟩, start) := rfl
  .intro h hopen hcalls rfl hsync

/-- A process opens a directory of lists. -/
def reopened (fs : Fs) : Except IoError StorageEngine × Fs :=
  directory.run (StorageEngine.withMaxSegmentLen Noraft.ofLists 64).run fs

/-- The vote that a node loads. -/
def loadedVote (nodeId : NodeId) (engine : StorageEngine) (fs : Fs) : Option (Option NodeId) :=
  (directory.run ((StorageEngine.load Noraft.ofLists nodeId).run engine) fs).1.1.toOption.map
    NodeState.votedFor

/-- The vote of node 1 is not the same after a sync, a power loss and a reopen as it was before. -/
def losesVote (left : Fs) : Bool :=
  (reopened left).1.toOption.any fun engine ↦
    let synced := directory.run (StorageEngine.sync.run engine) (reopened left).2
    let survived := reopened synced.2.syncDir.durablePart
    synced.1.1.toOption.any fun _ ↦ synced.1.2.registry.isActive 1 &&
      (synced.2.segments[1]?.any fun file ↦
        (segmentRecords Noraft.ofLists (file.bytes.take file.synced)).length ≠
          (segmentRecords Noraft.ofLists file.bytes).length) &&
      survived.1.toOption.any fun engine' ↦
        loadedVote 1 engine' survived.2 ≠ loadedVote 1 synced.1.2 synced.2

/-- The call of the second process. -/
def revotingCommands : List (Command Noraft.ofLists) := [.saveVotedFor 1 (some 3)]

/-- A vote was left without a sync, the next process writes another one, and its sync succeeds. -/
def syncsVotes (left : Fs) : Bool :=
  (reopened left).1.toOption.any fun engine ↦
    let p := performEvents (revotingCommands.map .call) ⟨some engine, []⟩
    let voted := directory.run p (reopened left).2
    (voted.1.engine.any fun engine' ↦
      let synced := directory.run (StorageEngine.sync.run engine') voted.2
      synced.1.1.toOption.isSome && synced.1.2.registry.isActive 1) &&
    !(recordsWritten Noraft.ofLists (directory.performed p (reopened left).2)).isEmpty &&
    (reopened left).2.segments[1]?.any fun file ↦
      (segmentRecords Noraft.ofLists (file.bytes.take file.synced)).length ≠
        (segmentRecords Noraft.ofLists file.bytes).length

/-- A process is stopped with a vote that it has not synced. The next one writes another vote, and
its sync makes both durable. -/
theorem sync_durable_iff_revoted : ∃ start past engine fs,
    SyncReturned Noraft.ofLists start past engine fs ∧ ¬ RecordsDurable Noraft.ofLists start ∧
      recordsWritten Noraft.ofLists past ≠ [] ∧ engine.registry.isActive 1 = true ∧
        EverythingDurable Noraft.ofLists engine fs := by
  obtain ⟨written, hreachable⟩ := Reachable.empty.final unsyncedEvents
  have hruns :
      syncsVotes (directory.run (performEvents unsyncedEvents .closed) .empty).2 = true := by
    decide +kernel
  generalize (directory.run (performEvents unsyncedEvents .closed) .empty).2 = left
    at hreachable hruns
  simp only [syncsVotes, Option.any_eq_true, toOption_eq_some_iff, Bool.and_eq_true,
    decide_eq_true_eq, Bool.not_eq_true', List.isEmpty_eq_false_iff, Option.isSome_iff_exists]
    at hruns
  obtain ⟨engine, hopen, ⟨⟨engine', hvoted, ⟨⟨⟩, hsync⟩, hactive⟩, hwritten⟩, file, hfile, hrisk⟩ :=
    hruns
  have hreturned : SyncReturned Noraft.ofLists (reopened left).2 _ _ _ :=
    .intro hreachable (Prod.ext hopen rfl) (Prod.ext (by rw [← hvoted]) rfl) rfl
      (Prod.ext (Prod.ext hsync rfl) rfl)
  refine ⟨_, _, _, _, hreturned, fun hdurable ↦ ?_, hwritten, hactive,
    (sync_durable_iff hreturned).mpr (.inr (.inl hwritten))⟩
  exact hrisk (congrArg List.length (hdurable 1 file hfile))

/-- The vote of a process that was stopped before it had synced is lost after the sync of the next
process. -/
theorem exists_sync_not_durable : ∃ start engine fs,
    SyncReturned Noraft.ofLists start [] engine fs ∧ ¬ RecordsDurable Noraft.ofLists fs ∧
      ¬ SurvivesPowerLoss Noraft.ofLists engine fs := by
  obtain ⟨written, hreachable⟩ := Reachable.empty.final unsyncedEvents
  have hruns :
      losesVote (directory.run (performEvents unsyncedEvents .closed) .empty).2 = true := by
    decide +kernel
  generalize (directory.run (performEvents unsyncedEvents .closed) .empty).2 = left
    at hreachable hruns
  simp only [losesVote, Option.any_eq_true, toOption_eq_some_iff, Bool.and_eq_true,
    decide_eq_true_eq] at hruns
  obtain ⟨engine, hopen, ⟨⟩, hsync, ⟨hactive, file, hfile, hlost⟩, engine', hreopen, hvote⟩ := hruns
  have hopened : reopened left = (.ok engine, (reopened left).2) := Prod.ext hopen rfl
  have hreturned := hreachable.syncReturned hopened (Prod.ext (Prod.ext hsync rfl) rfl)
  obtain ⟨first, hfirst⟩ := hreachable.ready_of_open hopened
  obtain ⟨ledger, hready, -⟩ := hfirst.sync (Prod.ext (Prod.ext hsync rfl) rfl)
  refine ⟨_, _, _, hreturned, fun hdurable ↦ ?_, fun hsurvives ↦ ?_⟩
  · exact hlost (congrArg List.length (hdurable 1 file hfile))
  · obtain ⟨engine'', fs'', hopen'', hloads⟩ := hsurvives 64 _ (by decide) (survivor_durablePart
      fun _ _ hfile ↦ hready.state.holds.recoverable.toStored.synced_le hfile)
    have hreopened : reopened _ = (.ok engine'', fs'') := hopen''
    rw [hreopened] at hreopen hvote
    obtain rfl : engine'' = engine' := Except.ok.inj hreopen
    exact hvote (by rw [loadedVote, hloads 1 hactive, loadedVote])

end Sukari
