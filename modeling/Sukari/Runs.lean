import Sukari.PowerLoss
import Sukari.Restart

/-!
# Runs of an application

An application opens a directory and calls the engine, again and again (`Event`, `performEvents`).
`Reachable N written fs` holds of the directories that this can leave behind, with the records
written so far: an application may stop at any request, and a power loss may come at any request of
an application that found the names of all files durable, but of no other. `Running N written engine
fs` holds of the engines that an application has open. Every reachable directory is recoverable, up
to the names that are not durable (`Reachable.holds`), and every running engine satisfies its
invariant (`Running.ready`).
-/

set_option autoImplicit false
set_option relaxedAutoImplicit false

namespace Sukari

open Effects

variable (N : Noraft)

/-- What an application does: it opens the directory, or it calls the engine. -/
inductive Event
  | start (maxSegmentLen : ℕ)
  | call (command : Command N)

/-- The engine that the application has open, and the records that were accepted so far. -/
structure Session where
  engine : Option StorageEngine
  accepted : List (NodeId × Record N)

variable {N}

def Session.closed : Session N := ⟨none, []⟩

/-- Performs an event. Opening the directory drops the engine that was open before. -/
def Event.perform (session : Session N) : Event N → Program fileSystem (Session N)
  | .start maxSegmentLen => do
    let result ← (StorageEngine.withMaxSegmentLen N maxSegmentLen).run
    return { session with engine := result.toOption }
  | .call command =>
    match session.engine with
    | none => return session
    | some engine => do
      let (result, engine) ← (StorageEngine.call command).run engine
      return ⟨some engine, session.accepted ++ acceptedRecords command.records result⟩

def performEvents (events : List (Event N)) (session : Session N) :
    Program fileSystem (Session N) :=
  events.foldlM Event.perform session

variable (N)

/-- The states of a directory while an application performs events. -/
def visits (events : List (Event N)) (fs : Fs) : List (Visit fileSystem Fs) :=
  ⟨[], fs⟩ :: directory.trace [] (performEvents events .closed) fs

/-- The directories that applications leave behind, with the records written so far. An application
may be killed in any state; a power loss comes only when it had started with all names durable. -/
inductive Reachable : List (NodeId × Record N) → Fs → Prop
  | empty : Reachable [] .empty
  /-- The application stops, with or without having performed all events. -/
  | stop {written : List (NodeId × Record N)} {fs : Fs} {events : List (Event N)}
      {visit : Visit fileSystem Fs} (h : Reachable written fs)
      (hvisit : visit ∈ visits N events fs) :
      Reachable (written ++ recordsWritten N visit.past) visit.state
  /-- A power loss, when the names of all files were durable at the start of the application. -/
  | powerLoss {written : List (NodeId × Record N)} {fs : Fs} {events : List (Event N)}
      {visit : Visit fileSystem Fs} {fs' : Fs} (h : Reachable written fs) (hnames : fs.syncDir = fs)
      (hvisit : visit ∈ visits N events fs) (hsurvivor : Survivor visit.state fs') :
      Reachable ((written ++ recordsWritten N visit.past).take
        ((written ++ recordsWritten N visit.past).length - lostRecords N visit.state fs')) fs'

/-- The engines that applications have open, with the records written so far. -/
inductive Running : List (NodeId × Record N) → StorageEngine → Fs → Prop
  | intro {written : List (NodeId × Record N)} {fs : Fs} {events : List (Event N)}
      {engine : StorageEngine} (h : Reachable N written fs)
      (hengine : (directory.run (performEvents events .closed) fs).1.engine = some engine) :
      Running (written ++ (directory.run (performEvents events .closed) fs).1.accepted) engine
        (directory.run (performEvents events .closed) fs).2

variable {N} {ledger ledger' : Ledger N} {fs fs' : Fs} {session : Session N}

/-! ### The invariant of an application -/

/-- The directory and the engine of an application satisfy their invariants. -/
structure Served (session : Session N) (ledger : Ledger N) (fs : Fs) : Prop where
  holds : ledger.Holds fs
  linked : ActiveLinked ledger.journal fs
  ready : ∀ engine, session.engine = some engine → ∃ opened, Ready opened engine ledger fs

theorem Ready.activeLinked {opened : Ledger N} {engine : StorageEngine}
    (h : Ready opened engine ledger fs) : ActiveLinked ledger.journal fs := by
  intro active file hactive hfile
  obtain ⟨file', frames, hfile', -, -, hlinked, -⟩ := h.state.writer.file
  have hlast := h.state.writer.active
  obtain rfl : active = engine.writer.activeSegment := by
    simp only at hlast
    omega
  rw [hfile'] at hfile
  exact Option.some.inj hfile ▸ hlinked

theorem Ready.served {opened : Ledger N} {engine : StorageEngine}
    (h : Ready opened engine ledger fs) (accepted : List (NodeId × Record N)) :
    Served ⟨some engine, accepted⟩ ledger fs :=
  ⟨h.state.holds, h.activeLinked, fun _ hengine ↦ ⟨opened, Option.some.inj hengine ▸ h⟩⟩

/-- The directory of an application that has not opened it yet. -/
theorem Ledger.Holds.served (h : ledger.Holds fs) (hnames : fs.syncDir = fs) :
    Served .closed ledger fs :=
  ⟨h, hnames ▸ activeLinked_syncDir _ fs, nofun⟩

theorem Opens.written {engine : StorageEngine} (h : Opens ledger fs engine ledger' fs') :
    ledger'.journal.written = ledger.journal.written := by
  rcases h.ledger with rfl | ⟨-, rfl⟩
  · rfl
  · exact Journal.written_newSegment _

theorem refines_event (h : Served session ledger fs) (event : Event N) :
    (storage N).Refines (fun session' ledger' fs' ↦ Served session' ledger' fs' ∧
        ∃ added, session'.accepted = session.accepted ++ added ∧
          ledger'.journal.written = ledger.journal.written ++ added)
      (event.perform session) ledger fs := by
  cases event with
  | start maxSegmentLen =>
    refine .bind ((refines_withMaxSegmentLen h.holds h.linked maxSegmentLen).mono ?_)
    rintro result ledger' fs' (⟨-, hfails, rfl, rfl⟩ | ⟨-, engine, rfl, hopens⟩)
    · cases result with
      | ok engine => exact absurd trivial hfails
      | error error => exact ⟨⟨h.holds, h.linked, nofun⟩, [], by simp, by simp⟩
    · exact ⟨hopens.ready.served _, [], by simp, by simp [hopens.written]⟩
  | call command =>
    cases hengine : session.engine with
    | none =>
      simp only [Event.perform, hengine]
      exact ⟨h, [], by simp, by simp⟩
    | some engine =>
      obtain ⟨opened, hready⟩ := h.ready engine hengine
      simp only [Event.perform, hengine]
      refine .bind ((refines_call hready command).mono ?_)
      rintro ⟨result, engine'⟩ ledger' fs' hadds
      exact ⟨hadds.ready.served _, _, rfl, hadds.written⟩

theorem refines_performEvents (h : Served session ledger fs) (events : List (Event N)) :
    (storage N).Refines (fun session' ledger' fs' ↦ Served session' ledger' fs' ∧
        ∃ added, session'.accepted = session.accepted ++ added ∧
          ledger'.journal.written = ledger.journal.written ++ added)
      (performEvents events session) ledger fs := by
  induction events generalizing session ledger fs with
  | nil => exact ⟨h, [], by simp, by simp⟩
  | cons event rest ih =>
    rw [performEvents, List.foldlM_cons]
    refine .bind ((refines_event h event).mono ?_)
    rintro session' ledger' fs' ⟨hserved, added, haccepted, hwritten⟩
    refine (ih hserved).mono ?_
    rintro session'' ledger'' fs'' ⟨hserved', added', haccepted', hwritten'⟩
    refine ⟨hserved', added ++ added', ?_, ?_⟩
    · rw [haccepted', haccepted, List.append_assoc]
    · rw [hwritten', hwritten, List.append_assoc]

/-! ### The invariant of reachable directories -/

theorem Ledger.holds_empty : (⟨[], 0⟩ : Ledger N).Holds .empty := by
  have hnofile : ∀ (segment : ℕ) (file : SegmentFile), Fs.empty.segments[segment]? ≠ some file := by
    simp [Fs.empty]
  have hregistry : ∀ registry, Fs.empty.HasRegistry registry → registry = .default := by
    rintro registry ⟨document, hholds, hdocument⟩
    obtain rfl : document = none := hholds.elim id id
    exact (Except.ok.inj hdocument).symm
  have hindex : ∀ index, Fs.empty.HasIndex index → index = .default := by
    rintro index ⟨document, hholds, hdocument⟩
    obtain rfl : document = none := hholds.elim id id
    exact (Except.ok.inj hdocument).symm
  have hstored : Stored ([] : Journal N) .empty := by
    refine ⟨Nat.zero_le _, fun segment file hfile ↦ absurd hfile (hnofile segment file),
      fun segment hsegment ↦ ?_, fun segment file _ hfile ↦ absurd hfile (hnofile segment file),
      fun segment file _ hfile ↦ absurd hfile (hnofile segment file),
      fun segment hlast ↦ absurd hlast (Nat.succ_ne_zero _),
      fun segment _ hlast ↦ absurd hlast (Nat.succ_ne_zero _), fun segment file hfile ↦ ?_⟩
    · simp [Fs.empty] at hsegment
    · simp [Fs.empty] at hfile
  refine ⟨⟨hstored, ?_, ?_, ?_, ?_, ?_⟩, le_rfl, fun entry hentry ↦ by simp at hentry⟩
  · rintro document (rfl | rfl) <;> exact ⟨.default, rfl⟩
  · rintro document (rfl | rfl) <;> exact ⟨.default, rfl⟩
  · intro registry nodeId hholds hactive
    rw [hregistry registry hholds, NodeRegistry.isActive_default] at hactive
    cases hactive
  · intro index nodeId position hholds hposition
    rw [hindex index hholds] at hposition
    simp [CheckpointIndex.default] at hposition
  · intro registry index nodeId position hholds _ hactive
    rw [hregistry registry hholds, NodeRegistry.isActive_default] at hactive
    cases hactive

theorem Fs.syncDir_empty : Fs.empty.syncDir = Fs.empty := by
  have hmap : Fs.empty.syncDir.segments = Fs.empty.segments :=
    Std.ExtTreeMap.ext_getElem? fun segment ↦ by
      rw [getElem?_syncDir]
      simp [empty]
  rw [syncDir] at hmap ⊢
  simp only at hmap
  rw [hmap]
  rfl

/-- A state of an application that started with all names durable. -/
theorem Ledger.Holds.visit {events : List (Event N)} {visit : Visit fileSystem Fs}
    (h : ledger.Holds fs) (hnames : fs.syncDir = fs) (hvisit : visit ∈ visits N events fs) :
    ∃ ledger', (storage N).Steps visit.past ledger ledger' ∧ ledger'.Holds visit.state := by
  rcases List.mem_cons.mp hvisit with rfl | hvisit
  · exact ⟨ledger, .refl ledger, h⟩
  · obtain ⟨ops, ledger', hpast, hsteps, hholds⟩ :=
      (refines_performEvents (h.served hnames) events).visit hvisit
    exact ⟨ledger', by rwa [hpast], hholds⟩

/-- Every state of an application can be taken for one with all names durable. -/
theorem Ledger.Holds.visit_syncDir {events : List (Event N)} {visit : Visit fileSystem Fs}
    (h : ledger.Holds fs.syncDir) (hvisit : visit ∈ visits N events fs) :
    ∃ ledger', (storage N).Steps visit.past ledger ledger' ∧ ledger'.Holds visit.state.syncDir := by
  obtain ⟨ledger', fs', hsteps, halike, hholds⟩ :=
    visit_of_refines (refines_performEvents (h.served fs.syncDir_syncDir) events) h hvisit
  refine ⟨ledger', hsteps, ?_⟩
  rw [show visit.state.syncDir = fs'.syncDir from halike]
  exact hholds.syncDir

/-- What a power loss leaves of the ledger. -/
theorem Ledger.Holds.survivor (h : ledger.Holds fs) (hs : Survivor fs fs') :
    ∃ ledger' : Ledger N, ledger'.Holds fs' ∧ Keeps ledger.journal fs ledger'.journal fs' ∧
      ledger'.journal.Extends ledger.journal ∧ ledger'.journal.written =
        ledger.journal.written.take (ledger.journal.written.length - lostRecords N fs fs') := by
  obtain ⟨journal', hkeeps, hextends, hlost⟩ := h.recoverable.toStored.survivor hs
  refine ⟨⟨journal', 0⟩, ⟨h.recoverable.keeps hkeeps, Nat.zero_le _, fun entry hentry ↦ ?_⟩,
    hkeeps, hextends, ?_⟩
  · simp at hentry
  · have hwritten := Journal.written_prefix hextends.entries
    rw [List.prefix_iff_eq_take] at hwritten
    rw [hwritten, Journal.length_written, Journal.length_written, ← hlost, Nat.add_sub_cancel]

/-- A reachable directory is recoverable, up to the names that are not durable. -/
theorem Reachable.holds {written : List (NodeId × Record N)} (h : Reachable N written fs) :
    ∃ ledger : Ledger N, ledger.journal.written = written ∧ ledger.Holds fs.syncDir := by
  induction h with
  | empty => exact ⟨⟨[], 0⟩, rfl, Ledger.holds_empty.syncDir⟩
  | stop _ hvisit ih =>
    obtain ⟨ledger, rfl, hholds⟩ := ih
    obtain ⟨ledger', hsteps, hholds'⟩ := hholds.visit_syncDir hvisit
    exact ⟨ledger', (steps_written hsteps).1, hholds'⟩
  | powerLoss _ hnames hvisit hsurvivor ih =>
    obtain ⟨ledger, rfl, hholds⟩ := ih
    rw [hnames] at hholds
    obtain ⟨ledger', hsteps, hholds'⟩ := hholds.visit hnames hvisit
    obtain ⟨ledger'', hholds'', -, -, hwritten⟩ := hholds'.survivor hsurvivor
    exact ⟨ledger'', by rw [hwritten, (steps_written hsteps).1], hholds''.syncDir⟩

/-- A running engine satisfies its invariant, up to the names that are not durable. -/
theorem Running.ready {written : List (NodeId × Record N)} {engine : StorageEngine}
    (h : Running N written engine fs) : ∃ opened ledger : Ledger N,
      ledger.journal.written = written ∧ Ready opened engine ledger fs.syncDir := by
  obtain ⟨hreachable, hengine⟩ := h
  obtain ⟨ledger, rfl, hholds⟩ := hreachable.holds
  obtain ⟨ledger', fs', -, halike, hserved, added, haccepted, hwritten⟩ :=
    run_of_refines (refines_performEvents (hholds.served (Fs.syncDir_syncDir _)) _)
  obtain ⟨opened, hready⟩ := hserved.ready _ hengine
  refine ⟨opened, ledger', ?_, hready.of_alike halike⟩
  rw [hwritten, haccepted]
  rfl

/-- The directory at the end of all events. -/
theorem Reachable.final {written : List (NodeId × Record N)} (h : Reachable N written fs)
    (events : List (Event N)) :
    ∃ written', Reachable N written' (directory.run (performEvents events .closed) fs).2 := by
  have hlast := directory.trace_getLast [] (performEvents events .closed) fs
  have hvisit := List.getLast_mem (List.cons_ne_nil (Visit.mk [] fs)
    (directory.trace [] (performEvents events .closed) fs))
  rw [hlast] at hvisit
  exact ⟨_, .stop h hvisit⟩

/-- An application that creates a node. -/
def creatingEvents : List (Event Noraft.ofLists) :=
  [.start 64, .call (.createNode 1 ⟨true, ⟨"null"⟩⟩)]

end Sukari
