import Sukari.Processes
import Sukari.RacingRemoval

/-!
# Reading beside many processes

The read-only functions take no lock. While one of them runs, processes may open the directory, call
their engines, be killed in the middle of a write and be followed by other processes. Whatever they
do, the directory is tended: it stores a journal that only grows (`World.Secure`). So a state that
is reported of a node that is live all the time is the plain history of the node up to a point
between the beginning and the end of the read (`read_beside_processes`).
-/

set_option autoImplicit false
set_option relaxedAutoImplicit false

namespace Sukari

open Effects

variable {N : Noraft} {ι : Type} {opened ledger : Ledger N} {fs : Fs} {engine : StorageEngine}

/-- A call with its answer. -/
theorem refines_answer (h : Ready opened engine ledger fs) (command : Command N) :
    (storage N).Refines (fun out ledger' fs' ↦ ∃ opened, Ready opened out.2 ledger' fs')
      ((StorageEngine.answer command).run engine) ledger fs := by
  have hcall {action : EngineM Unit} (hrefines : (storage N).Refines
      (fun out ledger' fs' ↦ ∃ opened, Ready opened out.2 ledger' fs')
        (action.run engine) ledger fs) :
      (storage N).Refines (fun out ledger' fs' ↦ ∃ opened, Ready opened out.2 ledger' fs')
        ((action >>= fun _ ↦ pure (Answer.done : Answer N)).run engine) ledger fs := by
    refine .bindMethod (hrefines.mono ?_)
    rintro ⟨result, engine'⟩ ledger' fs' hready
    cases result with
    | ok value => exact hready
    | error error => exact hready
  have hcalled :
      (storage N).Refines (fun out ledger' fs' ↦ ∃ opened, Ready opened out.2 ledger' fs')
      ((StorageEngine.call command).run engine) ledger fs :=
    (refines_call h command).mono fun _ _ _ hadds ↦ ⟨opened, hadds.ready⟩
  cases command with
  | load nodeId =>
    refine .bindMethod ((refines_load h nodeId).mono ?_)
    rintro ⟨result, _⟩ _ _ ⟨-, rfl, rfl, rfl⟩
    cases result with
    | ok state => exact ⟨opened, h⟩
    | error error => exact ⟨opened, h⟩
  | loadAll =>
    refine .bindMethod ((refines_loadAll h).mono ?_)
    rintro ⟨result, _⟩ _ _ ⟨-, rfl, rfl, rfl⟩
    cases result with
    | ok nodes => exact ⟨opened, h⟩
    | error error => exact ⟨opened, h⟩
  | createNode | removeNode | saveCurrentTerm | saveVotedFor | appendEntries
  | saveSnapshot | sync =>
    exact hcall hcalled

/-! ### What every process keeps -/

/-- What the process goes on with keeps the journal of the directory. -/
def Activity.Secure (ledger : Ledger N) (fs : Fs) : Activity N → Prop
  | .closed => True
  | .opening _ rest => (storage N).Refines (fun result ledger' fs' ↦ ∀ engine,
      result = .ok engine → ∃ opened, Ready opened engine ledger' fs') rest ledger fs
  | .serving engine => ∃ opened, Ready opened engine ledger fs
  | .calling _ rest => (storage N).Refines (fun out ledger' fs' ↦
      ∃ opened, Ready opened out.2 ledger' fs') rest ledger fs

theorem Activity.Secure.request {activity : Activity N} (h : activity.Secure ledger fs) {op : FsOp}
    {next : op.Reply → Activity N} (hrequest : activity.request = some ⟨op, next⟩) :
    (∀ fs' ∈ Fs.during op fs, ledger.Holds fs') ∧ ∃ ledger',
      Ledger.Step ⟨op, Fs.reply op fs⟩ ledger ledger' ∧
      ledger'.Holds (Fs.after op fs) ∧ (next (Fs.reply op fs)).Secure ledger' (Fs.after op fs) := by
  unfold Activity.request at hrequest
  split at hrequest
  · cases hrequest
    exact h
  · cases hrequest
    exact h
  · cases hrequest

/-- The directory with all names durable, or the one itself if they were so from the start. -/
structure World.Shadow (world : World N ι) (fs fs' : Fs) : Prop where
  alike : Alike fs' fs
  same : world.start.syncDir = world.start → fs' = fs

/-- The journal that the directory stores, and that the processes keep. -/
structure World.Secure (world : World N ι) (ledger : Ledger N) : Prop where
  written : ledger.journal.written = world.written
  follows : ∃ situation, world.Follows situation
  holder : ∃ fs, world.Shadow world.fs fs ∧ ledger.Holds fs ∧ world.holder.Secure ledger fs
  visible : ∃ fs, world.Shadow world.visible fs ∧ ledger.Holds fs

namespace World.Secure

variable {world : World N ι} {process : ι}

theorem visible_syncDir (h : world.Secure ledger) : ledger.Holds world.visible.syncDir := by
  obtain ⟨fs, hshadow, hholds⟩ := h.visible
  rw [← hshadow.alike]
  exact hholds.syncDir

variable [DecidableEq ι]

/-- A process begins or ends something. -/
theorem turn (h : world.Secure ledger) {activity : Activity N} {lock : Option ι}
    (hlock : lock = none ∨ lock = some process)
    (hfollows : ∃ situation, (world.turn process activity lock).Follows situation)
    (hvisible : world.visible = world.fs) (hsecure : activity.Secure ledger world.fs.syncDir) :
    (world.turn process activity lock).Secure ledger := by
  have hholds : ledger.Holds world.fs.syncDir := hvisible ▸ h.visible_syncDir
  refine ⟨h.written, hfollows, ⟨world.fs.syncDir, ⟨alike_syncDir _, id⟩, hholds, ?_⟩,
    ⟨world.fs.syncDir, ⟨hvisible ▸ alike_syncDir _, fun hnames ↦ hnames.trans hvisible.symm⟩,
      hholds⟩⟩
  rcases hlock with rfl | rfl
  · trivial
  · rw [holder_of_lock rfl, activity_turn]
    exact hsecure

theorem complete (h : world.Secure ledger) {op : FsOp} {next : op.Reply → Activity N}
    (hrequest : (world.activity process).request = some ⟨op, next⟩) :
    ∃ ledger', (world.complete process op next).Secure ledger' ∧
      ledger.journal.Extends ledger'.journal := by
  obtain ⟨situation, hfollows⟩ := h.follows
  obtain ⟨hlock, -⟩ := hfollows.busy rfl (Activity.ne_closed_of_request hrequest).1
  obtain ⟨shadow, hshadow, -, hsecure⟩ := h.holder
  rw [holder_of_lock hlock] at hsecure
  obtain ⟨-, ledger', hstep, hholds, hnext⟩ := hsecure.request hrequest
  have hreply : Fs.reply op shadow = Fs.reply op world.fs := hshadow.alike.reply op
  rw [hreply] at hstep hnext
  have hgrows := steps_written (Refinement.Steps.single (R := storage N) hstep)
  have hshadow' :
      (world.complete process op next).Shadow (Fs.after op world.fs) (Fs.after op shadow) :=
    ⟨hshadow.alike.after op, fun hnames ↦ by rw [hshadow.same hnames]⟩
  refine ⟨ledger', ⟨?_, ⟨situation, hfollows.complete hrequest⟩, ⟨_, hshadow', hholds, ?_⟩,
    ⟨_, hshadow', hholds⟩⟩, hgrows.2⟩
  · rw [hgrows.1, h.written]
    rfl
  · have hlock' : (world.complete process op next).lock = some process := hlock
    rw [holder_of_lock hlock', activity_complete]
    exact hnext

omit [DecidableEq ι] in
/-- A part of the next request is seen. -/
theorem shown (h : world.Secure ledger) {op : FsOp} {next : op.Reply → Activity N}
    (hrequest : (world.activity process).request = some ⟨op, next⟩) {fs : Fs}
    (hfs : fs ∈ Fs.during op world.fs)
    (hfollows : ∃ situation, World.Follows { world with visible := fs } situation) :
    World.Secure { world with visible := fs } ledger := by
  obtain ⟨situation, hbefore⟩ := h.follows
  obtain ⟨hlock, -⟩ := hbefore.busy rfl (Activity.ne_closed_of_request hrequest).1
  obtain ⟨shadow, hshadow, hholds, hsecure⟩ := h.holder
  have hholder := holder_of_lock hlock
  rw [hholder] at hsecure
  have hduring := (hsecure.request hrequest).1
  refine ⟨h.written, hfollows, ⟨shadow, ⟨hshadow.alike, hshadow.same⟩, hholds, ?_⟩, ?_⟩
  · rw [show World.holder { world with visible := fs } = world.activity process from hholder]
    exact hsecure
  · by_cases hsame : shadow = world.fs
    · subst hsame
      exact ⟨fs, ⟨rfl, fun _ ↦ rfl⟩, hduring fs hfs⟩
    · obtain ⟨fs', hfs', halike⟩ := bisimulation_alike.exists_during hshadow.alike.symm hfs
      exact ⟨fs', ⟨halike.symm, fun hnames ↦ absurd (hshadow.same hnames) hsame⟩, hduring fs' hfs'⟩

/-- Without a power loss the journal only grows. -/
theorem step (h : world.Secure ledger) {deed : Deed N ι} {world' : World N ι}
    (hstep : Step deed world world') : ∃ ledger', world'.Secure ledger' ∧
      ((∃ command, deed = .powerLoss command) ∨ ledger.journal.Extends ledger'.journal) := by
  obtain ⟨situation, hfollows⟩ := h.follows
  have hfollows' : ∃ situation', world'.Follows situation' := by
    obtain ⟨situation', -, hfollows'⟩ :=
      simulation_processes.steps (.cons hstep (.refl world')) hfollows
    exact ⟨situation', hfollows'⟩
  have hholds (hvisible : world.visible = world.fs) : ledger.Holds world.fs.syncDir :=
    hvisible ▸ h.visible_syncDir
  have hserving {engine : StorageEngine} {process : ι}
      (hactivity : world.activity process = .serving engine) :
      ∃ opened, Ready opened engine ledger world.fs.syncDir := by
    obtain ⟨hlock, -⟩ := hfollows.busy hactivity (fun hclosed ↦ by cases hclosed)
    obtain ⟨shadow, hshadow, -, hsecure⟩ := h.holder
    rw [holder_of_lock hlock, hactivity] at hsecure
    obtain ⟨opened, hready⟩ := hsecure
    exact ⟨opened, hready.of_alike hshadow.alike.symm⟩
  cases hstep with
  | refused hclosed hrefused => exact ⟨ledger, h, .inr (.refl _)⟩
  | @locked _ process maxSegmentLen lock hclosed hlocked =>
    obtain ⟨hmax, hfree, rfl⟩ := beginOpening_eq_ok_iff.mp hlocked
    have hvisible := (hfollows.idle hfree).2
    refine ⟨ledger, h.turn (.inr rfl) hfollows' hvisible ?_, .inr (.refl _)⟩
    refine (refines_withMaxSegmentLen (hholds hvisible) (activeLinked_syncDir _ _)
      maxSegmentLen).mono ?_
    rintro result ledger' fs' hopens engine rfl
    rcases hopens with ⟨-, hfails, -⟩ | ⟨-, engine', hengine, hopens⟩
    · exact absurd trivial hfails
    · obtain rfl := Except.ok.inj hengine
      exact ⟨ledger', hopens.ready⟩
  | requested hrequest =>
    obtain ⟨ledger', hsecure, hextends⟩ := h.complete hrequest
    exact ⟨ledger', hsecure, .inr hextends⟩
  | shown hrequest hfs => exact ⟨ledger, h.shown hrequest hfs hfollows', .inr (.refl _)⟩
  | opened hopening =>
    obtain ⟨hlock, -, -, hvisible⟩ := hfollows.busy hopening (fun hclosed ↦ by cases hclosed)
    obtain ⟨shadow, hshadow, -, hsecure⟩ := h.holder
    rw [holder_of_lock hlock, hopening] at hsecure
    obtain ⟨opened, hready⟩ := hsecure _ rfl
    exact ⟨ledger, h.turn (.inr hlock) hfollows' (Activity.visible_eq hvisible rfl)
      ⟨opened, hready.of_alike hshadow.alike.symm⟩, .inr (.refl _)⟩
  | failed hopening =>
    obtain ⟨-, -, -, hvisible⟩ := hfollows.busy hopening (fun hclosed ↦ by cases hclosed)
    exact ⟨ledger, h.turn (.inl rfl) hfollows' (Activity.visible_eq hvisible rfl) trivial,
      .inr (.refl _)⟩
  | @called _ process command engine hactivity =>
    obtain ⟨hlock, -, -, hvisible⟩ := hfollows.busy hactivity (fun hclosed ↦ by cases hclosed)
    obtain ⟨opened, hready⟩ := hserving hactivity
    exact ⟨ledger, h.turn (.inr hlock) hfollows' (Activity.visible_eq hvisible rfl)
      (refines_answer hready command), .inr (.refl _)⟩
  | answered hcalling =>
    obtain ⟨hlock, -, -, hvisible⟩ := hfollows.busy hcalling (fun hclosed ↦ by cases hclosed)
    obtain ⟨shadow, hshadow, -, hsecure⟩ := h.holder
    rw [holder_of_lock hlock, hcalling] at hsecure
    obtain ⟨opened, hready⟩ := hsecure
    exact ⟨ledger, h.turn (.inr hlock) hfollows' (Activity.visible_eq hvisible rfl)
      ⟨opened, hready.of_alike hshadow.alike.symm⟩, .inr (.refl _)⟩
  | dropped hactivity =>
    obtain ⟨-, -, -, hvisible⟩ := hfollows.busy hactivity (fun hclosed ↦ by cases hclosed)
    exact ⟨ledger, h.turn (.inl rfl) hfollows' (Activity.visible_eq hvisible rfl) trivial,
      .inr (.refl _)⟩
  | killed hinterrupted =>
    have hsync := h.visible_syncDir
    exact ⟨ledger, ⟨h.written, hfollows', ⟨_, ⟨alike_syncDir _, id⟩, hsync, trivial⟩,
      ⟨_, ⟨alike_syncDir _, id⟩, hsync⟩⟩, .inr (.refl _)⟩
  | @powerLoss _ fs hnames hsurvivor =>
    obtain ⟨shadow, hshadow, hstored⟩ := h.visible
    obtain rfl := hshadow.same hnames
    obtain ⟨left, hleft, -, -, hwritten⟩ := hstored.survivor hsurvivor
    rw [h.written] at hwritten
    exact ⟨left, ⟨hwritten, hfollows', ⟨fs, ⟨rfl, fun _ ↦ rfl⟩, hleft, trivial⟩,
      ⟨fs, ⟨rfl, fun _ ↦ rfl⟩, hleft⟩⟩, .inl ⟨_, rfl⟩⟩

omit [DecidableEq ι] in
theorem empty : (World.empty N ι).Secure ⟨[], 0⟩ :=
  ⟨rfl, ⟨_, follows_empty⟩, ⟨.empty, ⟨rfl, fun _ ↦ rfl⟩, Ledger.holds_empty, trivial⟩,
    ⟨.empty, ⟨rfl, fun _ ↦ rfl⟩, Ledger.holds_empty⟩⟩

theorem steps (h : world.Secure ledger) {deeds : List (Deed N ι)} {world' : World N ι}
    (hsteps : (processes N ι).Steps deeds world world') : ∃ ledger', world'.Secure ledger' ∧
      ((∃ command, .powerLoss command ∈ deeds) ∨ ledger.journal.Extends ledger'.journal) := by
  induction hsteps generalizing ledger with
  | refl world => exact ⟨ledger, h, .inr (.refl _)⟩
  | cons first _ ih =>
    obtain ⟨ledger₁, hsecure₁, hfirst⟩ := h.step first
    obtain ⟨ledger', hsecure', hrest⟩ := ih hsecure₁
    refine ⟨ledger', hsecure', ?_⟩
    rcases hfirst with ⟨command, rfl⟩ | hfirst
    · exact .inl ⟨command, List.mem_cons_self ..⟩
    · rcases hrest with ⟨command, hmem⟩ | hrest
      · exact .inl ⟨command, List.mem_cons_of_mem _ hmem⟩
      · exact .inr (hfirst.trans hrest)

end World.Secure

/-! ### Reading -/

variable [DecidableEq ι]

/-- What processes do to a directory while others read it, without a power loss. -/
def Undisturbed (worlds : ℕ → World N ι) : Prop :=
  ∀ t, ∃ deeds, (processes N ι).Steps deeds (worlds t) (worlds (t + 1)) ∧
    ∀ command, .powerLoss command ∉ deeds

/-- The directories that are seen beside the processes are tended. -/
theorem Undisturbed.tended {worlds : ℕ → World N ι} (h : Undisturbed worlds)
    {history : List (Deed N ι)}
    (hreached : (processes N ι).Steps history (.empty N ι) (worlds 0)) :
    ∃ journalAt : ℕ → Journal N,
      Tended (fun t ↦ (worlds t).visible.syncDir) journalAt ∧
        ∀ t, (journalAt t).written = (worlds t).written := by
  obtain ⟨start, hstart, -⟩ := World.Secure.empty.steps hreached
  have hnext (t : ℕ) (ledger : {ledger : Ledger N // (worlds t).Secure ledger}) :
      ∃ next : {ledger : Ledger N // (worlds (t + 1)).Secure ledger},
        ledger.1.journal.Extends next.1.journal := by
    obtain ⟨deeds, hsteps, hpower⟩ := h t
    obtain ⟨ledger', hsecure, ⟨command, hmem⟩ | hextends⟩ := ledger.2.steps hsteps
    · exact absurd hmem (hpower command)
    · exact ⟨⟨ledger', hsecure⟩, hextends⟩
  choose next hgrows using hnext
  let ledgerAt (t : ℕ) : {ledger : Ledger N // (worlds t).Secure ledger} :=
    Nat.rec ⟨start, hstart⟩ next t
  refine ⟨fun t ↦ (ledgerAt t).1.journal,
    ⟨fun t ↦ (ledgerAt t).2.visible_syncDir.recoverable, fun t t' ht ↦ ?_⟩,
    fun t ↦ (ledgerAt t).2.written⟩
  induction ht with
  | refl => exact .refl _
  | @step t' _ ih => exact ih.trans (hgrows t' (ledgerAt t'))

/-- A state that a read-only call reports of a node that is live all the time is the plain history
of the node at some time of the call, whatever the processes do. -/
theorem read_beside_processes {history : List (Deed N ι)} {worlds : ℕ → World N ι} {nodeId : NodeId}
    {states : ReplayState N} {state : NodeState N} {stop : ℕ} (call : ReadCall)
    (hreached : (processes N ι).Steps history (.empty N ι) (worlds 0))
    (hworlds : Undisturbed worlds)
    (hlive : ∀ t ≤ stop, (worlds t).visible.IsLive nodeId)
    (hreport : directory.observe (fun t ↦ (worlds t).visible) (reportStates N call).run 0 =
      (.ok states, stop))
    (hstate : states[nodeId]? = some state) :
    IsHistory N nodeId (worlds 0).written.length (worlds stop).written state := by
  obtain ⟨journalAt, htended, hwritten⟩ := hworlds.tended hreached
  have hreplayed := (reportStates_replayed htended call 0).observe
  rw [← bisimulation_alike.observe (fun t ↦ (alike_syncDir (worlds t).visible).symm),
    hreport] at hreplayed
  obtain ⟨registry, -, hnodes⟩ := hreplayed states rfl
  obtain ⟨-, start, listing, replayed, -, hstop, -, hreplay⟩ := hnodes nodeId state hstate
  obtain ⟨live, hregistry, hactive⟩ := hlive listing (hreplay.le.trans hstop)
  have hanchored := (htended.recoverable listing).anchored live nodeId
    ⟨_, .inl rfl, hregistry⟩ hactive
  rw [← hwritten, ← hwritten]
  exact hreplay.isHistory htended hanchored.anchoredIn (Nat.zero_le _) hstop

/-- Something that is one value first and another one later. -/
def firstThen {α : Type} (first later : α) : ℕ → α
  | 0 => first
  | _ + 1 => later

/-- A reader finds the vote of a node that has voted only after the reader had started. -/
def findsVote (fs : Fs) : Bool :=
  let opened (fs : Fs) := directory.run (StorageEngine.withMaxSegmentLen Noraft.ofLists 64).run fs
  let called (command : Command Noraft.ofLists) (engine : StorageEngine) (fs : Fs) :=
    directory.run ((StorageEngine.call command).run engine) fs
  let live (fs : Fs) := (NodeRegistry.ofFile fs.nodes.current).toOption.any (·.isActive 1)
  let reported (seen : ℕ → Fs) :=
    directory.observe seen (reportStates Noraft.ofLists (.load 1)).run 0
  (opened fs).1.toOption.any fun engine ↦
    let created := called (.createNode 1 ⟨true, ⟨"null"⟩⟩) engine (opened fs).2
    let voted := called (.saveVotedFor 1 (some 2)) created.1.2 created.2
    Succeeds created.1.1 ∧ Succeeds voted.1.1 ∧ live created.2 = true ∧ live voted.2 = true ∧
      ((reported (firstThen created.2 voted.2)).1.toOption.any fun states ↦
        states[(1 : NodeId)]?.any fun state ↦ state.votedFor = some 2) = true

theorem read_beside_processes_voting : ∃ (worlds : ℕ → World Noraft.ofLists ℕ)
    (state : NodeState Noraft.ofLists) (stop : ℕ), state.votedFor = some 2 ∧
      IsHistory Noraft.ofLists 1 (worlds 0).written.length (worlds stop).written state := by
  have hfinds : findsVote (World.empty Noraft.ofLists ℕ).fs = true := by decide +kernel
  generalize hworld : World.empty Noraft.ofLists ℕ = world at hfinds
  unfold findsVote at hfinds
  extract_lets opened called live reported at hfinds
  have hopened (fs : Fs) : directory.run (StorageEngine.withMaxSegmentLen _ 64).run fs =
      opened fs :=
    rfl
  have hcalled (command : Command _) (engine : StorageEngine) (fs : Fs) :
      directory.run ((StorageEngine.call command).run engine) fs = called command engine fs := rfl
  have hlives (fs : Fs) (h : live fs = true) : fs.IsLive 1 := by
    simp only [live, Option.any_eq_true, toOption_eq_some_iff] at h
    exact h
  have hreported (seen : ℕ → Fs) :
      directory.observe seen (reportStates _ (.load 1)).run 0 = reported seen := rfl
  clear_value opened called live reported
  simp only [Option.any_eq_true, toOption_eq_some_iff, decide_eq_true_eq] at hfinds
  obtain ⟨engine, hopen, hcreate, hvote, hlive, hlive', states, hstates, state, hstate, hvoted⟩ :=
    hfinds
  obtain ⟨⟨⟩, hcreate⟩ := succeeds_iff.mp hcreate
  obtain ⟨⟨⟩, hvote⟩ := succeeds_iff.mp hvote
  have hcreated := run_answer (fun _ hsame ↦ by cases hsame) (fun hsame ↦ by cases hsame)
    ((hcalled _ _ _).trans (Prod.ext (Prod.ext hcreate rfl) rfl))
  have hvotes := run_answer (fun _ hsame ↦ by cases hsame) (fun hsame ↦ by cases hsame)
    ((hcalled _ _ _).trans (Prod.ext (Prod.ext hvote rfl) rfl))
  obtain ⟨first, world₀, hfirst, -, hserving₀⟩ := @exists_opening _ _ _ world 0 (hworld ▸ rfl)
    (hworld ▸ rfl) (hworld ▸ rfl) 64 (by decide) _ _ ((hopened _).trans (Prod.ext hopen rfl))
  obtain ⟨second, world₁, hsecond, -, hserving₁⟩ := hserving₀.exists_answer hcreated
  obtain ⟨third, world₂, hthird, halone, hserving₂⟩ := hserving₁.exists_answer hvotes
  have hseen : (fun t ↦ (firstThen world₁ world₂ t).visible) =
      firstThen world₁.visible world₂.visible := by
    funext t
    cases t <;> rfl
  have hstates' : (reported fun t ↦ (firstThen world₁ world₂ t).visible).1 = .ok states := by
    rw [hseen, hserving₁.visible, hserving₂.visible]
    exact hstates
  have hreport := (hreported _).trans
    (Prod.ext (x := reported _) (y := (.ok states, _)) hstates' rfl)
  refine ⟨firstThen world₁ world₂, state, _, hvoted, read_beside_processes (.load 1)
    (hworld ▸ hfirst.append hsecond) (fun t ↦ ?_) (fun t _ ↦ ?_) hreport hstate⟩
  · cases t with
    | zero => exact ⟨third, hthird, halone.no_powerLoss⟩
    | succ t => exact ⟨[], .refl _, fun _ hmem ↦ by cases hmem⟩
  · cases t with
    | zero => exact hlives _ (hserving₁.visible ▸ hlive)
    | succ t => exact hlives _ (hserving₂.visible ▸ hlive')

end Sukari
