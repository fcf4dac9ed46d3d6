import Sukari.DurableNames
import Sukari.Effects.Residual
import Sukari.StoreRefinement

/-!
# Processes that share a directory

Any number of processes open the same directory, and their requests come in any order. A process
takes the lock of `write.lock` before it touches anything else, and the lock is free again when its
file is closed, so also when the process is killed. `World.Step` says what one process does next: it
makes one request, a part of a write is seen, it begins or ends an opening or a call, or it is
killed.

At most one process works on the directory, it has the lock, and an opening is refused exactly while
another process has the directory open (`writeLock_exclusive`). Therefore what all processes observe
together, in the order in which it happens, is a history of one store (`processes_refine_store`). As
in `Happens`, a power loss comes only while all names were durable when the last opening or call
began or ended.
-/

set_option autoImplicit false
set_option relaxedAutoImplicit false

namespace Sukari

open Effects

variable {N : Noraft} {ι : Type}

/-! ### The write lock -/

/-- Why a process does not get to open the directory. -/
inductive OpenError
  | io (error : IoError)
  /-- An error of the kind `WouldBlock`. -/
  | wouldBlock (message : String)

def lockedError : OpenError := .wouldBlock "storage directory is already open for writing"

/-- `acquire_write_lock`, with the process that has the lock before and after it. -/
def acquireWriteLock (holder : Option ι) (process : ι) : Except OpenError (Option ι) :=
  match holder with
  | none => return some process
  | some _ => throw lockedError

/-- The beginning of `with_max_segment_len`, up to the lock. -/
def beginOpening (maxSegmentLen : ℕ) (holder : Option ι) (process : ι) :
    Except OpenError (Option ι) :=
  if maxSegmentLen = 0 then throw (.io (invalidInput "max segment length must be non-zero"))
  else acquireWriteLock holder process

theorem beginOpening_eq_ok_iff {maxSegmentLen : ℕ} {holder lock : Option ι} {process : ι} :
    beginOpening maxSegmentLen holder process = .ok lock ↔
      maxSegmentLen ≠ 0 ∧ holder = none ∧ lock = some process := by
  unfold beginOpening acquireWriteLock
  split
  · next hzero =>
    constructor
    · intro h
      cases h
    · exact fun h ↦ absurd hzero h.1
  · next hmax =>
    cases holder with
    | none =>
      constructor
      · exact fun h ↦ ⟨hmax, rfl, (Except.ok.inj h).symm⟩
      · intro h
        rw [h.2.2]
        rfl
    | some other =>
      constructor
      · intro h
        cases h
      · intro h
        cases h.2.1

/-! ### Processes -/

/-- What a process does with the directory. -/
inductive Activity (N : Noraft)
  | closed
  | opening (maxSegmentLen : ℕ) (rest : Program fileSystem (Except IoError StorageEngine))
  | serving (engine : StorageEngine)
  | calling (command : Command N)
      (rest : Program fileSystem (Except IoError (Answer N) × StorageEngine))

namespace Activity

/-- The next request, and how the process goes on with the reply. -/
def request : Activity N → Option (Sigma fun op : FsOp ↦ op.Reply → Activity N)
  | .opening maxSegmentLen (.request op next) =>
    some ⟨op, fun reply ↦ .opening maxSegmentLen (next reply)⟩
  | .calling command (.request op next) => some ⟨op, fun reply ↦ .calling command (next reply)⟩
  | _ => none

/-- The call in progress, if the process is in the middle of an opening or of a call. -/
def interrupted : Activity N → Option (Option (Command N))
  | .opening _ _ => some none
  | .calling command _ => some (some command)
  | _ => none

end Activity

/-- The directory, its lock and the processes. -/
structure World (N : Noraft) (ι : Type) where
  /-- The directory after the requests that are completed. -/
  fs : Fs
  /-- The directory as others see it: a part of the next request may be done. -/
  visible : Fs
  /-- The directory when the last opening or call began or ended. -/
  start : Fs
  lock : Option ι
  activity : ι → Activity N
  /-- The records that were written completely, without those that a power loss has taken. -/
  written : List (NodeId × Record N)

namespace World

variable (N ι) in
def empty : World N ι := ⟨.empty, .empty, .empty, none, fun _ ↦ .closed, []⟩

variable [DecidableEq ι] (world : World N ι)

/-- A process begins or ends an opening or a call. -/
def turn (process : ι) (activity : Activity N) (lock : Option ι) : World N ι :=
  { world with
    start := world.fs
    lock := lock
    activity := Function.update world.activity process activity }

/-- A process completes its next request. -/
def complete (process : ι) (op : FsOp) (next : op.Reply → Activity N) : World N ι :=
  { world with
    fs := Fs.after op world.fs
    visible := Fs.after op world.fs
    activity := Function.update world.activity process (next (Fs.reply op world.fs))
    written := world.written ++ recordsWritten N [⟨op, Fs.reply op world.fs⟩] }

/-- All processes are gone, and so is what they had not made durable. -/
def restart (fs : Fs) : World N ι :=
  ⟨fs, fs, fs, none, fun _ ↦ .closed,
    world.written.take (world.written.length - lostRecords N world.visible fs)⟩

/-- What the process does that has the lock. -/
def holder : Activity N := (world.lock.map world.activity).getD .closed

@[simp] theorem activity_turn (process : ι) (activity : Activity N) (lock : Option ι) :
    (world.turn process activity lock).activity process = activity := Function.update_self ..

@[simp] theorem activity_complete (process : ι) (op : FsOp) (next : op.Reply → Activity N) :
    (world.complete process op next).activity process = next (Fs.reply op world.fs) :=
  Function.update_self ..

end World

/-- What happens to a process, or to all of them. -/
inductive Deed (N : Noraft) (ι : Type)
  | refused (process : ι) (maxSegmentLen : ℕ) (error : OpenError)
  | locked (process : ι) (maxSegmentLen : ℕ)
  | requested (process : ι)
  | shown (process : ι)
  | opened (process : ι) (maxSegmentLen : ℕ) (result : Except IoError Unit)
  | called (process : ι) (command : Command N)
  | answered (process : ι) (command : Command N) (answer : Except IoError (Answer N))
  | dropped (process : ι)
  | killed (process : ι) (command : Option (Command N))
  | powerLoss (command : Option (Command N))

namespace Deed

/-- What is observed of the store. -/
def observation : Deed N ι → Option (Observation N)
  | .opened _ maxSegmentLen result => some (.opened maxSegmentLen result)
  | .answered _ command answer => some (.answered command answer)
  | .killed _ command => some (.killed command)
  | .powerLoss command => some (.powerLoss command)
  | _ => none

/-- The process whose deed it is. -/
def process : Deed N ι → Option ι
  | .refused process _ _ | .locked process _ | .requested process | .shown process
  | .opened process _ _ | .called process _ | .answered process _ _ | .dropped process
  | .killed process _ => some process
  | .powerLoss _ => none

end Deed

namespace World

variable [DecidableEq ι]

inductive Step : Deed N ι → World N ι → World N ι → Prop
  | refused {world : World N ι} {process : ι} {maxSegmentLen : ℕ} {error : OpenError}
      (hclosed : world.activity process = .closed)
      (h : beginOpening maxSegmentLen world.lock process = .error error) :
      Step (.refused process maxSegmentLen error) world world
  | locked {world : World N ι} {process : ι} {maxSegmentLen : ℕ} {lock : Option ι}
      (hclosed : world.activity process = .closed)
      (h : beginOpening maxSegmentLen world.lock process = .ok lock) :
      Step (.locked process maxSegmentLen) world (world.turn process
        (.opening maxSegmentLen (StorageEngine.withMaxSegmentLen N maxSegmentLen).run) lock)
  | requested {world : World N ι} {process : ι} {op : FsOp} {next : op.Reply → Activity N}
      (h : (world.activity process).request = some ⟨op, next⟩) :
      Step (.requested process) world (world.complete process op next)
  | shown {world : World N ι} {process : ι} {op : FsOp} {next : op.Reply → Activity N} {fs : Fs}
      (h : (world.activity process).request = some ⟨op, next⟩) (hfs : fs ∈ Fs.during op world.fs) :
      Step (.shown process) world { world with visible := fs }
  | opened {world : World N ι} {process : ι} {maxSegmentLen : ℕ} {engine : StorageEngine}
      (h : world.activity process = .opening maxSegmentLen (.done (.ok engine))) :
      Step (.opened process maxSegmentLen (.ok ())) world
        (world.turn process (.serving engine) world.lock)
  /-- The file of the lock is closed. -/
  | failed {world : World N ι} {process : ι} {maxSegmentLen : ℕ} {error : IoError}
      (h : world.activity process = .opening maxSegmentLen (.done (.error error))) :
      Step (.opened process maxSegmentLen (.error error)) world (world.turn process .closed none)
  | called {world : World N ι} {process : ι} {command : Command N} {engine : StorageEngine}
      (h : world.activity process = .serving engine) :
      Step (.called process command) world (world.turn process
        (.calling command ((StorageEngine.answer command).run engine)) world.lock)
  | answered {world : World N ι} {process : ι} {command : Command N}
      {answer : Except IoError (Answer N)} {engine : StorageEngine}
      (h : world.activity process = .calling command (.done (answer, engine))) :
      Step (.answered process command answer) world
        (world.turn process (.serving engine) world.lock)
  | dropped {world : World N ι} {process : ι} {engine : StorageEngine}
      (h : world.activity process = .serving engine) :
      Step (.dropped process) world (world.turn process .closed none)
  | killed {world : World N ι} {process : ι} {command : Option (Command N)}
      (h : (world.activity process).interrupted = some command) :
      Step (.killed process command) world
        ({ world with fs := world.visible }.turn process .closed none)
  /-- A power loss, when all names were durable at the last beginning or end. -/
  | powerLoss {world : World N ι} {fs : Fs} (hnames : world.start.syncDir = world.start)
      (hsurvivor : Survivor world.visible fs) :
      Step (.powerLoss world.holder.interrupted.join) world (world.restart fs)

end World

variable (N ι) in
/-- Any number of processes on one directory. -/
def processes [DecidableEq ι] : System (World N ι) (Deed N ι) := ⟨(· = .empty N ι), World.Step⟩

/-! ### One process at a time -/

namespace Activity

/-- The process has come to this directory from the one in which its opening or call has begun. -/
def CameTo (situation : Situation) (fs : Fs) : Activity N → Prop
  | .closed => fs = situation.2
  | .opening maxSegmentLen rest => ∃ past, directory.Reached
      (StorageEngine.withMaxSegmentLen N maxSegmentLen).run situation.2 past rest fs
  | .serving engine => situation.1 = some engine ∧ fs = situation.2
  | .calling command rest => ∃ engine past, situation.1 = some engine ∧
      directory.Reached ((StorageEngine.answer command).run engine) situation.2 past rest fs

/-- A part of the next request is done. -/
def Shows (fs visible : Fs) (activity : Activity N) : Prop :=
  ∃ op next, activity.request = some ⟨op, next⟩ ∧ visible ∈ Fs.during op fs

variable {situation : Situation} {fs : Fs} {activity : Activity N}

theorem CameTo.request (h : activity.CameTo situation fs) {op : FsOp}
    {next : op.Reply → Activity N} (hrequest : activity.request = some ⟨op, next⟩) :
    (next (Fs.reply op fs)).CameTo situation (Fs.after op fs) := by
  unfold Activity.request at hrequest
  split at hrequest
  · next maxSegmentLen op' rest =>
    obtain ⟨past, hreached⟩ := h
    cases hrequest
    exact ⟨_, hreached.request⟩
  · next command op' rest =>
    obtain ⟨engine, past, hengine, hreached⟩ := h
    cases hrequest
    exact ⟨engine, _, hengine, hreached.request⟩
  · cases hrequest

/-- Without a next request nothing of one is seen. -/
theorem visible_eq {visible : Fs} (h : visible = fs ∨ activity.Shows fs visible)
    (hnone : activity.request = none) : visible = fs := by
  rcases h with hsame | ⟨op, next, hrequest, -⟩
  · exact hsame
  · rw [hnone] at hrequest
    cases hrequest

/-- A process that has a request to make is at work, and stays at work. -/
theorem ne_closed_of_request {op : FsOp} {next : op.Reply → Activity N}
    (h : activity.request = some ⟨op, next⟩) :
    activity ≠ .closed ∧ ∀ reply, next reply ≠ .closed := by
  unfold Activity.request at h
  split at h
  · cases h
    exact ⟨fun hclosed ↦ (by cases hclosed), fun _ hclosed ↦ by cases hclosed⟩
  · cases h
    exact ⟨fun hclosed ↦ (by cases hclosed), fun _ hclosed ↦ by cases hclosed⟩
  · cases h

/-- What a process leaves behind that stops, in the middle of an opening, of a call or of
nothing. -/
def Leaves (situation : Situation) (fs : Fs) : Option (Command N) → Prop
  | none => ∃ maxSegmentLen past, ⟨past, fs⟩ ∈
      states (StorageEngine.withMaxSegmentLen N maxSegmentLen).run situation.2
  | some command => ∃ engine past, situation.1 = some engine ∧
      ⟨past, fs⟩ ∈ states ((StorageEngine.call command).run engine) situation.2

/-- What comes after the last request is not seen. -/
theorem states_bind_pure {α β : Type} (action : EngineM α) (f : α → β) (engine : StorageEngine)
    (fs : Fs) : states ((action >>= fun value ↦ pure (f value)).run engine) fs =
      states (action.run engine) fs := by
  rw [run_bindMethod, states, directory.trace_bind_done]
  · rfl
  · intro out
    obtain ⟨result, engine'⟩ := out
    cases result with
    | ok value => exact ⟨_, rfl⟩
    | error error => exact ⟨_, rfl⟩

/-- A call that is answered goes through the states of the call. -/
theorem states_answer (command : Command N) (engine : StorageEngine) (fs : Fs) :
    states ((StorageEngine.answer command).run engine) fs =
      states ((StorageEngine.call command).run engine) fs := by
  cases command with
  | load nodeId =>
    exact (states_bind_pure _ _ engine fs).trans (states_bind_pure _ _ engine fs).symm
  | loadAll => exact (states_bind_pure _ _ engine fs).trans (states_bind_pure _ _ engine fs).symm
  | createNode | removeNode | saveCurrentTerm | saveVotedFor | appendEntries
  | saveSnapshot | sync =>
    exact states_bind_pure _ _ engine fs

theorem CameTo.leaves (h : activity.CameTo situation fs) {visible : Fs}
    (hvisible : visible = fs ∨ activity.Shows fs visible) :
    Leaves situation visible activity.interrupted.join := by
  have hidle (hsame : fs = situation.2) (hnone : activity.request = none) :
      Leaves (N := N) situation visible none := by
    obtain rfl := visible_eq hvisible hnone
    exact ⟨0, [], hsame ▸ List.mem_cons_self ..⟩
  cases activity with
  | closed => exact hidle h rfl
  | serving engine => exact hidle h.2 rfl
  | opening maxSegmentLen rest =>
    obtain ⟨past, hreached⟩ := h
    refine ⟨maxSegmentLen, past, ?_⟩
    rcases hvisible with rfl | ⟨op, next, hrequest, hduring⟩
    · exact hreached.visit
    · cases rest with
      | done value => cases hrequest
      | request op next =>
        cases hrequest
        exact hreached.during hduring
  | calling command rest =>
    obtain ⟨engine, past, hengine, hreached⟩ := h
    refine ⟨engine, past, hengine, states_answer command engine _ ▸ ?_⟩
    rcases hvisible with rfl | ⟨op, next, hrequest, hduring⟩
    · exact hreached.visit
    · cases rest with
      | done value => cases hrequest
      | request op next =>
        cases hrequest
        exact hreached.during hduring

theorem Leaves.killed {command : Option (Command N)} (h : Leaves situation fs command) :
    Happens (.killed command) situation (none, fs) := by
  obtain ⟨current, fs₀⟩ := situation
  cases command with
  | none =>
    obtain ⟨maxSegmentLen, past, hvisit⟩ := h
    exact .killedInOpen hvisit
  | some command =>
    obtain ⟨engine, past, rfl, hvisit⟩ := h
    exact .killedInCall hvisit

theorem Leaves.powerLoss {command : Option (Command N)} (h : Leaves situation fs command)
    (hnames : situation.2.syncDir = situation.2) {fs' : Fs} (hsurvivor : Survivor fs fs') :
    Happens (.powerLoss command) situation (none, fs') := by
  obtain ⟨current, fs₀⟩ := situation
  cases command with
  | none =>
    obtain ⟨maxSegmentLen, past, hvisit⟩ := h
    exact .powerLossInOpen hnames hvisit hsurvivor
  | some command =>
    obtain ⟨engine, past, rfl, hvisit⟩ := h
    exact .powerLossInCall hnames hvisit hsurvivor

end Activity

namespace World

/-- The world with the directory and the engine of the process that has the lock. -/
structure Follows (world : World N ι) (situation : Situation) : Prop where
  start : world.start = situation.2
  others : ∀ process, world.lock ≠ some process → world.activity process = .closed
  held : ∀ process, world.lock = some process → world.activity process ≠ .closed
  holder : world.holder.CameTo situation world.fs
  visible : world.visible = world.fs ∨ world.holder.Shows world.fs world.visible

variable {world : World N ι} {situation : Situation} {process : ι}

theorem holder_of_lock (h : world.lock = some process) : world.holder = world.activity process := by
  rw [holder, h]
  rfl

namespace Follows

theorem free (h : world.Follows situation) (hfree : world.lock = none) (other : ι) :
    world.activity other = .closed :=
  h.others other (by rw [hfree]; exact (Option.some_ne_none other).symm)

/-- Nobody has changed the directory since the last process has stopped. -/
theorem idle (h : world.Follows situation) (hfree : world.lock = none) :
    world.fs = situation.2 ∧ world.visible = world.fs := by
  have hholder : world.holder = .closed := by rw [World.holder, hfree]; rfl
  have hcame := h.holder
  have hvisible := h.visible
  rw [hholder] at hcame hvisible
  exact ⟨hcame, Activity.visible_eq hvisible rfl⟩

/-- A process that is at work has the lock, and no other one is at work. -/
theorem busy (h : world.Follows situation) {activity : Activity N}
    (hactivity : world.activity process = activity) (hbusy : activity ≠ .closed) :
    world.lock = some process ∧ (∀ other ≠ process, world.activity other = .closed) ∧
      activity.CameTo situation world.fs ∧
      (world.visible = world.fs ∨ activity.Shows world.fs world.visible) := by
  have hlock : world.lock = some process := by
    by_contra hlock
    exact hbusy (hactivity ▸ h.others process hlock)
  have hholder : world.holder = activity := (holder_of_lock hlock).trans hactivity
  refine ⟨hlock, fun other hother ↦ h.others other fun hsame ↦ hother ?_, ?_, ?_⟩
  · exact Option.some.inj (hsame.symm.trans hlock)
  · rw [← hholder]
    exact h.holder
  · rw [← hholder]
    exact h.visible

end Follows

theorem follows_empty : (empty N ι).Follows (none, .empty) where
  start := rfl
  others _ _ := rfl
  held _ hheld := by cases hheld
  holder := rfl
  visible := .inl rfl

variable [DecidableEq ι]

/-- The process goes on with something else, and no other one is at work. -/
theorem follows_turn {activity : Activity N}
    (hothers : ∀ other ≠ process, world.activity other = .closed) (hbusy : activity ≠ .closed)
    (hcame : activity.CameTo situation world.fs) (hstart : world.fs = situation.2)
    (hvisible : world.visible = world.fs) :
    (world.turn process activity (some process)).Follows situation where
  start := hstart
  others other hother := by
    have hne : other ≠ process := fun hsame ↦ hother (congrArg some hsame.symm)
    simp only [turn, Function.update_of_ne hne]
    exact hothers other hne
  held other hother := by
    obtain rfl : process = other := Option.some.inj hother
    rwa [activity_turn]
  holder := by
    have hholder : (world.turn process activity (some process)).holder = activity := by
      simp [holder, turn]
    rw [hholder]
    exact hcame
  visible := .inl hvisible

/-- The process stops, and nobody is at work. -/
theorem follows_closed (hothers : ∀ other ≠ process, world.activity other = .closed)
    (hstart : world.fs = situation.2) (hvisible : world.visible = world.fs) :
    (world.turn process .closed none).Follows situation where
  start := hstart
  others other _ := by
    by_cases hsame : other = process
    · simp [turn, hsame]
    · simp only [turn, Function.update_of_ne hsame]
      exact hothers other hsame
  held other hother := by cases hother
  holder := hstart
  visible := .inl hvisible

omit [DecidableEq ι] in
/-- What the processes come to after something was observed, or nothing. -/
def FollowsAfter (situation : Situation) (world : World N ι) : Option (Observation N) → Prop
  | some label => ∃ situation', Happens label situation situation' ∧ world.Follows situation'
  | none => world.Follows situation

theorem Follows.complete (h : world.Follows situation) {op : FsOp} {next : op.Reply → Activity N}
    (hrequest : (world.activity process).request = some ⟨op, next⟩) :
    (world.complete process op next).Follows situation := by
  obtain ⟨hbusy, hstays⟩ := Activity.ne_closed_of_request hrequest
  obtain ⟨hlock, hothers, hcame, -⟩ := h.busy rfl hbusy
  have hlock' : (world.complete process op next).lock = some process := hlock
  have hactivity := world.activity_complete process op next
  refine ⟨h.start, fun other hother ↦ ?_, fun other hother ↦ ?_, ?_, .inl rfl⟩
  · have hne : other ≠ process := fun hsame ↦ hother (hsame ▸ hlock')
    simp only [World.complete, Function.update_of_ne hne]
    exact hothers other hne
  · obtain rfl : process = other := Option.some.inj (hlock'.symm.trans hother)
    rw [hactivity]
    exact hstays _
  · rw [holder_of_lock hlock', hactivity]
    exact hcame.request hrequest

/-- What is observed happens to the storage directory, and the rest is not seen. -/
theorem Follows.step (h : world.Follows situation) {deed : Deed N ι} {world' : World N ι}
    (hstep : Step deed world world') : FollowsAfter situation world' deed.observation := by
  cases hstep with
  | refused hclosed hrefused => exact h
  | @locked _ process maxSegmentLen lock hclosed hlocked =>
    obtain ⟨hmax, hfree, rfl⟩ := beginOpening_eq_ok_iff.mp hlocked
    obtain ⟨hstart, hvisible⟩ := h.idle hfree
    exact follows_turn (fun other _ ↦ h.free hfree other) (fun hsame ↦ by cases hsame)
      ⟨[], hstart ▸ .start⟩ hstart hvisible
  | requested hrequest => exact h.complete hrequest
  | @shown _ process op next fs hrequest hfs =>
    obtain ⟨hlock, -, -, -⟩ := h.busy rfl (Activity.ne_closed_of_request hrequest).1
    refine ⟨h.start, h.others, h.held, h.holder, .inr ⟨op, next, ?_, hfs⟩⟩
    have hholder : World.holder { world with visible := fs } = world.activity process :=
      holder_of_lock hlock
    rw [hholder]
    exact hrequest
  | opened hopening =>
    obtain ⟨hlock, hothers, ⟨past, hreached⟩, hvisible⟩ :=
      h.busy hopening (fun hclosed ↦ by cases hclosed)
    refine ⟨(some _, world.fs), .opened hreached.done, ?_⟩
    rw [hlock]
    exact follows_turn hothers (fun hsame ↦ by cases hsame) ⟨rfl, rfl⟩ rfl
      (Activity.visible_eq hvisible rfl)
  | failed hopening =>
    obtain ⟨-, hothers, ⟨past, hreached⟩, hvisible⟩ :=
      h.busy hopening (fun hclosed ↦ by cases hclosed)
    exact ⟨(none, world.fs), .opened hreached.done,
      follows_closed hothers rfl (Activity.visible_eq hvisible rfl)⟩
  | called hserving =>
    obtain ⟨hlock, hothers, ⟨hengine, hstart⟩, hvisible⟩ :=
      h.busy hserving (fun hclosed ↦ by cases hclosed)
    rw [hlock]
    exact follows_turn hothers (fun hsame ↦ by cases hsame) ⟨_, [], hengine, hstart ▸ .start⟩ hstart
      (Activity.visible_eq hvisible rfl)
  | answered hcalling =>
    obtain ⟨hlock, hothers, ⟨engine, past, hengine, hreached⟩, hvisible⟩ :=
      h.busy hcalling (fun hclosed ↦ by cases hclosed)
    obtain ⟨current, fs₀⟩ := situation
    obtain rfl : current = some engine := hengine
    refine ⟨(some _, world.fs), .answered hreached.done, ?_⟩
    rw [hlock]
    exact follows_turn hothers (fun hsame ↦ by cases hsame) ⟨rfl, rfl⟩ rfl
      (Activity.visible_eq hvisible rfl)
  | dropped hserving =>
    obtain ⟨-, hothers, ⟨-, hstart⟩, hvisible⟩ :=
      h.busy hserving (fun hclosed ↦ by cases hclosed)
    exact follows_closed hothers hstart (Activity.visible_eq hvisible rfl)
  | @killed _ process command hinterrupted =>
    have hbusy : world.activity process ≠ .closed := fun hclosed ↦ by
      rw [hclosed] at hinterrupted
      cases hinterrupted
    obtain ⟨-, hothers, hcame, hvisible⟩ := h.busy rfl hbusy
    have hleaves := hcame.leaves hvisible
    rw [hinterrupted] at hleaves
    exact ⟨(none, world.visible), hleaves.killed, follows_closed hothers rfl rfl⟩
  | @powerLoss _ fs hnames hsurvivor =>
    have hleaves := h.holder.leaves h.visible
    refine ⟨(none, fs), hleaves.powerLoss (h.start ▸ hnames) hsurvivor, rfl, fun _ _ ↦ rfl,
      fun _ hheld ↦ (by cases hheld), rfl, .inl rfl⟩

end World

/-! ### What all processes observe together -/

variable [DecidableEq ι]

theorem simulation_processes :
    HidingSimulation (processes N ι) (implementation N) Deed.observation World.Follows where
  initial := by
    rintro _ rfl
    exact ⟨(none, .empty), rfl, World.follows_empty⟩
  shown deed label world world' situation hseen hfollows hstep := by
    have hafter := hfollows.step hstep
    rwa [hseen] at hafter
  hidden deed world world' situation hseen hfollows hstep := by
    have hafter := hfollows.step hstep
    rwa [hseen] at hafter

/-- What all processes observe, in the order in which it happens, is a history of one store. -/
theorem processes_refine_store {history : List (Deed N ι)} (h : (processes N ι).IsHistory history) :
    (NodeStore.system N).IsHistory (history.filterMap Deed.observation) :=
  implementation_refines_store (simulation_processes.isHistory h)

/-- The processes that the lock lets in. -/
structure World.Exclusive (world : World N ι) : Prop where
  single : ∀ process other, world.activity process ≠ .closed → world.activity other ≠ .closed →
    process = other
  /-- The lock is free exactly if nobody is at work. -/
  granted : ∀ process maxSegmentLen, maxSegmentLen ≠ 0 →
    (beginOpening maxSegmentLen world.lock process = .ok (some process) ↔
      ∀ other, world.activity other = .closed)
  refused : ∀ process maxSegmentLen, maxSegmentLen ≠ 0 →
    (beginOpening maxSegmentLen world.lock process = .error lockedError ↔
      ∃ other, world.activity other ≠ .closed)
  /-- Only the process that has the lock changes the directory. -/
  writes : ∀ deed world', World.Step deed world world' → world'.visible ≠ world.visible →
    deed.process = world.lock ∨ ∃ command, deed = .powerLoss command

theorem World.Follows.exclusive {world : World N ι} {situation : Situation}
    (h : world.Follows situation) : world.Exclusive := by
  have hidle : world.lock = none ↔ ∀ other, world.activity other = .closed := by
    refine ⟨h.free, fun hclosed ↦ ?_⟩
    cases hlock : world.lock with
    | none => rfl
    | some process => exact absurd (hclosed process) (h.held process hlock)
  refine ⟨fun process other hprocess hother ↦ ?_, fun process maxSegmentLen hmax ↦ ?_,
    fun process maxSegmentLen hmax ↦ ?_, fun deed world' hstep hchanged ↦ ?_⟩
  · by_contra hne
    exact hother ((h.busy rfl hprocess).2.1 other fun hsame ↦ hne hsame.symm)
  · rw [beginOpening_eq_ok_iff, ← hidle]
    exact ⟨fun hgranted ↦ hgranted.2.1, fun hfree ↦ ⟨hmax, hfree, rfl⟩⟩
  · rw [← not_forall, ← hidle, beginOpening, if_neg hmax]
    cases world.lock with
    | none =>
      constructor
      · intro hrefused
        cases hrefused
      · exact fun hheld ↦ absurd rfl hheld
    | some holder => exact ⟨fun _ ↦ Option.some_ne_none holder, fun _ ↦ rfl⟩
  · cases hstep with
    | refused | locked | opened | failed | called | answered | dropped | killed =>
      exact absurd rfl hchanged
    | requested hrequest | shown hrequest =>
      exact .inl (h.busy rfl (Activity.ne_closed_of_request hrequest).1).1.symm
    | powerLoss => exact .inr ⟨_, rfl⟩

/-- At any time at most one process works on the directory, and an opening is refused exactly while
another one does. -/
theorem writeLock_exclusive {history : List (Deed N ι)} {world : World N ι}
    (h : (processes N ι).Steps history (.empty N ι) world) : world.Exclusive := by
  obtain ⟨situation, -, hfollows⟩ := simulation_processes.steps h World.follows_empty
  exact hfollows.exclusive

/-! ### Names between openings and calls -/

/-- An opening or a call that ends leaves all names durable if it has found them so. -/
theorem World.Follows.namesDurable {world world' : World N ι} {situation : Situation}
    {deed : Deed N ι} (h : world.Follows situation) (hstep : World.Step deed world world')
    (hkilled : ∀ process command, deed ≠ .killed process command)
    (hnames : world.start.NamesDurable) : world'.start.NamesDurable := by
  rw [h.start] at hnames
  cases hstep with
  | refused | requested | shown => rwa [← h.start] at hnames
  | locked hclosed hlocked =>
    obtain ⟨-, hfree, -⟩ := beginOpening_eq_ok_iff.mp hlocked
    rwa [← (h.idle hfree).1] at hnames
  | called hserving | dropped hserving =>
    obtain ⟨-, -, ⟨-, hsame⟩, -⟩ := h.busy hserving (fun hclosed ↦ by cases hclosed)
    rwa [← hsame] at hnames
  | opened hopening | failed hopening =>
    obtain ⟨-, -, ⟨past, hreached⟩, -⟩ := h.busy hopening (fun hclosed ↦ by cases hclosed)
    exact KeepsNames.reached (keepsNames_withMaxSegmentLen _) hreached hnames
  | answered hcalling =>
    obtain ⟨-, -, ⟨engine, past, -, hreached⟩, -⟩ :=
      h.busy hcalling (fun hclosed ↦ by cases hclosed)
    exact (methodKeepsNames_answer _ engine).reached hreached hnames
  | killed => exact absurd rfl (hkilled _ _)
  | powerLoss _ hsurvivor => exact Fs.namesDurable_iff.mpr hsurvivor.fullyDurable.names

/-- Unless a process is killed in the middle of something, all names are durable whenever an opening
or a call begins or ends, also when it fails in one of the ways of `Fs`. -/
theorem namesDurable_of_processes {before later : List (Deed N ι)} {world world' : World N ι}
    (hbefore : (processes N ι).Steps before (.empty N ι) world) (hnames : world.start.NamesDurable)
    (hlater : (processes N ι).Steps later world world')
    (hkilled : ∀ deed ∈ later, ∀ process command, deed ≠ .killed process command) :
    world'.start.NamesDurable := by
  obtain ⟨situation, -, hfollows⟩ := simulation_processes.steps hbefore World.follows_empty
  obtain ⟨-, hkept⟩ := @System.Steps.invariant _ _ (processes N ι)
    (fun _ world ↦ (∃ situation, world.Follows situation) ∧ world.start.NamesDurable) _
      _ _ hlater []
    ⟨⟨situation, hfollows⟩, hnames⟩ fun past deed world world' hdeed hinvariant hstep ↦ by
      obtain ⟨⟨situation, hfollows⟩, hdurable⟩ := hinvariant
      refine ⟨?_, hfollows.namesDurable hstep (hkilled deed hdeed) hdurable⟩
      obtain ⟨situation', -, hfollows'⟩ := simulation_processes.steps
        (.cons hstep (.refl world')) hfollows
      exact ⟨situation', hfollows'⟩
  exact hkept

/-! ### A process that is let run -/

/-- A process makes the requests of a program, one after the other. -/
theorem exists_requests {α : Type} (running : Program fileSystem α → Activity N)
    (hrequest : ∀ (op : FsOp) (next : op.Reply → Program fileSystem α),
      (running (.request op next)).request = some ⟨op, fun reply ↦ running (next reply)⟩)
    (p : Program fileSystem α) (world : World N ι) {process : ι}
    (hactivity : world.activity process = running p) (hvisible : world.visible = world.fs) :
    ∃ count world', (processes N ι).Steps (List.replicate count (.requested process)) world world' ∧
      world'.activity process = running (.done (directory.run p world.fs).1) ∧
      world'.fs = (directory.run p world.fs).2 ∧ world'.visible = world'.fs ∧
      world'.lock = world.lock := by
  induction p generalizing world with
  | done value => exact ⟨0, world, .refl _, hactivity, rfl, hvisible, rfl⟩
  | request op next ih =>
    have hstep : World.Step (.requested process) world
        (world.complete process op fun reply ↦ running (next reply)) :=
      .requested (hactivity ▸ hrequest op next)
    obtain ⟨count, world', hsteps, hdone⟩ := ih (Fs.reply op world.fs)
      (world.complete process op fun reply ↦ running (next reply)) (world.activity_complete ..) rfl
    exact ⟨count + 1, world', .cons hstep hsteps, hdone⟩

/-- The process has the directory open and does nothing. -/
structure World.Serving (world : World N ι) (process : ι) (engine : StorageEngine) (fs : Fs) :
    Prop where
  activity : world.activity process = .serving engine
  completed : world.fs = fs
  visible : world.visible = fs

/-- The deeds of one process that is not killed. -/
def RunsAlone (process : ι) (deeds : List (Deed N ι)) : Prop :=
  ∀ deed ∈ deeds, deed.process = some process ∧ ∀ command, deed ≠ .killed process command

omit [DecidableEq ι] in
theorem RunsAlone.no_powerLoss {process : ι} {deeds : List (Deed N ι)} (h : RunsAlone process deeds)
    (command : Option (Command N)) : .powerLoss command ∉ deeds := by
  intro hmem
  cases (h _ hmem).1

theorem exists_opening {world : World N ι} {process : ι}
    (hclosed : world.activity process = .closed)
    (hfree : world.lock = none) (hvisible : world.visible = world.fs) {maxSegmentLen : ℕ}
    (hmax : maxSegmentLen ≠ 0) {engine : StorageEngine} {fs : Fs} (hrun : directory.run
      (StorageEngine.withMaxSegmentLen N maxSegmentLen).run world.fs = (.ok engine, fs)) :
    ∃ deeds world', (processes N ι).Steps deeds world world' ∧
      RunsAlone process deeds ∧ world'.Serving process engine fs := by
  have hlocked : World.Step (.locked process maxSegmentLen) world (world.turn process
      (.opening maxSegmentLen (StorageEngine.withMaxSegmentLen N maxSegmentLen).run)
        (some process)) :=
    .locked hclosed (beginOpening_eq_ok_iff.mpr ⟨hmax, hfree, rfl⟩)
  generalize hturn : world.turn process (.opening maxSegmentLen
    (StorageEngine.withMaxSegmentLen N maxSegmentLen).run) (some process) = opening at hlocked
  have hstart : opening.fs = world.fs := hturn ▸ rfl
  obtain ⟨count, world', hsteps, hactivity, hfs, hvisible', -⟩ := exists_requests
    (.opening maxSegmentLen) (fun _ _ ↦ rfl) (StorageEngine.withMaxSegmentLen N maxSegmentLen).run
    opening (hturn ▸ world.activity_turn ..) (hturn ▸ hvisible)
  rw [hstart, hrun] at hactivity hfs
  refine ⟨_, _, .cons hlocked (hsteps.append (.cons (.opened hactivity) (.refl _))),
    fun deed hdeed ↦ ?_, world'.activity_turn .., hfs, hvisible'.trans hfs⟩
  simp only [List.mem_cons, List.mem_append, List.mem_replicate, List.not_mem_nil,
    or_false] at hdeed
  rcases hdeed with rfl | ⟨-, rfl⟩ | rfl <;> exact ⟨rfl, fun _ hkilled ↦ by cases hkilled⟩

theorem World.Serving.exists_answer {world : World N ι} {process : ι}
    {engine engine' : StorageEngine}
    {fs fs' : Fs} (h : world.Serving process engine fs) {command : Command N}
    {answer : Except IoError (Answer N)}
    (hrun : directory.run ((StorageEngine.answer command).run engine) fs =
      ((answer, engine'), fs')) :
    ∃ deeds world', (processes N ι).Steps deeds world world' ∧
      RunsAlone process deeds ∧ world'.Serving process engine' fs' := by
  have hcalled : World.Step (.called process command) world (world.turn process (.calling command
      ((StorageEngine.answer command).run engine)) world.lock) := .called h.activity
  generalize hturn :
    world.turn process (.calling command ((StorageEngine.answer command).run engine))
    world.lock = calling at hcalled
  have hstart : calling.fs = fs := hturn ▸ h.completed
  obtain ⟨count, world', hsteps, hactivity, hfs, hvisible, -⟩ := exists_requests
    (.calling command) (fun _ _ ↦ rfl) ((StorageEngine.answer command).run engine)
    calling (hturn ▸ world.activity_turn ..) (hturn ▸ h.visible.trans h.completed.symm)
  rw [hstart, hrun] at hactivity hfs
  refine ⟨_, _, .cons hcalled (hsteps.append (.cons (.answered hactivity) (.refl _))),
    fun deed hdeed ↦ ?_, world'.activity_turn .., hfs, hvisible.trans hfs⟩
  simp only [List.mem_cons, List.mem_append, List.mem_replicate, List.not_mem_nil,
    or_false] at hdeed
  rcases hdeed with rfl | ⟨-, rfl⟩ | rfl <;> exact ⟨rfl, fun _ hkilled ↦ by cases hkilled⟩

theorem World.Serving.exists_answersDone {world : World N ι} {process : ι}
    {commands : List (Command N)}
    {engine engine' : StorageEngine} {fs fs' : Fs} (h : world.Serving process engine fs)
    (hdone : answersDone commands engine fs = some (engine', fs')) :
    ∃ deeds world', (processes N ι).Steps deeds world world' ∧
      RunsAlone process deeds ∧ world'.Serving process engine' fs' := by
  induction commands generalizing world engine fs with
  | nil =>
    obtain ⟨rfl, rfl⟩ := Prod.mk.inj (Option.some.inj hdone)
    exact ⟨[], world, .refl _, fun _ hmem ↦ (List.not_mem_nil hmem).elim, h⟩
  | cons command rest ih =>
    rw [answersDone] at hdone
    split at hdone
    · next hrun =>
      obtain ⟨first, middle, hfirst, halone, hserving⟩ := h.exists_answer hrun
      obtain ⟨later, world', hlater, halone', hserving'⟩ := ih hserving hdone
      exact ⟨_, world', hfirst.append hlater,
        fun deed hdeed ↦ (List.mem_append.mp hdeed).elim (halone deed) (halone' deed), hserving'⟩
    · cases hdone

/-- A process is refused while another one opens the directory, and let in when that one is
killed. -/
def contendingDeeds (N : Noraft) : List (Deed N ℕ) :=
  [.locked 0 64, .refused 1 64 lockedError, .killed 0 none, .locked 1 64]

theorem steps_contendingDeeds (N : Noraft) : ∃ world,
    (processes N ℕ).Steps (contendingDeeds N) (.empty N ℕ) world ∧ world.lock = some 1 :=
  ⟨_, .cons (.locked rfl rfl) (.cons (.refused rfl rfl) (.cons (.killed rfl)
    (.cons (.locked rfl rfl) (.refl _)))), rfl⟩

theorem processes_refine_store_contending : ∃ world,
    (processes Noraft.ofLists ℕ).Steps (contendingDeeds Noraft.ofLists) (.empty _ ℕ) world ∧
      (NodeStore.system Noraft.ofLists).IsHistory
        ((contendingDeeds Noraft.ofLists).filterMap Deed.observation) := by
  obtain ⟨world, hsteps, -⟩ := steps_contendingDeeds Noraft.ofLists
  exact ⟨world, hsteps, processes_refine_store ⟨_, world, rfl, hsteps⟩⟩

/-- A new directory is opened, its calls rotate twice, and the last one collects the first
segment. -/
def collectsSegments : Bool :=
  let opened := directory.run (StorageEngine.withMaxSegmentLen Noraft.ofLists 64).run .empty
  opened.1.toOption.any fun engine ↦
    (answersDone (N := Noraft.ofLists) [.createNode 1 ⟨true, ⟨"null"⟩⟩, .saveVotedFor 1 (some 2),
      .saveSnapshot 1 (checkpointAt ⟨5, 3⟩)] engine opened.2).any fun last ↦
        decide (last.1.writer.activeSegment = 2) && !last.2.segments.contains 0

/-- All names are durable after two rotations and a garbage collection. -/
theorem namesDurable_of_processes_collecting : ∃ (world : World Noraft.ofLists ℕ)
    (engine : StorageEngine), world.activity 0 = .serving engine ∧
      engine.writer.activeSegment = 2 ∧ 0 ∉ world.fs.segments ∧ world.start.NamesDurable := by
  have hruns : collectsSegments = true := by decide +kernel
  simp only [collectsSegments, Option.any_eq_true, toOption_eq_some_iff, Bool.and_eq_true,
    decide_eq_true_eq, Bool.not_eq_true'] at hruns
  obtain ⟨engine, hopen, ⟨engine', fs'⟩, hdone, hactive, hremoved⟩ := hruns
  obtain ⟨first, middle, hfirst, hfirstAlone, hopened⟩ := @exists_opening _ _ _
    (.empty Noraft.ofLists ℕ) 0 rfl rfl rfl 64 (by decide) _ _ (Prod.ext hopen rfl)
  obtain ⟨later, world, hlater, hlaterAlone, hserving⟩ := hopened.exists_answersDone hdone
  refine ⟨world, engine', hserving.activity, hactive, ?_, namesDurable_of_processes (.refl _)
    (Fs.namesDurable_iff.mpr rfl)
      (hfirst.append hlater) fun deed hdeed process command hkilled ↦ ?_⟩
  · rw [hserving.completed]
    exact fun hpresent ↦ Bool.false_ne_true (hremoved.symm.trans
      (Std.ExtTreeMap.contains_iff_mem.mpr hpresent))
  · obtain ⟨hprocess, halive⟩ :=
      (List.mem_append.mp hdeed).elim (hfirstAlone deed) (hlaterAlone deed)
    subst hkilled
    obtain rfl := Option.some.inj hprocess
    exact halive command rfl

theorem writeLock_exclusive_contending : ∃ world,
    (processes Noraft.ofLists ℕ).Steps (contendingDeeds Noraft.ofLists) (.empty _ ℕ) world ∧
      world.lock = some 1 ∧ world.Exclusive := by
  obtain ⟨world, hsteps, hlock⟩ := steps_contendingDeeds Noraft.ofLists
  exact ⟨world, hsteps, hlock, writeLock_exclusive hsteps⟩

end Sukari
