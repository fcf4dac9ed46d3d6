import Sukari.Runs

/-!
# Refused calls

A call is refused when the node is unknown or removed, when an ID to create is used already, when
the suffix of a checkpoint does not start at its snapshot, and when the record does not fit the
format. Every check comes before the first request that changes something: a refused call leaves
the engine and the directory as they are, so an application may leave its refused calls out
(`refused_leaves_no_trace`).
-/

set_option autoImplicit false
set_option relaxedAutoImplicit false

namespace Sukari

open Effects

variable {N : Noraft} {engine : StorageEngine} {fs : Fs}

/-- The calls that an engine refuses. -/
def Refused (engine : StorageEngine) : Command N → Prop
  | .createNode nodeId _ => engine.registry.nodes.contains nodeId = true
  | .removeNode nodeId | .saveCurrentTerm nodeId _ | .saveVotedFor nodeId _ | .load nodeId =>
    engine.registry.isActive nodeId = false
  | .appendEntries nodeId append => engine.registry.isActive nodeId = false ∨
    ¬ Succeeds (encodeRecordFrame nodeId (.append append))
  | .saveSnapshot nodeId checkpoint => engine.registry.isActive nodeId = false ∨
    ¬ Succeeds (checkpoint.validate : Except IoError Unit) ∨
    ¬ Succeeds (encodeRecordFrame nodeId (.snapshotCheckpoint checkpoint))
  | .sync | .loadAll => False

instance : DecidablePred (Refused (N := N) engine) := fun command ↦ by
  cases command <;> unfold Refused <;> infer_instance

/-! ### One refused call -/

/-- The action fails and changes nothing. -/
def Stops {α : Type} (action : EngineM α) (engine : StorageEngine) (fs : Fs) : Prop :=
  ∃ error, directory.run (action.run engine) fs = ((.error error, engine), fs)

/-- The action succeeds and changes nothing. -/
def Passes {α : Type} (action : EngineM α) (engine : StorageEngine) (fs : Fs) (value : α) : Prop :=
  directory.run (action.run engine) fs = ((.ok value, engine), fs)

theorem Stops.bind {α β : Type} {action : EngineM α} (h : Stops action engine fs)
    (next : α → EngineM β) : Stops (action >>= next) engine fs := by
  obtain ⟨error, h⟩ := h
  exact ⟨error, Machine.run_bindMethod_error h⟩

theorem Passes.stops_bind {α β : Type} {action : EngineM α} {value : α}
    (h : Passes action engine fs value) {next : α → EngineM β}
    (hnext : Stops (next value) engine fs) :
    Stops (action >>= next) engine fs := by
  obtain ⟨error, hnext⟩ := hnext
  exact ⟨error, (Machine.run_bindMethod_ok h).trans hnext⟩

theorem passes_get : Passes (get : EngineM StorageEngine) engine fs engine := rfl

theorem stops_liftM {α : Type} {result : Except IoError α} (h : ¬ Succeeds result) :
    Stops (liftM result : EngineM α) engine fs := by
  cases result with
  | ok value => exact absurd trivial h
  | error error => exact ⟨error, rfl⟩

theorem passes_liftM {α : Type} {result : Except IoError α} {value : α} (h : result = .ok value) :
    Passes (liftM result : EngineM α) engine fs value := by
  subst h
  rfl

theorem stops_ensureNodeExists {nodeId : NodeId} (h : engine.registry.isActive nodeId = false) :
    Stops (StorageEngine.ensureNodeExists nodeId) engine fs :=
  passes_get.stops_bind (stops_liftM (ensureNodeExists_error h))

theorem passes_ensureNodeExists {nodeId : NodeId} (h : engine.registry.isActive nodeId = true) :
    Passes (StorageEngine.ensureNodeExists nodeId) engine fs () :=
  (Machine.run_bindMethod_ok passes_get).trans
    (passes_liftM (ensureNodeExists_eq_ok_iff.mpr h))

/-- The frame is encoded before anything else. -/
theorem stops_append {nodeId : NodeId} {record : Record N}
    (h : ¬ Succeeds (encodeRecordFrame nodeId record)) :
    Stops (StorageEngine.onWriter (SegmentWriter.append nodeId record)) engine fs := by
  cases hencode : encodeRecordFrame nodeId record with
  | ok frame => exact absurd (hencode ▸ trivial) h
  | error error =>
    refine ⟨error, ?_⟩
    have happend : directory.run
        (SegmentWriter.append nodeId record ⟨engine.writer, engine.metrics⟩) fs =
          ((.error error, ⟨engine.writer, engine.metrics⟩), fs) := by
      refine Machine.run_bindMethod_error ?_
      rw [hencode]
      rfl
    refine (Machine.run_bind directory _ _ fs).trans ?_
    rw [happend]
    rfl

/-- A refused call fails and changes nothing. -/
theorem Refused.stops {command : Command N} (h : Refused engine command) (fs : Fs) :
    Stops (StorageEngine.call command) engine fs := by
  have hsave {nodeId : NodeId} {record : Record N} (h : engine.registry.isActive nodeId = false ∨
      ¬ Succeeds (encodeRecordFrame nodeId record)) :
      Stops (StorageEngine.saveRecord nodeId record) engine fs := by
    cases hactive : engine.registry.isActive nodeId with
    | false => exact (stops_ensureNodeExists hactive).bind _
    | true =>
      rcases h with h | h
      · rw [h] at hactive
        nomatch hactive
      · exact (passes_ensureNodeExists hactive).stops_bind ((stops_append h).bind _)
  cases command with
  | createNode nodeId metadata =>
    refine passes_get.stops_bind ((stops_liftM ?_).bind _)
    have hused : engine.registry.nodes.contains nodeId = true := h
    rw [NodeRegistry.createNode, if_pos hused]
    exact not_false
  | removeNode nodeId => exact (stops_ensureNodeExists h).bind _
  | saveCurrentTerm nodeId term => exact hsave (.inl h)
  | saveVotedFor nodeId votedFor => exact hsave (.inl h)
  | appendEntries nodeId append => exact hsave h
  | saveSnapshot nodeId checkpoint =>
    cases hactive : engine.registry.isActive nodeId with
    | false => exact (stops_ensureNodeExists hactive).bind _
    | true =>
      refine (passes_ensureNodeExists hactive).stops_bind ?_
      rcases h with h | h | h
      · rw [h] at hactive
        nomatch hactive
      · exact (stops_liftM h).bind _
      · cases (checkpoint.validate : Except IoError Unit) with
        | error error =>
          refine (stops_liftM ?_).bind _
          exact not_false
        | ok value =>
          refine (passes_liftM rfl).stops_bind ?_
          exact (stops_append h).bind _
  | load nodeId => exact ((stops_ensureNodeExists h).bind _).bind _
  | sync | loadAll => exact h.elim

/-! ### Runs without the refused calls -/

/-- What a call returns. -/
inductive Answer (N : Noraft)
  | done
  | state (state : NodeState N)
  | nodes (nodes : ReplayState N)

/-- The method that a command stands for, with its value. -/
def StorageEngine.answer : Command N → EngineM (Answer N)
  | .load nodeId => do return .state (← load N nodeId)
  | .loadAll => do return .nodes (← loadAll N)
  | command => do
    call command
    return .done

/-- The engine of an application, if it has one, and the directory. -/
abbrev Situation := Option StorageEngine × Fs

/-- What an event returns, and the situation after it. There is nothing to call without an
engine. -/
def Event.answer (situation : Situation) : Event N → Option (Except IoError (Answer N)) × Situation
  | .start maxSegmentLen =>
    let (result, fs) :=
      directory.run (StorageEngine.withMaxSegmentLen N maxSegmentLen).run situation.2
    (some (result.map fun _ ↦ .done), (result.toOption, fs))
  | .call command =>
    match situation.1 with
    | none => (none, situation)
    | some engine =>
      let ((result, engine), fs) :=
        directory.run ((StorageEngine.answer command).run engine) situation.2
      (some result, (some engine, fs))

/-- The event is a call that the engine refuses. -/
def Event.isRefused (situation : Situation) : Event N → Bool
  | .start _ => false
  | .call command => situation.1.any fun engine ↦ decide (Refused engine command)

/-- The answers of the events in turn, each with the mark of a refused call, and the situation at
the end. -/
def answers : List (Event N) → Situation →
    List (Bool × Option (Except IoError (Answer N))) × Situation
  | [], situation => ([], situation)
  | event :: rest, situation =>
    let (answer, situation') := event.answer situation
    let (others, last) := answers rest situation'
    ((event.isRefused situation, answer) :: others, last)

/-- The events that are left when the refused calls are deleted. -/
def withoutRefused : List (Event N) → Situation → List (Event N)
  | [], _ => []
  | event :: rest, situation =>
    let others := withoutRefused rest (event.answer situation).2
    if event.isRefused situation then others else event :: others

theorem Refused.stops_answer {command : Command N} (h : Refused engine command) (fs : Fs) :
    Stops (StorageEngine.answer command) engine fs := by
  cases command with
  | load nodeId => exact (stops_ensureNodeExists h).bind _ |>.bind _
  | createNode | removeNode | saveCurrentTerm | saveVotedFor | appendEntries
  | saveSnapshot | sync =>
    exact (h.stops fs).bind _
  | loadAll => exact h.elim

/-- A refused event does not change the situation. -/
theorem Event.answer_of_isRefused {event : Event N} {situation : Situation}
    (h : event.isRefused situation = true) : (event.answer situation).2 = situation := by
  cases event with
  | start maxSegmentLen => nomatch h
  | call command =>
    obtain ⟨engine, fs⟩ := situation
    cases engine with
    | none => rfl
    | some engine =>
      obtain ⟨error, hstops⟩ := (of_decide_eq_true h : Refused engine command).stops_answer fs
      simp only [Event.answer, hstops]

/-- Without the refused calls, the other events return the same and leave the same. -/
theorem answers_withoutRefused (events : List (Event N)) (situation : Situation) :
    answers (withoutRefused events situation) situation =
      ((answers events situation).1.filter fun answer ↦ !answer.1,
        (answers events situation).2) := by
  induction events generalizing situation with
  | nil => rfl
  | cons event rest ih =>
    cases hrefused : event.isRefused situation with
    | true =>
      have hsame := Event.answer_of_isRefused hrefused
      simp only [withoutRefused, answers, hrefused, hsame, if_true, ih, List.filter_cons,
        Bool.not_true, Bool.false_eq_true, if_false]
    | false =>
      simp only [withoutRefused, answers, hrefused, Bool.false_eq_true, if_false, ih,
        List.filter_cons, Bool.not_false, if_true]

/-- A refused call changes neither the engine nor the directory, and deleting the refused calls of
a run changes no other result. -/
theorem refused_leaves_no_trace (N : Noraft) :
    (∀ (engine : StorageEngine) (fs : Fs) (command : Command N), Refused engine command →
      ∃ error, directory.run ((StorageEngine.call command).run engine) fs =
        ((.error error, engine), fs)) ∧
    ∀ (events : List (Event N)) (situation : Situation),
      answers (withoutRefused events situation) situation =
        ((answers events situation).1.filter fun answer ↦ !answer.1,
          (answers events situation).2) :=
  ⟨fun _ fs _ h ↦ h.stops fs, answers_withoutRefused⟩

/-- An engine that has created node 1 refuses to create it again. -/
theorem refused_leaves_no_trace_create : ∃ written engine fs,
    Running Noraft.ofLists written engine fs ∧ engine.registry.nodes.contains 1 = true ∧
    ∃ error, directory.run ((StorageEngine.call (N := Noraft.ofLists)
      (.createNode 1 ⟨false, ⟨"null"⟩⟩)).run engine) fs = ((.error error, engine), fs) := by
  obtain ⟨engine, hengine, hused⟩ := (Option.any_eq_true _ _).mp (by decide +kernel :
    (directory.run (performEvents creatingEvents .closed) .empty).1.engine.any
      (fun engine ↦ engine.registry.nodes.contains 1) = true)
  exact ⟨_, engine, _, .intro .empty hengine, hused,
    (refused_leaves_no_trace Noraft.ofLists).1 engine _ _ hused⟩

end Sukari
