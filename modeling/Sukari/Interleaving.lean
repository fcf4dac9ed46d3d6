import Sukari.CrashAtomicity
import Sukari.SegmentOrder

/-!
# Reading beside a writer

A reader makes its requests one after the other, and between them a writer may take any number of
steps. `Interleaves N events fs seen` says that the request of the reader at time `t` is answered in
the state `seen t` of an application that performs events from `fs` on: later requests are answered
in the same state or in a later one, and a state may be in the middle of a write. The directories
that a reader sees in this way are tended, whatever the writer does (`Interleaves.tended`).

If a node stays active while `load` runs, a state that it returns is the plain history of the node
up to a point that is not before the start of the call (`load_beside_writer`).
-/

set_option autoImplicit false
set_option relaxedAutoImplicit false

namespace Sukari

open Effects

variable {N : Noraft} {ledger : Ledger N} {fs : Fs} {events : List (Event N)} {nodeId : NodeId}
  {seen : ℕ → Visit fileSystem Fs}

variable (N) in
/-- The states in which the requests of a reader are answered beside a writer. -/
def Interleaves (events : List (Event N)) (fs : Fs) (seen : ℕ → Visit fileSystem Fs) : Prop :=
  ∃ pace : ℕ → ℕ, Monotone pace ∧ ∀ t, (visits N events fs)[pace t]? = some (seen t)

/-- A reader that makes its first request in one state and the others in a later one. -/
theorem Interleaves.two {first later : ℕ} (hle : first ≤ later)
    (hfirst : (visits N events fs)[first]? = some (seen 0))
    (hlater : ∀ t, (visits N events fs)[later]? = some (seen (t + 1))) :
    Interleaves N events fs seen := by
  refine ⟨fun t ↦ if t = 0 then first else later, fun t t' ht ↦ ?_, fun t ↦ ?_⟩
  · simp only
    split_ifs <;> omega
  · cases t with
    | zero => exact hfirst
    | succ t => exact hlater t

/-- The same application in the directory with all names durable. -/
theorem visits_syncDir (events : List (Event N)) (fs : Fs) :
    List.Forall₂ (fun visit visit' ↦ visit.past = visit'.past ∧ Alike visit.state visit'.state)
      (visits N events fs) (visits N events fs.syncDir) :=
  .cons ⟨rfl, (alike_syncDir fs).symm⟩ (bisimulation_alike.trace _ [] (alike_syncDir fs).symm)

/-- The reader might as well have read in the directory with all names durable. -/
theorem Interleaves.syncDir (h : Interleaves N events fs seen) :
    ∃ seen', Interleaves N events fs.syncDir seen' ∧
      ∀ t, (seen t).past = (seen' t).past ∧ Alike (seen t).state (seen' t).state := by
  obtain ⟨pace, hpace, hvisit⟩ := h
  have hseen (t : ℕ) : ∃ visit', (visits N events fs.syncDir)[pace t]? = some visit' ∧
      (seen t).past = visit'.past ∧ Alike (seen t).state visit'.state := by
    obtain ⟨hlength, hrelated⟩ := List.forall₂_iff_get.mp (visits_syncDir events fs)
    obtain ⟨hlt, hget⟩ := List.getElem?_eq_some_iff.mp (hvisit t)
    refine ⟨_, List.getElem?_eq_getElem (hlength ▸ hlt), ?_⟩
    have hboth := hrelated (pace t) hlt (hlength ▸ hlt)
    rwa [List.get_eq_getElem, hget] at hboth
  choose seen' hget hrelated using hseen
  exact ⟨seen', ⟨pace, hpace, hget⟩, hrelated⟩

/-- What a run refines can be read off from every state that a reader sees. -/
theorem Interleaves.labels {γ : Type} {R : Refinement directory γ} {Q : Session N → γ → Fs → Prop}
    {g : γ} (hseen : Interleaves N events fs seen) (hholds : R.holds g fs)
    (h : R.Refines Q (performEvents events .closed) g fs) : ∃ label : ℕ → γ,
      (∀ t, R.holds (label t) (seen t).state ∧ R.Steps (seen t).past g (label t)) ∧
      ∀ t t', t ≤ t' → ∃ ops, (seen t').past = (seen t).past ++ ops ∧
        R.Steps ops (label t) (label t') := by
  obtain ⟨pace, hpace, hvisit⟩ := hseen
  obtain ⟨labels, hmap, hchain, hlabels, -⟩ := h.labelled []
  have hpairwise := List.isChain_iff_pairwise.mp hchain
  have hstates : ((g, ⟨[], fs⟩) :: labels).map Prod.snd = visits N events fs := by
    rw [List.map_cons, hmap]
    rfl
  have hlabel (t : ℕ) : ∃ label, ((g, ⟨[], fs⟩) :: labels)[pace t]? = some (label, seen t) := by
    have hget := hvisit t
    rw [← hstates, List.getElem?_map, Option.map_eq_some_iff] at hget
    obtain ⟨⟨label, visit⟩, hget, rfl⟩ := hget
    exact ⟨label, hget⟩
  choose label hget using hlabel
  refine ⟨label, fun t ↦ ?_, fun t t' ht ↦ ?_⟩
  · rcases List.mem_cons.mp (List.mem_of_getElem? (hget t)) with hfirst | hlater
    · obtain ⟨hlabel, hstate⟩ := Prod.mk.inj hfirst
      rw [hlabel, hstate]
      exact ⟨hholds, .refl g⟩
    · obtain ⟨ops, hpast, hsteps⟩ := List.rel_of_pairwise_cons hpairwise hlater
      rw [List.nil_append] at hpast
      exact ⟨hlabels _ hlater, hpast ▸ hsteps⟩
  · rcases (hpace ht).lt_or_eq with hlt | heq
    · obtain ⟨hindex, hfirst⟩ := List.getElem?_eq_some_iff.mp (hget t)
      obtain ⟨hindex', hsecond⟩ := List.getElem?_eq_some_iff.mp (hget t')
      have hleads := List.pairwise_iff_getElem.mp hpairwise _ _ hindex hindex' hlt
      rwa [hfirst, hsecond] at hleads
    · have hsame := (hget t).symm.trans (heq ▸ hget t')
      obtain ⟨hlabel, hstate⟩ := Prod.mk.inj (Option.some.inj hsame)
      rw [← hlabel, ← hstate]
      exact Refinement.Leads.refl (label t, seen t)

/-- Whatever the writer does, the directory is tended, and segments come and go in their order. -/
theorem Interleaves.tended (hseen : Interleaves N events fs seen) (h : ledger.Holds fs.syncDir) :
    ∃ journalAt : ℕ → Journal N, Tended (fun t ↦ (seen t).state.syncDir) journalAt ∧
      (∀ t, (journalAt t).written = ledger.journal.written ++ recordsWritten N (seen t).past) ∧
      ∀ t t', t ≤ t' → Shelf.Leads ⟨(journalAt t).length, (seen t).state.present⟩
        ⟨(journalAt t').length, (seen t').state.present⟩ := by
  obtain ⟨seen', hseen', hrelated⟩ := hseen.syncDir
  obtain ⟨label, hlabel, hleads⟩ := hseen'.labels (R := shelved N) ⟨h, rfl⟩
    (refines_shelvedEvents (h.served fs.syncDir_syncDir) events)
  have hsame (t : ℕ) : (seen t).state.syncDir = (seen' t).state.syncDir := (hrelated t).2
  have hpresent (t : ℕ) : (seen t).state.present = (label t).2 := by
    rw [(hlabel t).1.2, ← Fs.present_syncDir, hsame, Fs.present_syncDir]
  refine ⟨fun t ↦ (label t).1.journal, ⟨fun t ↦ ?_, fun t t' ht ↦ ?_⟩, fun t ↦ ?_, fun t t' ht ↦ ?_⟩
  · rw [hsame]
    exact (hlabel t).1.1.syncDir.recoverable
  · obtain ⟨ops, -, hsteps⟩ := hleads t t' ht
    exact (steps_written (steps_shelved hsteps).1).2
  · rw [(steps_written (steps_shelved (hlabel t).2).1).1, (hrelated t).1]
  · obtain ⟨ops, -, hsteps⟩ := hleads t t' ht
    rw [hpresent, hpresent]
    exact (steps_shelved hsteps).2

/-- A reader does not see which names are durable. -/
theorem observe_syncDir {α : Type} (seen : ℕ → Visit fileSystem Fs) (p : Program fileSystem α)
    (t : ℕ) : directory.observe (fun t ↦ (seen t).state) p t =
      directory.observe (fun t ↦ (seen t).state.syncDir) p t :=
  bisimulation_alike.observe (fun t ↦ (alike_syncDir (seen t).state).symm) p t

/-- The registry file of the directory has the node as an active one. -/
def Fs.IsLive (fs : Fs) (nodeId : NodeId) : Prop :=
  ∃ registry, NodeRegistry.ofFile fs.nodes.current = .ok registry ∧ registry.isActive nodeId = true

variable (N) in
/-- The state is the plain history of the node up to a point in the order in which records were
written, which is not before `first` records and not after `written`. -/
def IsHistory (nodeId : NodeId) (first : ℕ) (written : List (NodeId × Record N))
    (state : NodeState N) : Prop :=
  ∃ cut, first ≤ cut ∧ cut ≤ written.length ∧
    PlainHistory (recordsOf nodeId (written.take cut)) (.ok state)

/-- A replay that has listed the segments from a checkpoint of the node on finds a plain history. -/
theorem Replayed.isHistory {world : ℕ → Fs} {journalAt : ℕ → Journal N} {state : NodeState N}
    {start : Option RecordPosition} {listing replayed first last : ℕ}
    (hworld : Tended world journalAt)
    (h : Replayed world journalAt nodeId state start listing replayed)
    (hanchored : AnchoredIn (journalAt listing) (world listing).segments.keys nodeId)
    (hfirst : first ≤ listing) (hlast : replayed ≤ last) :
    IsHistory N nodeId (journalAt first).written.length (journalAt last).written state := by
  have hrecovered := h.recovered hworld hanchored
  have hextends := (hworld.mono listing replayed h.le).take
  have hlisted := (hworld.mono first listing hfirst).trans hextends
  have hprefix := (Journal.written_prefix (Journal.entries_take (journalAt replayed)
    (journalAt listing).length)).trans (Journal.written_prefix
      (hworld.mono replayed last hlast).entries)
  refine ⟨_, (Journal.written_prefix hlisted.entries).length_le, hprefix.length_le, ?_⟩
  rw [← List.prefix_iff_eq_take.mp hprefix, ← hrecovered]
  obtain ⟨entry, hentry, hcheckpoint, -⟩ := hanchored
  exact plainHistory_recoveredState
    (exists_checkpoint_of_mem (hextends.entries.subset hentry) hcheckpoint)

/-- A live node is loaded beside a writer as it was at some time of the call. -/
theorem load_beside_writer {written : List (NodeId × Record N)} {state : NodeState N} {stop : ℕ}
    (h : Reachable N written fs) (hseen : Interleaves N events fs seen)
    (hlive : ∀ t ≤ stop, (seen t).state.IsLive nodeId)
    (hload : directory.observe (fun t ↦ (seen t).state) (load N nodeId).run 0 = (.ok state, stop)) :
    IsHistory N nodeId (written ++ recordsWritten N (seen 0).past).length
      (written ++ recordsWritten N (seen stop).past) state := by
  obtain ⟨ledger, rfl, hholds⟩ := h.holds
  obtain ⟨journalAt, htended, hwritten, -⟩ := hseen.tended hholds
  have hreplayed := (load_replayed htended nodeId (t := 0)).observe
  rw [← observe_syncDir, hload] at hreplayed
  obtain ⟨-, -, -, start, listing, replayed, -, hstop, -, hreplay⟩ := hreplayed state rfl
  obtain ⟨registry, hregistry, hactive⟩ := hlive listing (hreplay.le.trans hstop)
  have hanchored := (htended.recoverable listing).anchored registry nodeId
    ⟨_, .inl rfl, hregistry⟩ hactive
  rw [← hwritten, ← hwritten]
  exact hreplay.isHistory htended hanchored.anchoredIn (Nat.zero_le _) hstop

/-- The states of an application in which a node has voted. -/
def votingVisit (step : ℕ) : Visit fileSystem Fs :=
  (visits Noraft.ofLists unsyncedEvents .empty).getD step ⟨[], .empty⟩

/-- A reader that starts when the vote is being written, and goes on when it is complete. -/
def votingSeen : ℕ → Visit fileSystem Fs
  | 0 => votingVisit 128
  | _ + 1 => votingVisit 137

theorem interleaves_votingSeen : Interleaves Noraft.ofLists unsyncedEvents .empty votingSeen := by
  have hlength : (visits Noraft.ofLists unsyncedEvents .empty).length = 138 := by decide +kernel
  have hvisit {step : ℕ} (hstep : step < 138) :
      (visits Noraft.ofLists unsyncedEvents .empty)[step]? = some (votingVisit step) := by
    have hget := List.getElem?_eq_getElem (hlength.symm ▸ hstep)
    rw [votingVisit, List.getD_eq_getElem?_getD, hget, Option.getD_some]
  exact .two (show 128 ≤ 137 by decide) (hvisit (by decide)) fun _ ↦ hvisit (by decide)

/-- The reader finds the vote that was complete only after it had started. -/
theorem load_beside_writer_voting : ∃ state, state.votedFor = some 2 ∧
    IsHistory Noraft.ofLists 1 ([] ++ recordsWritten Noraft.ofLists (votingSeen 0).past).length
      ([] ++ recordsWritten Noraft.ofLists (votingSeen 11).past) state := by
  have hlive : ∀ step ∈ [128, 137],
      (NodeRegistry.ofFile (votingVisit step).state.nodes.current).toOption.any
        (fun registry ↦ registry.isActive 1) = true := by
    decide +kernel
  have hrun : (directory.observe (fun t ↦ (votingSeen t).state)
      (load Noraft.ofLists 1).run 0).1.toOption.any (fun state ↦ state.votedFor = some 2) = true ∧
        (directory.observe (fun t ↦ (votingSeen t).state) (load Noraft.ofLists 1).run 0).2 =
          11 := by
    decide +kernel
  simp only [Option.any_eq_true, toOption_eq_some_iff, decide_eq_true_eq] at hlive hrun
  obtain ⟨⟨state, hload, hvoted⟩, hstop⟩ := hrun
  refine ⟨state, hvoted, load_beside_writer .empty interleaves_votingSeen (fun t _ ↦ ?_)
    (Prod.ext hload hstop)⟩
  cases t with
  | zero => exact hlive 128 (by decide)
  | succ t => exact hlive 137 (by decide)

end Sukari
