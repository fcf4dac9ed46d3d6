import Sukari.Stored

/-!
# Passes over a directory that a writer is changing

A pass lists the segments of a directory and then reads them one after the other, while a writer
may go on. `Evolves world journalAt` says that the directory at time `t` stores the journal of that
time and that journals only grow. `passSegments_sees` says what a pass makes of it: it applies its
visitor to the entries of the listed segments, as they are when the last of them is read, or it
fails because a listed segment was removed before it was read.
-/

set_option autoImplicit false
set_option relaxedAutoImplicit false

namespace Sukari

open Effects

variable {N : Noraft}

structure Evolves (world : ℕ → Fs) (journalAt : ℕ → Journal N) : Prop where
  stored : ∀ t, Stored (journalAt t) (world t)
  mono : ∀ t t', t ≤ t' → (journalAt t).Extends (journalAt t')

/-- A directory that nobody changes. -/
theorem Stored.evolves {journal : Journal N} {fs : Fs} (h : Stored journal fs) :
    Evolves (fun _ ↦ fs) fun _ ↦ journal :=
  ⟨fun _ ↦ h, fun _ _ _ ↦ .refl journal⟩

variable {σ : Type} {world : ℕ → Fs} {journalAt : ℕ → Journal N}
  {pass : ℕ → Bool → σ → IoM σ} {skip : ℕ → Bool} {select : Entry N → Bool}
  {visitEntry : σ → Entry N → Except IoError σ} {recoverPartial : Bool}

/-- From a time on, a pass over one segment folds the visitor over the entries that are selected. It
expects an incomplete end only where it is told to, and not when it recovers. -/
structure IsPass (world : ℕ → Fs) (journalAt : ℕ → Journal N) (since : ℕ)
    (pass : ℕ → Bool → σ → IoM σ)
    (skip : ℕ → Bool) (select : Entry N → Bool)
    (visitEntry : σ → Entry N → Except IoError σ) (recoverPartial : Bool) : Prop where
  reads : ∀ (t : ℕ) (segment : ℕ) (file : SegmentFile) (frames : List (Frame N))
    (allowPartial : Bool) (acc : σ), since ≤ t → skip segment = false →
    (world t).segments[segment]? = some file → (journalAt t)[segment]? = some frames →
    Contents frames file.bytes →
    (allowPartial = false ∨ recoverPartial = true → file.bytes = segmentBytes frames) →
    directory.Sees world (fun result t' ↦ t' = t + 1 ∧ result =
      ((placedFrom segment segmentFileHeaderLen frames).filter select).foldlM visitEntry acc)
      (pass segment allowPartial acc).run t
  missing : ∀ (t : ℕ) (segment : ℕ) (allowPartial : Bool) (acc : σ),
    (world t).segments[segment]? = none →
    directory.Sees world (fun result _ ↦ ¬ Succeeds result) (pass segment allowPartial acc).run t
  skips : ∀ entry : Entry N, skip entry.position.segment = true → select entry = false

/-- What the passes over the segments of a listing make at the end: the fold over what is visible
at some time, or a failure because of a segment that is gone. -/
def PassResult (world : ℕ → Fs) (journalAt : ℕ → Journal N) (select : Entry N → Bool)
    (visitEntry : σ → Entry N → Except IoError σ) (listing : ℕ) (segments : List ℕ)
    (start : ℕ) (acc : σ) (result : Except IoError σ) (stop : ℕ) : Prop :=
  (∃ u, listing ≤ u ∧ (∃ segment ∈ (world listing).segments, segment ∉ (world u).segments) ∧
    ¬ Succeeds result) ∨
  ∃ u, start ≤ u ∧ (Succeeds result → u ≤ stop) ∧
    result = ((segments.flatMap (journalAt u).inSegment).filter select).foldlM visitEntry acc

/-- The passes over the segments of a listing, from time `start` on. -/
theorem foldlM_pass_sees (hworld : Evolves world journalAt)
    {listing : ℕ}
    (hpass : IsPass world journalAt listing pass skip select visitEntry recoverPartial)
    (hclean : recoverPartial = true → ∀ u, Whole (journalAt u) (world u))
    {activeSegment : ℕ} {segments : List ℕ}
    (hlisted : ∀ segment ∈ segments, segment ∈ (world listing).segments)
    (hsorted : segments.Pairwise (· < ·))
    (hactive : recoverPartial = false → ∀ segment ∈ segments, segment ≠ activeSegment →
      segment + 1 < (journalAt listing).length) {start : ℕ} (hstart : listing ≤ start) (acc : σ) :
    directory.Sees world (PassResult world journalAt select visitEntry listing segments start acc)
      (segments.foldlM (fun acc segment ↦
        if skip segment then return acc else pass segment (segment == activeSegment) acc)
        acc : IoM σ).run start := by
  induction segments generalizing start acc with
  | nil => exact .inr ⟨start, le_rfl, fun _ ↦ le_rfl, rfl⟩
  | cons segment rest ih =>
    have hrest (acc : σ) {u : ℕ} (hu : listing ≤ u) := ih
      (fun other hother ↦ hlisted other (by simp [hother])) hsorted.of_cons
      (fun hrecover other hother ↦ hactive hrecover other (by simp [hother])) hu acc
    -- What stands before the rest is the same at every time at which the rest is read.
    have hlift : ∀ {acc' : σ} {u : ℕ} {result : Except IoError σ} {stop : ℕ}, start ≤ u →
        (∀ u', u ≤ u' → (((journalAt u').inSegment segment).filter select).foldlM visitEntry acc =
          .ok acc') →
        PassResult world journalAt select visitEntry listing rest u acc' result stop →
        PassResult world journalAt select visitEntry listing (segment :: rest) start acc result
          stop := by
      rintro acc' u result stop hu hfirst (hgone | ⟨u', hu', hstop, rfl⟩)
      · exact .inl hgone
      · refine .inr ⟨u', hu.trans hu', hstop, ?_⟩
        rw [List.flatMap_cons, List.filter_append, List.foldlM_append, hfirst u' hu']
        rfl
    rw [List.foldlM_cons]
    refine .bindExcept ?_
    by_cases hskip : skip segment = true
    · rw [if_pos hskip]
      refine (hrest acc hstart).mono fun result stop ↦ hlift le_rfl fun u' _ ↦ ?_
      have hnone : ((journalAt u').inSegment segment).filter select = [] :=
        List.filter_eq_nil_iff.mpr fun entry hentry ↦ by
          rw [hpass.skips entry (by rwa [(Journal.mem_inSegment hentry).1])]
          exact Bool.false_ne_true
      rw [hnone]
      rfl
    · rw [if_neg hskip]
      cases hfile : (world start).segments[segment]? with
      | none =>
        refine (hpass.missing start segment _ acc hfile).mono fun result stop hresult ↦ ?_
        cases result with
        | ok value => exact absurd trivial hresult
        | error error =>
          refine .inl ⟨start, hstart, ⟨segment, hlisted segment (by simp), ?_⟩, hresult⟩
          rw [Std.ExtTreeMap.mem_iff_isSome_getElem?, hfile]
          simp
      | some file =>
        obtain ⟨frames, hframes, hcontents⟩ := (hworld.stored start).contents hfile
        have hlength := (hworld.mono listing start hstart).length
        have hwhole : (segment == activeSegment) = false ∨ recoverPartial = true →
            file.bytes = segmentBytes frames := by
          intro hcase
          cases hrecover : recoverPartial with
          | true => exact hclean hrecover start segment file frames hfile hframes
          | false =>
            have hother : segment ≠ activeSegment := by simpa [hrecover] using hcase
            have hsealed := hactive hrecover segment (by simp) hother
            exact ((hworld.stored start).sealedFile segment file frames hfile hframes
              (hsealed.trans_le hlength)).bytes
        refine (hpass.reads start segment file frames _ acc hstart (by simpa using hskip) hfile
          hframes hcontents hwhole).mono ?_
        rintro result stop ⟨rfl, hresult⟩
        have hplaced : placedFrom segment segmentFileHeaderLen frames =
            (journalAt start).inSegment segment := by rw [Journal.inSegment, hframes]; rfl
        rw [hplaced] at hresult
        cases result with
        | error error =>
          refine .inr ⟨start, le_rfl, False.elim, ?_⟩
          rw [List.flatMap_cons, List.filter_append, List.foldlM_append, ← hresult]
          rfl
        | ok acc' =>
          cases rest with
          | nil =>
            -- Nothing is read after this segment, which may be the active one.
            refine .inr ⟨start, le_rfl, fun _ ↦ Nat.le_succ start, ?_⟩
            rw [List.flatMap_singleton, ← hresult]
          | cons other rest =>
            have hsealed : segment + 1 < (journalAt listing).length := by
              have hlt : segment < other := List.rel_of_pairwise_cons hsorted (by simp)
              have hbound := (hworld.stored listing).present other (hlisted other (by simp))
              omega
            refine (hrest acc' (hstart.trans (Nat.le_succ start))).mono fun result stop ↦
              hlift (Nat.le_succ start) fun u' hu' ↦ ?_
            have hsame : (journalAt u').inSegment segment =
                (journalAt start).inSegment segment := by
              refine Journal.inSegment_eq ?_
              rw [← (hworld.mono listing start hstart).complete segment hsealed,
                (hworld.mono listing u' (by omega)).complete segment hsealed]
            rw [hsame, ← hresult]

/-- A pass over a directory. -/
theorem passSegments_sees (hworld : Evolves world journalAt)
    (hclean : recoverPartial = true → ∀ u, Whole (journalAt u) (world u))
    {startSegment : Option ℕ} {activeSegment : ℕ} {t : ℕ} (acc : σ)
    (hpass :
      IsPass world journalAt t pass (fun segment ↦ startSegment.any fun start ↦ segment < start)
      select visitEntry recoverPartial) :
    directory.Sees world (fun result stop ↦
      (∃ u, t ≤ u ∧ (∃ segment ∈ (world t).segments, segment ∉ (world u).segments) ∧
        ¬ Succeeds result) ∨
      ∃ u, t ≤ u ∧ (Succeeds result → u ≤ stop) ∧ result =
        (((journalAt u).visible (world t).segments.keys).filter select).foldlM visitEntry acc)
      (passSegments pass startSegment activeSegment recoverPartial acc).run t := by
  have hlisting : discoverSegments (world t).entries = (world t).segments.keys :=
    (hworld.stored t).discoverSegments_eq
  have hdiscover : directory.Sees world (fun result t' ↦ t' = t + 1 ∧
      result = .ok (world t).segments.keys) discoverSegmentPaths.run t := by
    refine .bindExcept (sees_io inquiry_readDir ⟨rfl, ?_⟩)
    exact congrArg Except.ok hlisting
  refine .bindExcept (hdiscover.mono ?_)
  rintro result t' ⟨rfl, rfl⟩
  have hactive : recoverPartial = false → ∀ segment ∈ (world t).segments.keys,
      segment ≠ replayActiveSegment (world t).segments.keys activeSegment recoverPartial →
      segment + 1 < (journalAt t).length := by
    intro hrecover segment hsegment hother
    have hlt := (hworld.stored t).present segment (Std.ExtTreeMap.mem_keys.mp hsegment)
    have hlength : (journalAt t).length - 1 + 1 = (journalAt t).length := by omega
    have hlast := (hworld.stored t).getLast?_keys hlength
    rw [replayActiveSegment, hrecover, if_neg Bool.false_ne_true, hlast, Option.getD_some] at hother
    omega
  refine (foldlM_pass_sees hworld hpass hclean (fun segment hsegment ↦
    Std.ExtTreeMap.mem_keys.mp hsegment) (Stored.pairwise_keys _) hactive (Nat.le_succ t)
    acc).mono ?_
  rintro result stop (hgone | ⟨u, hu, hstop, hresult⟩)
  · exact .inl hgone
  · refine .inr ⟨u, (Nat.le_succ t).trans hu, hstop, ?_⟩
    rw [hresult, Journal.flatMap_inSegment (Stored.pairwise_keys _) fun segment hsegment ↦ ?_]
    exact ((hworld.stored t).present segment (Std.ExtTreeMap.mem_keys.mp hsegment)).trans_le
      (hworld.mono t u ((Nat.le_succ t).trans hu)).length

end Sukari
