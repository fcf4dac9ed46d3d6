import Sukari.Footprints
import Sukari.Runs

/-!
# The order in which segments come and go

New segments stand behind all others, and garbage collection removes the first segment that is still
there, again and again. A directory is a window that moves over its segments in this way
(`Shelf.Leads`): what was removed is never back, and the segments after one that is still there are
all there. `refines_shelved` adds this to the journal that a directory stores.
-/

set_option autoImplicit false
set_option relaxedAutoImplicit false

namespace Sukari

open Effects

variable {N : Noraft} {opened ledger ledger' : Ledger N} {fs : Fs} {engine : StorageEngine}

/-- The number of segments that were created, and the segments that are there. -/
structure Shelf where
  created : ℕ
  present : Set ℕ

namespace Shelf

/-- What later times have in common with an earlier one. -/
structure Leads (first later : Shelf) : Prop where
  created_le : first.created ≤ later.created
  /-- A segment that was removed is not back. -/
  old : ∀ segment ∈ later.present, segment < first.created → segment ∈ first.present
  /-- A segment that is there has all the later ones behind it that were there or are new. -/
  behind : ∀ segment ∈ later.present, ∀ other, segment < other → other < later.created →
    other ∈ first.present ∨ first.created ≤ other → other ∈ later.present

variable {first second third : Shelf}

theorem Leads.refl (shelf : Shelf) : shelf.Leads shelf where
  created_le := le_rfl
  old _ hsegment _ := hsegment
  behind _ _ _ _ hcreated hother := hother.resolve_right hcreated.not_ge

theorem Leads.trans (h : first.Leads second) (h' : second.Leads third) : first.Leads third where
  created_le := h.created_le.trans h'.created_le
  old segment hsegment hcreated :=
    h.old segment (h'.old segment hsegment (hcreated.trans_le h.created_le)) hcreated
  behind segment hsegment other hlt hcreated hother := by
    refine h'.behind segment hsegment other hlt hcreated ?_
    rcases Nat.lt_or_ge other second.created with hold | hnew
    · have hmiddle := h'.old segment hsegment (hlt.trans hold)
      exact .inl (h.behind segment hmiddle other hlt hold hother)
    · exact .inr hnew

end Shelf

/-! ### One request -/

def Fs.present (fs : Fs) : Set ℕ := {segment | segment ∈ fs.segments}

@[simp] theorem Fs.mem_present {segment : ℕ} : segment ∈ fs.present ↔ segment ∈ fs.segments :=
    Iff.rfl

theorem Fs.present_modifySegment (fs : Fs) (name : ℕ) (f : SegmentFile → SegmentFile) :
    (fs.modifySegment name f).present = fs.present := by
  ext segment
  exact fs.mem_modifySegment name f segment

theorem Fs.present_syncDir (fs : Fs) : fs.syncDir.present = fs.present := by
  ext segment
  exact Fs.mem_syncDir

theorem Fs.present_during {op : FsOp} {fs' : Fs} (h : fs' ∈ Fs.during op fs) :
    fs'.present = fs.present := by
  cases op with
  | writeAll name bytes =>
    simp only [Fs.during] at h
    split at h
    · obtain ⟨len, -, rfl⟩ := List.mem_map.mp h
      exact fs.present_modifySegment name _
    · cases h
  | _ => cases h

/-- Only two requests change which segments are there. -/
theorem Fs.present_after {op : FsOp} (hcreate : ∀ name, op ≠ .create name)
    (hremove : ∀ name, op ≠ .remove name) (fs : Fs) : (Fs.after op fs).present = fs.present := by
  cases op with
  | setLen name len => exact fs.present_modifySegment name _
  | syncData name => exact fs.present_modifySegment name _
  | writeAll name bytes =>
    simp only [Fs.after]
    split
    · exact fs.present_modifySegment name _
    · rfl
  | syncDir => exact fs.present_syncDir
  | replaceJson name document => cases name <;> rfl
  | create name => exact absurd rfl (hcreate name)
  | remove name => exact absurd rfl (hremove name)
  | readDir | isFile | read | fileLen | readJson => rfl

def Ledger.shelf (ledger : Ledger N) (present : Set ℕ) : Shelf := ⟨ledger.journal.length, present⟩

section Request

variable {fs' : Fs}

/-- When no segment came or went, the journal has none more either. -/
theorem shelf_leads_of_present_eq (h : Stored ledger.journal fs) (h' : Stored ledger'.journal fs')
    (hextends : ledger.journal.Extends ledger'.journal) (hpresent : fs'.present = fs.present) :
    (ledger.shelf fs.present).Leads (ledger'.shelf fs'.present) where
  created_le := hextends.length
  old _ hsegment _ := hpresent ▸ hsegment
  behind segment hsegment other hlt hcreated hother := by
    rcases hother with hold | hnew
    · exact hpresent ▸ hold
    · simp only [Ledger.shelf] at hcreated hnew
      have hlast : ledger'.journal.length - 1 ∈ fs'.present :=
        h'.active _ (Nat.sub_add_cancel (by omega))
      rw [hpresent] at hlast
      have hbound := h.present _ hlast
      omega

/-- A segment that is created is the next one of the journal. -/
theorem shelf_leads_create {name : ℕ} (h : Stored ledger.journal fs)
    (h' : Stored ledger'.journal (fs.create name))
    (hledger : ledger' = ledger ∨ ledger' = ledger.newSegment) :
    (ledger.shelf fs.present).Leads (ledger'.shelf (fs.create name).present) := by
  by_cases hknown : name ∈ fs.segments
  · rw [Fs.create_of_mem hknown] at h' ⊢
    refine shelf_leads_of_present_eq h h' ?_ rfl
    rcases hledger with rfl | rfl
    · exact .refl _
    · exact Journal.extends_newSegment _
  have hfile : (fs.create name).segments[name]? = some ⟨[], 0, false⟩ := by
    rw [Fs.getElem?_create hknown, if_pos rfl]
  have hmem (segment : ℕ) : segment ∈ (fs.create name).present ↔
      segment = name ∨ segment ∈ fs.present := by
    rw [Fs.mem_present, Fs.create, Std.ExtTreeMap.mem_insertIfNew, Nat.compare_eq_eq, eq_comm]
    rfl
  have hname : name < ledger'.journal.length := h'.present name ((hmem name).mpr (.inl rfl))
  rcases hledger with rfl | rfl
  · -- The file of a segment that was there before has a header.
    exfalso
    have hsealed : name + 1 < ledger'.journal.length := by
      have hactive := h.active name
      by_contra hlast
      exact hknown (hactive (by omega))
    have hbytes := (h'.sealedFile name _ _ hfile (List.getElem?_eq_getElem hname) hsealed).bytes
    cases hbytes
  · have hlength : ledger.newSegment.journal.length = ledger.journal.length + 1 :=
      Journal.length_newSegment _
    obtain rfl : ledger.journal.length = name := by
      rcases (hmem _).mp (h'.active ledger.journal.length hlength.symm) with hsame | hold
      · exact hsame
      · exact absurd (h.present _ hold) (lt_irrefl _)
    refine ⟨(Journal.extends_newSegment _).length, fun segment hsegment hcreated ↦ ?_,
      fun segment _ other _ hcreated hother ↦ ?_⟩
    · exact ((hmem segment).mp hsegment).resolve_left (ne_of_lt hcreated)
    · simp only [Ledger.shelf, hlength] at hcreated hother
      refine (hmem other).mpr ?_
      rcases hother with hold | hnew
      · exact .inr hold
      · exact .inl (by omega)

/-- A segment that is removed is the first one. -/
theorem shelf_leads_remove {name : ℕ} (hfirst : ∀ segment ∈ fs.present, name ≤ segment) :
    (ledger.shelf fs.present).Leads (ledger.shelf (fs.remove name).present) where
  created_le := le_rfl
  old segment hsegment _ := (Fs.mem_remove.mp hsegment).2
  behind segment hsegment other hlt hcreated hother := by
    have hle := hfirst segment (Fs.mem_remove.mp hsegment).2
    exact Fs.mem_remove.mpr ⟨by omega, hother.resolve_right hcreated.not_ge⟩

/-- One request, when it does not remove a segment that stands behind another one. -/
theorem shelf_leads {op : FsOp} (h : Stored ledger.journal fs)
    (h' : Stored ledger'.journal (Fs.after op fs))
    (hstep : Ledger.Step ⟨op, Fs.reply op fs⟩ ledger ledger')
    (hfirst : ∀ name, op = .remove name → ∀ segment ∈ fs.present, name ≤ segment) :
    (ledger.shelf fs.present).Leads (ledger'.shelf (Fs.after op fs).present) := by
  have hsame (hcreate : ∀ name, op ≠ .create name) (hremove : ∀ name, op ≠ .remove name) :=
    shelf_leads_of_present_eq h h' hstep.written.2 (Fs.present_after hcreate hremove fs)
  cases op with
  | create name => exact shelf_leads_create h h' hstep
  | remove name =>
    obtain rfl : ledger' = ledger := hstep
    exact shelf_leads_remove (hfirst name rfl)
  | _ => exact hsame nofun nofun

end Request

/-! ### Removing from the front -/

/-- Programs that remove no segment but the first one. -/
def frontFirst : Refinement directory (Set ℕ) where
  step exchange present _ :=
    ∀ name, exchange.1 = .remove name → ∀ segment ∈ present, name ≤ segment
  holds present fs := present = fs.present

section FrontFirst

variable {α : Type} {Q : α → Ledger N → Fs → Prop} {Q' : α → Set ℕ → Fs → Prop}
  {p : Program fileSystem α}

theorem frontFirst_of_within (h : p.Within FsOp.KeepsSegments) :
    frontFirst.Refines (fun _ _ _ ↦ True) p fs.present fs := by
  induction p generalizing fs with
  | done value => trivial
  | request op next ih =>
    exact ⟨fun fs' hfs' ↦ (Fs.present_during hfs').symm, (Fs.after op fs).present,
      fun name hremove ↦ absurd hremove (h.1 name), rfl, ih _ (h.2 _)⟩

variable (N) in
/-- Ledgers with the segments that are there. -/
def shelved : Refinement directory (Ledger N × Set ℕ) where
  step exchange first later := Ledger.Step exchange first.1 later.1 ∧
    (first.1.shelf first.2).Leads (later.1.shelf later.2)
  holds state fs := state.1.Holds fs ∧ state.2 = fs.present

theorem steps_shelved {past : List (Exchange fileSystem)} {first later : Ledger N × Set ℕ}
    (h : (shelved N).Steps past first later) : (storage N).Steps past first.1 later.1 ∧
      (first.1.shelf first.2).Leads (later.1.shelf later.2) := by
  induction h with
  | refl state => exact ⟨.refl _, .refl _⟩
  | cons first rest ih => exact ⟨.cons first.1 ih.1, first.2.trans ih.2⟩

/-- A program for ledgers that only removes first segments is one for ledgers with segments. -/
theorem refines_shelved (h : (storage N).Refines Q p ledger fs)
    (hfront : frontFirst.Refines Q' p fs.present fs) (hholds : ledger.Holds fs) :
    (shelved N).Refines (fun value state fs' ↦ Q value state.1 fs' ∧ state.2 = fs'.present) p
      (ledger, fs.present) fs := by
  induction p generalizing ledger fs with
  | done value => exact ⟨h, rfl⟩
  | request op next ih =>
    obtain ⟨hduring, ledger', hstep, hholds', hnext⟩ := h
    obtain ⟨-, present, hfirst, rfl, hrest⟩ := hfront
    refine ⟨fun fs' hfs' ↦ ⟨hduring fs' hfs', (Fs.present_during hfs').symm⟩,
      (ledger', (Fs.after op fs).present), ⟨hstep, ?_⟩, ⟨hholds', rfl⟩, ih _ hnext hrest hholds'⟩
    exact shelf_leads hholds.recoverable.toStored hholds'.recoverable.toStored hstep hfirst

theorem refines_shelved_of_within (h : (storage N).Refines Q p ledger fs)
    (hwithin : p.Within FsOp.KeepsSegments) (hholds : ledger.Holds fs) :
    (shelved N).Refines (fun value state fs' ↦ Q value state.1 fs' ∧ state.2 = fs'.present) p
      (ledger, fs.present) fs :=
  refines_shelved h (frontFirst_of_within hwithin) hholds

end FrontFirst

/-! ### Garbage collection -/

section CollectGarbage

variable {barrier : GcBarrier} {active : ℕ} {segments : List ℕ}

/-- Nothing is removed when the barrier allows nothing. -/
theorem foldlM_removeSegments (h : ∀ segment ∈ segments, segment = active ∨
    barrier.allowsDelete segment = false) (deleted : ℕ) :
    (segments.foldlM (fun deleted segment ↦
      if segment = active then return deleted
      else if barrier.allowsDelete segment = false then return deleted
      else do
        let existed : Bool ← io (.remove segment)
        return if existed then deleted + 1 else deleted) deleted : IoM ℕ) = return deleted := by
  induction segments with
  | nil => rfl
  | cons segment rest ih =>
    have hrest := ih fun other hother ↦ h other (List.mem_cons_of_mem _ hother)
    rw [List.foldlM_cons]
    by_cases hactive : segment = active
    · rw [if_pos hactive, pure_bind, hrest]
    · rw [if_neg hactive, if_pos ((h segment (List.mem_cons_self ..)).resolve_left hactive),
        pure_bind, hrest]

/-- The loop removes the segments from the first one on, up to one that stays. -/
theorem frontFirst_removeSegments (hsorted : segments.Pairwise (· < ·))
    (hactive : ∀ segment ∈ segments, segment ≤ active)
    (hpresent : ∀ segment ∈ fs.present, segment ∈ segments)
    (hbarrier : ∀ segment other, segment < other → barrier.allowsDelete other = true →
      barrier.allowsDelete segment = true) (deleted : ℕ) :
    frontFirst.Refines (fun _ present fs' ↦ present = fs'.present)
      (segments.foldlM (fun deleted segment ↦
        if segment = active then return deleted
        else if barrier.allowsDelete segment = false then return deleted
        else do
          let existed : Bool ← io (.remove segment)
          return if existed then deleted + 1 else deleted) deleted : IoM ℕ).run fs.present fs := by
  induction segments generalizing fs deleted with
  | nil => exact rfl
  | cons segment rest ih =>
    have hbehind (other : ℕ) (hother : other ∈ rest) : segment < other :=
      List.rel_of_pairwise_cons hsorted hother
    by_cases hremovable : segment ≠ active ∧ barrier.allowsDelete segment = true
    · rw [List.foldlM_cons, if_neg hremovable.1, if_neg (by simp [hremovable.2])]
      have hfirst (other : ℕ) (hother : other ∈ fs.present) : segment ≤ other := by
        rcases List.mem_cons.mp (hpresent other hother) with rfl | hrest
        · exact le_rfl
        · exact (hbehind other hrest).le
      refine .bindExcept (.bindExcept (refines_io (fs.remove segment).present nofun ?_ rfl ?_))
      · rintro name ⟨⟩
        exact hfirst
      · refine ih hsorted.of_cons (fun other hother ↦ hactive other (by simp [hother])) ?_ _
        intro other hother
        obtain ⟨hne, hold⟩ := Fs.mem_remove.mp hother
        exact (List.mem_cons.mp (hpresent other hold)).resolve_left hne
    · rw [foldlM_removeSegments]
      · exact rfl
      · intro other hother
        by_contra hremoved
        simp only [not_or, Bool.not_eq_false] at hremoved
        refine hremovable ⟨?_, ?_⟩
        · rintro rfl
          rcases List.mem_cons.mp hother with rfl | hrest
          · exact hremoved.1 rfl
          · have hle := hactive other hother
            have hlt := hbehind other hrest
            omega
        · rcases List.mem_cons.mp hother with rfl | hrest
          · exact hremoved.2
          · exact hbarrier segment other (hbehind other hrest) hremoved.2

theorem frontFirst_collectGarbage (h : Ready opened engine ledger fs) :
    frontFirst.Refines (fun _ _ _ ↦ True) (StorageEngine.collectGarbage.run engine)
      fs.present fs := by
  refine .bindMethod (refines_get ?_)
  cases hbarrier : engine.checkpointIndex.gcBarrier engine.registry.activeNodeIds with
  | none =>
    simp only [hbarrier]
    exact trivial
  | some barrier =>
    simp only [hbarrier]
    have hstored := h.state.holds.recoverable.toStored
    have hdiscover : frontFirst.Refines (fun result present fs' ↦ result = .ok fs.segments.keys ∧
        present = fs.present ∧ fs' = fs) discoverSegmentPaths.run fs.present fs := by
      refine .bindExcept (refines_io fs.present (List.forall_mem_nil _)
        (fun _ hremove ↦ by cases hremove) rfl ⟨?_, rfl, rfl⟩)
      exact congrArg Except.ok hstored.discoverSegments_eq
    refine .bindMethod (refines_liftIo (hdiscover.mono ?_))
    rintro _ _ _ ⟨rfl, rfl, rfl⟩
    obtain ⟨-, hallows⟩ := CheckpointIndex.gcBarrier_eq_some hbarrier
    have hactive : engine.writer.activeSegment + 1 = ledger.journal.length := h.state.writer.active
    refine .bindMethod (refines_liftIo ((frontFirst_removeSegments (Stored.pairwise_keys _)
      (fun segment hsegment ↦ ?_) (fun segment hsegment ↦ Std.ExtTreeMap.mem_keys.mpr hsegment)
      (fun segment other hlt hother ↦ ?_) 0).mono ?_))
    · have hbound := hstored.present segment (Std.ExtTreeMap.mem_keys.mp hsegment)
      omega
    · exact (hallows segment).mpr fun nodeId hnode position hposition ↦
        hlt.trans ((hallows other).mp hother nodeId hnode position hposition)
    · rintro result _ fs' rfl
      cases result with
      | error error => exact trivial
      | ok count =>
        exact refines_onlyIf (fun _ ↦ refines_liftIo ((frontFirst_of_within within_syncDir).mono
          fun _ _ _ _ ↦ trivial)) fun _ ↦ trivial

end CollectGarbage

/-! ### Applications -/

theorem methodWithin_saveCheckpoint (nodeId : NodeId) (checkpoint : SnapshotCheckpoint N) :
    MethodWithin FsOp.KeepsSegments (StorageEngine.saveCheckpoint nodeId checkpoint) :=
  fun s ↦ .bindMethod (methodWithin_ensureNodeExists nodeId s) fun _ s ↦
    .bindMethod (methodWithin_liftM _ s) fun _ s ↦
      .bindMethod (methodWithin_onWriter (methodWithin_append _ _) s) fun _ s ↦
        .bindMethod (methodWithin_onWriter methodWithin_sync s) fun _ _ ↦
          .bindMethod trivial fun _ s ↦
            .bindMethod (methodWithin_liftIo (within_saveIndex (keepsSegments_replaceJson _) _) s)
              fun _ _ ↦ trivial

theorem methodWithin_unregisterNode (nodeId : NodeId) :
    MethodWithin FsOp.KeepsSegments (StorageEngine.unregisterNode nodeId) :=
  fun s ↦ .bindMethod (methodWithin_ensureNodeExists nodeId s) fun _ _ ↦
    .bindMethod trivial fun _ s ↦ .bindMethod (methodWithin_liftM _ s) fun _ s ↦
      .bindMethod (methodWithin_liftIo (within_saveRegistry (keepsSegments_replaceJson _) _) s)
        fun _ _ ↦
        .bindMethod trivial fun _ _ ↦ .bindMethod trivial fun _ s ↦
          .bindMethod (methodWithin_liftIo (within_saveIndex (keepsSegments_replaceJson _) _) s)
            fun _ _ ↦ trivial

theorem methodWithin_createNode (nodeId : NodeId) (metadata : NodeMetadata) :
    MethodWithin FsOp.KeepsSegments (StorageEngine.createNode N nodeId metadata) :=
  fun _ ↦ .bindMethod trivial fun _ s ↦ .bindMethod (methodWithin_liftM _ s) fun _ s ↦
    .bindMethod (methodWithin_onWriter (methodWithin_append _ _) s) fun _ s ↦
      .bindMethod (methodWithin_onWriter methodWithin_sync s) fun _ _ ↦
        .bindMethod trivial fun _ s ↦
          .bindMethod (methodWithin_liftIo (within_saveIndex (keepsSegments_replaceJson _) _) s)
            fun _ s ↦
            .bindMethod (methodWithin_liftIo (within_saveRegistry (keepsSegments_replaceJson _) _)
              s) fun _ _ ↦ trivial

/-- Garbage collection comes last in a call. -/
theorem refines_shelvedThenGarbage {action : EngineM Unit} {records : List (NodeId × Record N)}
    (h : Ready opened engine ledger fs)
    (haction :
      (storage N).Refines (fun out ledger' fs' ↦ Adds records opened ledger out ledger' fs' ∧
      (out.1 = .ok () → DocumentsDurable fs')) (action.run engine) ledger fs)
    (hwithin : MethodWithin FsOp.KeepsSegments action) :
    (shelved N).Refines (fun out state fs' ↦ Adds records opened ledger out state.1 fs' ∧
        state.2 = fs'.present)
      ((action >>= fun _ ↦ StorageEngine.collectGarbage).run engine) (ledger, fs.present) fs := by
  refine .bindMethod ((refines_shelved_of_within haction (hwithin engine) h.state.holds).mono ?_)
  rintro ⟨result, engine'⟩ ⟨ledger', _⟩ fs' ⟨⟨hadds, hdurable⟩, rfl⟩
  cases result with
  | error error => exact ⟨hadds, rfl⟩
  | ok value =>
    have hready : Ready opened engine' ledger' fs' := hadds.ready
    refine (refines_shelved (refines_collectGarbage hready (hdurable rfl))
      (frontFirst_collectGarbage hready) hready.state.holds).mono ?_
    rintro _ ⟨_, _⟩ fsEnd ⟨⟨rfl, rfl, hfinal, -⟩, rfl⟩
    exact ⟨⟨hfinal, hadds.written⟩, rfl⟩

theorem refines_shelvedCall (h : Ready opened engine ledger fs) (command : Command N) :
    (shelved N).Refines (fun out state fs' ↦ Adds command.records opened ledger out state.1 fs' ∧
        state.2 = fs'.present)
      ((StorageEngine.call command).run engine) (ledger, fs.present) fs := by
  have hkeeps (hwithin : MethodWithin FsOp.KeepsSegments (StorageEngine.call command)) :=
    refines_shelved_of_within (refines_call h command) (hwithin engine) h.state.holds
  cases command with
  | createNode nodeId metadata => exact hkeeps (methodWithin_createNode nodeId metadata)
  | saveCurrentTerm | saveVotedFor | appendEntries => exact hkeeps (methodWithin_saveRecord _ _)
  | sync => exact hkeeps (methodWithin_onWriter methodWithin_sync)
  | load nodeId => exact hkeeps fun s ↦ .bindMethod (methodWithin_load nodeId s) fun _ _ ↦ trivial
  | loadAll => exact hkeeps fun s ↦ .bindMethod (methodWithin_loadAll s) fun _ _ ↦ trivial
  | saveSnapshot nodeId checkpoint =>
    rw [StorageEngine.call, StorageEngine.saveSnapshot_eq]
    refine refines_shelvedThenGarbage h ((refines_saveCheckpoint h nodeId checkpoint).mono ?_)
      (methodWithin_saveCheckpoint nodeId checkpoint)
    exact fun _ _ _ hout ↦ ⟨hout.1, fun hok ↦ (hout.2 hok).1⟩
  | removeNode nodeId =>
    rw [StorageEngine.call, StorageEngine.removeNode_eq]
    exact refines_shelvedThenGarbage h (refines_unregisterNode h nodeId)
      (methodWithin_unregisterNode nodeId)

theorem refines_shelvedEvent {session : Session N} (h : Served session ledger fs)
    (event : Event N) :
    (shelved N).Refines (fun session' state fs' ↦ Served session' state.1 fs' ∧
        state.2 = fs'.present) (event.perform session) (ledger, fs.present) fs := by
  cases event with
  | start maxSegmentLen =>
    refine (refines_shelved_of_within (refines_event h (.start maxSegmentLen))
      ((within_withMaxSegmentLen maxSegmentLen).bind fun _ ↦ trivial) h.holds).mono ?_
    exact fun _ _ _ hout ↦ ⟨hout.1.1, hout.2⟩
  | call command =>
    cases hengine : session.engine with
    | none =>
      simp only [Event.perform, hengine]
      exact ⟨h, rfl⟩
    | some engine =>
      obtain ⟨opened, hready⟩ := h.ready engine hengine
      simp only [Event.perform, hengine]
      refine .bind ((refines_shelvedCall hready command).mono ?_)
      rintro ⟨result, engine'⟩ state fs' ⟨hadds, hpresent⟩
      exact ⟨hadds.ready.served _, hpresent⟩

/-- In every run of an application, the segments come and go in their order. -/
theorem refines_shelvedEvents {session : Session N} (h : Served session ledger fs)
    (events : List (Event N)) :
    (shelved N).Refines (fun session' state fs' ↦ Served session' state.1 fs' ∧
        state.2 = fs'.present) (performEvents events session) (ledger, fs.present) fs := by
  induction events generalizing session ledger fs with
  | nil => exact ⟨h, rfl⟩
  | cons event rest ih =>
    rw [performEvents, List.foldlM_cons]
    refine .bind ((refines_shelvedEvent h event).mono ?_)
    rintro session' ⟨ledger', _⟩ fs' ⟨hserved, rfl⟩
    exact ih hserved

end Sukari
