import Std.Data.ExtTreeSet
import Mathlib.Data.UInt
import Mathlib.Order.Basic

/-!
# The Raft log types of `noraft`

The storage layer takes terms, log positions, cluster configurations, log entries and logs from
the `noraft` crate, which is not part of this repository. The types that the storage code builds
and takes apart field by field are defined here. `LogEntries` and `Log` are opaque to it, so they
are the carriers of `Noraft`, a parameter of the whole development, together with the operations
the storage code calls on them and the documented behaviour it relies on:

* a `LogEntries` value is determined by the position before its first entry and by its entries,
  its log indexes are `u64` values, and `push` adds one entry at the end (the iterator of the crate
  overflows behind the index `u64::MAX`, where there are no entries, so `iter_new` leaves it out);
* `since` succeeds exactly at the positions that the entries contain, the position before the
  first entry included, and keeps the entries after it;
* a `Log` is determined by the configuration at its start and by its entries, and `append_suffix`
  truncates the log at an anchor that it contains and appends the suffix there.

`Noraft.positions` lists the positions of the entries of a log: indexes count up from the position
before them, and a term entry sets the term of its own position and of the ones after it.
-/

set_option autoImplicit false
set_option relaxedAutoImplicit false

namespace Sukari

abbrev NodeId := UInt64
abbrev Term := UInt64
abbrev LogIndex := UInt64

/-- `BTreeSet<noraft::NodeId>`. -/
abbrev NodeIdSet := Std.ExtTreeSet NodeId

structure LogPosition where
  term : Term
  index : LogIndex
  deriving DecidableEq

def LogPosition.zero : LogPosition := ⟨0, 0⟩

structure ClusterConfig where
  voters : NodeIdSet
  newVoters : NodeIdSet
  nonVoters : NodeIdSet
  deriving DecidableEq

/-- `ClusterConfig::new`. -/
def ClusterConfig.new : ClusterConfig := ⟨∅, ∅, ∅⟩

inductive LogEntry
  | term (term : Term)
  | clusterConfig (config : ClusterConfig)
  | command
  deriving DecidableEq

/-- The term of the position of an entry, when `term` is the term of the position before it. -/
def LogEntry.termAfter (term : Term) : LogEntry → Term
  | .term term' => term'
  | .clusterConfig _ => term
  | .command => term

/-- The positions of a sequence of entries that starts after the position `prev`. -/
def positionsFrom : LogPosition → List LogEntry → List LogPosition
  | _, [] => []
  | prev, entry :: rest =>
    ⟨entry.termAfter prev.term, prev.index + 1⟩ ::
      positionsFrom ⟨entry.termAfter prev.term, prev.index + 1⟩ rest

/-- What the storage layer uses of the `noraft` crate, with the behaviour it relies on. -/
structure Noraft where
  LogEntries : Type
  Log : Type
  /-- `LogEntries::new`. -/
  newEntries : LogPosition → LogEntries
  /-- `LogEntries::prev_position`. -/
  prevPosition : LogEntries → LogPosition
  /-- `LogEntries::last_position`. -/
  lastPosition : LogEntries → LogPosition
  /-- `LogEntries::iter`. -/
  iter : LogEntries → List LogEntry
  /-- `LogEntries::push`. -/
  push : LogEntries → LogEntry → LogEntries
  /-- `LogEntries::get_entry`. -/
  getEntry : LogEntries → LogIndex → Option LogEntry
  /-- `LogEntries::since`. -/
  since : LogEntries → LogPosition → Option LogEntries
  /-- `Log::new`. -/
  newLog : ClusterConfig → LogEntries → Log
  /-- `Log::entries`. -/
  entries : Log → LogEntries
  /-- `Log::snapshot_config`. -/
  snapshotConfig : Log → ClusterConfig
  /-- `Log::append_suffix`; the flag says whether the anchor was found. -/
  appendSuffix : Log → LogEntries → Bool × Log
  entries_ext : ∀ first second : LogEntries, prevPosition first = prevPosition second →
    iter first = iter second → first = second
  index_lt : ∀ e : LogEntries, (prevPosition e).index.toNat + (iter e).length < 2 ^ 64
  prevPosition_new : ∀ p, prevPosition (newEntries p) = p
  iter_new : ∀ p, p.index.toNat + 1 < 2 ^ 64 → iter (newEntries p) = []
  prevPosition_push : ∀ e entry, (prevPosition e).index.toNat + (iter e).length + 1 < 2 ^ 64 →
    prevPosition (push e entry) = prevPosition e
  iter_push : ∀ e entry, (prevPosition e).index.toNat + (iter e).length + 1 < 2 ^ 64 →
    iter (push e entry) = iter e ++ [entry]
  lastPosition_eq : ∀ e, lastPosition e =
    (prevPosition e :: positionsFrom (prevPosition e) (iter e)).getLast (List.cons_ne_nil _ _)
  getEntry_eq : ∀ e index, getEntry e index =
    if (prevPosition e).index < index then
      (iter e)[index.toNat - (prevPosition e).index.toNat - 1]? else none
  since_none : ∀ e p, p ∉ prevPosition e :: positionsFrom (prevPosition e) (iter e) →
    since e p = none
  since_some : ∀ e p, p ∈ prevPosition e :: positionsFrom (prevPosition e) (iter e) →
    ∃ e', since e p = some e' ∧ prevPosition e' = p ∧
      iter e' = (iter e).drop (p.index.toNat - (prevPosition e).index.toNat)
  log_ext : ∀ first second : Log, snapshotConfig first = snapshotConfig second →
    entries first = entries second → first = second
  entries_new : ∀ config e, entries (newLog config e) = e
  snapshotConfig_new : ∀ config e, snapshotConfig (newLog config e) = config
  appendSuffix_none : ∀ log suffix, prevPosition suffix ∉ prevPosition (entries log) ::
      positionsFrom (prevPosition (entries log)) (iter (entries log)) →
    appendSuffix log suffix = (false, log)
  appendSuffix_some : ∀ log suffix, prevPosition suffix ∈ prevPosition (entries log) ::
      positionsFrom (prevPosition (entries log)) (iter (entries log)) →
    ∃ log', appendSuffix log suffix = (true, log') ∧ snapshotConfig log' = snapshotConfig log ∧
      prevPosition (entries log') = prevPosition (entries log) ∧
      iter (entries log') = (iter (entries log)).take
        ((prevPosition suffix).index.toNat - (prevPosition (entries log)).index.toNat) ++
          iter suffix

namespace Noraft

variable (N : Noraft)

/-- The positions that a `LogEntries` value contains after the one before its first entry. -/
def positions (e : N.LogEntries) : List LogPosition := positionsFrom (N.prevPosition e) (N.iter e)

/-- `LogEntries::iter_with_positions`. -/
def iterWithPositions (e : N.LogEntries) : List (LogPosition × LogEntry) :=
  (N.positions e).zip (N.iter e)

/-- `LogEntries::len`. -/
def len (e : N.LogEntries) : ℕ := (N.iter e).length

/-- There are no entries at first. Behind the last index there is no room for any. -/
theorem iter_newEntries (p : LogPosition) : N.iter (N.newEntries p) = [] := by
  by_cases hroom : p.index.toNat + 1 < 2 ^ 64
  · exact N.iter_new p hroom
  · have hlt := N.index_lt (N.newEntries p)
    rw [N.prevPosition_new] at hlt
    exact List.length_eq_zero_iff.mp (by omega)

end Noraft

/-- `LogIndex::checked_add`. -/
def LogIndex.checkedAdd (first second : LogIndex) : Option LogIndex :=
  if first.toNat + second.toNat < 2 ^ 64 then some (first + second) else none

/-! ### A model by lists of entries -/

@[simp] theorem length_positionsFrom (prev : LogPosition) (entries : List LogEntry) :
    (positionsFrom prev entries).length = entries.length := by
  induction entries generalizing prev with
  | nil => rfl
  | cons entry rest ih => simp [positionsFrom, ih]

/-- The positions a sequence of entries contains have indexes between its ends. -/
theorem index_of_mem_positionsFrom {prev p : LogPosition} {entries : List LogEntry}
    (hfits : prev.index.toNat + entries.length < 2 ^ 64)
    (hmem : p ∈ prev :: positionsFrom prev entries) :
    prev.index.toNat ≤ p.index.toNat ∧
      p.index.toNat ≤ prev.index.toNat + entries.length := by
  induction entries generalizing prev with
  | nil =>
    simp only [positionsFrom, List.mem_singleton] at hmem
    subst hmem
    simp
  | cons entry rest ih =>
    rcases List.mem_cons.mp hmem with rfl | hmem
    · exact ⟨le_rfl, by simp⟩
    · simp only [List.length_cons] at hfits ⊢
      have hsucc : (prev.index + 1).toNat = prev.index.toNat + 1 := by
        rw [UInt64.toNat_add]
        simp
        omega
      have hbounds := @ih ⟨entry.termAfter prev.term, prev.index + 1⟩
        (by simp only [hsucc]; omega) hmem
      simp only [hsucc] at hbounds
      omega

/-- Positions count up from the one before them. -/
theorem index_getElem_positionsFrom {prev : LogPosition} {entries : List LogEntry}
    (hfits : prev.index.toNat + entries.length < 2 ^ 64) {i : ℕ}
    (hi : i < (positionsFrom prev entries).length) :
    ((positionsFrom prev entries)[i]).index.toNat = prev.index.toNat + i + 1 := by
  induction entries generalizing prev i with
  | nil => simp [positionsFrom] at hi
  | cons entry rest ih =>
    have hsucc : (prev.index + 1).toNat = prev.index.toNat + 1 := by
      simp only [List.length_cons] at hfits
      rw [UInt64.toNat_add]
      simp
      omega
    cases i with
    | zero => simp only [positionsFrom, List.getElem_cons_zero, hsucc, Nat.add_zero]
    | succ i =>
      simp only [positionsFrom, List.getElem_cons_succ]
      rw [ih (by simp only [hsucc]; simp only [List.length_cons] at hfits; omega)]
      simp only [hsucc]
      omega

/-- The last index is behind as many entries as there are. -/
theorem Noraft.index_lastPosition (N : Noraft) (e : N.LogEntries) :
    (N.lastPosition e).index.toNat = (N.prevPosition e).index.toNat + N.len e := by
  have hlength : (positionsFrom (N.prevPosition e) (N.iter e)).length = N.len e :=
    length_positionsFrom _ _
  rw [N.lastPosition_eq, List.getLast_eq_getElem]
  rcases hlen : N.len e with _ | count
  · simp [hlength, hlen]
  · simp only [List.length_cons, hlength, hlen, Nat.add_sub_cancel, List.getElem_cons_succ]
    exact index_getElem_positionsFrom (N.index_lt e) _

/-- The entry at an index is the one that stands at the position with the index. -/
theorem Noraft.getEntry_eq_some_iff {N : Noraft} {e : N.LogEntries} {index : LogIndex}
    {entry : LogEntry} : N.getEntry e index = some entry ↔
      ∃ position, position.index = index ∧ (position, entry) ∈ N.iterWithPositions e := by
  have hlength : (N.positions e).length = (N.iter e).length := length_positionsFrom _ _
  rw [N.getEntry_eq]
  constructor
  · intro h
    split at h
    · next hlt =>
      obtain ⟨hi, hentry⟩ := List.getElem?_eq_some_iff.mp h
      have hindex := index_getElem_positionsFrom (N.index_lt e) (hlength ▸ hi)
      rw [UInt64.lt_iff_toNat_lt] at hlt
      refine ⟨(N.positions e)[index.toNat - (N.prevPosition e).index.toNat - 1], ?_, ?_⟩
      · rw [← UInt64.toNat_inj]
        exact hindex.trans (by omega)
      · refine List.mem_iff_getElem.mpr ⟨index.toNat - (N.prevPosition e).index.toNat - 1, ?_, ?_⟩
        · rw [iterWithPositions, List.length_zip]
          exact lt_min (hlength ▸ hi) hi
        · simp only [iterWithPositions, List.getElem_zip, hentry]
    · nomatch h
  · rintro ⟨position, rfl, hmem⟩
    obtain ⟨i, hi, hitem⟩ := List.mem_iff_getElem.mp hmem
    rw [iterWithPositions, List.length_zip, lt_min_iff] at hi
    simp only [iterWithPositions, List.getElem_zip, Prod.mk.injEq] at hitem
    obtain ⟨rfl, rfl⟩ := hitem
    have hindex := index_getElem_positionsFrom (N.index_lt e) hi.1
    have hlt : (N.prevPosition e).index < ((N.positions e)[i]).index := by
      rw [UInt64.lt_iff_toNat_lt]
      exact lt_of_lt_of_eq (by omega) hindex.symm
    have hoffset : ((N.positions e)[i]).index.toNat - (N.prevPosition e).index.toNat - 1 = i := by
      rw [show ((N.positions e)[i]).index.toNat = _ from hindex]
      omega
    rw [if_pos hlt, hoffset, List.getElem?_eq_getElem hi.2]

/-- A loop that pushes entries within the log indexes. -/
theorem Noraft.foldl_push (N : Noraft) (items : List LogEntry) (acc : N.LogEntries)
    (hroom : (N.prevPosition acc).index.toNat + (N.iter acc).length + items.length < 2 ^ 64) :
    N.prevPosition (items.foldl N.push acc) = N.prevPosition acc ∧
      N.iter (items.foldl N.push acc) = N.iter acc ++ items := by
  induction items generalizing acc with
  | nil => simp
  | cons item rest ih =>
    rw [List.length_cons] at hroom
    have hprev := N.prevPosition_push acc item (by omega)
    have hiter := N.iter_push acc item (by omega)
    obtain ⟨hprev', hiter'⟩ := ih (N.push acc item) (by
      rw [hprev, hiter, List.length_append, List.length_singleton]
      omega)
    exact ⟨hprev'.trans hprev, by rw [List.foldl_cons, hiter', hiter]; simp⟩

/-- A sequence of entries after a position, with indexes that are `u64` values. -/
structure EntryList where
  prev : LogPosition
  entries : List LogEntry
  fits : prev.index.toNat + entries.length < 2 ^ 64

/-- A log as the configuration at its start and a sequence of entries. -/
structure EntryLog where
  config : ClusterConfig
  entries : EntryList

namespace EntryList

theorem ext {first second : EntryList} (hprev : first.prev = second.prev)
    (hentries : first.entries = second.entries) : first = second := by
  cases first
  cases second
  simp_all

def contains (e : EntryList) (p : LogPosition) : Prop :=
  p ∈ e.prev :: positionsFrom e.prev e.entries

instance (e : EntryList) (p : LogPosition) : Decidable (e.contains p) :=
  inferInstanceAs (Decidable (_ ∈ _))

def push (e : EntryList) (entry : LogEntry) : EntryList :=
  if h : e.prev.index.toNat + e.entries.length + 1 < 2 ^ 64 then
    ⟨e.prev, e.entries ++ [entry], by rwa [List.length_append, ← Nat.add_assoc]⟩
  else e

def since (e : EntryList) (p : LogPosition) : Option EntryList :=
  if h : e.contains p then
    some ⟨p, e.entries.drop (p.index.toNat - e.prev.index.toNat), by
      have hbounds := index_of_mem_positionsFrom e.fits h
      have hfits := e.fits
      rw [List.length_drop]
      omega⟩
  else none

/-- The entries up to the anchor of a suffix, followed by the suffix. -/
def splice (e suffix : EntryList) (h : e.contains suffix.prev) : EntryList :=
  ⟨e.prev, e.entries.take (suffix.prev.index.toNat - e.prev.index.toNat) ++ suffix.entries, by
    have hbounds := index_of_mem_positionsFrom e.fits h
    have hfits := suffix.fits
    rw [List.length_append, List.length_take]
    omega⟩

end EntryList

/-- The documented behaviour of `noraft` is satisfied by lists of entries. -/
def Noraft.ofLists : Noraft where
  LogEntries := EntryList
  Log := EntryLog
  newEntries p := ⟨p, [], by simpa using p.index.toNat_lt⟩
  prevPosition := EntryList.prev
  lastPosition e := (e.prev :: positionsFrom e.prev e.entries).getLast (List.cons_ne_nil _ _)
  iter := EntryList.entries
  push := EntryList.push
  getEntry e index :=
    if e.prev.index < index then e.entries[index.toNat - e.prev.index.toNat - 1]? else none
  since := EntryList.since
  newLog := EntryLog.mk
  entries := EntryLog.entries
  snapshotConfig := EntryLog.config
  appendSuffix log suffix :=
    if h : log.entries.contains suffix.prev then
      (true, ⟨log.config, log.entries.splice suffix h⟩)
    else (false, log)
  entries_ext _ _ := EntryList.ext
  index_lt := EntryList.fits
  prevPosition_new _ := rfl
  iter_new _ _ := rfl
  prevPosition_push e entry h := by simp only [EntryList.push, dif_pos h]
  iter_push e entry h := by simp only [EntryList.push, dif_pos h]
  lastPosition_eq _ := rfl
  getEntry_eq _ _ := rfl
  since_none e p h := dif_neg h
  since_some e p h := ⟨_, dif_pos h, rfl, rfl⟩
  log_ext first second hconfig hentries := by
    cases first
    cases second
    simp_all
  entries_new _ _ := rfl
  snapshotConfig_new _ _ := rfl
  appendSuffix_none log suffix h := dif_neg h
  appendSuffix_some log suffix h := ⟨_, dif_pos h, rfl, rfl, rfl⟩

end Sukari
