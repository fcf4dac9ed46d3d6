import Sukari.Effects.Fallible
import Sukari.Requests

/-!
# The abstract state of a storage directory

A `Ledger` is a journal together with the number of its records that were covered by a sync. Every
request is a transition of ledgers (`Ledger.Step`): a frame is added when it is written, a new
segment when it is created, and a sync of the active segment covers all records.
`storage` relates the ledger to a directory that is recoverable and in which the covered records
are durable. The records that a list of requests has written can be read off the requests
(`recordsWritten`, `steps_written`).
-/

set_option autoImplicit false
set_option relaxedAutoImplicit false

namespace Sukari

open Effects

variable {N : Noraft}

structure Ledger (N : Noraft) where
  journal : Journal N
  /-- The number of records that were written before the last sync. -/
  synced : ℕ

namespace Ledger

/-- The ledger after a frame was written. -/
def write (ledger : Ledger N) (frame : Frame N) : Ledger N :=
  { ledger with journal := ledger.journal.write frame }

/-- The ledger after a new segment was created. -/
def newSegment (ledger : Ledger N) : Ledger N :=
  { ledger with journal := ledger.journal.newSegment }

/-- The ledger after the active segment was synced. -/
def sync (ledger : Ledger N) : Ledger N := { ledger with synced := ledger.journal.entries.length }

/-- What a request may change. A write that is shorter than a frame is the magic of a segment. -/
def Step : Exchange fileSystem → Ledger N → Ledger N → Prop
  | ⟨.writeAll _ bytes, .ok _⟩, ledger, ledger' =>
    (∃ frame : Frame N, frame.bytes = bytes ∧ ledger' = ledger.write frame) ∨
      bytes.length < 8 ∧ ledger' = ledger
  | ⟨.create _, _⟩, ledger, ledger' => ledger' = ledger ∨ ledger' = ledger.newSegment
  | ⟨.syncData _, _⟩, ledger, ledger' => ledger' = ledger.sync
  | _, ledger, ledger' => ledger' = ledger

/-- The directory stores the journal, can be recovered, and keeps the records that were synced. -/
structure Holds (ledger : Ledger N) (fs : Fs) : Prop where
  recoverable : Recoverable ledger.journal fs
  synced_le : ledger.synced ≤ ledger.journal.entries.length
  durable : ∀ entry ∈ ledger.journal.entries.take ledger.synced, Durable ledger.journal fs entry

end Ledger

variable (N) in
/-- Ledgers as the abstract states of storage directories. -/
def storage : Refinement directory (Ledger N) := ⟨Ledger.Step, Ledger.Holds⟩

/-! ### Growing journals -/

theorem Journal.written_newSegment (journal : Journal N) :
    journal.newSegment.written = journal.written := by
  simp [Journal.written, Journal.newSegment]

theorem Journal.written_write (journal : Journal N) (frame : Frame N) :
    (journal.write frame).written = journal.written ++ [frame.nodeRecord] := by
  have hflatten : (journal.write frame).flatten = journal.flatten ++ [frame] := by
    rcases List.eq_nil_or_concat journal with rfl | ⟨before, last, rfl⟩
    · rfl
    · simp [write]
  rw [written, hflatten, List.map_append]
  rfl

theorem Journal.length_written (journal : Journal N) :
    journal.written.length = journal.entries.length := by
  rw [← map_entries_written, List.length_map]

/-! ### What a list of requests has written -/

variable (N) in
/-- The record that a completed request has written to a segment. -/
def recordWritten : Exchange fileSystem → Option (NodeId × Record N)
  | ⟨.writeAll _ bytes, .ok _⟩ =>
    match readRecordBody (.seek bytes 0) with
    | .ok (some (body, _)) => (decodeNodeRecord N body).toOption
    | _ => none
  | _ => none

variable (N) in
/-- The records that completed requests have written, in their order. -/
def recordsWritten (past : List (Exchange fileSystem)) : List (NodeId × Record N) :=
  past.filterMap (recordWritten N)

/-- Less than a frame header holds no record. -/
theorem readRecordBody_short {bytes : List UInt8} (h : bytes.length < 8)
    {found : List UInt8 × Stream} : readRecordBody (.seek bytes 0) ≠ .ok (some found) := by
  have hheader : ∀ found, readFrameHeader (.seek bytes 0) ≠ .ok (some found) := by
    intro found
    unfold readFrameHeader
    by_cases hbase : bytes.length < segmentRecordBaseHeaderLen
    · rw [readExact_short (by simpa [Stream.seek] using hbase)]
      intro heq
      cases heq
    · have hread : (Stream.seek bytes 0).readExact segmentRecordBaseHeaderLen =
          some (bytes.take 4, ⟨4, bytes.drop 4⟩) := if_pos (Nat.not_lt.mp hbase)
      have hshort : (bytes.drop 4).length < segmentChecksumLen := by
        rw [List.length_drop, segmentChecksumLen]
        omega
      rw [hread]
      simp only
      split
      · intro heq
        cases heq
      · rw [readExact_short hshort]
        intro heq
        cases heq
  unfold readRecordBody
  cases hresult : readFrameHeader (.seek bytes 0) with
  | error error =>
    intro heq
    cases heq
  | ok header =>
    cases header with
    | none =>
      intro heq
      cases heq
    | some header => exact absurd hresult (hheader header)

theorem recordWritten_frame (segment : ℕ) (frame : Frame N) :
    recordWritten N ⟨.writeAll segment frame.bytes, .ok ()⟩ = some frame.nodeRecord := by
  have hread := readRecordBody_bytes frame 0 []
  rw [List.append_nil] at hread
  simp only [recordWritten, Stream.seek, List.drop_zero, hread, frame.decodeNodeRecord_body]
  rfl

theorem recordWritten_short (segment : ℕ) {bytes : List UInt8} (h : bytes.length < 8) :
    recordWritten N ⟨.writeAll segment bytes, .ok ()⟩ = none := by
  simp only [recordWritten]
  split
  · next hread => exact absurd hread (readRecordBody_short h)
  · rfl

/-- One request. -/
theorem Ledger.Step.written {exchange : Exchange fileSystem} {ledger ledger' : Ledger N}
    (h : Step exchange ledger ledger') :
    ledger'.journal.written = ledger.journal.written ++ (recordWritten N exchange).toList ∧
      ledger.journal.Extends ledger'.journal := by
  obtain ⟨op, reply⟩ := exchange
  cases op with
  | writeAll segment bytes =>
    cases reply with
    | error error =>
      obtain rfl : ledger' = ledger := h
      exact ⟨by simp [recordWritten], .refl _⟩
    | ok value =>
      rcases h with ⟨frame, rfl, rfl⟩ | ⟨hshort, rfl⟩
      · rw [recordWritten_frame]
        exact ⟨Journal.written_write _ _, Journal.extends_write _ _⟩
      · rw [recordWritten_short segment hshort]
        exact ⟨by simp, .refl _⟩
  | create segment =>
    rcases h with rfl | rfl
    · exact ⟨by simp [recordWritten], .refl _⟩
    · exact ⟨by simp [recordWritten, newSegment, Journal.written_newSegment],
        Journal.extends_newSegment _⟩
  | syncData segment =>
    obtain rfl : ledger' = ledger.sync := h
    exact ⟨by simp [recordWritten, sync], .refl _⟩
  | readDir | isFile | read | fileLen | setLen | syncDir | readJson | replaceJson | remove =>
    obtain rfl : ledger' = ledger := h
    exact ⟨by simp [recordWritten], .refl _⟩

/-- The journal has grown by the records that the requests have written. -/
theorem steps_written {past : List (Exchange fileSystem)} {ledger ledger' : Ledger N}
    (h : (storage N).Steps past ledger ledger') :
    ledger'.journal.written = ledger.journal.written ++ recordsWritten N past ∧
      ledger.journal.Extends ledger'.journal := by
  induction h with
  | refl ledger => exact ⟨by simp [recordsWritten], .refl _⟩
  | @cons op ops ledger middle ledger' first rest ih =>
    obtain ⟨hwritten, hextends⟩ := Ledger.Step.written first
    refine ⟨?_, hextends.trans ih.2⟩
    rw [ih.1, hwritten, recordsWritten, recordsWritten, List.filterMap_cons, List.append_assoc]
    cases recordWritten N op <;> rfl

/-- A sync covers the records before it for good. -/
theorem steps_synced {past : List (Exchange fileSystem)} {ledger ledger' : Ledger N}
    (h : (storage N).Steps past ledger ledger') {count : ℕ} (hcount : count ≤ ledger.synced)
    (hentries : count ≤ ledger.journal.entries.length) : count ≤ ledger'.synced := by
  induction h with
  | refl ledger => exact hcount
  | @cons op ops ledger middle ledger' first rest ih =>
    have hextends := (Ledger.Step.written first).2.entries.length_le
    refine ih ?_ (hentries.trans hextends)
    obtain ⟨op, reply⟩ := op
    cases op with
    | writeAll segment bytes =>
      cases reply with
      | error error =>
        obtain rfl : middle = ledger := first
        exact hcount
      | ok value =>
        rcases first with ⟨frame, rfl, rfl⟩ | ⟨hshort, rfl⟩ <;> exact hcount
    | create segment => rcases first with rfl | rfl <;> exact hcount
    | syncData segment =>
      obtain rfl : middle = ledger.sync := first
      exact hentries
    | readDir | isFile | read | fileLen | setLen | syncDir | readJson | replaceJson | remove =>
      obtain rfl : middle = ledger := first
      exact hcount

theorem not_inquiry_syncData (segment : ℕ) : ¬ directory.Inquiry (.syncData segment) := by
  intro h
  let file : SegmentFile := ⟨[0], 0, true⟩
  let fs : Fs := ⟨(∅ : Std.ExtTreeMap ℕ SegmentFile).insert segment file, ∅, ⟨none, none⟩,
    ⟨none, none⟩⟩
  have hsame : fs.syncData segment = fs := (h fs).1
  have hfile : fs.segments[segment]? = some file := Std.ExtTreeMap.getElem?_insert_self
  have hafter : (fs.syncData segment).segments[segment]? = some { file with synced := 1 } := by
    rw [Fs.syncData, Fs.getElem?_modifySegment, if_pos rfl, hfile]
    rfl
  rw [hsame, hfile] at hafter
  nomatch congrArg SegmentFile.synced (Option.some.inj hafter)

/-- Inquiries are not transitions to another ledger. -/
theorem step_of_inquiry (op : FsOp) (h : directory.Inquiry op) (reply : op.Reply)
    (ledger : Ledger N) : (storage N).step ⟨op, reply⟩ ledger ledger := by
  cases op with
  | writeAll segment bytes =>
    have hnone : Fs.during (.writeAll segment bytes) .empty = [] := (h .empty).2
    have hempty : bytes = [] := by
      simpa [Fs.during, Fs.accepts, Fs.empty] using hnone
    subst hempty
    cases reply with
    | error error => rfl
    | ok value => exact .inr ⟨by decide, rfl⟩
  | create segment => exact .inl rfl
  | syncData segment => exact absurd h (not_inquiry_syncData segment)
  | readDir | isFile | read | fileLen | setLen | syncDir | readJson | replaceJson | remove => rfl

end Sukari
