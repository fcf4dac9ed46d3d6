import Sukari.Listing

/-!
# Segment names and segment IDs

The name of a segment file and the ID of the segment determine each other: `parse_file_name` accepts
exactly the names that `file_name` prints (`parseFileName_eq_some_iff`). So a directory has at most
one file for each segment, and its listing has every segment once, in numeric order with the active
segment at the end (`segmentNames`).
-/

set_option autoImplicit false
set_option relaxedAutoImplicit false

namespace Sukari

open Effects

/-! ### Decimal numbers -/

theorem isDigit_bounds {c : Char} (h : c.isDigit = true) : 48 ≤ c.toNat ∧ c.toNat ≤ 57 := by
  rw [Char.isDigit, Bool.and_eq_true, decide_eq_true_eq, decide_eq_true_eq] at h
  exact ⟨UInt32.le_iff_toNat_le.mp h.1, UInt32.le_iff_toNat_le.mp h.2⟩

theorem digitChar_toNat_sub {c : Char} (h : c.isDigit = true) : (c.toNat - 48).digitChar = c := by
  obtain ⟨hlow, hhigh⟩ := isDigit_bounds h
  have hchar : c = Char.ofNat c.toNat := (Char.ofNat_toNat c).symm
  rw [hchar, Char.ofNat_toNat]
  generalize c.toNat = code at hlow hhigh hchar ⊢
  rw [hchar]
  interval_cases code <;> rfl

/-- Digits without a leading zero are the printed form of the number that they stand for. -/
theorem toDigits_ofDigitChars {digits : List Char} (hne : digits ≠ [])
    (hdigits : digits.all Char.isDigit = true)
    (hcanonical : ¬ (1 < digits.length ∧ digits.head? = some '0')) :
    Nat.toDigits 10 (Nat.ofDigitChars 10 digits 0) = digits := by
  induction digits using List.reverseRecOn with
  | nil => exact absurd rfl hne
  | append_singleton init c ih =>
    rw [List.all_append, Bool.and_eq_true, List.all_cons, List.all_nil, Bool.and_true] at hdigits
    obtain ⟨hinit, hc⟩ := hdigits
    have hdigit : c.toNat - 48 < 10 := by
      have hbounds := isDigit_bounds hc
      omega
    have hvalue : Nat.ofDigitChars 10 (init ++ [c]) 0 =
        10 * Nat.ofDigitChars 10 init 0 + (c.toNat - 48) := by
      rw [Nat.ofDigitChars_append, Nat.ofDigitChars_cons, Nat.ofDigitChars_nil]
      rfl
    rw [hvalue]
    by_cases hempty : init = []
    · subst hempty
      rw [Nat.ofDigitChars_nil, Nat.mul_zero, Nat.zero_add, Nat.toDigits_of_lt_base hdigit,
        digitChar_toNat_sub hc, List.nil_append]
    · have hhead : init.head? ≠ some '0' := by
        intro hzero
        refine hcanonical ⟨?_, by rw [List.head?_append_of_ne_nil _ hempty, hzero]⟩
        rw [List.length_append, List.length_singleton]
        have hpos := List.length_pos_iff.mpr hempty
        omega
      have hprinted := ih hempty hinit fun h ↦ hhead h.2
      have hpos : 0 < Nat.ofDigitChars 10 init 0 := by
        refine Nat.pos_of_ne_zero fun hzero ↦ hhead ?_
        rw [← hprinted, hzero]
        rfl
      rw [← Nat.toDigits_append_toDigits (by decide) hpos hdigit, hprinted,
        Nat.toDigits_of_lt_base hdigit, digitChar_toNat_sub hc]

/-- The parser accepts one printed form of a number, when no sign and no leading zero is allowed. -/
theorem toDigits_of_parseU64 {digits : List Char} {value : ℕ}
    (h : parseU64 digits = some value) (hne : digits ≠ [])
    (hdigits : digits.all Char.isDigit = true)
    (hcanonical : ¬ (1 < digits.length ∧ digits.head? = some '0')) :
    value < 2 ^ 64 ∧ Nat.toDigits 10 value = digits := by
  have hsign : digits.head? ≠ some '+' := by
    intro hplus
    have hmem := List.all_eq_true.mp hdigits _ (List.mem_of_mem_head? hplus)
    cases hmem
  simp only [parseU64, if_neg hsign, hne, hdigits, not_true_eq_false, or_self, if_false] at h
  split at h
  · next hlt =>
    obtain rfl := Option.some.inj h
    exact ⟨hlt, toDigits_ofDigitChars hne hdigits hcanonical⟩
  · cases h

/-! ### File names -/

/-- A file name is parsed as a segment exactly when it is the name of the segment. -/
theorem parseFileName_eq_some_iff {fileName : String} {name : ℕ} :
    SegmentName.parseFileName fileName = some name ↔
      name < 2 ^ 64 ∧ fileName = SegmentName.fileName name := by
  constructor
  · intro h
    simp only [SegmentName.parseFileName, Option.bind_eq_bind, Option.bind_eq_some_iff] at h
    obtain ⟨rest, hprefix, digits, hsuffix, hdigits⟩ := h
    obtain ⟨start, htext, hstart⟩ := List.dropPrefix?_eq_some_iff.mp hprefix
    obtain ⟨stop, hrest, hstop⟩ := List.dropSuffix?_eq_some_iff.mp hsuffix
    obtain rfl := eq_of_beq hstart
    obtain rfl := eq_of_beq hstop
    split at hdigits
    · cases hdigits
    · next hnumber =>
      split at hdigits
      · cases hdigits
      · next hcanonical =>
        rw [not_or, not_not] at hnumber
        obtain ⟨hlt, hprinted⟩ :=
          toDigits_of_parseU64 hdigits hnumber.1 hnumber.2 hcanonical
        refine ⟨hlt, String.toList_inj.mp ?_⟩
        simp only [SegmentName.fileName, String.toList_append, Nat.toList_repr, hprinted, htext,
          hrest, List.append_assoc]
  · rintro ⟨hlt, rfl⟩
    exact parseFileName_fileName hlt

theorem fileName_injective {first second : ℕ}
    (h : SegmentName.fileName first = SegmentName.fileName second) : first = second := by
  have hdigits : Nat.toDigits 10 first = Nat.toDigits 10 second := by
    have htext := congrArg String.toList h
    simp only [SegmentName.fileName, String.toList_append, Nat.toList_repr] at htext
    exact List.append_cancel_left (List.append_cancel_right htext)
  rw [← @Nat.ofDigitChars_ten_toDigits first, hdigits, Nat.ofDigitChars_ten_toDigits]

theorem head?_fileName (name : ℕ) :
    (SegmentName.fileName name).toList.take 7 = "append-".toList := by
  simp [SegmentName.fileName, String.toList_append]

/-! ### Listings -/

/-- The segments of a listing are the ones that have a regular file of their name. -/
theorem mem_discoverSegments {entries : List DirEntry} {name : ℕ} :
    name ∈ discoverSegments entries ↔
      name < 2 ^ 64 ∧ ⟨SegmentName.fileName name, true⟩ ∈ entries := by
  rw [discoverSegments, List.mem_insertionSort, List.mem_filterMap]
  simp only [parseFileName_eq_some_iff, List.mem_filter]
  constructor
  · rintro ⟨⟨fileName, isFile⟩, ⟨hmem, hfile⟩, hlt, hname⟩
    simp only at hfile hname
    rw [← hname, ← hfile]
    exact ⟨hlt, hmem⟩
  · rintro ⟨hlt, hmem⟩
    exact ⟨_, ⟨hmem, rfl⟩, hlt, rfl⟩

/-- In a directory, whose file names are distinct, no segment is listed twice. -/
theorem pairwise_discoverSegments {entries : List DirEntry}
    (h : (entries.map DirEntry.fileName).Nodup) : (discoverSegments entries).Pairwise (· < ·) := by
  have hnames : ((entries.filter DirEntry.isFile).map DirEntry.fileName).Nodup :=
    h.sublist (List.filter_sublist.map _)
  have hnodup : ((entries.filter DirEntry.isFile).filterMap fun entry ↦
      SegmentName.parseFileName entry.fileName).Nodup := by
    have hparsed :=
      hnames.filterMap (f := SegmentName.parseFileName) fun first second name hfirst hsecond ↦ by
      rw [(parseFileName_eq_some_iff.mp hfirst).2, (parseFileName_eq_some_iff.mp hsecond).2]
    rwa [List.filterMap_map] at hparsed
  have hsorted := List.pairwise_insertionSort (· ≤ ·) ((entries.filter DirEntry.isFile).filterMap
    fun entry ↦ SegmentName.parseFileName entry.fileName)
  refine (hsorted.and ((List.perm_insertionSort _ _).nodup_iff.mpr hnodup)).imp ?_
  exact fun hboth ↦ lt_of_le_of_ne hboth.1 hboth.2

/-- The greatest number of an ascending list is its last one. -/
theorem max?_eq_getLast? {names : List ℕ} (h : names.Pairwise (· < ·)) :
    names.max? = names.getLast? := by
  cases hlast : names.getLast? with
  | none => rw [List.getLast?_eq_none_iff.mp hlast, List.max?_nil]
  | some last =>
    obtain ⟨before, rfl⟩ := List.getLast?_eq_some_iff.mp hlast
    refine List.max?_eq_some_iff.mpr ⟨by simp, fun name hname ↦ ?_⟩
    rcases List.mem_append.mp hname with hbefore | hsame
    · exact ((List.pairwise_append.mp h).2.2 name hbefore last (by simp)).le
    · exact (List.mem_singleton.mp hsame).le

/-- The file names of a storage directory are distinct. -/
theorem Fs.nodup_entries (fs : Fs) : (fs.entries.map DirEntry.fileName).Nodup := by
  have hsegments : (fs.segments.keys.reverse.map SegmentName.fileName).Nodup := by
    refine List.Nodup.map (fun _ _ ↦ fileName_injective) (List.nodup_reverse.mpr ?_)
    exact fs.segments.distinct_keys.imp fun hne hsame ↦ hne (by simp [hsame])
  have hother {fileName : String} (h : fileName.toList.take 7 ≠ "append-".toList) :
      fileName ∉ fs.segments.keys.reverse.map SegmentName.fileName := by
    intro hmem
    obtain ⟨name, -, rfl⟩ := List.mem_map.mp hmem
    exact h (head?_fileName name)
  have hlock := @hother "write.lock" (by decide)
  have hnodes := @hother "nodes.json" (by decide)
  have hcheckpoints := @hother "checkpoints.json" (by decide)
  have hmap : (fs.segments.keys.reverse.map fun name ↦
      DirEntry.mk (SegmentName.fileName name) true).map DirEntry.fileName =
        fs.segments.keys.reverse.map SegmentName.fileName := by
    rw [List.map_map]
    rfl
  rw [entries, List.map_append, hmap]
  generalize fs.segments.keys.reverse.map SegmentName.fileName = names at *
  cases fs.nodes.current <;> cases fs.checkpoints.current <;> simp_all

/-- Segment IDs and segment file names are in bijection, and a listing of a directory has every
segment once, in ascending order, with the active segment at the end. -/
theorem segmentNames :
    (∀ (fileName : String) (id : UInt64), SegmentName.parseFileName fileName = some id.toNat ↔
      fileName = SegmentName.fileName id.toNat) ∧
    (∀ fileName name, SegmentName.parseFileName fileName = some name → name < 2 ^ 64) ∧
    (∀ first second name, SegmentName.parseFileName first = some name →
      SegmentName.parseFileName second = some name → first = second) ∧
    (∀ entries : List DirEntry, (entries.map DirEntry.fileName).Nodup →
      (discoverSegments entries).Pairwise (· < ·) ∧
      (∀ name, name ∈ discoverSegments entries ↔
        name < 2 ^ 64 ∧ ⟨SegmentName.fileName name, true⟩ ∈ entries) ∧
      (discoverSegments entries).max? = (discoverSegments entries).getLast?) ∧
    ∀ fs : Fs, directory.run discoverSegmentPaths.run fs = (.ok (discoverSegments fs.entries), fs) ∧
      directory.run selectActiveAppendSegment.run fs =
        (.ok ((discoverSegments fs.entries).getLast?.getD SegmentName.firstAppend), fs) := by
  refine ⟨fun fileName id ↦ ?_, fun fileName name h ↦
    (parseFileName_eq_some_iff.mp h).1, ?_, ?_, ?_⟩
  · rw [parseFileName_eq_some_iff]
    exact ⟨fun h ↦ h.2, fun h ↦ ⟨id.toNat_lt, h⟩⟩
  · intro first second name hfirst hsecond
    rw [(parseFileName_eq_some_iff.mp hfirst).2, (parseFileName_eq_some_iff.mp hsecond).2]
  · intro entries hdistinct
    have hsorted := pairwise_discoverSegments hdistinct
    exact ⟨hsorted, fun name ↦ mem_discoverSegments, max?_eq_getLast? hsorted⟩
  · intro fs
    refine ⟨rfl, ?_⟩
    have hsorted := pairwise_discoverSegments fs.nodup_entries
    rw [← max?_eq_getLast? hsorted]
    rfl

/-- A directory with a segment of two digits and a name that is not canonical. -/
theorem segmentNames_listed : ∃ entries : List DirEntry, ⟨"append-09.segment", true⟩ ∈ entries ∧
    discoverSegments entries = [9, 10] ∧ (discoverSegments entries).Pairwise (· < ·) ∧
      (discoverSegments entries).max? = (discoverSegments entries).getLast? := by
  have hlisted := segmentNames.2.2.2.1 [⟨"append-10.segment", true⟩, ⟨"append-09.segment", true⟩,
    ⟨"append-9.segment", true⟩] (by decide)
  exact ⟨_, by decide, by decide, hlisted.1, hlisted.2.2⟩

end Sukari
