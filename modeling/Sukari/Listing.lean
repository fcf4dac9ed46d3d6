import Sukari.Segment
import Mathlib.Tactic.IntervalCases

/-!
# Listings of a storage directory

`SegmentName.parseFileName` reads back the file name of a segment, so the segments that
`discoverSegments` finds in a directory are its segment files, in ascending order
(`discoverSegments_entries`).
-/

set_option autoImplicit false
set_option relaxedAutoImplicit false

namespace Sukari

/-- A printed number of several digits does not start with a zero. -/
theorem toDigits_canonical (n : ℕ) :
    ¬ (1 < (Nat.toDigits 10 n).length ∧ (Nat.toDigits 10 n).head? = some '0') := by
  induction n using Nat.strongRecOn with
  | ind n ih =>
    by_cases hsmall : n < 10
    · simp [Nat.toDigits_of_lt_base hsmall]
    · have hbase : 10 ≤ n := Nat.not_lt.mp hsmall
      have hsplit : Nat.toDigits 10 n = Nat.toDigits 10 (n / 10) ++ [(n % 10).digitChar] :=
        Nat.toDigits_of_base_le (by decide) hbase
      rintro ⟨-, hhead⟩
      rw [hsplit, List.head?_append_of_ne_nil _ Nat.toDigits_ne_nil] at hhead
      by_cases hlength : 1 < (Nat.toDigits 10 (n / 10)).length
      · exact ih (n / 10) (by omega) ⟨hlength, hhead⟩
      · have hone : n / 10 < 10 := by
          by_contra hlarge
          have hle := Nat.length_toDigits_le_iff (n := n / 10) (k := 1) (b := 10) (by decide)
            (by decide)
          omega
        rw [Nat.toDigits_of_lt_base hone] at hhead
        have hpos : 0 < n / 10 := by omega
        generalize n / 10 = digit at hone hpos hhead
        interval_cases digit <;> simp at hhead

theorem parseFileName_fileName {name : ℕ} (h : name < 2 ^ 64) :
    SegmentName.parseFileName (SegmentName.fileName name) = some name := by
  have htext : (SegmentName.fileName name).toList =
      "append-".toList ++ (Nat.toDigits 10 name ++ ".segment".toList) := by
    simp only [SegmentName.fileName, String.toList_append, Nat.toList_repr, List.append_assoc]
  have hsuffix : (Nat.toDigits 10 name ++ ".segment".toList).dropSuffix? ".segment".toList =
      some (Nat.toDigits 10 name) :=
    List.dropSuffix?_eq_some_iff.mpr ⟨_, rfl, beq_self_eq_true _⟩
  simp only [SegmentName.parseFileName, htext,
    List.dropPrefix?_append_of_beq _ (beq_self_eq_true _),
    hsuffix, Option.bind_eq_bind, Option.bind_some, Nat.toDigits_ne_nil, all_isDigit_toDigits,
    not_true_eq_false, or_self, if_false, if_neg (toDigits_canonical name)]
  exact parseU64_toDigits h

/-- The segments of a directory, as `discover_segment_paths` lists them. -/
theorem discoverSegments_entries {fs : Fs} (h : ∀ name ∈ fs.segments, name < 2 ^ 64) :
    discoverSegments fs.entries = fs.segments.keys := by
  have hlock : SegmentName.parseFileName "write.lock" = none := by decide
  have hnodes : SegmentName.parseFileName "nodes.json" = none := by decide
  have hcheckpoints : SegmentName.parseFileName "checkpoints.json" = none := by decide
  have hfiles : ∀ names : List ℕ, (∀ name ∈ names, name < 2 ^ 64) →
      ((names.map fun name ↦ DirEntry.mk (SegmentName.fileName name) true).filter
        DirEntry.isFile).filterMap
        (fun entry ↦ SegmentName.parseFileName entry.fileName) = names := by
    intro names hnames
    induction names with
    | nil => rfl
    | cons name rest ih =>
      simp only [List.map_cons, List.filter_cons_of_pos, List.filterMap_cons,
        parseFileName_fileName (hnames name (by simp))]
      rw [ih fun name hname ↦ hnames name (by simp [hname])]
  have hjson : ∀ document : Option Json, ∀ fileName,
      SegmentName.parseFileName fileName = none →
      ((document.toList.map fun _ ↦ DirEntry.mk fileName true).filter DirEntry.isFile).filterMap
        (fun entry ↦ SegmentName.parseFileName entry.fileName) = [] := by
    intro document fileName hname
    cases document <;> simp [hname]
  have hparsed : (fs.entries.filter DirEntry.isFile).filterMap
      (fun entry ↦ SegmentName.parseFileName entry.fileName) = fs.segments.keys.reverse := by
    simp only [Fs.entries, List.filter_append, List.filterMap_append, List.cons_append,
      List.filter_cons_of_pos, List.filterMap_cons, hlock]
    rw [hjson _ _ hnodes, hjson _ _ hcheckpoints,
      hfiles _ fun name hname ↦ h name (by simpa using hname)]
    simp
  rw [discoverSegments, hparsed]
  have hsorted : fs.segments.keys.Pairwise (· ≤ ·) :=
    fs.segments.ordered_keys.imp fun hlt ↦ (Nat.compare_eq_lt.mp hlt).le
  exact ((List.perm_insertionSort _ _).trans (List.reverse_perm _)).eq_of_pairwise
    (fun _ _ _ _ ↦ Nat.le_antisymm) (List.pairwise_insertionSort _ _) hsorted

end Sukari
