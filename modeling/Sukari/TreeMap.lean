import Std.Data.ExtTreeMap
import Std.Data.ExtTreeSet
import Mathlib.Tactic.Tauto
import Mathlib.Data.List.Nodup

/-!
# Ordered maps built item by item

What a loop makes of a map or a set when it inserts the items of a list one after the other.
-/

set_option autoImplicit false
set_option relaxedAutoImplicit false

namespace Sukari

variable {κ α : Type} [Ord κ] [Std.TransOrd κ] [Std.LawfulEqOrd κ]

/-- The items of a map have distinct keys. -/
theorem nodup_fst_toList (map : Std.ExtTreeMap κ α) : (map.toList.map Prod.fst).Nodup := by
  have hkeys := map.ordered_keys
  rw [← Std.ExtTreeMap.map_fst_toList_eq_keys] at hkeys
  exact hkeys.imp fun hlt heq ↦ by simp [heq] at hlt

omit [Std.LawfulEqOrd κ] in
theorem mem_iff_exists_getElem? {map : Std.ExtTreeMap κ α} {key : κ} :
    key ∈ map ↔ ∃ value, map[key]? = some value :=
  Std.ExtTreeMap.mem_iff_isSome_getElem?.trans Option.isSome_iff_exists

theorem exists_mem_of_isEmpty_eq_false {set : Std.ExtTreeSet κ} (h : set.isEmpty = false) :
    ∃ key, key ∈ set := by
  rw [← Std.ExtTreeSet.isEmpty_toList, List.isEmpty_eq_false_iff_exists_mem] at h
  obtain ⟨key, hkey⟩ := h
  exact ⟨key, Std.ExtTreeSet.mem_toList.mp hkey⟩

theorem mem_foldl_insert {items : List κ} {set : Std.ExtTreeSet κ} {key : κ} :
    key ∈ items.foldl Std.ExtTreeSet.insert set ↔ key ∈ set ∨ key ∈ items := by
  induction items generalizing set with
  | nil => simp
  | cons item rest ih =>
    rw [List.foldl_cons, ih, Std.ExtTreeSet.mem_insert]
    simp only [Std.compare_eq_iff_eq, List.mem_cons]
    tauto

theorem getElem?_foldl_insert_eq_some {items : List (κ × α)} {map : Std.ExtTreeMap κ α}
    (hdistinct : (items.map Prod.fst).Nodup) {key : κ} {value : α} :
    (items.foldl (fun acc item ↦ acc.insert item.1 item.2) map)[key]? = some value ↔
      (key, value) ∈ items ∨ key ∉ items.map Prod.fst ∧ map[key]? = some value := by
  induction items generalizing map with
  | nil => simp
  | cons item rest ih =>
    obtain ⟨key', value'⟩ := item
    rw [List.map_cons, List.nodup_cons] at hdistinct
    rw [List.foldl_cons, ih hdistinct.2, Std.ExtTreeMap.getElem?_insert, List.map_cons,
      List.mem_cons, List.mem_cons, not_or, Prod.mk.injEq]
    by_cases hkey : key = key'
    · subst hkey
      have hfresh : (key, value) ∉ rest := fun hmem ↦
        hdistinct.1 (List.mem_map.mpr ⟨_, hmem, rfl⟩)
      simpa [hfresh, hdistinct.1] using eq_comm
    · simp [hkey, Ne.symm hkey]

/-- A set that was built from distinct keys lists them again, in its own order. -/
theorem perm_toList_foldl_insert {keys : List κ} (h : keys.Nodup) :
    (keys.foldl Std.ExtTreeSet.insert (∅ : Std.ExtTreeSet κ)).toList.Perm keys := by
  have hnodup : (keys.foldl Std.ExtTreeSet.insert (∅ : Std.ExtTreeSet κ)).toList.Nodup :=
    Std.ExtTreeSet.distinct_toList.imp fun hne hsame ↦ hne (by simp [hsame])
  refine (List.perm_ext_iff_of_nodup hnodup h).mpr fun key ↦ ?_
  simp [mem_foldl_insert]

/-- A map that was built from items with distinct keys lists them again, in its own order. -/
theorem perm_toList_foldl_insertItem {items : List (κ × α)} (h : (items.map Prod.fst).Nodup) :
    (items.foldl (fun acc item ↦ acc.insert item.1 item.2)
      (∅ : Std.ExtTreeMap κ α)).toList.Perm items := by
  refine (List.perm_ext_iff_of_nodup (List.Nodup.of_map _ (nodup_fst_toList _))
    (List.Nodup.of_map _ h)).mpr fun item ↦ ?_
  rw [Std.ExtTreeMap.mem_toList_iff_getElem?_eq_some, getElem?_foldl_insert_eq_some h]
  simp

/-- A loop that inserts a value for every key of a list. -/
theorem getElem?_foldl_insert_const {keys : List κ} {value : κ → α} {map : Std.ExtTreeMap κ α}
    [DecidableEq κ] (key : κ) :
    (keys.foldl (fun acc key ↦ acc.insert key (value key)) map)[key]? =
      if key ∈ keys then some (value key) else map[key]? := by
  induction keys generalizing map with
  | nil => simp
  | cons first rest ih =>
    rw [List.foldl_cons, ih, Std.ExtTreeMap.getElem?_insert]
    by_cases hrest : key ∈ rest
    · simp [hrest]
    · by_cases hfirst : first = key
      · simp [hfirst]
      · simp [hrest, hfirst, Ne.symm hfirst]

/-- Maps with the same keys list them in the same order. -/
theorem keys_eq_of_mem_iff {map map' : Std.ExtTreeMap κ α} (h : ∀ key, key ∈ map ↔ key ∈ map') :
    map.keys = map'.keys := by
  have hunit : map.map (fun _ _ ↦ ()) = map'.map fun _ _ ↦ () := by
    refine Std.ExtTreeMap.ext_getElem? fun key ↦ ?_
    have hkey := h key
    rw [mem_iff_exists_getElem?, mem_iff_exists_getElem?] at hkey
    rw [Std.ExtTreeMap.getElem?_map, Std.ExtTreeMap.getElem?_map]
    cases hvalue : map[key]? <;> cases hvalue' : map'[key]? <;> simp_all
  simpa only [Std.ExtTreeMap.keys_map] using congrArg Std.ExtTreeMap.keys hunit

end Sukari
