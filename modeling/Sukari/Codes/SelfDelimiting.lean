import Mathlib.Data.List.Basic
import Mathlib.Algebra.Order.Group.Nat

/-!
# Self-delimiting codes

A code is self-delimiting below a bound when a word that is shorter than the bound says where it
ends: two words with anything behind them are equal only when they stand for the same value and the
same follows (`SelfDelimiting`). Such codes compose: words one after the other (`pair`), words
behind a tag (`tagged`), and lists behind their length (`counted`).
-/

set_option autoImplicit false
set_option relaxedAutoImplicit false

namespace Sukari.Codes

variable {α β σ : Type} {bound : ℕ}

/-- Whatever follows a word shorter than the bound, the word can be read in one way only. -/
def SelfDelimiting (bound : ℕ) (code : α → List σ) : Prop :=
  ∀ first second rest rest', (code first).length < bound → (code second).length < bound →
    code first ++ rest = code second ++ rest' → first = second ∧ rest = rest'

namespace SelfDelimiting

variable {code : α → List σ} {code' : β → List σ}

/-- Words below the bound are distinct. -/
theorem injective (h : SelfDelimiting bound code) {first second : α}
    (hlength : (code first).length < bound) (hsame : code first = code second) : first = second :=
  (h first second [] [] hlength (hsame ▸ hlength) (by rw [hsame])).1

/-- Words of one length. -/
theorem fixed (width : ℕ) (hwidth : ∀ value, (code value).length = width)
    (hinjective : ∀ first second, code first = code second → first = second) :
    SelfDelimiting bound code := by
  intro first second rest rest' _ _ h
  obtain ⟨hcode, hrest⟩ := List.append_inj h ((hwidth first).trans (hwidth second).symm)
  exact ⟨hinjective first second hcode, hrest⟩

/-- A code of what determines the value. -/
theorem comap (h : SelfDelimiting bound code') (f : α → β)
    (hinjective : ∀ first second, f first = f second → first = second) :
    SelfDelimiting bound fun value ↦ code' (f value) := by
  intro first second rest rest' hfirst hsecond hsame
  obtain ⟨hvalue, hrest⟩ := h _ _ rest rest' hfirst hsecond hsame
  exact ⟨hinjective first second hvalue, hrest⟩

/-- Two words one after the other. -/
theorem pair (h : SelfDelimiting bound code) (h' : SelfDelimiting bound code') :
    SelfDelimiting bound fun values : α × β ↦ code values.1 ++ code' values.2 := by
  intro first second rest rest' hfirst hsecond hsame
  rw [List.length_append] at hfirst hsecond
  rw [List.append_assoc, List.append_assoc] at hsame
  obtain ⟨hleft, hbehind⟩ := h _ _ _ _ (by omega) (by omega) hsame
  obtain ⟨hright, hrest⟩ := h' _ _ _ _ (by omega) (by omega) hbehind
  exact ⟨Prod.ext hleft hright, hrest⟩

/-- Words behind tags: the tags are equal as well. -/
theorem tagged (h : SelfDelimiting bound code) {tag tag' : σ} {first second : α}
    {rest rest' : List σ} (hfirst : (tag :: code first).length < bound)
    (hsecond : (tag' :: code second).length < bound)
    (hsame : tag :: code first ++ rest = tag' :: code second ++ rest') :
    first = second ∧ rest = rest' :=
  h _ _ _ _ (Nat.lt_of_succ_lt hfirst) (Nat.lt_of_succ_lt hsecond) (List.cons.inj hsame).2

/-- Lists of one length, one word after the other. -/
theorem list (h : SelfDelimiting bound code) {first second : List α} {rest rest' : List σ}
    (hlength : first.length = second.length) (hfirst : (first.flatMap code).length < bound)
    (hsecond : (second.flatMap code).length < bound)
    (hsame : first.flatMap code ++ rest = second.flatMap code ++ rest') :
    first = second ∧ rest = rest' := by
  induction first generalizing second with
  | nil =>
    obtain rfl := List.length_eq_zero_iff.mp hlength.symm
    exact ⟨rfl, hsame⟩
  | cons value values ih =>
    obtain ⟨value', values', rfl⟩ := List.exists_cons_of_length_eq_add_one hlength.symm
    rw [List.flatMap_cons, List.length_append] at hfirst hsecond
    rw [List.flatMap_cons, List.flatMap_cons, List.append_assoc, List.append_assoc] at hsame
    obtain ⟨rfl, hvalues⟩ := h _ _ _ _ (by omega) (by omega) hsame
    obtain ⟨rfl, hrest⟩ := ih (Nat.succ.inj hlength) (by omega) (by omega) hvalues
    exact ⟨rfl, hrest⟩

/-- A list behind its length, when no word is empty. -/
theorem counted {count : ℕ → List σ} (h : SelfDelimiting bound code)
    (hnonempty : ∀ value, 0 < (code value).length)
    (hcount : ∀ first second rest rest', first < bound → second < bound →
      count first ++ rest = count second ++ rest' → first = second ∧ rest = rest') :
    SelfDelimiting bound fun values : List α ↦ count values.length ++ values.flatMap code := by
  have hlength (values : List α) : values.length ≤ (values.flatMap code).length := by
    induction values with
    | nil => exact Nat.zero_le _
    | cons value rest ih =>
      rw [List.flatMap_cons, List.length_append, List.length_cons]
      have hpos := hnonempty value
      omega
  intro first second rest rest' hfirst hsecond hsame
  rw [List.length_append] at hfirst hsecond
  rw [List.append_assoc, List.append_assoc] at hsame
  have hle := hlength first
  have hle' := hlength second
  obtain ⟨hcounts, hsame⟩ := hcount _ _ _ _ (by omega) (by omega) hsame
  exact h.list hcounts (by omega) (by omega) hsame

end SelfDelimiting

end Sukari.Codes
