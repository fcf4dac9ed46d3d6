import Mathlib.Algebra.Group.Nat.Defs
import Mathlib.Logic.Function.Iterate

/-!
# Shift registers with linear feedback

A register of `w` bits moves down by one place and takes its feedback from the bit that falls out:
one step is `shift p`, with the polynomial `p` in reflected form, and `shifts p n` is `n` steps. The
steps are linear in exclusive or (`shifts_xor`), bits that are not yet at the low end only move down
(`shifts_shiftLeft`), and no two states have the same successor when the polynomial has its highest
bit set (`shifts_injective`). So a register can be fed with a word in pieces or at once
(`shifts_add_xor`), and tables of steps can be looked up byte by byte (`shifts_split`).
-/

set_option autoImplicit false
set_option relaxedAutoImplicit false

namespace Sukari.ShiftRegister

variable {w : ℕ} (p : BitVec w)

/-- One step of the register. -/
def shift (x : BitVec w) : BitVec w :=
  if x.getLsbD 0 then (x >>> 1) ^^^ p else x >>> 1

/-- Steps of the register. -/
def shifts (n : ℕ) (x : BitVec w) : BitVec w := (shift p)^[n] x

@[simp] theorem shifts_zero (x : BitVec w) : shifts p 0 x = x := rfl

theorem shifts_succ (n : ℕ) (x : BitVec w) : shifts p (n + 1) x = shift p (shifts p n x) :=
  Function.iterate_succ_apply' _ _ _

theorem shifts_add (m n : ℕ) (x : BitVec w) : shifts p (m + n) x = shifts p n (shifts p m x) := by
  rw [Nat.add_comm]
  exact Function.iterate_add_apply _ _ _ _

/-! ### Linearity -/

theorem shift_xor (x y : BitVec w) : shift p (x ^^^ y) = shift p x ^^^ shift p y := by
  simp only [shift, BitVec.getLsbD_xor, BitVec.ushiftRight_xor_distrib]
  cases x.getLsbD 0 <;> cases y.getLsbD 0
  · simp
  · simp [BitVec.xor_assoc]
  · simp [BitVec.xor_assoc, BitVec.xor_comm p]
  · have hcancel : (x >>> 1) ^^^ p ^^^ ((y >>> 1) ^^^ p) = (x >>> 1) ^^^ (y >>> 1) := by
      rw [BitVec.xor_comm (y >>> 1) p, BitVec.xor_assoc, ← BitVec.xor_assoc p p, BitVec.xor_self,
        BitVec.zero_xor]
    simp [hcancel]

theorem shifts_xor (n : ℕ) (x y : BitVec w) :
    shifts p n (x ^^^ y) = shifts p n x ^^^ shifts p n y := by
  induction n with
  | zero => rfl
  | succ n ih => rw [shifts_succ, shifts_succ, shifts_succ, ih, shift_xor]

/-! ### Bits that only move down -/

theorem shifts_of_low {n : ℕ} {x : BitVec w} (h : ∀ i < n, x.getLsbD i = false) :
    shifts p n x = x >>> n := by
  induction n with
  | zero => simp
  | succ n ih =>
    have hlow : (x >>> n).getLsbD 0 = false := by simpa using h n (Nat.lt_succ_self n)
    rw [shifts_succ, ih fun i hi ↦ h i (Nat.lt_succ_of_lt hi), shift, hlow, BitVec.shiftRight_add]
    rfl

/-- A word that was moved up comes down again. -/
theorem shifts_shiftLeft {n : ℕ} {x : BitVec w} (h : (x <<< n) >>> n = x) :
    shifts p n (x <<< n) = x := by
  rw [shifts_of_low p fun i hi ↦ by simp [hi], h]

/-- Feeding a word at once is feeding its low part and then its high part. -/
theorem shifts_add_xor {n : ℕ} {x : BitVec w} (h : (x <<< n) >>> n = x) (m : ℕ) (y : BitVec w) :
    shifts p (n + m) (y ^^^ x <<< n) = shifts p m (shifts p n y ^^^ x) := by
  rw [shifts_add, shifts_xor, shifts_shiftLeft p h]

theorem getLsbD_lowBits (n i : ℕ) :
    (BitVec.ofNat w (2 ^ n - 1)).getLsbD i = (decide (i < w) && decide (i < n)) := by
  rw [BitVec.getLsbD_ofNat, Nat.testBit_two_pow_sub_one]

/-- The low bits of a word and the other ones, moved down, go separate ways. -/
theorem shifts_split (n m : ℕ) (x : BitVec w) : shifts p (n + m) x =
    shifts p (n + m) (x &&& BitVec.ofNat w (2 ^ n - 1)) ^^^ shifts p m (x >>> n) := by
  have hhigh : shifts p n (x &&& ~~~BitVec.ofNat w (2 ^ n - 1)) = x >>> n := by
    have hlow (i : ℕ) (hi : i < n) :
        (x &&& ~~~BitVec.ofNat w (2 ^ n - 1)).getLsbD i = false := by
      rw [BitVec.getLsbD_and, BitVec.getLsbD_not, getLsbD_lowBits]
      by_cases hw : i < w <;> simp [hi, hw]
    rw [shifts_of_low p hlow]
    refine BitVec.eq_of_getLsbD_eq fun i _ ↦ ?_
    rw [BitVec.getLsbD_ushiftRight, BitVec.getLsbD_ushiftRight, BitVec.getLsbD_and,
      BitVec.getLsbD_not, getLsbD_lowBits]
    by_cases hi : n + i < w
    · simp [hi]
    · simp [hi, BitVec.getLsbD_of_ge x (n + i) (Nat.le_of_not_lt hi)]
  have hsplit : x = (x &&& BitVec.ofNat w (2 ^ n - 1)) ^^^
      (x &&& ~~~BitVec.ofNat w (2 ^ n - 1)) := by
    refine BitVec.eq_of_getLsbD_eq fun i hi ↦ ?_
    simp only [BitVec.getLsbD_xor, BitVec.getLsbD_and, BitVec.getLsbD_not, hi, decide_true,
      Bool.true_and]
    cases x.getLsbD i <;> simp
  calc shifts p (n + m) x
      = shifts p (n + m) ((x &&& BitVec.ofNat w (2 ^ n - 1)) ^^^
          (x &&& ~~~BitVec.ofNat w (2 ^ n - 1))) := by rw [← hsplit]
    _ = _ := by rw [shifts_xor, shifts_add p n m (x &&& ~~~_), hhigh]

/-! ### No two states have the same successor -/

theorem shift_injective (hp : p.getLsbD (w - 1) = true) : Function.Injective (shift p) := by
  have hpos : 0 < w := Nat.pos_of_ne_zero fun hzero ↦ by
    subst hzero
    simp at hp
  -- The highest bit of the next state is the bit that fell out.
  have hout (x : BitVec w) : (shift p x).getLsbD (w - 1) = x.getLsbD 0 := by
    have htop : (x >>> 1).getLsbD (w - 1) = false := by
      rw [BitVec.getLsbD_ushiftRight]
      exact BitVec.getLsbD_of_ge _ _ (by omega)
    rw [shift]
    cases hx : x.getLsbD 0 <;> simp [htop, hp]
  intro x y h
  have hlow : x.getLsbD 0 = y.getLsbD 0 := by rw [← hout x, ← hout y, h]
  have hrest : x >>> 1 = y >>> 1 := by
    simp only [shift, hlow] at h
    split at h
    · exact (BitVec.xor_left_inj p).mp h
    · exact h
  refine BitVec.eq_of_getLsbD_eq fun i hi ↦ ?_
  cases i with
  | zero => exact hlow
  | succ i =>
    have hbit := congrArg (fun z : BitVec w ↦ z.getLsbD i) hrest
    simpa [Nat.add_comm] using hbit

theorem shifts_injective (hp : p.getLsbD (w - 1) = true) (n : ℕ) :
    Function.Injective (shifts p n) := (shift_injective p hp).iterate n

end Sukari.ShiftRegister
