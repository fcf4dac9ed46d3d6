import Mathlib.Data.UInt
import Mathlib.Algebra.Order.Group.Nat
import Mathlib.Tactic.Ring

/-!
# Little-endian integers

`toLeBytes width value` is the little-endian encoding of a natural number in `width` bytes and
`fromLeBytes` reads such an encoding back. The two are inverse below `256 ^ width`.
-/

set_option autoImplicit false
set_option relaxedAutoImplicit false

namespace Sukari.LittleEndian

def toLeBytes : ℕ → ℕ → List UInt8
  | 0, _ => []
  | width + 1, value => UInt8.ofNat value :: toLeBytes width (value / 256)

def fromLeBytes : List UInt8 → ℕ
  | [] => 0
  | byte :: rest => byte.toNat + 256 * fromLeBytes rest

@[simp] theorem length_toLeBytes (width value : ℕ) : (toLeBytes width value).length = width := by
  induction width generalizing value with
  | zero => rfl
  | succ width ih => simp [toLeBytes, ih]

theorem fromLeBytes_lt (bytes : List UInt8) : fromLeBytes bytes < 256 ^ bytes.length := by
  induction bytes with
  | nil => simp [fromLeBytes]
  | cons byte rest ih =>
    have hbyte : byte.toNat < 256 := byte.toNat_lt
    simp only [fromLeBytes, List.length_cons, pow_succ]
    omega

theorem fromLeBytes_toLeBytes {width value : ℕ} (h : value < 256 ^ width) :
    fromLeBytes (toLeBytes width value) = value := by
  induction width generalizing value with
  | zero =>
    have hzero : value = 0 := by simpa using h
    simp [toLeBytes, fromLeBytes, hzero]
  | succ width ih =>
    have hdiv : value / 256 < 256 ^ width := by
      rw [pow_succ] at h
      omega
    simp only [toLeBytes, fromLeBytes, ih hdiv, UInt8.toNat_ofNat']
    omega

theorem toLeBytes_fromLeBytes (bytes : List UInt8) :
    toLeBytes bytes.length (fromLeBytes bytes) = bytes := by
  induction bytes with
  | nil => rfl
  | cons byte rest ih =>
    have hbyte : byte.toNat < 256 := byte.toNat_lt
    have hdiv : (byte.toNat + 256 * fromLeBytes rest) / 256 = fromLeBytes rest := by omega
    have hfirst : UInt8.ofNat (byte.toNat + 256 * fromLeBytes rest) = byte := by
      rw [← UInt8.toNat_inj, UInt8.toNat_ofNat']
      omega
    simp only [List.length_cons, fromLeBytes, toLeBytes, hdiv, hfirst, ih]

end Sukari.LittleEndian
