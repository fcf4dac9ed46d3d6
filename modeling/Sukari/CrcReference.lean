import Sukari.Crc32c
import Sukari.ShiftRegister

/-!
# The reference CRC-32C

The checksum as it is defined, one bit at a time: `reference` feeds the bytes of the data into a
shift register with the Castagnoli polynomial. The table-driven `update`, which takes sixteen bytes
in one go, computes the same state (`update_eq_reference`), so that data can be fed in any pieces.
-/

set_option autoImplicit false
set_option relaxedAutoImplicit false

namespace Sukari.Crc32c

open LittleEndian ShiftRegister

/-- One bit: shift right, and xor the reflected polynomial if a one falls out. -/
def referenceBit (crc : UInt32) : UInt32 :=
  if crc &&& 1 = 1 then (crc >>> 1) ^^^ 0x82F63B78 else crc >>> 1

/-- One byte: xor it into the low bits, then eight bits. -/
def referenceByte (crc : UInt32) (byte : UInt8) : UInt32 :=
  Nat.iterate referenceBit 8 (crc ^^^ byte.toUInt32)

def reference (crc : UInt32) (data : List UInt8) : UInt32 := data.foldl referenceByte crc

theorem reference_append (crc : UInt32) (first second : List UInt8) :
    reference crc (first ++ second) = reference (reference crc first) second := List.foldl_append

/-! ### The state as a shift register -/

abbrev poly : BitVec 32 := polynomial.toBitVec

theorem and_one (crc : UInt32) : crc &&& 1 = if crc.toBitVec.getLsbD 0 then 1 else 0 := by
  have hbits : (crc &&& 1).toBitVec = (BitVec.ofBool (crc.toBitVec.getLsbD 0)).setWidth 32 := by
    rw [UInt32.toBitVec_and]
    exact BitVec.and_one_eq_setWidth_ofBool_getLsbD
  rw [← UInt32.toBitVec_inj, hbits]
  cases crc.toBitVec.getLsbD 0 <;> rfl

theorem toBitVec_tableBit (crc : UInt32) : (tableBit crc).toBitVec = shift poly crc.toBitVec := by
  rw [tableBit, and_one, shift]
  cases crc.toBitVec.getLsbD 0 <;> rfl

theorem referenceBit_eq_tableBit : referenceBit = tableBit := by
  funext crc
  rw [referenceBit, tableBit, and_one]
  cases crc.toBitVec.getLsbD 0 <;> rfl

theorem toBitVec_iterate (n : ℕ) (crc : UInt32) :
    (Nat.iterate tableBit n crc).toBitVec = shifts poly n crc.toBitVec := by
  induction n generalizing crc with
  | zero => rfl
  | succ n ih =>
    change (Nat.iterate tableBit n (tableBit crc)).toBitVec = _
    rw [ih, toBitVec_tableBit]
    rfl

/-- Eight steps look up the low byte and move the others down. -/
theorem shifts_eight (n : ℕ) (x : BitVec 32) :
    shifts poly (8 + n) x = shifts poly (8 + n) (x &&& 0xFF#32) ^^^ shifts poly n (x >>> 8) :=
  shifts_split poly 8 n x

theorem shifts_byte (x : BitVec 32) :
    shifts poly 8 x = shifts poly 8 (x &&& 0xFF#32) ^^^ (x >>> 8) := shifts_eight 0 x

theorem toBitVec_table (slice : ℕ) (index : UInt32) :
    (table slice index).toBitVec = shifts poly (8 * slice + 8) index.toBitVec := by
  induction slice with
  | zero => exact toBitVec_iterate 8 index
  | succ slice ih =>
    rw [table, UInt32.toBitVec_xor, toBitVec_iterate, UInt32.toBitVec_shiftRight,
      UInt32.toBitVec_and, ih, Nat.mul_succ, shifts_add poly (8 * slice + 8) 8]
    rw [shifts_byte (shifts poly (8 * slice + 8) index.toBitVec), BitVec.xor_comm]
    rfl

theorem toBitVec_referenceByte (crc : UInt32) (byte : UInt8) : (referenceByte crc byte).toBitVec =
    shifts poly 8 (crc.toBitVec ^^^ byte.toBitVec.setWidth 32) := by
  rw [referenceByte, referenceBit_eq_tableBit, toBitVec_iterate, UInt32.toBitVec_xor]
  rfl

/-! ### Bytes and slices -/

theorem shiftRight_eight_byte (byte : UInt8) : byte.toBitVec.setWidth 32 >>> 8 = 0#32 := by
  refine BitVec.eq_of_getLsbD_eq fun i _ ↦ ?_
  simp

/-- The table step of a byte is the reference step. -/
theorem tableByte_eq_referenceByte (crc : UInt32) (byte : UInt8) :
    (crc >>> 8) ^^^ table 0 ((crc ^^^ byte.toUInt32) &&& 0xFF) = referenceByte crc byte := by
  rw [← UInt32.toBitVec_inj, UInt32.toBitVec_xor, toBitVec_table, toBitVec_referenceByte,
    UInt32.toBitVec_shiftRight, UInt32.toBitVec_and, UInt32.toBitVec_xor]
  rw [shifts_byte (crc.toBitVec ^^^ byte.toBitVec.setWidth 32), BitVec.ushiftRight_xor_distrib,
    shiftRight_eight_byte, BitVec.xor_zero, BitVec.xor_comm]
  rfl

theorem updateBytes_eq_reference (crc : UInt32) (data : List UInt8) :
    updateBytes crc data = reference crc data := by
  induction data generalizing crc with
  | nil => rfl
  | cons byte rest ih => rw [updateBytes, tableByte_eq_referenceByte, ih, reference, reference,
      List.foldl_cons]

/-- A number in little-endian order: its first byte below the other ones. -/
theorem ofNat_byte_add (byte : UInt8) (rest : ℕ) : BitVec.ofNat 32 (byte.toNat + 256 * rest) =
    byte.toBitVec.setWidth 32 ^^^ BitVec.ofNat 32 rest <<< 8 := by
  refine BitVec.eq_of_getLsbD_eq fun i hi ↦ ?_
  have hbit : (byte.toNat + 256 * rest).testBit i =
      if i < 8 then byte.toNat.testBit i else rest.testBit (i - 8) := by
    rw [Nat.add_comm]
    exact Nat.testBit_two_pow_mul_add rest byte.toNat_lt i
  have hbyte : (byte.toBitVec.setWidth 32).getLsbD i = byte.toNat.testBit i := by
    simp [BitVec.getLsbD]
  rw [BitVec.getLsbD_ofNat, BitVec.getLsbD_xor, hbyte, BitVec.getLsbD_shiftLeft,
    BitVec.getLsbD_ofNat, hbit]
  by_cases hlow : i < 8
  · simp [hi, hlow]
  · have hsmall : byte.toNat.testBit i = false :=
      Nat.testBit_lt_two_pow (byte.toNat_lt.trans_le (Nat.pow_le_pow_right (by decide) (by omega)))
    simp [hi, hlow, hsmall, show i - 8 < 32 by omega]

/-- Feeding bytes is feeding the number that they are in little-endian order. -/
theorem toBitVec_reference {data : List UInt8} (h : data.length ≤ 4) (crc : UInt32) :
    (reference crc data).toBitVec =
      shifts poly (8 * data.length) (crc.toBitVec ^^^ BitVec.ofNat 32 (fromLeBytes data)) := by
  induction data generalizing crc with
  | nil => simp [reference, fromLeBytes]
  | cons byte rest ih =>
    have hfits : (BitVec.ofNat 32 (fromLeBytes rest) <<< 8) >>> 8 =
        BitVec.ofNat 32 (fromLeBytes rest) := by
      have hlt := fromLeBytes_lt rest
      have hpow : 256 ^ rest.length ≤ 256 ^ 3 :=
        Nat.pow_le_pow_right (by decide) (Nat.le_of_lt_succ h)
      refine BitVec.eq_of_toNat_eq ?_
      simp only [BitVec.toNat_ushiftRight, BitVec.toNat_shiftLeft, BitVec.toNat_ofNat,
        Nat.shiftLeft_eq, Nat.shiftRight_eq_div_pow]
      omega
    have hrest := ih (by simp only [List.length_cons] at h; omega) (referenceByte crc byte)
    rw [fromLeBytes, ofNat_byte_add, ← BitVec.xor_assoc, List.length_cons, Nat.mul_succ,
      Nat.add_comm (8 * rest.length), shifts_add_xor poly hfits, ← toBitVec_referenceByte, ← hrest]
    rfl

/-- Four lookups take a word apart. -/
theorem toBitVec_lookup (slice : ℕ) (x : UInt32) :
    (table (slice + 3) (x &&& 0xFF) ^^^ table (slice + 2) ((x >>> 8) &&& 0xFF) ^^^
      table (slice + 1) ((x >>> 16) &&& 0xFF) ^^^ table slice (x >>> 24)).toBitVec =
        shifts poly (8 * slice + 32) x.toBitVec := by
  have hword : shifts poly (8 * slice + 32) x.toBitVec =
      shifts poly (8 * slice + 32) (x.toBitVec &&& 0xFF#32) ^^^
        (shifts poly (8 * slice + 24) ((x.toBitVec >>> 8) &&& 0xFF#32) ^^^
          (shifts poly (8 * slice + 16) ((x.toBitVec >>> 16) &&& 0xFF#32) ^^^
            shifts poly (8 * slice + 8) (x.toBitVec >>> 24))) := by
    have hstep (n : ℕ) (y : BitVec 32) : shifts poly (n + 8) y =
        shifts poly (n + 8) (y &&& 0xFF#32) ^^^ shifts poly n (y >>> 8) := by
      rw [Nat.add_comm]
      exact shifts_eight n y
    rw [hstep (8 * slice + 24), hstep (8 * slice + 16) (x.toBitVec >>> 8),
      hstep (8 * slice + 8) (x.toBitVec >>> 8 >>> 8), ← BitVec.shiftRight_add,
      ← BitVec.shiftRight_add]
  rw [hword]
  simp only [UInt32.toBitVec_xor, toBitVec_table, UInt32.toBitVec_and, UInt32.toBitVec_shiftRight,
    BitVec.xor_assoc, Nat.mul_add, Nat.add_assoc]
  rfl

/-- A slice is sixteen reference steps. -/
theorem slice_eq_reference (crc : UInt32) {first second third fourth : List UInt8}
    (hfirst : first.length = 4) (hsecond : second.length = 4) (hthird : third.length = 4)
    (hfourth : fourth.length = 4) :
    slice crc (.ofNat (fromLeBytes first)) (.ofNat (fromLeBytes second))
      (.ofNat (fromLeBytes third)) (.ofNat (fromLeBytes fourth)) =
        reference crc (first ++ (second ++ (third ++ fourth))) := by
  have hreference (crc : UInt32) {data : List UInt8} (hdata : data.length = 4) :
      (reference crc data).toBitVec =
        shifts poly 32 (crc.toBitVec ^^^ BitVec.ofNat 32 (fromLeBytes data)) := by
    rw [toBitVec_reference hdata.le, hdata]
  generalize hw₀ : UInt32.ofNat (fromLeBytes first) = w₀
  generalize hw₁ : UInt32.ofNat (fromLeBytes second) = w₁
  generalize hw₂ : UInt32.ofNat (fromLeBytes third) = w₂
  generalize hw₃ : UInt32.ofNat (fromLeBytes fourth) = w₃
  have hlookups : (slice crc w₀ w₁ w₂ w₃).toBitVec =
      shifts poly 128 (w₀ ^^^ crc).toBitVec ^^^ (shifts poly 96 w₁.toBitVec ^^^
        (shifts poly 64 w₂.toBitVec ^^^ shifts poly 32 w₃.toBitVec)) := by
    have h₀ := toBitVec_lookup 12 (w₀ ^^^ crc)
    have h₁ := toBitVec_lookup 8 w₁
    have h₂ := toBitVec_lookup 4 w₂
    have h₃ := toBitVec_lookup 0 w₃
    rw [← h₀, ← h₁, ← h₂, ← h₃]
    simp only [slice, UInt32.toBitVec_xor, BitVec.xor_assoc]
  have hword (data : List UInt8) :
      BitVec.ofNat 32 (fromLeBytes data) = (UInt32.ofNat (fromLeBytes data)).toBitVec := rfl
  rw [← UInt32.toBitVec_inj, hlookups, reference_append, reference_append, reference_append,
    hreference _ hfourth,
    hreference _ hthird, hreference _ hsecond, hreference _ hfirst, hword, hword, hword, hword,
    hw₀, hw₁, hw₂, hw₃]
  simp only [shifts_xor, ← shifts_add, UInt32.toBitVec_xor, BitVec.xor_assoc]
  rw [← BitVec.xor_assoc, BitVec.xor_comm (shifts poly 128 w₀.toBitVec), BitVec.xor_assoc]

theorem update_short {data : List UInt8} (h : data.length < 16) (crc : UInt32) :
    update crc data = updateBytes crc data := by
  rw [update.eq_def]
  split
  · simp only [List.length_cons] at h
    omega
  · rfl

theorem update_slice (crc : UInt32) {first second third fourth : List UInt8}
    (hfirst : first.length = 4) (hsecond : second.length = 4) (hthird : third.length = 4)
    (hfourth : fourth.length = 4) (rest : List UInt8) :
    update crc (first ++ (second ++ (third ++ fourth)) ++ rest) =
      update (slice crc (.ofNat (fromLeBytes first)) (.ofNat (fromLeBytes second))
        (.ofNat (fromLeBytes third)) (.ofNat (fromLeBytes fourth))) rest := by
  obtain ⟨b0, b1, b2, b3, rfl⟩ := List.length_eq_four.mp hfirst
  obtain ⟨b4, b5, b6, b7, rfl⟩ := List.length_eq_four.mp hsecond
  obtain ⟨b8, b9, b10, b11, rfl⟩ := List.length_eq_four.mp hthird
  obtain ⟨b12, b13, b14, b15, rfl⟩ := List.length_eq_four.mp hfourth
  simp only [List.cons_append, List.nil_append, update]
  rfl

theorem exists_slice {data : List UInt8} (h : 16 ≤ data.length) :
    ∃ first second third fourth rest : List UInt8,
      data = first ++ (second ++ (third ++ fourth)) ++ rest ∧ first.length = 4 ∧
        second.length = 4 ∧ third.length = 4 ∧ fourth.length = 4 := by
  have hsplit (n : ℕ) : data.drop n = (data.drop n).take 4 ++ data.drop (n + 4) := by
    rw [← List.drop_drop, List.take_append_drop]
  refine ⟨data.take 4, (data.drop 4).take 4, (data.drop 8).take 4, (data.drop 12).take 4,
    data.drop 16, ?_, ?_, ?_, ?_, ?_⟩
  · simp only [List.append_assoc]
    rw [← hsplit 12, ← hsplit 8, ← hsplit 4, List.take_append_drop]
  all_goals
    simp only [List.length_take, List.length_drop]
    omega

/-- The table-driven update is the reference. -/
theorem update_eq_reference (crc : UInt32) (data : List UInt8) :
    update crc data = reference crc data := by
  induction hlength : data.length using Nat.strongRecOn generalizing crc data with
  | ind length ih =>
    by_cases hshort : data.length < 16
    · rw [update_short hshort, updateBytes_eq_reference]
    · obtain ⟨first, second, third, fourth, rest, rfl, hfirst, hsecond, hthird, hfourth⟩ :=
        exists_slice (Nat.le_of_not_lt hshort)
      have hlt : rest.length < length := by
        simp only [List.length_append] at hlength
        omega
      rw [update_slice crc hfirst hsecond hthird hfourth, ih rest.length hlt _ rest rfl,
        slice_eq_reference crc hfirst hsecond hthird hfourth]
      simp only [reference_append]

/-- The checksum is the reference CRC-32C, for data that are fed in any pieces. -/
theorem crc32c_eq_reference :
    (∀ (crc : UInt32) (data : List UInt8), update crc data = data.foldl referenceByte crc) ∧
    (∀ data : List UInt8, crc32c data = ~~~(data.foldl referenceByte 0xFFFFFFFF)) ∧
    ∀ chunks : List (List UInt8), value (chunks.foldl update initial) = crc32c chunks.flatten := by
  refine ⟨update_eq_reference, fun data ↦ ?_, fun chunks ↦ ?_⟩
  · rw [crc32c, update_eq_reference]
    rfl
  · have hfold (crc : UInt32) : chunks.foldl update crc = reference crc chunks.flatten := by
      induction chunks generalizing crc with
      | nil => rfl
      | cons chunk rest ih =>
        rw [List.foldl_cons, ih, update_eq_reference, List.flatten_cons, reference_append]
    rw [hfold, crc32c, update_eq_reference]

end Sukari.Crc32c
