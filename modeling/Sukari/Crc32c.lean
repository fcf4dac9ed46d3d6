import Sukari.LittleEndian

/-!
# CRC-32C (Castagnoli) checksum

The slice-by-16 table implementation. `table slice index` is the entry `TABLE[slice][index]` that
`make_table` computes, `Crc32c.update` consumes sixteen bytes at a time as long as it can and the
rest byte by byte.
-/

set_option autoImplicit false
set_option relaxedAutoImplicit false

namespace Sukari.Crc32c

open LittleEndian

def polynomial : UInt32 := 0x82F63B78

/-- One round of the bit loop of `make_table`. -/
def tableBit (crc : UInt32) : UInt32 :=
  if crc &&& 1 = 0 then crc >>> 1 else (crc >>> 1) ^^^ polynomial

/-- `TABLE[slice][index]`. -/
def table : ℕ → UInt32 → UInt32
  | 0, index => Nat.iterate tableBit 8 index
  | slice + 1, index =>
    let prev := table slice index
    (prev >>> 8) ^^^ Nat.iterate tableBit 8 (prev &&& 0xFF)

/-- `u32::from_le_bytes` on four bytes. -/
def word (b0 b1 b2 b3 : UInt8) : UInt32 := UInt32.ofNat (fromLeBytes [b0, b1, b2, b3])

/-- The state after one slice of sixteen bytes, given as four little-endian words. -/
def slice (crc w0 w1 w2 w3 : UInt32) : UInt32 :=
  let w0 := w0 ^^^ crc
  table 15 (w0 &&& 0xFF) ^^^ table 14 ((w0 >>> 8) &&& 0xFF) ^^^
    table 13 ((w0 >>> 16) &&& 0xFF) ^^^ table 12 (w0 >>> 24) ^^^
    table 11 (w1 &&& 0xFF) ^^^ table 10 ((w1 >>> 8) &&& 0xFF) ^^^
    table 9 ((w1 >>> 16) &&& 0xFF) ^^^ table 8 (w1 >>> 24) ^^^
    table 7 (w2 &&& 0xFF) ^^^ table 6 ((w2 >>> 8) &&& 0xFF) ^^^
    table 5 ((w2 >>> 16) &&& 0xFF) ^^^ table 4 (w2 >>> 24) ^^^
    table 3 (w3 &&& 0xFF) ^^^ table 2 ((w3 >>> 8) &&& 0xFF) ^^^
    table 1 ((w3 >>> 16) &&& 0xFF) ^^^ table 0 (w3 >>> 24)

/-- The byte loop that ends `update`. -/
def updateBytes (crc : UInt32) : List UInt8 → UInt32
  | [] => crc
  | byte :: rest =>
    updateBytes ((crc >>> 8) ^^^ table 0 ((crc ^^^ byte.toUInt32) &&& 0xFF)) rest

/-- `Crc32c::update` on the state of an accumulator. -/
def update (crc : UInt32) : List UInt8 → UInt32
  | b0 :: b1 :: b2 :: b3 :: b4 :: b5 :: b6 :: b7 :: b8 :: b9 :: b10 :: b11 :: b12 :: b13 ::
      b14 :: b15 :: rest =>
    update (slice crc (word b0 b1 b2 b3) (word b4 b5 b6 b7) (word b8 b9 b10 b11)
      (word b12 b13 b14 b15)) rest
  | rest => updateBytes crc rest

/-- The state of `Crc32c::new`. -/
def initial : UInt32 := 0xFFFFFFFF

/-- `Crc32c::value`. -/
def value (crc : UInt32) : UInt32 := ~~~crc

/-- `crc32c`. -/
def crc32c (data : List UInt8) : UInt32 := value (update initial data)

/-- The check value of CRC-32C: the checksum of the digits `123456789`. -/
example : crc32c [0x31, 0x32, 0x33, 0x34, 0x35, 0x36, 0x37, 0x38, 0x39] = 0xE3069283 := by
  decide +kernel

/-- A piece of whole slices may be consumed before the rest. -/
theorem update_append {first : List UInt8} (count : ℕ) (hlength : first.length = 16 * count)
    (crc : UInt32) (rest : List UInt8) :
    update crc (first ++ rest) = update (update crc first) rest := by
  induction count generalizing crc first with
  | zero =>
    have hnil : first = [] := List.length_eq_zero_iff.mp (by simpa using hlength)
    subst hnil
    rfl
  | succ count ih =>
    obtain ⟨b0, b1, b2, b3, b4, b5, b6, b7, b8, b9, b10, b11, b12, b13, b14, b15, tail, rfl⟩ :
        ∃ b0 b1 b2 b3 b4 b5 b6 b7 b8 b9 b10 b11 b12 b13 b14 b15 tail,
          first = b0 :: b1 :: b2 :: b3 :: b4 :: b5 :: b6 :: b7 :: b8 :: b9 :: b10 :: b11 ::
            b12 :: b13 :: b14 :: b15 :: tail := by
      match first, hlength with
      | b0 :: b1 :: b2 :: b3 :: b4 :: b5 :: b6 :: b7 :: b8 :: b9 :: b10 :: b11 :: b12 :: b13 ::
          b14 :: b15 :: tail, _ =>
        exact ⟨b0, b1, b2, b3, b4, b5, b6, b7, b8, b9, b10, b11, b12, b13, b14, b15, tail, rfl⟩
    have htail : tail.length = 16 * count := by
      simp only [List.length_cons] at hlength
      omega
    simp only [List.cons_append, update]
    exact ih htail _

end Sukari.Crc32c
