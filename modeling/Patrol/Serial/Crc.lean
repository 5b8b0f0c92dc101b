import Patrol.Serial.ErrorDetection

/-! `crc8` as an algebraic object: the remainder of a division of polynomials over the field of two
elements, and so a linear function that takes data with its own CRC to zero. -/

namespace Patrol.Serial

open ProofKit Polynomial

theorem bitPoly_crc8 (data : List UInt8) :
    bitPoly (byteBits (crc8 data)) = (bitPoly (bitsOf data) * X ^ 8) %ₘ crcPoly := by
  have hblocks : ∀ b ∈ data.map byteBits, b.length = crcTaps.length := by
    intro b hb
    obtain ⟨x, -, rfl⟩ := List.mem_map.mp hb
    rfl
  rw [byteBits_crc8, bitPoly_remainder crcPoly_eq hblocks, mul_comm]
  rfl

/-- The bits of a byte are known from their polynomial. -/
theorem byte_of_bitPoly {a b : UInt8} (h : bitPoly (byteBits a) = bitPoly (byteBits b)) : a = b :=
  byteBits_injective (bitPoly_inj rfl h)

theorem bitPoly_byteBits_xor (a b : UInt8) :
    bitPoly (byteBits (a ^^^ b)) = bitPoly (byteBits a) + bitPoly (byteBits b) := by
  rw [byteBits_xor]
  exact bitPoly_xor rfl

/-- The CRC is linear. -/
theorem crc8_xor {data other : List UInt8} (h : data.length = other.length) :
    crc8 (xorBytes data other) = crc8 data ^^^ crc8 other := by
  have hbits : (bitsOf data).length = (bitsOf other).length := by
    rw [bitsOf_length, bitsOf_length, h]
  apply byte_of_bitPoly
  rw [bitPoly_byteBits_xor, bitPoly_crc8, bitPoly_crc8, bitPoly_crc8, bitsOf_xor h,
    bitPoly_xor hbits, add_mul, add_modByMonic]

/-- Data with its own CRC has the CRC zero. -/
theorem crc8_append_self (data : List UInt8) : crc8 (data ++ [crc8 data]) = 0 := by
  have hdvd := (crc8_eq_iff data _).mp rfl
  have hzero : bitsOf [0] = List.replicate 8 false := by decide
  rw [crc8_eq_iff, bitsOf_append, bitPoly_append, hzero, bitPoly_replicate_false, add_zero]
  exact hdvd.mul_left _

/-- `crc8` is the remainder of the polynomial of the data times `X ^ 8` divided by the generator, the
CRC of data with its own CRC is zero, and the CRC of a bytewise sum is the sum of the CRCs. -/
theorem crc8_remainder (data : List UInt8) :
    bitPoly (byteBits (crc8 data)) = (bitPoly (bitsOf data) * X ^ 8) %ₘ (X ^ 8 + X ^ 2 + X + 1) ∧
      crc8 (data ++ [crc8 data]) = 0 ∧
      ∀ other : List UInt8, data.length = other.length →
        crc8 (xorBytes data other) = crc8 data ^^^ crc8 other :=
  ⟨bitPoly_crc8 data, crc8_append_self data, fun _ h => crc8_xor h⟩

theorem crc8_remainder_speed :
    bitPoly (byteBits (crc8 [3, 0x11, 100])) =
        (bitPoly (bitsOf [3, 0x11, 100]) * X ^ 8) %ₘ (X ^ 8 + X ^ 2 + X + 1) ∧
      crc8 [3, 0x11, 100, crc8 [3, 0x11, 100]] = 0 ∧
      crc8 (xorBytes [3, 0x11, 100] [0, 1, 0x80]) = crc8 [3, 0x11, 100] ^^^ crc8 [0, 1, 0x80] :=
  have h := crc8_remainder [3, 0x11, 100]
  ⟨h.1, h.2.1, h.2.2 [0, 1, 0x80] rfl⟩

end Patrol.Serial
