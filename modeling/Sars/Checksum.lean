import Sars.ReflectedCrc
import Sars.Utils

/-!
# The checksum of the server

`Crypto::GetCRC32` looks a whole byte up in a table of 256 words. Each word is
what eight single shifts make of its index, so the loop is the bit-by-bit
division of CRC-32 and inherits what that division detects.
-/

namespace Sars

namespace Crypto

open ByteMemory ReflectedCrc

/-- The generator of CRC-32, lowest power in the top bit. -/
def polynomial : BitVec 32 := 0xEDB88320#32

theorem polynomial_top : polynomial.getLsbD 31 = true := rfl

/-- Every word of the table, against the division it stands for. -/
theorem crc32Table_entry :
    ∀ i : Fin 256,
      (crc32Table.get i).toBitVec = (shiftOut polynomial)^[8] (BitVec.ofNat 32 i.val) := by
  decide +kernel

theorem lowByte_toBitVec (x : UInt32) :
    BitVec.ofNat 32 (lowByte x).val = (x.toBitVec.setWidth 8).setWidth 32 := by
  apply BitVec.eq_of_toNat_eq
  have hlow : (lowByte x).val = x.toNat % 256 :=
    (UInt32.toNat_and x 0xFF).trans (Nat.and_two_pow_sub_one_eq_mod x.toNat 8)
  rw [BitVec.toNat_ofNat, BitVec.toNat_setWidth, BitVec.toNat_setWidth, hlow]
  rfl

theorem crc32Update_toBitVec (crc : UInt32) (byte : UInt8) :
    (crc32Update crc byte).toBitVec = byteStep polynomial crc.toBitVec byte := by
  have hbyte : byte.toUInt32.toBitVec = byte.toBitVec.setWidth 32 := UInt8.toBitVec_toUInt32 byte
  rw [byteStep_lookup, crc32Update, UInt32.toBitVec_xor, crc32Table_entry, lowByte_toBitVec,
    UInt32.toBitVec_xor, hbyte]
  rfl

theorem crc32_run (bs : Bytes) (crc : UInt32) :
    (bs.foldl crc32Update crc).toBitVec = run polynomial crc.toBitVec bs := by
  induction bs generalizing crc with
  | nil => rfl
  | cons b bs ih => rw [List.foldl_cons, ih, crc32Update_toBitVec, run_cons]

theorem crc32_toBitVec (bs : Bytes) :
    (crc32 bs).toBitVec = checksum polynomial 0xFFFFFFFF#32 bs := by
  have hflip : ∀ x : BitVec 32, x ^^^ ~~~0#32 = ~~~x := fun _ => BitVec.xor_allOnes
  rw [crc32, UInt32.toBitVec_xor, crc32_run, checksum]
  exact hflip _

/-- The call on any byte string, whatever lies behind it in memory. -/
theorem getCRC32_checksum (bs rest : Bytes) :
    getCRC32 (bs ++ rest) bs.length =
      .ok (UInt32.ofBitVec (checksum polynomial 0xFFFFFFFF#32 bs)) := by
  have hlen : bs.length ≤ (bs ++ rest).length := by simp
  rw [getCRC32_eq hlen, List.take_left, ← crc32_toBitVec]

/-- The published check value, of the nine digits. -/
example :
    checksum polynomial 0xFFFFFFFF#32 [49, 50, 51, 52, 53, 54, 55, 56, 57] = 0xCBF43926#32 := by
  decide +kernel

/-- A difference inside four consecutive bytes changes the checksum. -/
theorem crc32_burst {bs cs : Bytes} (burst : Burst 4 bs cs) (same : crc32 bs = crc32 cs) :
    bs = cs := by
  have hchecksum := congrArg UInt32.toBitVec same
  rw [crc32_toBitVec, crc32_toBitVec, checksum, checksum, BitVec.not_inj] at hchecksum
  exact run_burst polynomial_top burst (by omega) hchecksum

end Crypto

end Sars
