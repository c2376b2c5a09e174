import Sars.ByteMemory
import Mathlib.Data.UInt

/-!
# Words in network byte order

The big-endian bytes of 16, 32 and 64 bit words and the words read back from
bytes by shifting and merging. Both directions are inverse, so a run of two,
four or eight bytes is the image of exactly one word. A contiguous mask cuts a
field of bits out of a number, and fields at different places merge by adding.
-/

namespace NetworkOrder

open ByteMemory

def be16 (v : UInt16) : Bytes := [(v >>> 8).toUInt8, v.toUInt8]

def be32 (v : UInt32) : Bytes :=
  [(v >>> 24).toUInt8, (v >>> 16).toUInt8, (v >>> 8).toUInt8, v.toUInt8]

def be64 (v : UInt64) : Bytes :=
  [(v >>> 56).toUInt8, (v >>> 48).toUInt8, (v >>> 40).toUInt8, (v >>> 32).toUInt8,
    (v >>> 24).toUInt8, (v >>> 16).toUInt8, (v >>> 8).toUInt8, v.toUInt8]

def ofBe16 (a b : UInt8) : UInt16 := b.toUInt16 ||| a.toUInt16 <<< 8

def ofBe32 (a b c d : UInt8) : UInt32 :=
  d.toUInt32 ||| c.toUInt32 <<< 8 ||| b.toUInt32 <<< 16 ||| a.toUInt32 <<< 24

def ofBe64 (hi lo : UInt32) : UInt64 := hi.toUInt64 <<< 32 ||| lo.toUInt64

@[simp] theorem be16_length (v : UInt16) : (be16 v).length = 2 := rfl

@[simp] theorem be32_length (v : UInt32) : (be32 v).length = 4 := rfl

@[simp] theorem be64_length (v : UInt64) : (be64 v).length = 8 := rfl

theorem ofBe16_be16 (v : UInt16) : ofBe16 (v >>> 8).toUInt8 v.toUInt8 = v := by
  apply UInt16.toBitVec_inj.mp
  ext i hi
  simp [ofBe16, -UInt16.toUInt16_toUInt8]
  grind

theorem be16_injective {v w : UInt16} (h : be16 v = be16 w) : v = w := by
  simp only [be16, List.cons.injEq, and_true] at h
  rw [← ofBe16_be16 v, h.1, h.2, ofBe16_be16]

theorem be16_ofBe16 (a b : UInt8) : be16 (ofBe16 a b) = [a, b] := by
  simp only [be16, ofBe16, List.cons.injEq, and_true]
  refine ⟨?_, ?_⟩
  all_goals
    apply UInt8.toBitVec_inj.mp
    ext i hi
    simp <;> grind

theorem ofBe32_be32 (v : UInt32) :
    ofBe32 (v >>> 24).toUInt8 (v >>> 16).toUInt8 (v >>> 8).toUInt8 v.toUInt8 = v := by
  apply UInt32.toBitVec_inj.mp
  ext i hi
  simp [ofBe32, -UInt32.toUInt32_toUInt8]
  grind

theorem be32_ofBe32 (a b c d : UInt8) : be32 (ofBe32 a b c d) = [a, b, c, d] := by
  simp only [be32, ofBe32, List.cons.injEq, and_true]
  refine ⟨?_, ?_, ?_, ?_⟩
  all_goals
    apply UInt8.toBitVec_inj.mp
    ext i hi
    simp <;> grind

theorem ofBe64_split (v : UInt64) : ofBe64 (v >>> 32).toUInt32 v.toUInt32 = v := by
  apply UInt64.toBitVec_inj.mp
  ext i hi
  simp [ofBe64, -UInt64.toUInt64_toUInt32]
  grind

/-- Eight bytes are the two four-byte halves one after the other. -/
theorem be64_ofBe64 (hi lo : UInt32) : be64 (ofBe64 hi lo) = be32 hi ++ be32 lo := by
  simp only [be64, be32, ofBe64, List.cons_append, List.nil_append, List.cons.injEq, and_true]
  refine ⟨?_, ?_, ?_, ?_, ?_, ?_, ?_, ?_⟩
  all_goals
    apply UInt8.toBitVec_inj.mp
    ext i hi
    simp <;> grind

theorem be64_halves (v : UInt64) : be64 v = be32 (v >>> 32).toUInt32 ++ be32 v.toUInt32 := by
  rw [← be64_ofBe64, ofBe64_split]

theorem be32_injective : Function.Injective be32 := by
  intro v w h
  simp only [be32, List.cons.injEq, and_true] at h
  rw [← ofBe32_be32 v, ← ofBe32_be32 w, h.1, h.2.1, h.2.2.1, h.2.2.2]

theorem exists_be16 {b : Bytes} (h : b.length = 2) : ∃ v, b = be16 v := by
  match b, h with
  | [x, y], _ => exact ⟨ofBe16 x y, (be16_ofBe16 x y).symm⟩

theorem exists_be32 {b : Bytes} (h : b.length = 4) : ∃ v, b = be32 v := by
  match b, h with
  | [x, y, z, w], _ => exact ⟨ofBe32 x y z w, (be32_ofBe32 x y z w).symm⟩

theorem exists_be64 {b : Bytes} (h : b.length = 8) : ∃ v, b = be64 v := by
  obtain ⟨hi, hhi⟩ := exists_be32 (b := b.take 4) (by rw [List.length_take]; omega)
  obtain ⟨lo, hlo⟩ := exists_be32 (b := b.drop 4) (by rw [List.length_drop]; omega)
  refine ⟨ofBe64 hi lo, ?_⟩
  rw [be64_ofBe64, ← hhi, ← hlo, List.take_append_drop]

/-- A mask of `k` ones above `s` zeros keeps the bits from `s` to `s + k`. -/
theorem and_mask {n m k s : Nat} (high : m >>> s = 2 ^ k - 1) (low : m &&& (2 ^ s - 1) = 0) :
    n &&& m = 2 ^ s * (n / 2 ^ s % 2 ^ k) := by
  have hlow : (n &&& m) % 2 ^ s = 0 := by
    rw [← Nat.and_two_pow_sub_one_eq_mod, Nat.and_assoc, low, Nat.and_zero]
  have hhigh : (n &&& m) / 2 ^ s = n / 2 ^ s % 2 ^ k := by
    rw [← Nat.shiftRight_eq_div_pow, Nat.shiftRight_and_distrib, high,
      Nat.and_two_pow_sub_one_eq_mod, Nat.shiftRight_eq_div_pow]
  rw [← hhigh]
  have h := Nat.div_add_mod (n &&& m) (2 ^ s)
  omega

theorem or_eq_add {a b i : Nat} (h : b < 2 ^ i) : b ||| 2 ^ i * a = b + 2 ^ i * a := by
  rw [Nat.or_comm, ← Nat.two_pow_add_eq_or_of_lt h, Nat.add_comm]

end NetworkOrder
