import Mathlib.Logic.Function.Iterate
import Sars.ByteMemory

/-!
# Reflected cyclic redundancy checks

A register of `w` bits takes its message least significant bit first: a byte is
added to the low end and shifted out one bit at a time, and the generator is
added whenever the bit that leaves is set. Everything rests on two facts about
one shift. It is linear, and it loses nothing when the generator has its top
bit. Width and generator are arbitrary and no table is assumed.
-/

namespace ReflectedCrc

open ByteMemory

variable {w : Nat}

/-- One bit leaves the register. -/
def shiftOut (poly x : BitVec w) : BitVec w :=
  if x.getLsbD 0 then (x >>> 1) ^^^ poly else x >>> 1

def byteStep (poly s : BitVec w) (byte : UInt8) : BitVec w :=
  (shiftOut poly)^[8] (s ^^^ byte.toBitVec.setWidth w)

def run (poly s : BitVec w) (bs : Bytes) : BitVec w := bs.foldl (byteStep poly) s

def checksum (poly init : BitVec w) (bs : Bytes) : BitVec w := ~~~ run poly init bs

variable (poly : BitVec w)

@[simp] theorem run_nil (s : BitVec w) : run poly s [] = s := rfl

@[simp] theorem run_cons (s : BitVec w) (b : UInt8) (bs : Bytes) :
    run poly s (b :: bs) = run poly (byteStep poly s b) bs := rfl

@[simp] theorem run_append (s : BitVec w) (bs cs : Bytes) :
    run poly s (bs ++ cs) = run poly (run poly s bs) cs := by
  simp [run]

/-! ## Linearity -/

theorem shiftOut_xor (x y : BitVec w) :
    shiftOut poly (x ^^^ y) = shiftOut poly x ^^^ shiftOut poly y := by
  have hcancel : ∀ a b : BitVec w, (a ^^^ poly) ^^^ (b ^^^ poly) = a ^^^ b := by
    intro a b
    rw [BitVec.xor_comm b poly, BitVec.xor_assoc, ← BitVec.xor_assoc poly, BitVec.xor_self,
      BitVec.zero_xor]
  simp only [shiftOut, BitVec.getLsbD_xor, BitVec.ushiftRight_xor_distrib]
  cases x.getLsbD 0 <;> cases y.getLsbD 0
  · simp
  · simp [BitVec.xor_assoc]
  · simp only [Bool.xor_false, if_true, Bool.false_eq_true, if_false]
    rw [BitVec.xor_assoc, BitVec.xor_assoc, BitVec.xor_comm poly]
  · simp [hcancel]

theorem shifts_xor (n : Nat) (x y : BitVec w) :
    (shiftOut poly)^[n] (x ^^^ y) = (shiftOut poly)^[n] x ^^^ (shiftOut poly)^[n] y := by
  induction n generalizing x y with
  | zero => rfl
  | succ n ih => simp only [Function.iterate_succ_apply, shiftOut_xor, ih]

/-- A register whose low bits are clear only moves down while they leave. -/
theorem shifts_clear {n : Nat} {x : BitVec w} (clear : ∀ i < n, x.getLsbD i = false) :
    (shiftOut poly)^[n] x = x >>> n := by
  induction n with
  | zero => simp
  | succ n ih =>
    have hbit : (x >>> n).getLsbD 0 = false := by
      rw [BitVec.getLsbD_ushiftRight]
      exact clear _ (by omega)
    rw [Function.iterate_succ_apply', ih (fun i hi => clear i (by omega)), shiftOut, hbit,
      BitVec.shiftRight_add]
    simp

/-! ## One lookup for eight shifts -/

theorem low_high (x : BitVec w) : x = (x.setWidth 8).setWidth w ^^^ ((x >>> 8) <<< 8) := by
  apply BitVec.eq_of_getLsbD_eq
  intro i hi
  rw [BitVec.getLsbD_xor, BitVec.getLsbD_setWidth, BitVec.getLsbD_setWidth,
    BitVec.getLsbD_shiftLeft, BitVec.getLsbD_ushiftRight]
  by_cases h : i < 8
  · simp [h, hi]
  · have hback : 8 + (i - 8) = i := by omega
    simp [h, hi, hback]

theorem up_down (x : BitVec w) {n : Nat} (small : ∀ i, w ≤ n + i → x.getLsbD i = false) :
    (x <<< n) >>> n = x := by
  apply BitVec.eq_of_getLsbD_eq
  intro i hi
  rw [BitVec.getLsbD_ushiftRight, BitVec.getLsbD_shiftLeft]
  by_cases h : n + i < w
  · simp [h]
  · simp [small i (by omega)]

/-- Shifting a word back up by `n` clears the bits that leave in the next `n` rounds. -/
theorem shifts_up (x : BitVec w) {n : Nat} (small : ∀ i, w ≤ n + i → x.getLsbD i = false) :
    (shiftOut poly)^[n] (x <<< n) = x := by
  rw [shifts_clear poly (x := x <<< n), up_down x small]
  intro i hi
  simp [BitVec.getLsbD_shiftLeft, hi]

/-- The byte that leaves decides what is added; the rest of the register moves down. -/
theorem byteStep_lookup (s : BitVec w) (byte : UInt8) :
    byteStep poly s byte =
      (shiftOut poly)^[8] (((s ^^^ byte.toBitVec.setWidth w).setWidth 8).setWidth w) ^^^
        (s >>> 8) := by
  have hbyte : (byte.toBitVec.setWidth w) >>> 8 = 0#w := by
    apply BitVec.eq_of_getLsbD_eq
    intro i hi
    simp [BitVec.getLsbD_ushiftRight, BitVec.getLsbD_setWidth]
  have hrest : ∀ i, w ≤ 8 + i → ((s ^^^ byte.toBitVec.setWidth w) >>> 8).getLsbD i = false := by
    intro i hi
    rw [BitVec.getLsbD_ushiftRight]
    exact BitVec.getLsbD_of_ge _ _ hi
  have hs : (s ^^^ byte.toBitVec.setWidth w) >>> 8 = s >>> 8 := by
    rw [BitVec.ushiftRight_xor_distrib, hbyte, BitVec.xor_zero]
  calc byteStep poly s byte
      = (shiftOut poly)^[8] (((s ^^^ byte.toBitVec.setWidth w).setWidth 8).setWidth w ^^^
          (((s ^^^ byte.toBitVec.setWidth w) >>> 8) <<< 8)) := by
        rw [← low_high, byteStep]
    _ = (shiftOut poly)^[8] (((s ^^^ byte.toBitVec.setWidth w).setWidth 8).setWidth w) ^^^
          ((s ^^^ byte.toBitVec.setWidth w) >>> 8) := by
        rw [shifts_xor, shifts_up poly _ hrest]
    _ = _ := by rw [hs]

/-! ## Bursts -/

/-- A byte string as one word, its first byte lowest. -/
def pack : Bytes → BitVec w
  | [] => 0
  | b :: bs => b.toBitVec.setWidth w ^^^ (pack bs <<< 8)

theorem pack_high (bs : Bytes) :
    ∀ i, 8 * bs.length ≤ i → (pack bs : BitVec w).getLsbD i = false := by
  induction bs with
  | nil => simp [pack]
  | cons b bs ih =>
    intro i hi
    rw [List.length_cons] at hi
    rw [pack, BitVec.getLsbD_xor, BitVec.getLsbD_setWidth, BitVec.getLsbD_shiftLeft,
      ih (i - 8) (by omega), BitVec.getLsbD_of_ge _ _ (show 8 ≤ i by omega)]
    simp

/-- A run over a string that fits into the register divides the packed string once. -/
theorem run_pack (s : BitVec w) (bs : Bytes) (fits : 8 * bs.length ≤ w) :
    run poly s bs = (shiftOut poly)^[8 * bs.length] (s ^^^ pack bs) := by
  induction bs generalizing s with
  | nil => simp [pack]
  | cons b bs ih =>
    rw [List.length_cons] at fits
    have hup : (shiftOut poly)^[8] ((pack bs : BitVec w) <<< 8) = pack bs :=
      shifts_up poly _ fun i hi => pack_high bs i (by omega)
    have hlen : 8 * (b :: bs).length = 8 * bs.length + 8 := by simp [Nat.mul_add]
    rw [run_cons, ih _ (by omega), hlen, Function.iterate_add_apply, pack, ← BitVec.xor_assoc,
      shifts_xor poly 8, hup, byteStep]

theorem pack_injective {bs cs : Bytes} (len : bs.length = cs.length) (fits : 8 * bs.length ≤ w)
    (same : (pack bs : BitVec w) = pack cs) : bs = cs := by
  induction bs generalizing cs with
  | nil => exact (List.length_eq_zero_iff.mp len.symm).symm
  | cons b bs ih =>
    cases cs with
    | nil => cases len
    | cons c cs =>
      rw [List.length_cons] at fits
      have hbit : ∀ i, (pack (b :: bs) : BitVec w).getLsbD i = (pack (c :: cs)).getLsbD i :=
        fun i => by rw [same]
      simp only [pack, BitVec.getLsbD_xor, BitVec.getLsbD_setWidth, BitVec.getLsbD_shiftLeft]
        at hbit
      have hhead : b = c := by
        apply UInt8.toBitVec_inj.mp
        apply BitVec.eq_of_getLsbD_eq
        intro i hi
        simpa [show i < w by omega, hi] using hbit i
      have htail : (pack bs : BitVec w) = pack cs := by
        apply BitVec.eq_of_getLsbD_eq
        intro i hi
        by_cases h : i + 8 < w
        · have hlow : ¬ i + 8 < 8 := by omega
          simpa [h, hlow, BitVec.getLsbD_of_ge b.toBitVec (i + 8) (by omega),
            BitVec.getLsbD_of_ge c.toBitVec (i + 8) (by omega)] using hbit (i + 8)
        · have hcs : cs.length = bs.length := by simpa using len.symm
          rw [pack_high bs i (by omega), pack_high cs i (by omega)]
      rw [hhead, ih (by simpa using len) (by omega) htail]

variable {poly} (top : poly.getLsbD (w - 1) = true)

include top in
/-- With the generator's top bit set no two registers meet. -/
theorem shiftOut_injective : Function.Injective (shiftOut poly) := by
  intro x y same
  have hzero : shiftOut poly (x ^^^ y) = 0 := by
    rw [shiftOut_xor, same, BitVec.xor_self]
    rfl
  have hpos : w - 1 < w := by
    have := BitVec.lt_of_getLsbD top
    omega
  suffices x ^^^ y = 0 from BitVec.xor_eq_zero_iff.mp this
  by_cases hlow : (x ^^^ y).getLsbD 0 = true
  · -- the generator was added, so the register kept a set bit
    have hbit : (shiftOut poly (x ^^^ y)).getLsbD (w - 1) = true := by
      rw [shiftOut, if_pos hlow, BitVec.getLsbD_xor, BitVec.getLsbD_ushiftRight, top,
        BitVec.getLsbD_of_ge _ _ (by omega)]
      rfl
    rw [hzero] at hbit
    simp at hbit
  · rw [shiftOut, if_neg hlow] at hzero
    apply BitVec.eq_of_getLsbD_eq
    intro i hi
    cases i with
    | zero => simpa using hlow
    | succ i =>
      have hbit : ((x ^^^ y) >>> 1).getLsbD i = false := by rw [hzero]; simp
      rw [BitVec.getLsbD_ushiftRight, Nat.add_comm] at hbit
      simpa using hbit

include top in
theorem shifts_injective (n : Nat) : Function.Injective ((shiftOut poly)^[n]) :=
  (shiftOut_injective top).iterate n

include top in
/-- What follows the difference keeps it. -/
theorem run_injective (bs : Bytes) : Function.Injective fun s => run poly s bs := by
  induction bs with
  | nil => exact fun _ _ same => same
  | cons b bs ih =>
    intro s t same
    have hstep : byteStep poly s b = byteStep poly t b := ih same
    exact (BitVec.xor_left_inj _).mp (shifts_injective top 8 hstep)

include top in
theorem run_window {s : BitVec w} {pre bs cs post : Bytes} (len : bs.length = cs.length)
    (fits : 8 * bs.length ≤ w)
    (same : run poly s (pre ++ (bs ++ post)) = run poly s (pre ++ (cs ++ post))) : bs = cs := by
  simp only [run_append] at same
  have hmid := run_injective top post same
  rw [run_pack poly _ bs fits, run_pack poly _ cs (len ▸ fits), ← len] at hmid
  have hxor := shifts_injective top _ hmid
  exact pack_injective len fits ((BitVec.xor_right_inj _).mp hxor)

/-- Two strings of one length that differ only inside one window of `n` bytes. -/
structure Burst (n : Nat) (bs cs : Bytes) : Prop where
  len : bs.length = cs.length
  window : ∃ i, ∀ j, bs[j]? ≠ cs[j]? → i ≤ j ∧ j < i + n

theorem take_agree {bs cs : Bytes} {k : Nat} (behind : ∀ j, bs[j]? ≠ cs[j]? → k ≤ j) :
    bs.take k = cs.take k := by
  apply List.ext_getElem?
  intro j
  by_cases hk : j < k
  · have hsame : bs[j]? = cs[j]? := by
      by_contra hj
      exact absurd (behind j hj) (by omega)
    rw [List.getElem?_take_of_lt hk, List.getElem?_take_of_lt hk, hsame]
  · rw [List.getElem?_take_eq_none (Nat.not_lt.mp hk),
      List.getElem?_take_eq_none (Nat.not_lt.mp hk)]

theorem drop_agree {bs cs : Bytes} {k : Nat} (front : ∀ j, bs[j]? ≠ cs[j]? → j < k) :
    bs.drop k = cs.drop k := by
  apply List.ext_getElem?
  intro j
  by_contra hj
  rw [List.getElem?_drop, List.getElem?_drop] at hj
  exact absurd (front _ hj) (by omega)

theorem Burst.take {n : Nat} {bs cs : Bytes} (burst : Burst n bs cs) (k : Nat) :
    Burst n (bs.take k) (cs.take k) := by
  obtain ⟨len, i, window⟩ := burst
  refine ⟨by rw [List.length_take, List.length_take, len], i, fun j hj => window j ?_⟩
  by_cases hk : j < k
  · rwa [List.getElem?_take_of_lt hk, List.getElem?_take_of_lt hk] at hj
  · rw [List.getElem?_take_eq_none (Nat.not_lt.mp hk),
      List.getElem?_take_eq_none (Nat.not_lt.mp hk)] at hj
    exact absurd rfl hj

theorem Burst.split {n : Nat} {bs cs : Bytes} (burst : Burst n bs cs) :
    ∃ pre mid mid' post, bs = pre ++ (mid ++ post) ∧ cs = pre ++ (mid' ++ post) ∧
      mid.length = mid'.length ∧ mid.length ≤ n := by
  obtain ⟨len, i, window⟩ := burst
  have hfront : bs.take i = cs.take i := take_agree fun j hj => (window j hj).1
  have hback : (bs.drop i).drop n = (cs.drop i).drop n := by
    rw [List.drop_drop, List.drop_drop]
    exact drop_agree fun j hj => (window j hj).2
  refine ⟨bs.take i, (bs.drop i).take n, (cs.drop i).take n, (bs.drop i).drop n, ?_, ?_, ?_, ?_⟩
  · rw [List.take_append_drop, List.take_append_drop]
  · rw [hfront, hback, List.take_append_drop, List.take_append_drop]
  · rw [List.length_take, List.length_take, List.length_drop, List.length_drop, len]
  · exact List.length_take_le _ _

include top in
/-- A register of `w` bits tells apart any two strings that differ in a burst of `w` bits. -/
theorem run_burst {n : Nat} {s : BitVec w} {bs cs : Bytes} (burst : Burst n bs cs)
    (fits : 8 * n ≤ w) (same : run poly s bs = run poly s cs) : bs = cs := by
  obtain ⟨pre, mid, mid', post, rfl, rfl, len, short⟩ := burst.split
  rw [run_window top len (by omega) same]

end ReflectedCrc
