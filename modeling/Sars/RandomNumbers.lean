import Sars.LinearCongruential
import Sars.ByteMemory
import Mathlib.Data.UInt

/-!
# Random numbers and strings

`Crypto::GetRandomUInt` and `Crypto::GetRandomString` draw from one seed. A
division by zero, for the range of all 2^32 numbers, is `none`. The seed comes
back after 2^32 drawn numbers and not before, but a range of 2^k numbers sees no
more than k + 4 bits of it.
-/

namespace Sars

open ByteMemory LinearCongruential

namespace Crypto

def nextSeed (seed : UInt32) : UInt32 := 214013 * seed + 2531011

/-- The bits of the seed that are looked at. -/
def masked (seed : UInt32) : UInt32 := (seed >>> 4) &&& 0x7FFF7FFF

/-- The number and the new seed. -/
def getRandomUInt (seed min max : UInt32) : Option (UInt32 × UInt32) :=
  let seed := nextSeed seed
  if max - min + 1 = 0 then none
  else some (masked seed % (max - min + 1) + min, seed)

def chars : Bytes :=
  [0x30, 0x31, 0x32, 0x33, 0x34, 0x35, 0x36, 0x37, 0x38, 0x39,
   0x61, 0x62, 0x63, 0x64, 0x65, 0x66, 0x67, 0x68, 0x69, 0x6A, 0x6B, 0x6C, 0x6D,
   0x6E, 0x6F, 0x70, 0x71, 0x72, 0x73, 0x74, 0x75, 0x76, 0x77, 0x78, 0x79, 0x7A]

/-- What the loop of `GetRandomString` writes in front of its end. -/
def randomChars : Nat → UInt32 → Option (Bytes × UInt32)
  | 0, seed => some ([], seed)
  | n + 1, seed => do
    let (i, seed) ← getRandomUInt seed 0 35
    let c ← chars[i.toNat]?
    let (text, seed) ← randomChars n seed
    return (c :: text, seed)

def getRandomString (seed : UInt32) (len : Nat) : Option (Bytes × UInt32) :=
  randomChars (if len > 64 then 64 else len) seed

/-! ## Draws -/

inductive Draw where
  | uint (min max : UInt32)
  | string (len : Nat)

inductive Drawn where
  | number (value : UInt32)
  | text (value : Bytes)

def Draw.draw (seed : UInt32) : Draw → Option (Drawn × UInt32)
  | .uint min max => (getRandomUInt seed min max).map fun (value, seed) => (.number value, seed)
  | .string len => (getRandomString seed len).map fun (value, seed) => (.text value, seed)

def drawAll : UInt32 → List Draw → Option (List Drawn × UInt32)
  | seed, [] => some ([], seed)
  | seed, d :: ds => do
    let (value, seed) ← d.draw seed
    let (values, seed) ← drawAll seed ds
    return (value :: values, seed)

/-- How many numbers a draw takes. -/
def Draw.numbers : Draw → Nat
  | .uint _ _ => 1
  | .string len => min len 64

/-! ## The seed -/

theorem nextSeed_toNat (seed : UInt32) :
    (nextSeed seed).toNat = next 214013 2531011 (2 ^ 32) seed.toNat := by
  have ha : (214013 : UInt32).toNat = 214013 := by decide
  have hc : (2531011 : UInt32).toNat = 2531011 := by decide
  rw [nextSeed, next, UInt32.toNat_add, UInt32.toNat_mul, ha, hc, Nat.mod_add_mod]

theorem iterate_nextSeed (n : Nat) (seed : UInt32) :
    (nextSeed^[n] seed).toNat = (next 214013 2531011 (2 ^ 32))^[n] seed.toNat := by
  induction n generalizing seed with
  | zero => rfl
  | succ n ih => rw [Function.iterate_succ_apply, Function.iterate_succ_apply, ih, nextSeed_toNat]

theorem getRandomUInt_seed {seed min max value seed' : UInt32}
    (h : getRandomUInt seed min max = some (value, seed')) : seed' = nextSeed seed := by
  simp only [getRandomUInt] at h
  split_ifs at h
  exact (Prod.mk.inj (Option.some.inj h)).2.symm

/-- A number of the range `min` to `max`. -/
theorem getRandomUInt_range {min max : UInt32} (seed : UInt32) (ordered : min ≤ max)
    (proper : max - min ≠ 0xFFFFFFFF) :
    ∃ value, getRandomUInt seed min max = some (value, nextSeed seed) ∧
      min ≤ value ∧ value ≤ max := by
  have hbound := max.toNat_lt
  have hwidth : (max - min).toNat = max.toNat - min.toNat := UInt32.toNat_sub_of_le _ _ ordered
  have hspan : (max - min + 1).toNat = max.toNat - min.toNat + 1 := by
    have hne : (max - min).toNat ≠ 0xFFFFFFFF := fun h => proper (UInt32.toNat_inj.mp h)
    have hone : (1 : UInt32).toNat = 1 := by decide
    rw [UInt32.toNat_add, hwidth, hone, Nat.mod_eq_of_lt (by omega)]
  rw [UInt32.le_iff_toNat_le] at ordered
  have hpos : max - min + 1 ≠ 0 := by
    intro h
    rw [h] at hspan
    simp at hspan
  refine ⟨_, if_neg hpos, ?_⟩
  generalize masked (nextSeed seed) = drawn
  have hrest := Nat.mod_lt drawn.toNat (show 0 < (max - min + 1).toNat by omega)
  have hvalue : (drawn % (max - min + 1) + min).toNat =
      drawn.toNat % (max - min + 1).toNat + min.toNat := by
    rw [UInt32.toNat_add, UInt32.toNat_mod, Nat.mod_eq_of_lt (by omega)]
  constructor
  · rw [UInt32.le_iff_toNat_le, hvalue]
    exact Nat.le_add_left _ _
  · rw [UInt32.le_iff_toNat_le, hvalue]
    omega

theorem randomChars_succ {n : Nat} {seed i seed' seed'' : UInt32} {c : UInt8} {text : Bytes}
    (hi : getRandomUInt seed 0 35 = some (i, seed')) (hc : chars[i.toNat]? = some c)
    (htext : randomChars n seed' = some (text, seed'')) :
    randomChars (n + 1) seed = some (c :: text, seed'') := by
  rw [randomChars, hi, Option.bind_eq_bind, Option.bind_some]
  simp only [hc, htext, Option.bind_eq_bind, Option.bind_some, Option.pure_def]

theorem randomChars_ok (n : Nat) (seed : UInt32) :
    ∃ text, randomChars n seed = some (text, nextSeed^[n] seed) ∧ text.length = n ∧
      ∀ c ∈ text, c ∈ chars := by
  induction n generalizing seed with
  | zero => exact ⟨[], rfl, rfl, List.forall_mem_nil _⟩
  | succ n ih =>
    obtain ⟨i, hi, _, hle⟩ :=
      getRandomUInt_range seed (show (0 : UInt32) ≤ 35 by decide) (by decide)
    have hlt : i.toNat < chars.length := by
      rw [UInt32.le_iff_toNat_le] at hle
      have h35 : (35 : UInt32).toNat = 35 := by decide
      have hchars : chars.length = 36 := by decide
      omega
    obtain ⟨text, htext, hlength, hmem⟩ := ih (nextSeed seed)
    refine ⟨chars[i.toNat] :: text, ?_, by rw [List.length_cons, hlength], ?_⟩
    · rw [Function.iterate_succ_apply]
      exact randomChars_succ hi (List.getElem?_eq_getElem hlt) htext
    · exact List.forall_mem_cons.mpr ⟨List.getElem_mem hlt, hmem⟩

theorem Draw.draw_seed {seed seed' : UInt32} {d : Draw} {value : Drawn}
    (h : d.draw seed = some (value, seed')) : seed' = nextSeed^[d.numbers] seed := by
  cases d with
  | uint min max =>
    obtain ⟨⟨number, next⟩, hnumber, heq⟩ := Option.map_eq_some_iff.mp h
    rw [← (Prod.mk.inj heq).2, getRandomUInt_seed hnumber]
    exact (Function.iterate_one nextSeed ▸ rfl)
  | string len =>
    obtain ⟨text, htext, _⟩ := randomChars_ok (if len > 64 then 64 else len) seed
    have hlen : (if len > 64 then 64 else len) = min len 64 := by
      split_ifs <;> omega
    simp only [Draw.draw, getRandomString, htext, Option.map_some] at h
    rw [← (Prod.mk.inj (Option.some.inj h)).2, hlen, Draw.numbers]

/-- Whatever is asked for, the seed depends on how many numbers were drawn alone. -/
theorem drawAll_seed {ds : List Draw} {seed seed' : UInt32} {values : List Drawn}
    (h : drawAll seed ds = some (values, seed')) :
    seed' = nextSeed^[(ds.map Draw.numbers).sum] seed := by
  induction ds generalizing seed values with
  | nil => exact (Prod.mk.inj (Option.some.inj h)).2.symm
  | cons d ds ih =>
    obtain ⟨⟨value, next⟩, hvalue, hrest⟩ := Option.bind_eq_some_iff.mp h
    obtain ⟨⟨rest, last⟩, hall, heq⟩ := Option.bind_eq_some_iff.mp hrest
    obtain ⟨-, rfl⟩ := Prod.mk.inj (Option.some.inj heq)
    rw [List.map_cons, List.sum_cons, Nat.add_comm, Function.iterate_add_apply,
      ← Draw.draw_seed hvalue]
    exact ih hall

/-- The seed comes back exactly after the multiples of 2^32 drawn numbers, in whatever draws. -/
theorem seed_returns_iff {seed seed' : UInt32} {ds : List Draw} {values : List Drawn}
    (h : drawAll seed ds = some (values, seed')) :
    seed' = seed ↔ 2 ^ 32 ∣ (ds.map Draw.numbers).sum := by
  rw [drawAll_seed h, ← UInt32.toNat_inj, iterate_nextSeed]
  exact iterate_eq_self_iff (by decide) (by decide) seed.toNat_lt _

/-- A die and a string that is asked for longer than the buffer. -/
theorem seed_returns_iff_dieAndString :
    ∃ values seed', drawAll 1 [.uint 1 6, .string 70] = some (values, seed') ∧ seed' ≠ 1 := by
  have hsome : (drawAll 1 [.uint 1 6, .string 70]).isSome = true := by decide +kernel
  obtain ⟨⟨values, seed'⟩, hdrawn⟩ := Option.isSome_iff_exists.mp hsome
  exact ⟨values, seed', hdrawn, fun h => absurd ((seed_returns_iff hdrawn).mp h) (by decide)⟩

/-! ## Small ranges -/

/-- What a range of `2 ^ k` numbers sees of the seed. -/
theorem masked_mod {k : Nat} (small : k ≤ 15) (seed : UInt32) :
    (masked seed).toNat % 2 ^ k = seed.toNat % 2 ^ (k + 4) / 2 ^ 4 := by
  have hmask : ∀ k ≤ 15, (0x7FFF7FFF : Nat) % 2 ^ k = 2 ^ k - 1 := by decide
  have hshift : (seed >>> 4).toNat = seed.toNat / 2 ^ 4 := by
    rw [UInt32.toNat_shiftRight, Nat.shiftRight_eq_div_pow]
    rfl
  have hliteral : (0x7FFF7FFF : UInt32).toNat = 0x7FFF7FFF := by decide
  rw [masked, UInt32.toNat_and, hliteral, Nat.and_mod_two_pow, hmask k small,
    Nat.and_two_pow_sub_one_eq_mod, Nat.mod_mod, hshift, Nat.pow_add', Nat.mod_mul_right_div_self]

/-- The number drawn from a range of `2 ^ k` comes back after every `2 ^ (k + 4)` numbers. -/
theorem small_range_returns {k : Nat} (small : k ≤ 15) {min max : UInt32}
    (range : (max - min + 1).toNat = 2 ^ k) {seed seed' : UInt32} {ds : List Draw}
    {values : List Drawn} (h : drawAll seed ds = some (values, seed'))
    (turns : 2 ^ (k + 4) ∣ (ds.map Draw.numbers).sum) :
    (getRandomUInt seed' min max).map Prod.fst = (getRandomUInt seed min max).map Prod.fst := by
  have hnext : nextSeed seed' = nextSeed^[(ds.map Draw.numbers).sum] (nextSeed seed) := by
    rw [drawAll_seed h, ← Function.iterate_succ_apply, Function.iterate_succ_apply']
  have hlow : (nextSeed seed').toNat % 2 ^ (k + 4) = (nextSeed seed).toNat % 2 ^ (k + 4) := by
    rw [hnext, iterate_nextSeed]
    exact (low_bits_return_iff (by decide) (by decide) (by omega) _ _).mpr turns
  have hseen : masked (nextSeed seed') % (max - min + 1) =
      masked (nextSeed seed) % (max - min + 1) := by
    rw [← UInt32.toNat_inj, UInt32.toNat_mod, UInt32.toNat_mod, range, masked_mod small,
      masked_mod small, hlow]
  simp only [getRandomUInt, hseen]
  split_ifs <;> simp only [Option.map_none, Option.map_some]

/-- The two faces of a coin, with a string of 32 characters drawn in between. -/
theorem small_range_returns_coin :
    ∃ values seed', drawAll 7 [.string 32] = some (values, seed') ∧
      (getRandomUInt seed' 0 1).map Prod.fst = (getRandomUInt 7 0 1).map Prod.fst := by
  have hsome : (drawAll 7 [.string 32]).isSome = true := by decide +kernel
  obtain ⟨⟨values, seed'⟩, hdrawn⟩ := Option.isSome_iff_exists.mp hsome
  have hrange : ((1 : UInt32) - 0 + 1).toNat = 2 ^ 1 := by decide
  exact ⟨values, seed', hdrawn, small_range_returns (by decide) hrange hdrawn (by decide)⟩

end Crypto

end Sars
