import Mathlib.Algebra.Ring.GeomSum
import Mathlib.Data.Nat.ModEq
import Mathlib.Logic.Function.Iterate
import Mathlib.NumberTheory.Multiplicity
import Mathlib.Tactic.Ring

/-!
# Linear congruential generators

A generator multiplies its state, adds an increment and keeps the remainder. For
a power of two as modulus, a multiplier of the form `4 * k + 1` and an odd
increment, a state comes back exactly after the multiples of the modulus: none
is skipped. The low bits form a generator of their own, with a shorter cycle.
-/

namespace LinearCongruential

def next (a c m x : Nat) : Nat := (a * x + c) % m

variable {a c m : Nat}

theorem iterate_next {x : Nat} (hx : x < m) (n : Nat) :
    (next a c m)^[n] x = (a ^ n * x + (∑ i ∈ Finset.range n, a ^ i) * c) % m := by
  induction n with
  | zero => simp [Nat.mod_eq_of_lt hx]
  | succ n ih =>
    have hsum : a * (a ^ n * x + (∑ i ∈ Finset.range n, a ^ i) * c) + c =
        a ^ (n + 1) * x + (∑ i ∈ Finset.range (n + 1), a ^ i) * c := by
      rw [geom_sum_succ, pow_succ]
      ring
    rw [Function.iterate_succ_apply', ih, next, Nat.add_mod, Nat.mul_mod, Nat.mod_mod,
      ← Nat.mul_mod, ← Nat.add_mod, hsum]

/-- The geometric sum has exactly as many factors two as it has terms. -/
theorem two_pow_dvd_geom_sum (ha : a % 4 = 1) (w n : Nat) :
    2 ^ w ∣ ∑ i ∈ Finset.range n, a ^ i ↔ 2 ^ w ∣ n := by
  by_cases hone : a = 1
  · simp [hone]
  · have hfour : (4 : Int) ∣ a - 1 := by omega
    have hodd : ¬ (2 : Int) ∣ a := by omega
    have hfinite : FiniteMultiplicity (2 : Int) (a - 1) := by
      rw [Int.finiteMultiplicity_iff]
      exact ⟨by decide, by omega⟩
    -- lifting the exponent, with the factor `a - 1` on both sides
    have hlift := Int.two_pow_sub_pow' n hfour hodd
    rw [one_pow, ← geom_sum_mul, emultiplicity_mul Int.prime_two, add_comm] at hlift
    have hsame : emultiplicity (2 : Int) (∑ i ∈ Finset.range n, (a : Int) ^ i) =
        emultiplicity (2 : Int) n :=
      ENat.add_right_injective_of_ne_top
        (finiteMultiplicity_iff_emultiplicity_ne_top.mp hfinite) hlift
    have hdvd : (2 : Int) ^ w ∣ ∑ i ∈ Finset.range n, (a : Int) ^ i ↔ (2 : Int) ^ w ∣ n := by
      rw [pow_dvd_iff_le_emultiplicity, hsame, pow_dvd_iff_le_emultiplicity]
    exact_mod_cast hdvd

/-- A state comes back after `n` steps exactly when the modulus divides `n`. -/
theorem iterate_eq_self_iff (ha : a % 4 = 1) (hc : c % 2 = 1) {w x : Nat} (hx : x < 2 ^ w)
    (n : Nat) : (next a c (2 ^ w))^[n] x = x ↔ 2 ^ w ∣ n := by
  obtain ⟨b, rfl⟩ : ∃ b, a = b + 1 := ⟨a - 1, by omega⟩
  have hshift : (b + 1) ^ n * x + (∑ i ∈ Finset.range n, (b + 1) ^ i) * c =
      x + (∑ i ∈ Finset.range n, (b + 1) ^ i) * (b * x + c) := by
    rw [← geom_sum_mul_add]
    ring
  have hcoprime : Nat.Coprime 2 (b * x + c) := by
    rw [Nat.coprime_two_left]
    have hb : b * x % 2 = 0 := by rw [Nat.mul_mod, show b % 2 = 0 by omega, Nat.zero_mul]
    exact Nat.odd_iff.mpr (by omega)
  calc (next (b + 1) c (2 ^ w))^[n] x = x
      ↔ x + (∑ i ∈ Finset.range n, (b + 1) ^ i) * (b * x + c) ≡ x + 0 [MOD 2 ^ w] := by
        have hself : (x + 0) % 2 ^ w = x := Nat.mod_eq_of_lt hx
        rw [iterate_next hx, hshift, Nat.ModEq, hself]
    _ ↔ 2 ^ w ∣ (∑ i ∈ Finset.range n, (b + 1) ^ i) * (b * x + c) := by
        rw [← Nat.modEq_zero_iff_dvd]
        exact ⟨Nat.ModEq.add_left_cancel' x, Nat.ModEq.add_left x⟩
    _ ↔ 2 ^ w ∣ n := by rw [(hcoprime.pow_left w).dvd_mul_right, two_pow_dvd_geom_sum ha]

/-- The remainder by a divisor of the modulus is a generator itself. -/
theorem iterate_mod {d : Nat} (hd : d ∣ m) (n x : Nat) :
    (next a c m)^[n] x % d = (next a c d)^[n] (x % d) := by
  induction n generalizing x with
  | zero => rfl
  | succ n ih =>
    rw [Function.iterate_succ_apply, Function.iterate_succ_apply, ih]
    congr 1
    simp only [next]
    rw [Nat.mod_mod_of_dvd _ hd, Nat.add_mod, Nat.mul_mod, Nat.add_mod (a * (x % d)),
      Nat.mul_mod a (x % d), Nat.mod_mod]

/-- The low `v` bits come back exactly after the multiples of `2 ^ v` steps. -/
theorem low_bits_return_iff (ha : a % 4 = 1) (hc : c % 2 = 1) {v w : Nat} (hvw : v ≤ w)
    (n x : Nat) : (next a c (2 ^ w))^[n] x % 2 ^ v = x % 2 ^ v ↔ 2 ^ v ∣ n := by
  rw [iterate_mod (pow_dvd_pow 2 hvw)]
  exact iterate_eq_self_iff ha hc (Nat.mod_lt x (Nat.two_pow_pos v)) n

end LinearCongruential
