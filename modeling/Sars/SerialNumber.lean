import Mathlib.Order.Lattice

/-!
# Numbers that wrap

Counters are kept by their value modulo an even number. One value is newer than
another when it is less than half the range ahead of it; exactly half the range
apart, the larger value is the newer one, so that of two different values one is
always newer. This is no order. It agrees with the counters as long as they stay
within half the range of the newest one, over any number of wraps.
-/

namespace SerialNumber

variable {half : Nat}

/-- How far `a` is ahead of `b`. -/
def ahead (half a b : Nat) : Nat := if b ≤ a then a - b else a + 2 * half - b

def Newer (half a b : Nat) : Prop :=
  (ahead half a b = half ∧ b < a) ∨ (0 < ahead half a b ∧ ahead half a b < half)

instance (half a b : Nat) : Decidable (Newer half a b) :=
  inferInstanceAs (Decidable ((_ ∧ _) ∨ (_ ∧ _)))

def latest (half a b : Nat) : Nat := if Newer half a b then a else b

theorem not_newer_self (half a : Nat) : ¬ Newer half a a := by
  simp [Newer, ahead]

/-- Of two different values, one is newer and the other is not. -/
theorem newer_iff_not {a b : Nat} (ha : a < 2 * half) (hb : b < 2 * half) (hne : a ≠ b) :
    Newer half a b ↔ ¬ Newer half b a := by
  simp only [Newer, ahead]
  split_ifs <;> omega

theorem latest_comm {a b : Nat} (ha : a < 2 * half) (hb : b < 2 * half) :
    latest half a b = latest half b a := by
  by_cases hne : a = b
  · rw [hne]
  · have hiff := newer_iff_not ha hb hne
    by_cases hnewer : Newer half a b
    · rw [latest, latest, if_pos hnewer, if_neg (hiff.mp hnewer)]
    · rw [latest, latest, if_neg hnewer, if_pos (by_contra fun h => hnewer (hiff.mpr h))]

/-! ## Counters -/

theorem wrap_add {m d : Nat} (n : Nat) (hd : d < m) :
    (n + d) % m = if n % m + d < m then n % m + d else n % m + d - m := by
  have hn : n % m < m := Nat.mod_lt n (by omega)
  rw [Nat.add_mod, Nat.mod_eq_of_lt hd]
  split_ifs with hsum
  · exact Nat.mod_eq_of_lt hsum
  · rw [Nat.mod_eq_sub_mod (by omega), Nat.mod_eq_of_lt (by omega)]

/-- Counters less than half the range apart are compared right. -/
theorem newer_wrap {n d : Nat} (pos : 0 < d) (near : d < half) :
    Newer half ((n + d) % (2 * half)) (n % (2 * half)) := by
  have hn : n % (2 * half) < 2 * half := Nat.mod_lt n (by omega)
  rw [wrap_add n (show d < 2 * half by omega)]
  simp only [Newer, ahead]
  split_ifs <;> omega

theorem latest_wrap {s t : Nat} (hs : s < t + half) (ht : t < s + half) :
    latest half (s % (2 * half)) (t % (2 * half)) = max s t % (2 * half) := by
  have hsmod : s % (2 * half) < 2 * half := Nat.mod_lt s (by omega)
  have htmod : t % (2 * half) < 2 * half := Nat.mod_lt t (by omega)
  rcases Nat.lt_trichotomy s t with hlt | heq | hgt
  · obtain ⟨d, rfl⟩ := Nat.exists_eq_add_of_le (Nat.le_of_lt hlt)
    have hnewer := newer_wrap (n := s) (show 0 < d by omega) (show d < half by omega)
    rw [latest_comm hsmod htmod, latest, if_pos hnewer, max_eq_right (Nat.le_of_lt hlt)]
  · rw [heq, latest, if_neg (not_newer_self half _), max_self]
  · obtain ⟨d, rfl⟩ := Nat.exists_eq_add_of_le (Nat.le_of_lt hgt)
    have hnewer := newer_wrap (n := t) (show 0 < d by omega) (show d < half by omega)
    rw [latest, if_pos hnewer, max_eq_left (Nat.le_of_lt hgt)]

/-- Each counter is less than half the range away from the newest one before it. -/
def Near (half : Nat) : Nat → List Nat → Prop
  | _, [] => True
  | newest, t :: ts => newest < t + half ∧ t < newest + half ∧ Near half (max newest t) ts

/-- The latest value is the value of the newest counter, however often the counters wrap. -/
theorem latest_foldl {newest : Nat} {ts : List Nat} (near : Near half newest ts) :
    (ts.map (· % (2 * half))).foldl (latest half) (newest % (2 * half)) =
      ts.foldl max newest % (2 * half) := by
  induction ts generalizing newest with
  | nil => rfl
  | cons t ts ih =>
    obtain ⟨hback, hahead, hrest⟩ := near
    rw [List.map_cons, List.foldl_cons, List.foldl_cons, latest_wrap hback hahead]
    exact ih hrest

/-- Counters of one window of half the range are near each other in any order. -/
theorem near_window (base : Nat) {newest : Nat} {ts : List Nat} (low : base ≤ newest)
    (high : newest < base + half) (window : ∀ t ∈ ts, base ≤ t ∧ t < base + half) :
    Near half newest ts := by
  induction ts generalizing newest with
  | nil => exact trivial
  | cons t ts ih =>
    obtain ⟨htlow, hthigh⟩ := window t List.mem_cons_self
    refine ⟨by omega, by omega, ih ?_ ?_ fun u hu => window u (List.mem_cons_of_mem t hu)⟩
    · exact Nat.le_trans low (Nat.le_max_left newest t)
    · exact max_lt high hthigh

end SerialNumber
