import Mathlib.Data.List.Basic
import Mathlib.Order.Defs.Unbundled

/-!
# A sweep over keys that grow

An iterator over an ordered set of keys moves from a key to the least key above
it. While it is under way keys may be added in front of it and behind it, but
none are removed. A sweep that runs to the end passes every key it found at its
start, and no key twice.
-/

namespace GrowingSweep

variable {κ : Type} (lt : κ → κ → Prop) [DecidableRel lt]

/-- The first key in the order. -/
def least : List κ → Option κ
  | [] => none
  | k :: keys =>
    match least keys with
    | none => some k
    | some m => if lt m k then some m else some k

/-- Where the iterator stands next. -/
def advance (cursor : Option κ) (keys : List κ) : Option κ :=
  match cursor with
  | none => least lt keys
  | some k => least lt (keys.filter fun j => lt k j)

variable {lt}

theorem least_none {keys : List κ} (h : least lt keys = none) : keys = [] := by
  cases keys with
  | nil => rfl
  | cons k keys =>
    simp only [least] at h
    cases hleast : least lt keys with
    | none => simp [hleast] at h
    | some m =>
      simp only [hleast] at h
      split_ifs at h

theorem least_mem {keys : List κ} {m : κ} (h : least lt keys = some m) : m ∈ keys := by
  induction keys generalizing m with
  | nil => cases h
  | cons k keys ih =>
    simp only [least] at h
    cases hleast : least lt keys with
    | none =>
      simp only [hleast] at h
      cases h
      exact List.mem_cons_self
    | some j =>
      simp only [hleast] at h
      split_ifs at h
      · cases h
        exact List.mem_cons_of_mem k (ih hleast)
      · cases h
        exact List.mem_cons_self

/-- The keys passed so far: in order, up to the cursor, and none of `first` left out. -/
structure Swept (lt : κ → κ → Prop) (first passed : List κ) (cursor : κ) : Prop where
  sorted : passed.Pairwise lt
  below : ∀ k ∈ passed, k = cursor ∨ lt k cursor
  covers : ∀ k ∈ first, ¬ lt cursor k → k ∈ passed

/-- At the end nothing that was there at the start has been left out. -/
theorem Swept.finish {first passed keys : List κ} {cursor : κ} (h : Swept lt first passed cursor)
    (grown : ∀ k ∈ first, k ∈ keys)
    (next : GrowingSweep.advance lt (some cursor) keys = none) : ∀ k ∈ first, k ∈ passed := by
  intro k hk
  refine h.covers k hk fun hlt => ?_
  have hmem : k ∈ keys.filter fun j => lt cursor j :=
    List.mem_filter.mpr ⟨grown k hk, by simpa using hlt⟩
  rw [least_none next] at hmem
  cases hmem

variable [IsStrictTotalOrder κ lt]

theorem least_le {keys : List κ} {m k : κ} (h : least lt keys = some m) (hk : k ∈ keys) :
    m = k ∨ lt m k := by
  induction keys generalizing m with
  | nil => cases hk
  | cons j keys ih =>
    simp only [least] at h
    cases hleast : least lt keys with
    | none =>
      simp only [hleast] at h
      cases h
      rw [least_none hleast] at hk
      exact Or.inl (List.mem_singleton.mp hk).symm
    | some n =>
      simp only [hleast] at h
      split_ifs at h with hlt
      · cases h
        rcases List.mem_cons.mp hk with rfl | hmem
        · exact Or.inr hlt
        · exact ih hleast hmem
      · cases h
        rcases List.mem_cons.mp hk with rfl | hmem
        · exact Or.inl rfl
        · -- everything left is at or above `n`, and `n` is at or above `j`
          have hn : j = n ∨ lt j n := by
            rcases trichotomous (r := lt) j n with h' | h' | h'
            · exact Or.inr h'
            · exact Or.inl h'
            · exact absurd h' hlt
          rcases ih hleast hmem with rfl | hnk
          · exact hn
          · rcases hn with rfl | hjn
            · exact Or.inr hnk
            · exact Or.inr (IsTrans.trans _ _ _ hjn hnk)

theorem swept_start {first : List κ} {m : κ} (h : advance lt none first = some m) :
    Swept lt first [m] m where
  sorted := List.pairwise_singleton lt m
  below k hk := Or.inl (List.mem_singleton.mp hk)
  covers k hk hlt := by
    rcases least_le h hk with rfl | hmk
    · exact List.mem_singleton_self m
    · exact absurd hmk hlt

theorem Swept.advance {first passed keys : List κ} {cursor m : κ} (h : Swept lt first passed cursor)
    (grown : ∀ k ∈ first, k ∈ keys)
    (next : GrowingSweep.advance lt (some cursor) keys = some m) :
    Swept lt first (passed ++ [m]) m where
  sorted := by
    have habove : lt cursor m := by simpa using (List.mem_filter.mp (least_mem next)).2
    refine List.pairwise_append.mpr ⟨h.sorted, List.pairwise_singleton lt m, ?_⟩
    intro k hk j hj
    rw [List.mem_singleton.mp hj]
    rcases h.below k hk with rfl | hlt
    · exact habove
    · exact IsTrans.trans _ _ _ hlt habove
  below k hk := by
    have habove : lt cursor m := by simpa using (List.mem_filter.mp (least_mem next)).2
    rcases List.mem_append.mp hk with hold | hnew
    · rcases h.below k hold with rfl | hlt
      · exact Or.inr habove
      · exact Or.inr (IsTrans.trans _ _ _ hlt habove)
    · exact Or.inl (List.mem_singleton.mp hnew)
  covers k hk hlt := by
    by_cases hcursor : lt cursor k
    · have hmem : k ∈ keys.filter fun j => lt cursor j :=
        List.mem_filter.mpr ⟨grown k hk, by simpa using hcursor⟩
      rcases least_le next hmem with rfl | hmk
      · exact List.mem_append_right _ (List.mem_singleton_self m)
      · exact absurd hmk hlt
    · exact List.mem_append_left _ (h.covers k hk hcursor)

end GrowingSweep
