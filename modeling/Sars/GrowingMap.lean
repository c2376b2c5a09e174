import Mathlib.Data.List.AList

/-!
# Maps that only grow

`emplace` inserts a key that is absent and leaves a present one alone, so a map
used only through `find` and `emplace` never changes or loses an entry.
-/

namespace GrowingMap

variable {κ α : Type} [DecidableEq κ]

abbrev Map (κ α : Type) := AList (fun _ : κ => α)

/-- Insert unless the key is there. -/
def emplace (m : Map κ α) (k : κ) (v : α) : Map κ α :=
  match m.lookup k with
  | some _ => m
  | none => m.insert k v

/-- Every entry of `m` is an entry of `m'`. -/
def Extends (m m' : Map κ α) : Prop := ∀ k v, m.lookup k = some v → m'.lookup k = some v

theorem Extends.refl (m : Map κ α) : Extends m m := fun _ _ h => h

theorem Extends.trans {m m' m'' : Map κ α} (h : Extends m m') (h' : Extends m' m'') :
    Extends m m'' :=
  fun k v hk => h' k v (h k v hk)

theorem lookup_emplace_self (m : Map κ α) (k : κ) (v : α) :
    (emplace m k v).lookup k = some ((m.lookup k).getD v) := by
  simp only [emplace]
  cases h : m.lookup k with
  | some w => simp [h]
  | none => simp

theorem lookup_emplace_ne {m : Map κ α} {k k' : κ} (v : α) (h : k' ≠ k) :
    (emplace m k v).lookup k' = m.lookup k' := by
  simp only [emplace]
  cases m.lookup k with
  | some w => rfl
  | none => simp [AList.lookup_insert_ne h]

theorem emplace_extends (m : Map κ α) (k : κ) (v : α) : Extends m (emplace m k v) := by
  intro k' w hk
  by_cases h : k' = k
  · subst h
    rw [lookup_emplace_self, hk]
    rfl
  · rw [lookup_emplace_ne v h, hk]

/-- A map entered in another order finds the same. -/
theorem lookup_emplace_comm {k k' : κ} (h : k ≠ k') (m : Map κ α) (v v' : α) (t : κ) :
    (emplace (emplace m k v) k' v').lookup t = (emplace (emplace m k' v') k v).lookup t := by
  by_cases ht : t = k
  · subst ht
    rw [lookup_emplace_ne v' h, lookup_emplace_self, lookup_emplace_self, lookup_emplace_ne v' h]
  · by_cases ht' : t = k'
    · subst ht'
      rw [lookup_emplace_self, lookup_emplace_ne v ht, lookup_emplace_ne v ht, lookup_emplace_self]
    · rw [lookup_emplace_ne v' ht', lookup_emplace_ne v ht, lookup_emplace_ne v ht,
        lookup_emplace_ne v' ht']

/-- Maps that find the same still do after the same entry. -/
theorem lookup_emplace_congr {m m' : Map κ α} (same : ∀ t, m'.lookup t = m.lookup t) (k : κ) (v : α)
    (t : κ) : (emplace m' k v).lookup t = (emplace m k v).lookup t := by
  by_cases ht : t = k
  · subst ht
    rw [lookup_emplace_self, lookup_emplace_self, same]
  · rw [lookup_emplace_ne v ht, lookup_emplace_ne v ht, same]

/-- An entry of the new map is an old one or the new one. -/
theorem lookup_emplace {m : Map κ α} {k k' : κ} {v w : α}
    (h : (emplace m k v).lookup k' = some w) :
    m.lookup k' = some w ∨ (m.lookup k = none ∧ k' = k ∧ w = v) := by
  by_cases hk : k' = k
  · subst hk
    rw [lookup_emplace_self] at h
    cases hm : m.lookup k' with
    | some u =>
      rw [hm] at h
      exact Or.inl h
    | none =>
      rw [hm] at h
      exact Or.inr ⟨rfl, rfl, (Option.some.inj h).symm⟩
  · rw [lookup_emplace_ne v hk] at h
    exact Or.inl h

theorem emplace_present {m : Map κ α} {k : κ} {w : α} (v : α) (h : m.lookup k = some w) :
    emplace m k v = m := by
  simp [emplace, h]

/-! ### Entries one after the other -/

def enter (m : Map κ α) (entries : List (κ × α)) : Map κ α :=
  entries.foldl (fun m e => emplace m e.1 e.2) m

theorem enter_append (m : Map κ α) (as bs : List (κ × α)) :
    enter m (as ++ bs) = enter (enter m as) bs :=
  List.foldl_append

/-- What was there stays, and of the entries with a new key the first one counts. -/
theorem lookup_enter (m : Map κ α) (entries : List (κ × α)) (k : κ) :
    (enter m entries).lookup k =
      (m.lookup k).or ((entries.find? fun e => e.1 = k).map Prod.snd) := by
  induction entries generalizing m with
  | nil => simp [enter]
  | cons e entries ih =>
    have hstep : enter m (e :: entries) = enter (emplace m e.1 e.2) entries := rfl
    rw [hstep, ih]
    by_cases hk : e.1 = k
    · subst hk
      rw [lookup_emplace_self, List.find?_cons_of_pos (by simp)]
      cases m.lookup e.1 <;> rfl
    · rw [lookup_emplace_ne e.2 (Ne.symm hk), List.find?_cons_of_neg (by simpa using hk)]

end GrowingMap
