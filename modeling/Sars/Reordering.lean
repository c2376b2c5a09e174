import Sars.EventRuns
import Mathlib.Logic.Relation

/-!
# Runs that differ in the order of independent events

Two neighbouring events that are independent in the state they meet may be
swapped, again and again. Where swapping them leads to states that later steps
cannot tell apart and leaves the observations of each key in their order, so
does any reordering made of such swaps.
-/

namespace EventRuns

variable {σ ε ο κ : Type} (step : σ → ε → σ × List ο)

/-- The second list of events comes from the first by swaps of independent neighbours. -/
inductive Reordered (indep : σ → ε → ε → Prop) (s : σ) : List ε → List ε → Prop where
  | refl (es : List ε) : Reordered indep s es es
  | swap (as : List ε) {a b : ε} (bs : List ε) (independent : indep (after step s as) a b) :
      Reordered indep s (as ++ a :: b :: bs) (as ++ b :: a :: bs)
  | trans {es fs gs : List ε} (first : Reordered indep s es fs)
      (second : Reordered indep s fs gs) : Reordered indep s es gs

variable [DecidableEq κ] (key : ο → κ)

/-- The observations of one key, in order. -/
def ofKey (k : κ) (out : List ο) : List ο := out.filter fun o => key o = k

/-- States that no later step tells apart, and events that commute up to them. -/
structure Commuting (indep : σ → ε → ε → Prop) where
  same : σ → σ → Prop
  refl : ∀ s, same s s
  trans : ∀ s t u, same s t → same t u → same s u
  congr : ∀ s t e, same s t → same (step s e).1 (step t e).1 ∧ (step s e).2 = (step t e).2
  swap : ∀ s a b, indep s a b → same (after step s [a, b]) (after step s [b, a]) ∧
    ∀ k, ofKey key k (outputs step s [a, b]) = ofKey key k (outputs step s [b, a])

variable {step key} {indep : σ → ε → ε → Prop}

theorem ofKey_append (k : κ) (out out' : List ο) :
    ofKey key k (out ++ out') = ofKey key k out ++ ofKey key k out' :=
  List.filter_append out out'

/-- Observations with no key in common may change places. -/
theorem ofKey_swap {out out' : List ο} (apart : ∀ o ∈ out, ∀ o' ∈ out', key o ≠ key o') (k : κ) :
    ofKey key k (out ++ out') = ofKey key k (out' ++ out) := by
  have hempty : ∀ l : List ο, (∀ o ∈ l, key o ≠ k) → ofKey key k l = [] := by
    intro l hl
    exact List.filter_eq_nil_iff.mpr fun o ho => by simpa using hl o ho
  rw [ofKey_append, ofKey_append]
  by_cases hk : ∃ o ∈ out, key o = k
  · obtain ⟨o, ho, rfl⟩ := hk
    rw [hempty out' fun o' ho' => (apart o ho o' ho').symm, List.append_nil, List.nil_append]
  · rw [hempty out fun o ho heq => hk ⟨o, ho, heq⟩, List.append_nil, List.nil_append]

theorem outputs_append (s : σ) (as bs : List ε) :
    outputs step s (as ++ bs) = outputs step s as ++ outputs step (after step s as) bs :=
  (run_eq (run_append s as bs)).2

namespace Commuting

variable (C : Commuting step key indep)

/-- States that cannot be told apart stay so and emit the same. -/
theorem congr_run {s t : σ} (h : C.same s t) (es : List ε) :
    C.same (after step s es) (after step t es) ∧ outputs step s es = outputs step t es := by
  induction es generalizing s t with
  | nil => exact ⟨h, rfl⟩
  | cons e es ih =>
    obtain ⟨hnext, hout⟩ := C.congr s t e h
    obtain ⟨hlast, hrest⟩ := ih hnext
    rw [outputs_cons, outputs_cons, hout, hrest]
    exact ⟨hlast, rfl⟩

/-- A reordering is not noticed, neither by later steps nor key by key. -/
theorem reordered {s : σ} {es fs : List ε} (h : Reordered step indep s es fs) :
    C.same (after step s es) (after step s fs) ∧
      ∀ k, ofKey key k (outputs step s es) = ofKey key k (outputs step s fs) := by
  induction h with
  | refl es => exact ⟨C.refl _, fun _ => rfl⟩
  | @swap as a b bs independent =>
    obtain ⟨hsame, hout⟩ := C.swap _ a b independent
    obtain ⟨hlast, hrest⟩ := C.congr_run hsame bs
    have hcut : ∀ x y : ε, as ++ x :: y :: bs = as ++ ([x, y] ++ bs) := fun _ _ => rfl
    rw [hcut, hcut, after_append, after_append, after_append, after_append]
    refine ⟨hlast, fun k => ?_⟩
    rw [outputs_append, outputs_append, outputs_append, outputs_append, hrest]
    simp only [ofKey_append, hout k]
  | trans _ _ ihfirst ihsecond =>
    obtain ⟨hstate, hout⟩ := ihfirst
    obtain ⟨hstate', hout'⟩ := ihsecond
    exact ⟨C.trans _ _ _ hstate hstate', fun k => (hout k).trans (hout' k)⟩

end Commuting

end EventRuns
