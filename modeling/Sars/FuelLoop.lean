import Mathlib.Logic.Function.Iterate

/-!
# Loops on fuel

A loop that may run for ever is a function of its fuel, with one result that
says the fuel ran out. From an invariant that lets every state advance it never
gives another result, and what a state advances to decides whether it ends.
-/

namespace FuelLoop

variable {σ ρ : Type} (E : Nat → σ → ρ)

/-- One unit of fuel takes `s` to `t`. -/
def Advances (s t : σ) : Prop := ∀ fuel, E (fuel + 1) s = E fuel t

/-- Enough fuel gives a result. -/
def Ends (pending : ρ) (s : σ) : Prop := ∃ fuel, E fuel s ≠ pending

variable {E}

theorem Advances.ends {pending : ρ} {s t : σ} (h : Advances E s t) (ht : Ends E pending t) :
    Ends E pending s := by
  obtain ⟨fuel, hfuel⟩ := ht
  exact ⟨fuel + 1, by rwa [h fuel]⟩

/-- A loop that can always advance never ends. -/
theorem not_ends_of_progress {pending : ρ} {I : σ → Prop} (zero : ∀ s, I s → E 0 s = pending)
    (progress : ∀ s, I s → ∃ t, Advances E s t ∧ I t) {s : σ} (hs : I s) :
    ¬ Ends E pending s := by
  rintro ⟨fuel, hfuel⟩
  induction fuel generalizing s with
  | zero => exact hfuel (zero s hs)
  | succ fuel ih =>
    obtain ⟨t, hadvance, ht⟩ := progress s hs
    rw [hadvance fuel] at hfuel
    exact ih ht hfuel

end FuelLoop
