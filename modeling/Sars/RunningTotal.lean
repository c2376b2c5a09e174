import Mathlib.Algebra.BigOperators.Group.List.Basic
import Mathlib.Algebra.Ring.Int.Defs

/-!
# Running totals

A total that starts somewhere and takes one step after another, and the values
it has in front of each step. Steps may go back. A sequence is rising when it
never falls below its start and is highest in front of its last step; then one
comparison bounds all of them, and rising sequences may be chained.
-/

namespace RunningTotal

/-- The total in front of each step. -/
def before : Int → List Int → List Int
  | _, [] => []
  | total, step :: steps => total :: before (total + step) steps

theorem before_append (total : Int) (as bs : List Int) :
    before total (as ++ bs) = before total as ++ before (total + as.sum) bs := by
  induction as generalizing total with
  | nil => simp [before]
  | cons a as ih =>
    simp only [List.cons_append, before, ih, List.sum_cons, Int.add_assoc]

theorem before_last {steps : List Int} (h : steps ≠ []) (total : Int) :
    total + steps.dropLast.sum ∈ before total steps := by
  induction steps generalizing total with
  | nil => exact absurd rfl h
  | cons step steps ih =>
    cases steps with
    | nil => simp [before]
    | cons next steps =>
      have hrec := ih (List.cons_ne_nil next steps) (total + step)
      rw [List.dropLast_cons_of_ne_nil (List.cons_ne_nil next steps), List.sum_cons,
        ← Int.add_assoc]
      exact List.mem_cons_of_mem _ hrec

structure Rising (steps : List Int) : Prop where
  between : ∀ total, ∀ t ∈ before total steps, total ≤ t ∧ t ≤ total + steps.dropLast.sum
  last : 0 ≤ steps.dropLast.sum ∧ steps.dropLast.sum ≤ steps.sum

theorem Rising.nil : Rising [] :=
  { between := fun _ _ h => absurd h List.not_mem_nil, last := by simp }

theorem Rising.single {step : Int} (h : 0 ≤ step) : Rising [step] := by
  constructor
  · intro total t ht
    cases List.mem_singleton.mp ht
    simp
  · simpa using h

/-- One step back is allowed when the steps around it make up for it. -/
theorem Rising.dip {a b c d : Int} (ha : 0 ≤ a) (hab : 0 ≤ a + b) (hbc : 0 ≤ b + c)
    (hc : 0 ≤ c) (hd : 0 ≤ d) : Rising [a, b, c, d] := by
  have hdrop : [a, b, c, d].dropLast.sum = a + (b + c) := by simp
  have hsum : [a, b, c, d].sum = a + (b + (c + d)) := by simp
  constructor
  · intro total t ht
    simp only [before, List.mem_cons, List.not_mem_nil, or_false] at ht
    rw [hdrop]
    omega
  · rw [hdrop, hsum]
    omega

theorem Rising.append {as bs : List Int} (ha : Rising as) (hb : Rising bs) :
    Rising (as ++ bs) := by
  by_cases hempty : bs = []
  · rwa [hempty, List.append_nil]
  have hdrop : (as ++ bs).dropLast.sum = as.sum + bs.dropLast.sum := by
    rw [List.dropLast_append_of_ne_nil hempty, List.sum_append]
  have hfirst := ha.last
  have hsecond := hb.last
  constructor
  · intro total t ht
    rw [hdrop]
    rw [before_append] at ht
    rcases List.mem_append.mp ht with hin | hin
    · have := ha.between total t hin
      omega
    · have := hb.between (total + as.sum) t hin
      omega
  · rw [hdrop, List.sum_append]
    omega

/-- A rising total stays inside its bounds when its last value does. -/
theorem Rising.bounded_iff {steps : List Int} (h : Rising steps) {limit : Int}
    (hlimit : 0 ≤ limit) :
    (∀ t ∈ before 0 steps, 0 ≤ t ∧ t ≤ limit) ↔ steps.dropLast.sum ≤ limit := by
  constructor
  · intro hall
    by_cases hempty : steps = []
    · simpa [hempty] using hlimit
    · have hlast := (hall _ (before_last hempty 0)).2
      omega
  · intro hlast t ht
    have := h.between 0 t ht
    omega

end RunningTotal
