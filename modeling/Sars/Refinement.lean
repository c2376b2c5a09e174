import Sars.EventRuns
import Mathlib.Data.List.Basic

/-!
# Refinement of machines that answer events

A machine refines another one when each of its steps is a run of the other, with
states, events and observations read through three maps. What the other machine
shows is then what the first one shows, over any run. The second part takes one
machine for each key: what one of them does depends on its own events only.
-/

namespace EventRuns

variable {σ ε ο τ α ω : Type} {step : σ → ε → σ × List ο} {astep : τ → α → τ × List ω}

/-! ### One machine seen as another -/

/-- An observation is read in the state that the step leaves behind. -/
structure Refinement (step : σ → ε → σ × List ο) (astep : τ → α → τ × List ω) where
  Inv : σ → Prop
  abs : σ → τ
  act : σ → ε → List α
  obs : σ → ο → Option ω
  keep : ∀ s e, Inv s → Inv (step s e).1
  matched : ∀ s e, Inv s → run astep (abs s) (act s e) =
    (abs (step s e).1, (step s e).2.filterMap (obs (step s e).1))

namespace Refinement

variable (R : Refinement step astep)

/-- What a run means to the second machine. -/
def acts (s : σ) (es : List ε) : List α :=
  outputs (fun s e => ((step s e).1, R.act s e)) s es

theorem mem_acts {s : σ} {es : List ε} {a : α} (h : a ∈ R.acts s es) :
    ∃ t, ∃ e ∈ es, a ∈ R.act t e := by
  obtain ⟨as, e, bs, rfl, ha⟩ := mem_outputs h
  exact ⟨_, e, List.mem_append_right as List.mem_cons_self, ha⟩

def seen (s : σ) (es : List ε) : List ω :=
  outputs (fun s e => ((step s e).1, (step s e).2.filterMap (R.obs (step s e).1))) s es

theorem run_acts {s : σ} (h : R.Inv s) (es : List ε) :
    run astep (R.abs s) (R.acts s es) = (R.abs (after step s es), R.seen s es) := by
  induction es generalizing s with
  | nil => rfl
  | cons e es ih =>
    obtain ⟨hstate, hout⟩ := run_eq (R.matched s e h)
    have hrest := ih (R.keep s e h)
    have hacts : R.acts s (e :: es) = R.act s e ++ R.acts (step s e).1 es := rfl
    rw [hacts, run_append, hstate, hout, hrest]
    obtain ⟨_, hseen⟩ := run_eq hrest
    rw [hseen]
    rfl

/-- Observations that later steps do not change can be read at the end of the run. -/
theorem seen_at_end {s : σ} (h : R.Inv s)
    (emitted : ∀ s e, R.Inv s → ∀ o ∈ (step s e).2, ∀ es,
      R.obs (after step (step s e).1 es) o = R.obs (step s e).1 o) (es : List ε) :
    R.seen s es = (outputs step s es).filterMap (R.obs (after step s es)) := by
  induction es generalizing s with
  | nil => rfl
  | cons e es ih =>
    have hhead : (step s e).2.filterMap (R.obs (step s e).1) =
        (step s e).2.filterMap (R.obs (after step s (e :: es))) :=
      List.filterMap_congr fun o ho => (emitted s e h o ho es).symm
    have hseen : R.seen s (e :: es) =
        (step s e).2.filterMap (R.obs (step s e).1) ++ R.seen (step s e).1 es := rfl
    rw [hseen, hhead, ih (R.keep s e h), outputs_cons, List.filterMap_append]
    rfl

end Refinement

/-- A machine that follows another one event by event and emits the same. -/
theorem run_lockstep {astep : τ → α → τ × List ο} {abs : σ → τ} {act : ε → α}
    (matched : ∀ s e, astep (abs s) (act e) = (abs (step s e).1, (step s e).2)) (s : σ)
    (es : List ε) :
    run astep (abs s) (es.map act) = (abs (after step s es), outputs step s es) := by
  induction es generalizing s with
  | nil => rfl
  | cons e es ih => simp only [List.map_cons, run, matched, ih, after_cons, outputs_cons]

/-! ### A machine for each key -/

variable {κ : Type} [DecidableEq κ]

def family (astep : τ → α → τ × List ω) (f : κ → τ) (a : κ × α) : (κ → τ) × List (κ × ω) :=
  (Function.update f a.1 (astep (f a.1) a.2).1, (astep (f a.1) a.2).2.map fun o => (a.1, o))

/-- What carries the key `k`. -/
def only {β : Type} (k : κ) (b : κ × β) : Option β := if b.1 = k then some b.2 else none

theorem filterMap_only_map {β : Type} (k j : κ) (bs : List β) :
    (bs.map fun b => (j, b)).filterMap (only k) = if j = k then bs else [] := by
  rw [List.filterMap_map]
  by_cases h : j = k
  · rw [if_pos h]
    exact (List.filterMap_congr fun _ _ => if_pos h).trans List.filterMap_some
  · rw [if_neg h]
    exact List.filterMap_eq_nil_iff.mpr fun _ _ => if_neg h

variable (astep) in
/-- Each machine of a family runs on its own. -/
theorem family_only (k : κ) (f : κ → τ) (as : List (κ × α)) :
    after (family astep) f as k = after astep (f k) (as.filterMap (only k)) ∧
      (outputs (family astep) f as).filterMap (only k) =
        outputs astep (f k) (as.filterMap (only k)) := by
  induction as generalizing f with
  | nil => exact ⟨rfl, rfl⟩
  | cons a as ih =>
    obtain ⟨hstate, hout⟩ := ih (family astep f a).1
    rw [after_cons, outputs_cons, List.filterMap_append, hstate, hout]
    simp only [family, filterMap_only_map]
    by_cases hk : a.1 = k
    · have hmine : only k a = some a.2 := if_pos hk
      rw [List.filterMap_cons_some hmine, if_pos hk, ← hk, Function.update_self]
      exact ⟨rfl, rfl⟩
    · have hother : only k a = none := if_neg hk
      rw [List.filterMap_cons_none hother, if_neg hk, Function.update_of_ne (Ne.symm hk)]
      exact ⟨rfl, rfl⟩

end EventRuns
