import Mathlib.Data.List.Induction

/-!
# Runs of a machine that answers events

A machine takes one event at a time and emits observations. The run lemmas here
turn what one step does into what a whole run does: conditional invariants, a
limit on how often something is emitted, what is emitted in all and the removal
of events that change nothing.
-/

namespace EventRuns

variable {σ ε ο : Type} (step : σ → ε → σ × List ο)

def run : σ → List ε → σ × List ο
  | s, [] => (s, [])
  | s, e :: es => ((run (step s e).1 es).1, (step s e).2 ++ (run (step s e).1 es).2)

/-- The state a run ends in. -/
def after (s : σ) (es : List ε) : σ := (run step s es).1

/-- Everything a run emits, in order. -/
def outputs (s : σ) (es : List ε) : List ο := (run step s es).2

/-- Every step of the run is taken in a state where `ok` allows it. -/
def Meets (ok : σ → ε → Prop) : σ → List ε → Prop
  | _, [] => True
  | s, e :: es => ok s e ∧ Meets ok (step s e).1 es

instance decidableMeets (ok : σ → ε → Prop) [∀ s e, Decidable (ok s e)] :
    (s : σ) → (es : List ε) → Decidable (Meets step ok s es)
  | _, [] => isTrue trivial
  | s, e :: es =>
    have := decidableMeets ok (step s e).1 es
    inferInstanceAs (Decidable (ok s e ∧ Meets step ok (step s e).1 es))

variable {step}

@[simp] theorem after_nil (s : σ) : after step s [] = s := rfl

@[simp] theorem after_cons (s : σ) (e : ε) (es : List ε) :
    after step s (e :: es) = after step (step s e).1 es := rfl

@[simp] theorem outputs_nil (s : σ) : outputs step s [] = [] := rfl

@[simp] theorem outputs_cons (s : σ) (e : ε) (es : List ε) :
    outputs step s (e :: es) = (step s e).2 ++ outputs step (step s e).1 es := rfl

theorem after_append (s : σ) (as bs : List ε) :
    after step s (as ++ bs) = after step (after step s as) bs := by
  induction as generalizing s with
  | nil => rfl
  | cons e as ih => exact ih (step s e).1

theorem run_append (s : σ) (as bs : List ε) :
    run step s (as ++ bs) =
      ((run step (after step s as) bs).1,
        outputs step s as ++ outputs step (after step s as) bs) := by
  induction as generalizing s with
  | nil => rfl
  | cons e as ih =>
    simp only [List.cons_append, run, ih, after_cons, outputs_cons, List.append_assoc]

theorem run_eq {s t : σ} {es : List ε} {out : List ο} (h : run step s es = (t, out)) :
    after step s es = t ∧ outputs step s es = out :=
  ⟨congrArg Prod.fst h, congrArg Prod.snd h⟩

theorem run_singleton (s : σ) (e : ε) : run step s [e] = step s e := by
  simp only [run, List.append_nil]

theorem mem_outputs {s : σ} {es : List ε} {o : ο} (h : o ∈ outputs step s es) :
    ∃ as e bs, es = as ++ e :: bs ∧ o ∈ (step (after step s as) e).2 := by
  induction es generalizing s with
  | nil => cases h
  | cons e es ih =>
    rcases List.mem_append.mp h with hhead | htail
    · exact ⟨[], e, es, rfl, hhead⟩
    · obtain ⟨as, e', bs, rfl, ho⟩ := ih htail
      exact ⟨e :: as, e', bs, rfl, ho⟩

theorem meets_append {ok : σ → ε → Prop} {s : σ} {as bs : List ε} :
    Meets step ok s (as ++ bs) ↔ Meets step ok s as ∧ Meets step ok (after step s as) bs := by
  induction as generalizing s with
  | nil => simp [Meets]
  | cons e as ih =>
    constructor
    · rintro ⟨hok, hrest⟩
      obtain ⟨has, hbs⟩ := ih.mp hrest
      exact ⟨⟨hok, has⟩, hbs⟩
    · rintro ⟨⟨hok, has⟩, hbs⟩
      exact ⟨hok, ih.mpr ⟨has, hbs⟩⟩

theorem meets_true (s : σ) (es : List ε) : Meets step (fun _ _ => True) s es := by
  induction es generalizing s with
  | nil => exact trivial
  | cons e es ih => exact ⟨trivial, ih (step s e).1⟩

/-- An invariant kept by the allowed steps holds after every allowed run. -/
theorem invariant_run {ok : σ → ε → Prop} {I : σ → Prop}
    (keep : ∀ s e, I s → ok s e → I (step s e).1) {s : σ} {es : List ε} (start : I s)
    (hm : Meets step ok s es) : I (after step s es) := by
  induction es generalizing s with
  | nil => exact start
  | cons e es ih => exact ih (keep s e start hm.1) hm.2

/-- The unconditional case. -/
theorem invariant_after {I : σ → Prop} (keep : ∀ s e, I s → I (step s e).1) {s : σ}
    (start : I s) (es : List ε) : I (after step s es) :=
  invariant_run (fun s e h _ => keep s e h) start (meets_true s es)

/-- What a step can end but never bring back lasts exactly as long as every step spares it. -/
theorem lasts_iff (lasts : σ → Prop) {ok : σ → ε → Prop} {I : σ → Prop}
    (keep : ∀ s e, I s → I (step s e).1)
    (spared : ∀ s e, I s → lasts s → (lasts (step s e).1 ↔ ok s e))
    (gone : ∀ s e, ¬ lasts s → ¬ lasts (step s e).1) {s : σ} (start : I s) (now : lasts s)
    (es : List ε) : lasts (after step s es) ↔ Meets step ok s es := by
  have never : ∀ (es : List ε) (s : σ), ¬ lasts s → ¬ lasts (after step s es) := by
    intro es
    induction es with
    | nil => exact fun _ h => h
    | cons e es ih => exact fun s h => ih (step s e).1 (gone s e h)
  induction es generalizing s with
  | nil => exact ⟨fun _ => trivial, fun _ => now⟩
  | cons e es ih =>
    by_cases hlasts : lasts (step s e).1
    · have hrest := ih (keep s e start) hlasts
      exact ⟨fun h => ⟨(spared s e start now).mp hlasts, hrest.mp h⟩, fun h => hrest.mpr h.2⟩
    · constructor
      · exact fun h => absurd h (never es _ hlasts)
      · exact fun h => absurd ((spared s e start now).mpr h.1) hlasts

/-- An invariant that may also speak of the events so far. -/
theorem invariant_history {I : List ε → σ → Prop} {s : σ} (start : I [] s)
    (keep : ∀ es e, I es (after step s es) → I (es ++ [e]) (step (after step s es) e).1)
    (es : List ε) : I es (after step s es) := by
  induction es using List.reverseRecOn with
  | nil => exact start
  | append_singleton es e ih =>
    rw [after_append]
    exact keep es e ih

/-- An invariant that may also speak of what has been emitted so far. -/
theorem invariant_outputs {I : List ο → σ → Prop} {s : σ} (start : I [] s)
    (keep : ∀ out s e, I out s → I (out ++ (step s e).2) (step s e).1) (es : List ε) :
    I (outputs step s es) (after step s es) := by
  have hrun : ∀ (es : List ε) (out : List ο) (s : σ), I out s →
      I (out ++ outputs step s es) (after step s es) := by
    intro es
    induction es with
    | nil =>
      intro out s h
      rwa [outputs_nil, List.append_nil]
    | cons e es ih =>
      intro out s h
      have hrest := ih _ _ (keep out s e h)
      rwa [List.append_assoc] at hrest
  exact hrun es [] s start

/-- What the steps are labelled with does not matter to the states. -/
theorem after_labelled {ω : Type} (label : σ → ε → List ω) (s : σ) (es : List ε) :
    after (fun s e => ((step s e).1, label s e)) s es = after step s es := by
  induction es generalizing s with
  | nil => rfl
  | cons e es ih => exact ih (step s e).1

/-- An invariant that may also speak of the labels of the steps so far. -/
theorem invariant_labels {ω : Type} {label : σ → ε → List ω} {I : List ω → σ → Prop} {s : σ}
    (start : I [] s) (keep : ∀ l s e, I l s → I (l ++ label s e) (step s e).1) (es : List ε) :
    I (outputs (fun s e => ((step s e).1, label s e)) s es) (after step s es) := by
  rw [← after_labelled label]
  exact invariant_outputs start keep es

/-- A run emits `p` at most as often as its state has room for it: every step that
emits `p` uses up that much of `room`. -/
theorem emitted_le {ok : σ → ε → Prop} {I : σ → Prop} {p : ο → Bool} {room : σ → Nat}
    (keep : ∀ s e, I s → ok s e → I (step s e).1)
    (spend : ∀ s e, I s → ok s e → (step s e).2.countP p + room (step s e).1 ≤ room s)
    {s : σ} {es : List ε} (start : I s) (hm : Meets step ok s es) :
    (outputs step s es).countP p ≤ room s := by
  induction es generalizing s with
  | nil => simp
  | cons e es ih =>
    have hstep := spend s e start hm.1
    have hrest := ih (keep s e start hm.1) hm.2
    rw [outputs_cons, List.countP_append]
    omega

/-- A part of the state that every step takes from its own outputs is a fold of all that has
been emitted, and each output is related to the fold of those before it. -/
theorem outputs_fold {β : Type} (read : σ → β) (f : β → ο → β) (P : β → ο → Prop) {I : σ → Prop}
    (keep : ∀ s e, I s → I (step s e).1)
    (moves : ∀ s e, I s → read (step s e).1 = (step s e).2.foldl f (read s))
    (emits : ∀ s e, I s → ∀ before o later, (step s e).2 = before ++ o :: later →
      P (before.foldl f (read s)) o) {s : σ} {es : List ε} (start : I s) :
    read (after step s es) = (outputs step s es).foldl f (read s) ∧
      ∀ before o later, outputs step s es = before ++ o :: later →
        P (before.foldl f (read s)) o := by
  induction es generalizing s with
  | nil =>
    refine ⟨rfl, fun before o later h => ?_⟩
    cases before <;> cases h
  | cons e es ih =>
    obtain ⟨hread, hrest⟩ := ih (keep s e start)
    rw [moves s e start] at hread hrest
    rw [outputs_cons, List.foldl_append]
    refine ⟨hread, fun before o later h => ?_⟩
    rcases List.append_eq_append_iff.mp h with ⟨as, hbefore, htail⟩ | ⟨as, hhead, htail⟩
    · rw [hbefore, List.foldl_append]
      exact hrest as o later htail
    · cases as with
      | nil =>
        rw [List.append_nil] at hhead
        rw [← hhead]
        exact hrest [] o later htail.symm
      | cons a as =>
        cases htail
        exact emits s e start before o as hhead

/-! ### Charges -/

variable (step) in
/-- The sum of what the steps of a run are charged. -/
def tally (charge : σ → ε → Int) : σ → List ε → Int
  | _, [] => 0
  | s, e :: es => charge s e + tally charge (step s e).1 es

/-- The tally is zero after every step that is looked at exactly when each of these steps is
charged nothing, provided that the others never are. -/
theorem tally_settled {charge : σ → ε → Int} {seen : σ → ε → Prop}
    (free : ∀ s e, ¬ seen s e → charge s e = 0) {s : σ} {es : List ε} :
    (∀ as e bs, es = as ++ e :: bs → seen (after step s as) e →
      tally step charge s (as ++ [e]) = 0) ↔
      Meets step (fun s e => seen s e → charge s e = 0) s es := by
  induction es generalizing s with
  | nil => simp [Meets]
  | cons e es ih =>
    constructor
    · intro h
      have hhead : seen s e → charge s e = 0 := by
        intro hseen
        have hzero := h [] e es rfl hseen
        simpa [tally] using hzero
      have hfree : charge s e = 0 := (em (seen s e)).elim hhead (free s e)
      refine ⟨hhead, ih.mp fun as e' bs hes hseen => ?_⟩
      have hzero := h (e :: as) e' bs (by rw [hes, List.cons_append]) hseen
      simpa [tally, hfree] using hzero
    · rintro ⟨hhead, hrest⟩ as e' bs hes hseen
      have hfree : charge s e = 0 := (em (seen s e)).elim hhead (free s e)
      cases as with
      | nil =>
        cases hes
        simp [tally, hfree]
      | cons a as =>
        cases hes
        simpa [tally, hfree] using ih.mpr hrest as e' bs rfl hseen

/-- What a run emits is what its steps are expected to emit, each in its place. -/
theorem outputs_filterMap {ω : Type} {f : ο → Option ω} {expected : σ → ε → List ω} {s : σ}
    {es : List ε}
    (emit : ∀ as e bs, es = as ++ e :: bs →
      (step (after step s as) e).2.filterMap f = expected (after step s as) e) :
    (outputs step s es).filterMap f =
      outputs (fun s e => ((step s e).1, expected s e)) s es := by
  induction es generalizing s with
  | nil => rfl
  | cons e es ih =>
    have hhead : (step s e).2.filterMap f = expected s e := emit [] e es rfl
    have htail : ∀ as e' bs, es = as ++ e' :: bs →
        (step (after step (step s e).1 as) e').2.filterMap f =
          expected (after step (step s e).1 as) e' := by
      intro as e' bs hes
      exact emit (e :: as) e' bs (by rw [hes, List.cons_append])
    rw [outputs_cons, List.filterMap_append, hhead, ih htail]
    rfl

/-- Events that change nothing and emit nothing can be left out. -/
theorem run_filter {keep : ε → Bool} {s : σ} {es : List ε}
    (idle : ∀ as e bs, es = as ++ e :: bs → keep e = false →
      step (after step s as) e = (after step s as, [])) :
    run step s (es.filter keep) = run step s es := by
  induction es generalizing s with
  | nil => rfl
  | cons e es ih =>
    have htail : ∀ as e' bs, es = as ++ e' :: bs → keep e' = false →
        step (after step (step s e).1 as) e' = (after step (step s e).1 as, []) := by
      intro as e' bs hes hdrop
      exact idle (e :: as) e' bs (by rw [hes, List.cons_append]) hdrop
    have hrest := ih htail
    cases hkeep : keep e with
    | true =>
      rw [List.filter_cons_of_pos hkeep]
      simp only [run, hrest]
    | false =>
      have hidle : step s e = (s, []) := idle [] e es rfl hkeep
      rw [List.filter_cons_of_neg (by simp [hkeep])]
      rw [hidle] at hrest
      simp only [run, hidle, hrest, List.nil_append]

/-- Two runs on events that no step tells apart end in the same state and show the same. -/
theorem run_related {ω : Type} {view : ο → ω} {R : ε → ε → Prop}
    (alike : ∀ s e e', R e e' →
      (step s e').1 = (step s e).1 ∧ (step s e').2.map view = (step s e).2.map view)
    {s : σ} {es es' : List ε} (related : List.Forall₂ R es es') :
    after step s es' = after step s es ∧
      (outputs step s es').map view = (outputs step s es).map view := by
  induction related generalizing s with
  | nil => exact ⟨rfl, rfl⟩
  | @cons e e' es es' hhead _ ih =>
    obtain ⟨hstate, hout⟩ := alike s e e' hhead
    obtain ⟨hafter, hrest⟩ := ih (s := (step s e).1)
    rw [after_cons, after_cons, outputs_cons, outputs_cons, List.map_append, List.map_append, hout,
      hstate]
    exact ⟨hafter, by rw [hrest]⟩

end EventRuns
