import Sars.Refinement
import Mathlib.Data.List.Nodup

/-!
# What a stream is for

A room has sources and viewers. A request is admitted as a source while the room
has none and as a viewer once it has one; admission and entry are separate acts,
so two sources can be admitted before the first one enters. Every frame of a
source goes to all viewers that are up, and a viewer that comes up, or asks, has
the source that entered last asked for a key frame.
-/

namespace Sars

open EventRuns

inductive Role where
  | source
  | viewer
  deriving DecidableEq

@[ext]
structure Room (Peer : Type) where
  sources : Peer → Bool
  current : Option Peer
  viewers : List Peer
  live : Peer → Bool
  nodup : viewers.Nodup

namespace Room

variable {Peer Frame : Type} [DecidableEq Peer]

inductive Act (Peer Frame : Type) where
  | request (role : Role) (id : Nat)
  | enter (role : Role) (p : Peer)
  | state (p : Peer) (up : Bool)
  | frame (p : Peer) (f : Frame)
  | ask (p : Peer)

inductive Shown (Peer Frame : Type) where
  | admitted (id : Nat)
  | asked (p : Peer)
  | fed (p : Peer) (f : Frame)
  deriving DecidableEq

def empty : Room Peer :=
  { sources := fun _ => false, current := none, viewers := [], live := fun _ => false
    nodup := List.nodup_nil }

def admits (r : Room Peer) : Role → Bool
  | .source => r.current.isNone
  | .viewer => r.current.isSome

def enter (r : Room Peer) (p : Peer) : Role → Room Peer
  | .source => { r with sources := Function.update r.sources p true, current := some p }
  | .viewer =>
    if h : p ∈ r.viewers then r
    else
      { r with
        viewers := r.viewers ++ [p]
        nodup := List.nodup_append.mpr ⟨r.nodup, List.nodup_singleton p, by
          intro a ha b hb hab
          rw [hab, List.mem_singleton.mp hb] at ha
          exact h ha⟩ }

def askFor (r : Room Peer) (p : Peer) : List (Shown Peer Frame) :=
  if p ∈ r.viewers then (r.current.map Shown.asked).toList else []

def step (r : Room Peer) : Act Peer Frame → Room Peer × List (Shown Peer Frame)
  | .request role id => (r, if r.admits role then [.admitted id] else [])
  | .enter role p => (r.enter p role, [])
  | .state p up =>
    ({ r with live := Function.update r.live p up }, if up then r.askFor p else [])
  | .frame p f => (r, if r.sources p then (r.viewers.filter r.live).map fun q => .fed q f else [])
  | .ask p => (r, r.askFor p)

/-! ## Viewers that stay up -/

def fedTo (q : Peer) : Shown Peer Frame → Option Frame
  | .fed p f => if p = q then some f else none
  | _ => none

/-- What the sources of the room broadcast. -/
def broadcast (r : Room Peer) : Act Peer Frame → List Frame
  | .frame p f => if r.sources p then [f] else []
  | _ => []

/-- The acts that may take `q` down. -/
def Act.downs (q : Peer) : Act Peer Frame → Bool
  | .state p up => p = q ∧ up = false
  | _ => false

def Watching (q : Peer) (r : Room Peer) : Prop := q ∈ r.viewers ∧ r.live q = true

theorem askFor_fed (r : Room Peer) (p q : Peer) :
    (r.askFor p : List (Shown Peer Frame)).filterMap (fedTo q) = [] := by
  unfold askFor
  split_ifs
  · cases r.current <;> rfl
  · rfl

theorem watching_step {r : Room Peer} {q : Peer} {a : Act Peer Frame} (h : Watching q r)
    (stays : a.downs q = false) : Watching q (r.step a).1 := by
  obtain ⟨hview, hlive⟩ := h
  cases a with
  | request role id => exact ⟨hview, hlive⟩
  | enter role p =>
    cases role with
    | source => exact ⟨hview, hlive⟩
    | viewer =>
      simp only [step, enter]
      split_ifs with hp
      · exact ⟨hview, hlive⟩
      · exact ⟨List.mem_append_left [p] hview, hlive⟩
  | state p up =>
    refine ⟨hview, ?_⟩
    by_cases hp : q = p
    · subst hp
      simpa [Act.downs, step] using stays
    · simpa only [step, Function.update_of_ne hp] using hlive
  | frame p f => exact ⟨hview, hlive⟩
  | ask p => exact ⟨hview, hlive⟩

/-- A list without repetitions names a member once. -/
theorem fed_once {q : Peer} (f : Frame) {viewers : List Peer} (nodup : viewers.Nodup)
    (mem : q ∈ viewers) :
    (viewers.map fun p => Shown.fed p f).filterMap (fedTo q) = [f] := by
  induction viewers with
  | nil => cases mem
  | cons p viewers ih =>
    obtain ⟨hnew, hrest⟩ := List.nodup_cons.mp nodup
    by_cases hp : p = q
    · subst hp
      have hothers : (viewers.map fun r => Shown.fed r f).filterMap (fedTo p) = [] := by
        refine List.filterMap_eq_nil_iff.mpr fun o ho => ?_
        obtain ⟨r, hr, rfl⟩ := List.mem_map.mp ho
        have hne : r ≠ p := by
          rintro rfl
          exact hnew hr
        exact if_neg hne
      have hself : fedTo p (Shown.fed p f) = some f := if_pos rfl
      rw [List.map_cons, List.filterMap_cons_some hself, hothers]
    · have hmem : q ∈ viewers := (List.mem_cons.mp mem).resolve_left (Ne.symm hp)
      have hother : fedTo q (Shown.fed p f) = none := if_neg hp
      rw [List.map_cons, List.filterMap_cons_none hother]
      exact ih hrest hmem

theorem watching_shown {r : Room Peer} {q : Peer} (a : Act Peer Frame) (h : Watching q r) :
    (r.step a).2.filterMap (fedTo q) = r.broadcast a := by
  cases a with
  | request role id =>
    simp only [step]
    split_ifs <;> rfl
  | enter role p => rfl
  | state p up =>
    simp only [step]
    split_ifs
    · exact askFor_fed r p q
    · rfl
  | frame p f =>
    simp only [step, broadcast]
    split_ifs
    · exact fed_once f (r.nodup.filter _) (List.mem_filter.mpr ⟨h.1, h.2⟩)
    · rfl
  | ask p => exact askFor_fed r p q

/-- While a viewer is up it is fed all that is broadcast. -/
theorem watching_run {r : Room Peer} {q : Peer} {as : List (Act Peer Frame)} (h : Watching q r)
    (stays : ∀ a ∈ as, a.downs q = false) :
    (outputs step r as).filterMap (fedTo q) =
      outputs (fun r a => ((r.step a).1, r.broadcast a)) r as := by
  induction as generalizing r with
  | nil => rfl
  | cons a as ih =>
    obtain ⟨hhead, hrest⟩ := List.forall_mem_cons.mp stays
    rw [outputs_cons, List.filterMap_append, watching_shown a h, ih (watching_step h hhead) hrest]
    rfl

end Room

end Sars
