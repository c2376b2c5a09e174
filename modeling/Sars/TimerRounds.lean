import Sars.AddressBindings
import Sars.GrowingSweep
import Mathlib.Data.List.Lex

/-!
# The timer of main

After the two servers have been started `main` goes over the map of peers by
ufrag once a second and calls `OnTimer` for each. The engine may call back from
there and be switched out in a send, so anything else can happen between two
peers, requests that register new ones included. A round reaches every peer that
was registered when it began, each peer at most once, in the order of the map.
-/

namespace Sars

open ByteMemory ObjectHeap GrowingMap EventRuns World GrowingSweep

/-- The process with the iterator of the loop in `main`, which sleeps when there is none. -/
structure Server where
  world : World := World.start
  iter : Option Bytes := none

inductive Turn where
  | main (now : UInt64)
  | other (e : Event)

inductive Effect where
  | onTime (peer : Nat) (now : UInt64)
  | output (o : Output)

def RTCServer.onTimer (srv : RTCServer) (p : Nat) (now : UInt64) : List Effect :=
  if (srv.peers.get p).peerConnection then [.onTime p now] else []

namespace Server

/-- The next iteration of the loop, or its end and the sleep. -/
def stepMain (s : Server) (now : UInt64) : Server × List Effect :=
  match advance (· < ·) s.iter s.world.server.sarsPeersUfragMaps.keys with
  | none => ({ s with iter := none }, [])
  | some ufrag =>
    match s.world.server.sarsPeersUfragMaps.lookup ufrag with
    | none => (s, [])
    | some peer => ({ s with iter := some ufrag }, s.world.server.onTimer peer now)

def step (s : Server) : Turn → Server × List Effect
  | .main now => if s.world.status = .running then s.stepMain now else (s, [])
  | .other e => ({ s with world := (s.world.step e).1 }, (s.world.step e).2.map .output)

/-- The peer registered under this ufrag. -/
def registered (s : Server) (ufrag : Bytes) : Option Nat :=
  s.world.server.sarsPeersUfragMaps.lookup ufrag

end Server

def onTimed : Effect → Option Nat
  | .onTime p _ => some p
  | .output _ => none

/-- One pass of the loop, from the end of a sleep to the beginning of the next. -/
def Round (s : Server) : List Turn → Prop
  | .main now :: rest => s.world.status = .running ∧ s.iter = none ∧
      Meets Server.step (fun s _ => s.iter ≠ none) (s.step (.main now)).1 rest ∧
      (after Server.step s (.main now :: rest)).iter = none
  | _ => False

/-! ## Keys -/

instance : IsStrictTotalOrder Bytes (· < ·) where
  irrefl := List.lt_irrefl
  trans _ _ _ := List.lt_trans
  trichotomous _ _ h h' := List.le_antisymm (List.not_lt.mp h') (List.not_lt.mp h)

theorem mem_keys_iff {m : Map Bytes Nat} {k : Bytes} : k ∈ m.keys ↔ ∃ p, m.lookup k = some p := by
  rw [← AList.mem_keys, ← AList.lookup_isSome, Option.isSome_iff_exists]

namespace Server

variable {s : Server}

/-- Registrations are kept. -/
theorem registered_step (t : Turn) {k : Bytes} {p : Nat} (h : s.registered k = some p) :
    (s.step t).1.registered k = some p := by
  cases t with
  | main now =>
    simp only [step, stepMain]
    split_ifs
    · split
      · exact h
      · split
        · exact h
        · exact h
    · exact h
  | other e => exact (step_move s.world e).extends.2 k p h

theorem registered_after (ts : List Turn) {k : Bytes} {p : Nat} (h : s.registered k = some p) :
    (after step s ts).registered k = some p :=
  invariant_after (I := fun s : Server => s.registered k = some p)
    (fun _ t h => registered_step t h) h ts

theorem addressInv_step (t : Turn) (h : AddressInv s.world.server) :
    AddressInv (s.step t).1.world.server := by
  cases t with
  | main now =>
    simp only [step, stepMain]
    split_ifs
    · split
      · exact h
      · split <;> exact h
    · exact h
  | other e => exact h.move (step_move s.world e)

theorem addressInv_run (ts : List Turn) (h : AddressInv s.world.server) :
    AddressInv (after step s ts).world.server :=
  invariant_after (I := fun s : Server => AddressInv s.world.server)
    (fun _ t h => addressInv_step t h) h ts

theorem mem_keys_registered {k : Bytes} :
    k ∈ s.world.server.sarsPeersUfragMaps.keys ↔ ∃ p, s.registered k = some p :=
  mem_keys_iff

/-- The iteration that reaches a key calls `OnTime` of the peer registered there. -/
theorem stepMain_some {m : Bytes} (inv : AddressInv s.world.server) (now : UInt64)
    (next : advance (· < ·) s.iter s.world.server.sarsPeersUfragMaps.keys = some m) :
    ∃ p, s.registered m = some p ∧
      s.stepMain now = ({ s with iter := some m }, [.onTime p now]) := by
  have hmem : m ∈ s.world.server.sarsPeersUfragMaps.keys := by
    cases hiter : s.iter with
    | none =>
      rw [hiter] at next
      exact least_mem next
    | some c =>
      rw [hiter] at next
      exact (List.mem_filter.mp (least_mem next)).1
  obtain ⟨p, hp⟩ := mem_keys_iff.mp hmem
  obtain ⟨_, hconn, _⟩ := inv.ufrags m p hp
  refine ⟨p, hp, ?_⟩
  simp only [stepMain, next, hp, RTCServer.onTimer, hconn, if_true]

theorem stepMain_none (now : UInt64)
    (next : advance (· < ·) s.iter s.world.server.sarsPeersUfragMaps.keys = none) :
    s.stepMain now = ({ s with iter := none }, []) := by
  simp only [stepMain, next]

/-! ## Rounds -/

/-- The part of a round that is left, after `passed`. -/
structure Rest (s : Server) (first passed later : List Bytes) (ts : List Turn) : Prop where
  timed : (outputs step s ts).filterMap onTimed =
    later.filterMap (after step s ts).registered
  sorted : (passed ++ later).Pairwise (· < ·)
  covers : ∀ k ∈ first, k ∈ passed ++ later
  present : ∀ k ∈ passed ++ later, ∃ p, (after step s ts).registered k = some p

theorem rest_of_round {first : List Bytes} (ts : List Turn) {passed : List Bytes} {cursor : Bytes}
    (inv : AddressInv s.world.server) (under : s.iter = some cursor)
    (swept : Swept (· < ·) first passed cursor)
    (start : ∀ k ∈ first, ∃ p, s.registered k = some p)
    (present : ∀ k ∈ passed, ∃ p, s.registered k = some p)
    (awake : Meets step (fun s _ => s.iter ≠ none) s ts)
    (ends : (after step s ts).iter = none) : ∃ later, Rest s first passed later ts := by
  induction ts generalizing s passed cursor with
  | nil =>
    rw [after_nil, under] at ends
    cases ends
  | cons t ts ih =>
    have inv' := addressInv_step t inv
    have start' : ∀ k ∈ first, ∃ p, (s.step t).1.registered k = some p := by
      intro k hk
      obtain ⟨p, hp⟩ := start k hk
      exact ⟨p, registered_step t hp⟩
    have present' : ∀ k ∈ passed, ∃ p, (s.step t).1.registered k = some p := by
      intro k hk
      obtain ⟨p, hp⟩ := present k hk
      exact ⟨p, registered_step t hp⟩
    -- a turn that calls no timer and leaves the iterator
    have unmoved : (s.step t).1.iter = some cursor → (s.step t).2.filterMap onTimed = [] →
        ∃ later, Rest s first passed later (t :: ts) := by
      intro hiter hout
      obtain ⟨later, hrest⟩ := ih inv' hiter swept start' present' awake.2 ends
      refine ⟨later, ⟨?_, hrest.sorted, hrest.covers, hrest.present⟩⟩
      rw [outputs_cons, List.filterMap_append, hout]
      exact hrest.timed
    cases t with
    | other e =>
      refine unmoved under ?_
      simp only [step, List.filterMap_map]
      exact List.filterMap_eq_nil_iff.mpr fun _ _ => rfl
    | main now =>
      by_cases running : s.world.status = .running
      · have hstep : s.step (.main now) = s.stepMain now := if_pos running
        have grown : ∀ k ∈ first, k ∈ s.world.server.sarsPeersUfragMaps.keys :=
          fun k hk => mem_keys_registered.mpr (start k hk)
        cases next : advance (· < ·) s.iter s.world.server.sarsPeersUfragMaps.keys with
        | none =>
          rw [stepMain_none now next] at hstep
          cases ts with
          | nil =>
            refine ⟨[], ⟨?_, ?_, ?_, ?_⟩⟩
            · rw [outputs_cons, hstep]
              rfl
            · rw [List.append_nil]
              exact swept.sorted
            · rw [List.append_nil]
              rw [under] at next
              exact swept.finish grown next
            · rw [List.append_nil]
              exact present'
          | cons t' ts' =>
            have hawake := awake.2
            rw [hstep] at hawake
            exact absurd rfl hawake.1
        | some m =>
          obtain ⟨p, hp, hmain⟩ := stepMain_some inv now next
          rw [hmain] at hstep
          rw [under] at next
          rw [hstep] at inv' start' present'
          have hawake := awake.2
          rw [hstep] at hawake
          rw [after_cons, hstep] at ends
          obtain ⟨later, hrest⟩ := ih inv' rfl (swept.advance grown next) start'
            (by
              intro k hk
              rcases List.mem_append.mp hk with hold | hnew
              · exact present' k hold
              · exact ⟨p, by rw [List.mem_singleton.mp hnew]; exact hp⟩) hawake ends
          refine ⟨m :: later, ⟨?_, ?_, ?_, ?_⟩⟩
          · have hfinal := registered_after ts (s := { s with iter := some m }) hp
            rw [outputs_cons, after_cons, hstep, List.filterMap_append, hrest.timed,
              List.filterMap_cons_some hfinal]
            rfl
          · simpa using hrest.sorted
          · simpa using hrest.covers
          · rw [after_cons, hstep]
            simpa using hrest.present
      · have hstep : s.step (.main now) = (s, []) := if_neg running
        exact unmoved (by rw [hstep]; exact under) (by rw [hstep]; rfl)

theorem rest_of_whole {round : List Turn} (inv : AddressInv s.world.server)
    (complete : Round s round) :
    ∃ keys, Rest s s.world.server.sarsPeersUfragMaps.keys [] keys round := by
  match round, complete with
  | .main now :: rest, ⟨running, asleep, awake, ends⟩ =>
    have hstep : s.step (.main now) = s.stepMain now := if_pos running
    cases next : advance (· < ·) s.iter s.world.server.sarsPeersUfragMaps.keys with
    | none =>
      rw [stepMain_none now next] at hstep
      cases rest with
      | nil =>
        rw [asleep] at next
        have hempty : s.world.server.sarsPeersUfragMaps.keys = [] := least_none next
        refine ⟨[], ⟨?_, .nil, ?_, fun k hk => nomatch hk⟩⟩
        · rw [outputs_cons, hstep]
          rfl
        · rw [hempty]
          exact fun k hk => nomatch hk
      | cons t ts =>
        rw [hstep] at awake
        exact absurd rfl awake.1
    | some m =>
      obtain ⟨p, hp, hmain⟩ := stepMain_some inv now next
      rw [hmain] at hstep
      rw [asleep] at next
      rw [hstep] at awake
      rw [after_cons, hstep] at ends
      have inv' : AddressInv ({ s with iter := some m } : Server).world.server := inv
      have swept := swept_start next
      obtain ⟨later, hrest⟩ := rest_of_round rest inv' rfl swept
        (fun k hk => mem_keys_registered.mp hk)
        (fun k hk => ⟨p, by rw [List.mem_singleton.mp hk]; exact hp⟩) awake ends
      refine ⟨m :: later, ⟨?_, hrest.sorted, hrest.covers, ?_⟩⟩
      · have hfinal := registered_after rest (s := { s with iter := some m }) hp
        rw [outputs_cons, after_cons, hstep, List.filterMap_append, hrest.timed,
          List.filterMap_cons_some hfinal]
        rfl
      · rw [after_cons, hstep]
        exact hrest.present

end Server

/-- A round calls the timer of every peer that was registered when it began, of no peer
twice and of registered peers only, in the order of their ufrags. -/
theorem timer_round (ts round : List Turn)
    (complete : Round (after Server.step {} ts) round) :
    (∀ u p, (after Server.step {} ts).registered u = some p →
      p ∈ (outputs Server.step (after Server.step {} ts) round).filterMap onTimed) ∧
    ((outputs Server.step (after Server.step {} ts) round).filterMap onTimed).Nodup ∧
    (∀ p ∈ (outputs Server.step (after Server.step {} ts) round).filterMap onTimed,
      ∃ u, (after Server.step {} (ts ++ round)).registered u = some p) ∧
    (((outputs Server.step (after Server.step {} ts) round).filterMap onTimed).map fun p =>
      ((after Server.step {} (ts ++ round)).world.server.peers.get p).ufrag).Pairwise (· < ·) := by
  have inv := Server.addressInv_run ts (s := {}) addressInv_start
  have inv' := Server.addressInv_run round inv
  rw [after_append]
  obtain ⟨keys, hrest⟩ := Server.rest_of_whole inv complete
  generalize after Server.step {} ts = s at *
  generalize hfinal : after Server.step s round = final at *
  have htimed := hrest.timed
  rw [hfinal] at htimed
  have hpresent : ∀ k ∈ keys, ∃ p, final.registered k = some p := by
    rw [← hfinal]
    exact hrest.present
  -- a registered peer has its key as ufrag
  have hufrags : ((keys.filterMap final.registered).map fun p =>
      (final.world.server.peers.get p).ufrag) = keys := by
    rw [List.map_filterMap]
    refine (List.filterMap_congr fun k hk => ?_).trans List.filterMap_some
    obtain ⟨p, hp⟩ := hpresent k hk
    rw [hp, Option.map_some, (inv'.ufrags k p hp).2.2.2]
  have hsorted : keys.Pairwise (· < ·) := hrest.sorted
  rw [htimed]
  refine ⟨?_, ?_, ?_, ?_⟩
  · intro u p hu
    have hmem := hrest.covers u (Server.mem_keys_registered.mpr ⟨p, hu⟩)
    have hlater := Server.registered_after round hu
    rw [hfinal] at hlater
    exact List.mem_filterMap.mpr ⟨u, hmem, hlater⟩
  · refine List.Nodup.of_map (fun p => (final.world.server.peers.get p).ufrag) ?_
    rw [hufrags]
    refine hsorted.imp ?_
    rintro k j hlt rfl
    exact List.lt_irrefl k hlt
  · intro p hp
    obtain ⟨k, _, hk⟩ := List.mem_filterMap.mp hp
    exact ⟨k, hk⟩
  · rw [hufrags]
    exact hsorted

/-- Two peers are registered, and a third one is made while the loop stands at the first. -/
def busyRound : List Turn :=
  .main 1000 :: ((served 2 .publish [0x2F, 0x75] [0x62]).map .other ++
    [.main 1001, .main 1002, .main 1003])

theorem timer_round_busy :
    ((outputs Server.step (after Server.step {} (twoPublishers.map .other)) busyRound).filterMap
      onTimed).Nodup ∧
      (outputs Server.step (after Server.step {} (twoPublishers.map .other)) busyRound).filterMap
        onTimed = [0, 2, 1] := by
  refine ⟨(timer_round (twoPublishers.map .other) busyRound ?_).2.1, by decide +kernel⟩
  exact ⟨by decide +kernel, by decide +kernel, by decide +kernel, by decide +kernel⟩

end Sars
