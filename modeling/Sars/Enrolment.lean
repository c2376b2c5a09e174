import Sars.FanOut

/-!
# Peers and the sessions they were made for

Every peer was made for one session, and its stream is the stream of that
session for ever. The players of a stream are the peers of its play sessions
that have returned.
-/

namespace Sars

open ByteMemory ObjectHeap GrowingMap EventRuns World

/-! ## Peers and their sessions -/

/-- Every peer was made for a session, and the player of a returned session is listed. -/
structure Enrolled (σ : Sessions) (srv : RTCServer) : Prop where
  inv : StreamInv σ srv
  owned : ∀ p, p < srv.peers.size → ∃ i job done, σ i = some (job, done) ∧ job.peer = p
  listed : ∀ i job, σ i = some (job, true) → job.kind = .play →
    job.peer ∈ (srv.scaches.get job.scache).players

theorem join_kept {job : Job} {c : StreamCache} {p : Nat} (h : p ∈ c.players) :
    p ∈ (job.join c).players := by
  simp only [Job.join]
  cases job.kind with
  | publish => exact h
  | play => exact List.mem_append_left [job.peer] h

theorem Enrolled.step {w : World} {e : Event} (h : Enrolled w.sessions w.server) :
    Enrolled (w.step e).1.sessions (w.step e).1.server := by
  have hsession := step_session w e
  have inv := h.inv.session hsession
  -- a member stays in its list
  have stays : ∀ c p, p ∈ (w.server.scaches.get c).players →
      p ∈ ((w.step e).1.server.scaches.get c).players := by
    intro c p hp
    rcases hsession.cache_cases h.inv c with hsame | ⟨_, _, _, _, hjoin⟩
    · rwa [hsame]
    · rw [hjoin]
      exact join_kept hp
  have kept : ∀ i job, (∃ done, w.sessions i = some (job, done)) →
      ∃ done, (w.step e).1.sessions i = some (job, done) := fun i job => hsession.kept
  generalize w.step e = r at hsession inv stays kept ⊢
  cases hsession with
  | same sessions quiet =>
    refine ⟨inv, ?_, ?_⟩
    · rw [sessions, quiet.size]
      exact h.owned
    · rw [sessions]
      exact fun i job hi hkind => stays _ _ (h.listed i job hi hkind)
  | opened sessions opened =>
    refine ⟨inv, ?_, ?_⟩
    · rw [sessions, opened.peers.1]
      exact h.owned
    · rw [sessions]
      exact fun i job hi hkind => stays _ _ (h.listed i job hi hkind)
  | @begun i _ _ _ job _ _ free _ opened _ created peer sessions =>
    refine ⟨inv, ?_, ?_⟩
    · intro p hp
      rw [created.size, opened.peers.1] at hp
      rw [opened.peers.1] at peer
      by_cases hnew : p = w.server.peers.size
      · exact ⟨i, job, false, by rw [sessions, Function.update_self], peer.trans hnew.symm⟩
      · obtain ⟨j, b, done, hj, hpeer⟩ := h.owned p (by omega)
        obtain ⟨done', hj'⟩ := kept j b ⟨done, hj⟩
        exact ⟨j, b, done', hj', hpeer⟩
    · intro j b hj hkind
      rw [sessions] at hj
      rcases session_cases hj with ⟨_, heq⟩ | ⟨_, hold⟩
      · cases heq
      · exact stays _ _ (h.listed j b hold hkind)
  | @finished i _ job _ suspended linked sessions =>
    refine ⟨inv, ?_, ?_⟩
    · intro p hp
      have hsize : r.1.server.peers.size = w.server.peers.size := by
        rw [linked]
        exact Heap.size_modify _ _ _
      obtain ⟨j, b, done, hj, hpeer⟩ := h.owned p (hsize ▸ hp)
      obtain ⟨done', hj'⟩ := kept j b ⟨done, hj⟩
      exact ⟨j, b, done', hj', hpeer⟩
    · intro j b hj hkind
      rw [sessions] at hj
      rcases session_cases hj with ⟨_, heq⟩ | ⟨_, hold⟩
      · cases heq
        rw [linked, link_cache (h.inv.streams _ _ (h.inv.stream i job false suspended))]
        simp only [Job.join, hkind]
        exact List.mem_append_right _ (List.mem_singleton_self job.peer)
      · exact stays _ _ (h.listed j b hold hkind)

theorem enrolled_start : Enrolled start.sessions start.server where
  inv := streamInv_start
  owned _ hp := absurd hp (Nat.not_lt_zero _)
  listed _ _ hi := nomatch hi

/-! ## The stream of a peer -/

def Handler.streamFor (p : Nat) (h : Handler) : Option Bytes :=
  h.session.bind fun s => if s.1.peer = p then some s.1.streamID else none

/-- The stream of the request that made the peer. -/
def World.streamOf (w : World) (p : Nat) : Option Bytes :=
  w.handlers.findSome? (Handler.streamFor p)

theorem streamFor_iff {h : Handler} {p : Nat} {s : Bytes} :
    h.streamFor p = some s ↔
      ∃ job done, h.session = some (job, done) ∧ job.peer = p ∧ job.streamID = s := by
  constructor
  · intro hs
    obtain ⟨⟨job, done⟩, hsession, hpeer⟩ := Option.bind_eq_some_iff.mp hs
    split_ifs at hpeer with hp
    exact ⟨job, done, hsession, hp, Option.some.inj hpeer⟩
  · rintro ⟨job, done, hsession, rfl, rfl⟩
    simp only [Handler.streamFor, hsession, Option.bind_some, if_true]

theorem streamOf_iff {w : World} (inv : StreamInv w.sessions w.server) {p : Nat} {s : Bytes} :
    w.streamOf p = some s ↔
      ∃ i job done, w.sessions i = some (job, done) ∧ job.peer = p ∧ job.streamID = s := by
  constructor
  · intro h
    obtain ⟨handler, hmem, hfor⟩ := List.exists_of_findSome?_eq_some h
    obtain ⟨i, hi⟩ := List.mem_iff_getElem?.mp hmem
    obtain ⟨job, done, hsession, hrest⟩ := streamFor_iff.mp hfor
    exact ⟨i, job, done, by simp only [World.sessions, sessionsOf, hi, Option.bind_some, hsession],
      hrest⟩
  · rintro ⟨i, job, done, hi, hpeer, hstream⟩
    obtain ⟨handler, hget, hsession⟩ := Option.bind_eq_some_iff.mp hi
    cases hfound : w.streamOf p with
    | none =>
      have hnone := List.findSome?_eq_none_iff.mp hfound handler (List.mem_of_getElem? hget)
      rw [streamFor_iff.mpr ⟨job, done, hsession, hpeer, hstream⟩] at hnone
      cases hnone
    | some t =>
      obtain ⟨handler', hmem, hfor⟩ := List.exists_of_findSome?_eq_some hfound
      obtain ⟨j, hj⟩ := List.mem_iff_getElem?.mp hmem
      obtain ⟨b, done', hsession', hpeer', hstream'⟩ := streamFor_iff.mp hfor
      have hsj : w.sessions j = some (b, done') := by
        simp only [World.sessions, sessionsOf, hj, Option.bind_some, hsession']
      have hij := inv.distinct i j job b done done' hi hsj (hpeer.trans hpeer'.symm)
      subst hij
      rw [hi] at hsj
      cases hsj
      rw [← hstream', hstream]

theorem streamOf_congr {w w' : World} (inv : StreamInv w.sessions w.server)
    (inv' : StreamInv w'.sessions w'.server) {p : Nat}
    (same : ∀ job, job.peer = p → ((∃ i done, w.sessions i = some (job, done)) ↔
      ∃ i done, w'.sessions i = some (job, done))) : w'.streamOf p = w.streamOf p := by
  refine Option.ext fun s => ?_
  rw [streamOf_iff inv', streamOf_iff inv]
  constructor
  · rintro ⟨i, job, done, hi, hpeer, hstream⟩
    obtain ⟨j, done', hj⟩ := (same job hpeer).mpr ⟨i, done, hi⟩
    exact ⟨j, job, done', hj, hpeer, hstream⟩
  · rintro ⟨i, job, done, hi, hpeer, hstream⟩
    obtain ⟨j, done', hj⟩ := (same job hpeer).mp ⟨i, done, hi⟩
    exact ⟨j, job, done', hj, hpeer, hstream⟩

end Sars
