import Sars.Sessions

/-!
# The invariant of sessions and streams

Streams have caches of their own; a session's peer belongs to no other session
and is linked to its stream exactly when the handler has returned; publishers
and players of a cache are peers of returned sessions; a stream that may still
be published has no publisher. Each of the four things a step can do to the
sessions keeps this.
-/

namespace Sars

open ByteMemory ObjectHeap GrowingMap EventRuns World

structure StreamInv (σ : Sessions) (srv : RTCServer) : Prop where
  streams : ∀ s c, srv.sarsPeersStreamIDMaps.lookup s = some c → c < srv.scaches.size
  injective : ∀ s t c, srv.sarsPeersStreamIDMaps.lookup s = some c →
    srv.sarsPeersStreamIDMaps.lookup t = some c → s = t
  stream : ∀ i job done, σ i = some (job, done) →
    srv.sarsPeersStreamIDMaps.lookup job.streamID = some job.scache
  peer : ∀ i job done, σ i = some (job, done) → job.peer < srv.peers.size ∧
    (srv.peers.get job.peer).peerClass = job.kind.peerClass ∧
    (srv.peers.get job.peer).scache = if done then some job.scache else none
  distinct : ∀ i j a b x y, σ i = some (a, x) → σ j = some (b, y) → a.peer = b.peer → i = j
  linked : ∀ p c, (srv.peers.get p).scache = some c →
    ∃ i job, σ i = some (job, true) ∧ job.peer = p ∧ job.scache = c
  publisher : ∀ c p, (srv.scaches.get c).publisher = some p →
    ∃ i job, σ i = some (job, true) ∧ job.kind = .publish ∧ job.peer = p ∧ job.scache = c
  players : ∀ c p, p ∈ (srv.scaches.get c).players →
    ∃ i job, σ i = some (job, true) ∧ job.kind = .play ∧ job.peer = p ∧ job.scache = c
  nodup : ∀ c, (srv.scaches.get c).players.Nodup
  taken : ∀ c, (srv.scaches.get c).canPublish = true ↔ (srv.scaches.get c).publisher = none
  playing : ∀ i job done, σ i = some (job, done) → job.kind = .play →
    (srv.scaches.get job.scache).canPublish = false
  connected : ∀ p, (srv.peers.get p).peerconnectionState ≠ .kNew →
    (srv.peers.get p).peerConnection = true

namespace StreamInv

variable {σ : Sessions} {srv srv' : RTCServer}

/-- Nothing the invariant reads has changed but the map of streams, which has grown. -/
theorem transfer (h : StreamInv σ srv)
    (streams : ∀ s c, srv'.sarsPeersStreamIDMaps.lookup s = some c → c < srv'.scaches.size)
    (injective : ∀ s t c, srv'.sarsPeersStreamIDMaps.lookup s = some c →
      srv'.sarsPeersStreamIDMaps.lookup t = some c → s = t)
    (grown : Extends srv.sarsPeersStreamIDMaps srv'.sarsPeersStreamIDMaps)
    (caches : ∀ c, srv'.scaches.get c = srv.scaches.get c)
    (size : srv'.peers.size = srv.peers.size)
    (session : ∀ q, (srv'.peers.get q).session = (srv.peers.get q).session)
    (state : ∀ q, (srv'.peers.get q).peerconnectionState =
      (srv.peers.get q).peerconnectionState ∨ (srv.peers.get q).peerConnection = true) :
    StreamInv σ srv' := by
  have fields : ∀ q, (srv'.peers.get q).peerClass = (srv.peers.get q).peerClass ∧
      (srv'.peers.get q).peerConnection = (srv.peers.get q).peerConnection ∧
      (srv'.peers.get q).ufrag = (srv.peers.get q).ufrag ∧
      (srv'.peers.get q).scache = (srv.peers.get q).scache := by
    intro q
    simpa only [RtcPeer.session, Prod.mk.injEq] using session q
  refine { streams := streams, injective := injective, distinct := h.distinct, stream := ?_
           peer := ?_, linked := ?_, publisher := ?_, players := ?_, nodup := ?_, taken := ?_
           playing := ?_, connected := ?_ }
  · intro i job done hi
    exact grown _ _ (h.stream i job done hi)
  · intro i job done hi
    obtain ⟨hclass, _, _, hscache⟩ := fields job.peer
    rw [hclass, hscache, size]
    exact h.peer i job done hi
  · intro p c hp
    rw [(fields p).2.2.2] at hp
    exact h.linked p c hp
  · intro c p hp
    rw [caches] at hp
    exact h.publisher c p hp
  · intro c p hp
    rw [caches] at hp
    exact h.players c p hp
  · intro c
    rw [caches]
    exact h.nodup c
  · intro c
    rw [caches]
    exact h.taken c
  · intro i job done hi hkind
    rw [caches]
    exact h.playing i job done hi hkind
  · intro p hp
    rw [(fields p).2.1]
    rcases state p with hsame | hconn
    · exact h.connected p (hsame ▸ hp)
    · exact hconn

theorem quiet (h : StreamInv σ srv) (hq : Quiet srv srv') : StreamInv σ srv' := by
  refine h.transfer ?_ ?_ ?_ ?_ hq.size hq.session hq.state
  · rw [hq.streams, hq.scaches]
    exact h.streams
  · rw [hq.streams]
    exact h.injective
  · rw [hq.streams]
    exact .refl _
  · intro c
    rw [hq.scaches]

theorem opened {streamID : Bytes} {scache : Nat} (h : StreamInv σ srv)
    (ho : Opened streamID srv srv' scache) : StreamInv σ srv' := by
  rcases ho.cases with ⟨_, rfl⟩ | ⟨hnone, rfl, rfl⟩
  · exact h
  · refine h.transfer ?_ ?_ (emplace_extends _ _ _) (Heap.get_alloc_default srv.scaches) rfl
      (fun _ => rfl) (fun _ => Or.inl rfl)
    · intro s c hs
      rw [Heap.size_alloc]
      rcases lookup_emplace hs with hold | ⟨_, _, rfl⟩
      · have hlt := h.streams s c hold
        omega
      · omega
    · intro s t c hs ht
      rcases lookup_emplace hs with hold | ⟨_, hs', hc⟩ <;>
        rcases lookup_emplace ht with hold' | ⟨_, ht', hc'⟩
      · exact h.injective s t c hold hold'
      · have hlt := h.streams s c hold
        omega
      · have hlt := h.streams t c hold'
        omega
      · exact hs'.trans ht'.symm

theorem begun {i : Nat} {offer : Bytes} {engine : Engine} {job : Job} (h : StreamInv σ srv)
    (stream : srv.sarsPeersStreamIDMaps.lookup job.streamID = some job.scache)
    (wanted : (srv.scaches.get job.scache).canPublish = job.kind.wants)
    (created : Created job.kind.peerClass offer engine srv srv')
    (new : job.peer = srv.peers.size) (free : σ i = none) :
    StreamInv (Function.update σ i (some (job, false))) srv' := by
  -- returned sessions are old ones, and old ones stay where they were
  have kept : ∀ {j : Nat} {t : Job × Bool}, σ j = some t →
      Function.update σ i (some (job, false)) j = some t := by
    intro j t hj
    have hne : j ≠ i := by
      rintro rfl
      rw [free] at hj
      cases hj
    rw [Function.update_of_ne hne, hj]
  have older : ∀ {j : Nat} {b : Job} {y : Bool}, σ j = some (b, y) → b.peer ≠ srv.peers.size := by
    intro j b y hj
    have hlt := (h.peer j b y hj).1
    omega
  refine { streams := ?_, injective := ?_, distinct := ?_, stream := ?_
           peer := ?_, linked := ?_, publisher := ?_, players := ?_, nodup := ?_, taken := ?_
           playing := ?_, connected := ?_ }
  · rw [created.streams, created.scaches]
    exact h.streams
  · rw [created.streams]
    exact h.injective
  · intro j job' done hj
    rw [created.streams]
    rcases session_cases hj with ⟨_, heq⟩ | ⟨_, hold⟩
    · cases heq
      exact stream
    · exact h.stream j job' done hold
  · intro j job' done hj
    rw [created.size]
    rcases session_cases hj with ⟨_, heq⟩ | ⟨_, hold⟩
    · cases heq
      rw [new, created.class_eq, created.unlinked]
      exact ⟨by omega, rfl, rfl⟩
    · obtain ⟨hlt, hrest⟩ := h.peer j job' done hold
      rw [created.others (older hold)]
      exact ⟨by omega, hrest⟩
  · intro j k a b x y hj hk hpeer
    rcases session_cases hj with ⟨rfl, heq⟩ | ⟨_, hold⟩ <;>
      rcases session_cases hk with ⟨rfl, heq'⟩ | ⟨_, hold'⟩
    · rfl
    · cases heq
      exact absurd (hpeer.symm.trans new) (older hold')
    · cases heq'
      exact absurd (hpeer.trans new) (older hold)
    · exact h.distinct j k a b x y hold hold' hpeer
  · intro p c hp
    have hne : p ≠ srv.peers.size := by
      rintro rfl
      rw [created.unlinked] at hp
      cases hp
    rw [created.others hne] at hp
    obtain ⟨j, job', hj, hrest⟩ := h.linked p c hp
    exact ⟨j, job', kept hj, hrest⟩
  · intro c p hp
    rw [created.scaches] at hp
    obtain ⟨j, job', hj, hrest⟩ := h.publisher c p hp
    exact ⟨j, job', kept hj, hrest⟩
  · intro c p hp
    rw [created.scaches] at hp
    obtain ⟨j, job', hj, hrest⟩ := h.players c p hp
    exact ⟨j, job', kept hj, hrest⟩
  · intro c
    rw [created.scaches]
    exact h.nodup c
  · intro c
    rw [created.scaches]
    exact h.taken c
  · intro j job' done hj hkind
    rw [created.scaches]
    rcases session_cases hj with ⟨_, heq⟩ | ⟨_, hold⟩
    · cases heq
      rw [wanted, hkind]
      rfl
    · exact h.playing j job' done hold hkind
  · intro p hp
    by_cases hnew : p = srv.peers.size
    · rw [hnew, created.state] at hp
      exact absurd rfl hp
    · rw [created.others hnew] at hp ⊢
      exact h.connected p hp

/-- The return of a handler changes the cache of its stream and no other one. -/
theorem cache_cases {i : Nat} {job : Job} (h : StreamInv σ srv)
    (suspended : σ i = some (job, false)) (c : Nat) :
    (c ≠ job.scache ∧ (srv.link job).scaches.get c = srv.scaches.get c) ∨
      (c = job.scache ∧ (srv.link job).scaches.get c = job.join (srv.scaches.get c)) := by
  by_cases hc : c = job.scache
  · subst hc
    exact Or.inr ⟨rfl, link_cache (h.streams _ _ (h.stream i job false suspended))⟩
  · exact Or.inl ⟨hc, link_cache_ne hc⟩

/-! ### The return of a handler -/

section

variable {i j : Nat} {job b : Job} {y : Bool}

theorem finish_kept (suspended : σ i = some (job, false)) (hj : σ j = some (b, true)) :
    Function.update σ i (some (job, true)) j = some (b, true) := by
  have hne : j ≠ i := by
    rintro rfl
    rw [suspended] at hj
    cases hj
  rw [Function.update_of_ne hne, hj]

theorem finish_back (suspended : σ i = some (job, false))
    (hj : Function.update σ i (some (job, true)) j = some (b, y)) : ∃ x, σ j = some (b, x) := by
  rcases session_cases hj with ⟨rfl, heq⟩ | ⟨_, hold⟩
  · cases heq
    exact ⟨false, suspended⟩
  · exact ⟨y, hold⟩

theorem finished_peer (h : StreamInv σ srv) (suspended : σ i = some (job, false))
    (hj : Function.update σ i (some (job, true)) j = some (b, y)) :
    b.peer < (srv.link job).peers.size ∧
      ((srv.link job).peers.get b.peer).peerClass = b.kind.peerClass ∧
      ((srv.link job).peers.get b.peer).scache = if y then some b.scache else none := by
  have hsize : (srv.link job).peers.size = srv.peers.size := Heap.size_modify _ _ _
  rw [hsize]
  obtain ⟨hlt, hclass, _⟩ := h.peer i job false suspended
  rcases session_cases hj with ⟨_, heq⟩ | ⟨hne, hold⟩
  · cases heq
    rw [link_peer hlt]
    exact ⟨hlt, hclass, rfl⟩
  · have hpeer : b.peer ≠ job.peer := fun heq =>
      hne (h.distinct j i b job y false hold suspended heq)
    rw [link_peer_ne hpeer]
    exact h.peer j b y hold

theorem finished_linked (h : StreamInv σ srv) (suspended : σ i = some (job, false)) {p c : Nat}
    (hp : ((srv.link job).peers.get p).scache = some c) :
    ∃ j b, Function.update σ i (some (job, true)) j = some (b, true) ∧ b.peer = p ∧
      b.scache = c := by
  by_cases hself : p = job.peer
  · subst hself
    rw [link_peer (h.peer i job false suspended).1] at hp
    exact ⟨i, job, Function.update_self i _ σ, rfl, Option.some.inj hp⟩
  · rw [link_peer_ne hself] at hp
    obtain ⟨j, b, hj, hrest⟩ := h.linked p c hp
    exact ⟨j, b, finish_kept suspended hj, hrest⟩

theorem finished_publisher (h : StreamInv σ srv) (suspended : σ i = some (job, false))
    {p c : Nat} (hp : ((srv.link job).scaches.get c).publisher = some p) :
    ∃ j b, Function.update σ i (some (job, true)) j = some (b, true) ∧ b.kind = .publish ∧
      b.peer = p ∧ b.scache = c := by
  have hold : (srv.scaches.get c).publisher = some p ∨
      (job.kind = .publish ∧ job.peer = p ∧ job.scache = c) := by
    rcases h.cache_cases suspended c with ⟨_, hc⟩ | ⟨rfl, hc⟩
    · exact Or.inl (hc ▸ hp)
    · rw [hc] at hp
      rcases join_publisher hp with hpub | ⟨hkind, heq⟩
      · exact Or.inl hpub
      · exact Or.inr ⟨hkind, heq.symm, rfl⟩
  rcases hold with hpub | hnew
  · obtain ⟨j, b, hj, hrest⟩ := h.publisher c p hpub
    exact ⟨j, b, finish_kept suspended hj, hrest⟩
  · exact ⟨i, job, Function.update_self i _ σ, hnew⟩

theorem finished_players (h : StreamInv σ srv) (suspended : σ i = some (job, false))
    {p c : Nat} (hp : p ∈ ((srv.link job).scaches.get c).players) :
    ∃ j b, Function.update σ i (some (job, true)) j = some (b, true) ∧ b.kind = .play ∧
      b.peer = p ∧ b.scache = c := by
  have hold : p ∈ (srv.scaches.get c).players ∨
      (job.kind = .play ∧ job.peer = p ∧ job.scache = c) := by
    rcases h.cache_cases suspended c with ⟨_, hc⟩ | ⟨rfl, hc⟩
    · exact Or.inl (hc ▸ hp)
    · rw [hc] at hp
      rcases join_players hp with hplays | ⟨hkind, heq⟩
      · exact Or.inl hplays
      · exact Or.inr ⟨hkind, heq.symm, rfl⟩
  rcases hold with hplays | hnew
  · obtain ⟨j, b, hj, hrest⟩ := h.players c p hplays
    exact ⟨j, b, finish_kept suspended hj, hrest⟩
  · exact ⟨i, job, Function.update_self i _ σ, hnew⟩

/-- A listed player belongs to a session that has returned, and a suspended one has not. -/
theorem unlisted (h : StreamInv σ srv) (suspended : σ i = some (job, false)) (c : Nat) :
    job.peer ∉ (srv.scaches.get c).players := by
  intro hmem
  obtain ⟨j, b, hj, _, hpeer, _⟩ := h.players c job.peer hmem
  have hsame := h.distinct j i b job true false hj suspended hpeer
  rw [hsame, suspended] at hj
  cases hj

theorem finished_nodup (h : StreamInv σ srv) (suspended : σ i = some (job, false)) (c : Nat) :
    ((srv.link job).scaches.get c).players.Nodup := by
  rcases h.cache_cases suspended c with ⟨_, hc⟩ | ⟨rfl, hc⟩
  · rw [hc]
    exact h.nodup c
  · rw [hc]
    cases hkind : job.kind with
    | publish =>
      rw [(join_publish _ hkind).2.2]
      exact h.nodup _
    | play =>
      simp only [Job.join, hkind, StreamCache.addPlayer]
      refine List.nodup_append.mpr ⟨h.nodup _, List.nodup_singleton _, ?_⟩
      intro q hq r hr heq
      rw [heq, List.mem_singleton.mp hr] at hq
      exact h.unlisted suspended job.scache hq

theorem finished_taken (h : StreamInv σ srv) (suspended : σ i = some (job, false)) (c : Nat) :
    ((srv.link job).scaches.get c).canPublish = true ↔
      ((srv.link job).scaches.get c).publisher = none := by
  rcases h.cache_cases suspended c with ⟨_, hc⟩ | ⟨rfl, hc⟩
  · rw [hc]
    exact h.taken c
  · rw [hc]
    cases hkind : job.kind with
    | publish =>
      obtain ⟨hcan, hpublisher, _⟩ := join_publish (srv.scaches.get job.scache) hkind
      simp [hcan, hpublisher]
    | play =>
      obtain ⟨hcan, hpublisher⟩ := join_play (srv.scaches.get job.scache) hkind
      rw [hcan, hpublisher]
      exact h.taken _

theorem finished (h : StreamInv σ srv) (suspended : σ i = some (job, false)) :
    StreamInv (Function.update σ i (some (job, true))) (srv.link job) where
  streams s c hs := by
    have hsize : (srv.link job).scaches.size = srv.scaches.size := Heap.size_modify _ _ _
    rw [hsize]
    exact h.streams s c hs
  injective := h.injective
  stream j b y hj := by
    obtain ⟨x, hold⟩ := finish_back suspended hj
    exact h.stream j b x hold
  peer _ _ _ hj := h.finished_peer suspended hj
  distinct j k a b x y hj hk hpeer := by
    obtain ⟨x', hj'⟩ := finish_back suspended hj
    obtain ⟨y', hk'⟩ := finish_back suspended hk
    exact h.distinct j k a b x' y' hj' hk' hpeer
  linked _ _ hp := h.finished_linked suspended hp
  publisher _ _ hp := h.finished_publisher suspended hp
  players _ _ hp := h.finished_players suspended hp
  nodup c := h.finished_nodup suspended c
  taken c := h.finished_taken suspended c
  playing j b y hj hkind := by
    obtain ⟨x, hold⟩ := finish_back suspended hj
    have hfalse := h.playing j b x hold hkind
    rcases h.cache_cases suspended b.scache with ⟨_, hc⟩ | ⟨_, hc⟩
    · rw [hc]
      exact hfalse
    · rw [hc]
      exact join_taken hfalse
  connected p hp := by
    rw [link_field RtcPeer.peerconnectionState (fun _ => rfl)] at hp
    rw [link_field RtcPeer.peerConnection (fun _ => rfl)]
    exact h.connected p hp

end

/-! ### Any step -/

theorem session {w w' : World} {e : Event} (h : StreamInv w.sessions w.server)
    (hs : Session w e w') : StreamInv w'.sessions w'.server := by
  cases hs with
  | same sessions quiet =>
    rw [sessions]
    exact h.quiet quiet
  | opened sessions opened =>
    rw [sessions]
    exact h.opened opened
  | begun free _ opened wanted created peer sessions =>
    rw [sessions]
    exact (h.opened opened).begun opened.lookup wanted created peer free
  | finished suspended linked sessions =>
    rw [sessions, linked]
    exact h.finished suspended

end StreamInv

/-- A step changes a cache only when a suspended session joins it. -/
theorem Session.cache_cases {w w' : World} {e : Event} (hs : Session w e w')
    (inv : StreamInv w.sessions w.server) (c : Nat) :
    w'.server.scaches.get c = w.server.scaches.get c ∨
      ∃ i job, w.sessions i = some (job, false) ∧ job.scache = c ∧
        w'.server.scaches.get c = job.join (w.server.scaches.get c) := by
  cases hs with
  | same _ quiet => exact Or.inl (by rw [quiet.scaches])
  | opened _ opened => exact Or.inl (opened.caches c)
  | begun _ _ opened _ created _ _ =>
    rw [created.scaches]
    exact Or.inl (opened.caches c)
  | @finished i _ job _ suspended linked _ =>
    rw [linked]
    rcases inv.cache_cases suspended c with ⟨_, hc⟩ | ⟨hsame, hc⟩
    · exact Or.inl hc
    · exact Or.inr ⟨i, job, suspended, hsame.symm, hc⟩

/-- A stream that cannot be published stays so. -/
theorem Session.taken {w w' : World} {e : Event} (hs : Session w e w')
    (inv : StreamInv w.sessions w.server) {c : Nat}
    (h : (w.server.scaches.get c).canPublish = false) :
    (w'.server.scaches.get c).canPublish = false := by
  rcases hs.cache_cases inv c with hsame | ⟨_, _, _, _, hjoin⟩
  · rw [hsame]
    exact h
  · rw [hjoin]
    exact join_taken h

theorem streamInv_start : StreamInv start.sessions start.server := by
  have none : ∀ c, start.server.scaches.get c = {} := fun _ => Heap.get_beyond (Nat.zero_le _)
  have peers : ∀ p, start.server.peers.get p = default := fun _ => Heap.get_beyond (Nat.zero_le _)
  refine { streams := by intro s c h; cases h
           injective := by intro s t c h; cases h
           distinct := by intro i j a b x y h; cases h
           stream := by intro i job done h; cases h
           peer := by intro i job done h; cases h
           linked := ?_, publisher := ?_, players := ?_, nodup := ?_, taken := ?_
           playing := by intro i job done h; cases h
           connected := ?_ }
  · intro p c hp
    rw [peers] at hp
    cases hp
  · intro c p hp
    rw [none] at hp
    cases hp
  · intro c p hp
    rw [none] at hp
    cases hp
  · intro c
    rw [none]
    exact List.nodup_nil
  · intro c
    rw [none]
    exact ⟨fun _ => rfl, fun _ => rfl⟩
  · intro p hp
    rw [peers] at hp
    exact absurd rfl hp

theorem streamInv_after (es : List Event) :
    StreamInv (after step start es).sessions (after step start es).server :=
  invariant_after (I := fun w => StreamInv w.sessions w.server)
    (fun w e h => h.session (step_session w e)) streamInv_start es

end Sars
