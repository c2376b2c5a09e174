import Sars.WorldSteps

/-!
# Sessions of a stream

A session is a request that has passed the check of `CanPublish`: its job, and
whether its handler has returned. The invariant ties the sessions to the caches
and to the links between peers and caches, in both directions. What a step does
to it is one of four things, so later invariants about sessions have four cases
and not one for each event.
-/

namespace Sars

open ByteMemory ObjectHeap GrowingMap EventRuns World

/-! ## Sessions -/

def Handler.session : Handler → Option (Job × Bool)
  | .reading _ => none
  | .writing job => some (job, false)
  | .returned _ job => job.map fun job => (job, true)

/-- By the number of the handler. -/
abbrev Sessions := Nat → Option (Job × Bool)

def sessionsOf (handlers : List Handler) : Sessions := fun i => (handlers[i]?).bind Handler.session

def World.sessions (w : World) : Sessions := sessionsOf w.handlers

theorem sessionsOf_set {handlers : List Handler} {i : Nat} {old : Handler}
    (h : handlers[i]? = some old) (new : Handler) :
    sessionsOf (handlers.set i new) = Function.update (sessionsOf handlers) i new.session := by
  have hlt : i < handlers.length := by
    obtain ⟨hlt, _⟩ := List.getElem?_eq_some_iff.mp h
    exact hlt
  funext j
  by_cases hj : j = i
  · subst hj
    simp [sessionsOf, hlt]
  · simp [sessionsOf, Function.update_of_ne hj, List.getElem?_set_ne (Ne.symm hj)]

theorem sessionsOf_set_same {handlers : List Handler} {i : Nat} {old new : Handler}
    (h : handlers[i]? = some old) (same : new.session = old.session) :
    sessionsOf (handlers.set i new) = sessionsOf handlers := by
  rw [sessionsOf_set h, same]
  funext j
  by_cases hj : j = i
  · subst hj
    simp [sessionsOf, h]
  · rw [Function.update_of_ne hj]

theorem sessionsOf_accepted (handlers : List Handler) (kind : RequestKind) :
    sessionsOf (handlers ++ [.reading kind]) = sessionsOf handlers := by
  funext i
  simp only [sessionsOf]
  rcases Nat.lt_trichotomy i handlers.length with hlt | heq | hgt
  · rw [List.getElem?_append_left hlt]
  · simp [heq, Handler.session]
  · rw [List.getElem?_eq_none (by simp; omega), List.getElem?_eq_none (by omega)]

theorem mem_of_suspended {w : World} {i : Nat} {job : Job} (h : w.sessions i = some (job, false)) :
    .writing job ∈ w.handlers := by
  obtain ⟨handler, hi, hsession⟩ := Option.bind_eq_some_iff.mp h
  have hmem := List.mem_of_getElem? hi
  cases handler with
  | reading kind => cases hsession
  | writing job' =>
    cases hsession
    exact hmem
  | returned ret job' => cases job' <;> cases hsession

theorem returned_session {w : World} {ret : Int} {job : Job}
    (h : .returned ret (some job) ∈ w.handlers) : ∃ i, w.sessions i = some (job, true) := by
  obtain ⟨i, hi⟩ := List.mem_iff_getElem?.mp h
  refine ⟨i, ?_⟩
  simp only [World.sessions, sessionsOf, hi]
  rfl

/-- A session after one has been set is that one or an old one. -/
theorem session_cases {σ : Sessions} {i j : Nat} {s t : Job × Bool}
    (h : Function.update σ i (some s) j = some t) : (j = i ∧ t = s) ∨ (j ≠ i ∧ σ j = some t) := by
  by_cases hj : j = i
  · subst hj
    rw [Function.update_self] at h
    exact Or.inl ⟨rfl, (Option.some.inj h).symm⟩
  · rw [Function.update_of_ne hj] at h
    exact Or.inr ⟨hj, h⟩

/-! ## Linking a peer and its stream -/

/-- What a job does to the cache of its stream. -/
def Job.join (job : Job) (c : StreamCache) : StreamCache :=
  match job.kind with
  | .publish => c.setPublisher job.peer
  | .play => c.addPlayer job.peer

/-- The server after the second half of a request. -/
def RTCServer.link (srv : RTCServer) (job : Job) : RTCServer :=
  (srv.updateCache job.scache job.join).updatePeer job.peer fun p =>
    { p with scache := some job.scache }

theorem handleWritten_link (srv : RTCServer) (job : Job) (ret : Int) :
    (Signalling.handleWritten srv job ret).1 = srv.link job := by
  unfold RTCServer.link Job.join
  cases h : job.kind <;> simp only [Signalling.handleWritten, h] <;> rfl

theorem link_cache_ne {srv : RTCServer} {job : Job} {c : Nat} (h : c ≠ job.scache) :
    (srv.link job).scaches.get c = srv.scaches.get c :=
  Heap.get_modify_ne job.join h

theorem link_cache {srv : RTCServer} {job : Job} (h : job.scache < srv.scaches.size) :
    (srv.link job).scaches.get job.scache = job.join (srv.scaches.get job.scache) :=
  Heap.get_modify_self job.join h

theorem link_peer_ne {srv : RTCServer} {job : Job} {q : Nat} (h : q ≠ job.peer) :
    (srv.link job).peers.get q = srv.peers.get q :=
  Heap.get_modify_ne (fun p : RtcPeer => { p with scache := some job.scache }) h

theorem link_peer {srv : RTCServer} {job : Job} (h : job.peer < srv.peers.size) :
    (srv.link job).peers.get job.peer =
      { srv.peers.get job.peer with scache := some job.scache } :=
  Heap.get_modify_self (fun p : RtcPeer => { p with scache := some job.scache }) h

/-- A field of peers other than the link. -/
theorem link_field {β : Type} (g : RtcPeer → β) {srv : RTCServer} {job : Job}
    (same : ∀ p : RtcPeer, g { p with scache := some job.scache } = g p) (q : Nat) :
    g ((srv.link job).peers.get q) = g (srv.peers.get q) :=
  Heap.get_modify_field g same q

theorem join_publisher {job : Job} {c : StreamCache} {p : Nat}
    (h : (job.join c).publisher = some p) :
    c.publisher = some p ∨ (job.kind = .publish ∧ p = job.peer) := by
  simp only [Job.join] at h
  cases hkind : job.kind with
  | publish =>
    rw [hkind] at h
    exact Or.inr ⟨rfl, (Option.some.inj h).symm⟩
  | play =>
    rw [hkind] at h
    exact Or.inl h

theorem join_players {job : Job} {c : StreamCache} {p : Nat} (h : p ∈ (job.join c).players) :
    p ∈ c.players ∨ (job.kind = .play ∧ p = job.peer) := by
  simp only [Job.join] at h
  cases hkind : job.kind with
  | publish =>
    rw [hkind] at h
    exact Or.inl h
  | play =>
    rw [hkind] at h
    rcases List.mem_append.mp h with hold | hnew
    · exact Or.inl hold
    · exact Or.inr ⟨rfl, List.mem_singleton.mp hnew⟩

/-- A stream that cannot be published stays so. -/
theorem join_taken {job : Job} {c : StreamCache} (h : c.canPublish = false) :
    (job.join c).canPublish = false := by
  simp only [Job.join]
  cases job.kind with
  | publish => rfl
  | play => exact h

/-- A play leaves the publisher and `CanPublish` alone. -/
theorem join_play {job : Job} (c : StreamCache) (h : job.kind = .play) :
    (job.join c).canPublish = c.canPublish ∧ (job.join c).publisher = c.publisher := by
  simp only [Job.join, h, StreamCache.addPlayer, and_self]

theorem join_publish {job : Job} (c : StreamCache) (h : job.kind = .publish) :
    (job.join c).canPublish = false ∧ (job.join c).publisher = some job.peer ∧
      (job.join c).players = c.players := by
  simp only [Job.join, h, StreamCache.setPublisher, and_self]

/-! ## Passing the check -/

/-- What a request for this stream finds in `CanPublish`. -/
def RTCServer.canPublish (srv : RTCServer) (streamID : Bytes) : Bool :=
  match srv.sarsPeersStreamIDMaps.lookup streamID with
  | some scache => (srv.scaches.get scache).canPublish
  | none => true

/-- The kind and the stream of a request that this step takes past the check. -/
def passing (w : World) : Event → Option (RequestKind × Bytes)
  | .body i _ streamUrl _ =>
    match w.handlers[i]?, getStreamIdFromStreamUrl streamUrl with
    | some (.reading kind), some streamID =>
      if w.status = .running ∧ w.server.canPublish streamID = kind.wants then
        some (kind, streamID)
      else none
    | _, _ => none
  | _ => none

/-- An empty cache is not noticed. -/
theorem Opened.caches {streamID : Bytes} {srv srv' : RTCServer} {scache : Nat}
    (h : Opened streamID srv srv' scache) (c : Nat) :
    srv'.scaches.get c = srv.scaches.get c := by
  rcases h.cases with ⟨_, rfl⟩ | ⟨_, _, rfl⟩
  · rfl
  · exact Heap.get_alloc_default srv.scaches c

theorem Opened.canPublish {streamID : Bytes} {srv srv' : RTCServer} {scache : Nat}
    (h : Opened streamID srv srv' scache) :
    (srv'.scaches.get scache).canPublish = srv.canPublish streamID := by
  rcases h.cases with ⟨hlookup, rfl⟩ | ⟨hlookup, rfl, rfl⟩
  · simp only [RTCServer.canPublish, hlookup]
  · simp only [RTCServer.canPublish, hlookup, Heap.get_alloc_self]

theorem Opened.lookup {streamID : Bytes} {srv srv' : RTCServer} {scache : Nat}
    (h : Opened streamID srv srv' scache) :
    srv'.sarsPeersStreamIDMaps.lookup streamID = some scache := by
  rcases h.cases with ⟨hlookup, rfl⟩ | ⟨hlookup, rfl, rfl⟩
  · exact hlookup
  · rw [lookup_emplace_self, hlookup]
    rfl

/-- Finding or making a cache leaves the peers alone. -/
theorem Opened.peers {streamID : Bytes} {srv srv' : RTCServer} {scache : Nat}
    (h : Opened streamID srv srv' scache) :
    srv'.peers = srv.peers ∧ srv'.sarsPeersUfragMaps = srv.sarsPeersUfragMaps := by
  rcases h.cases with ⟨_, rfl⟩ | ⟨_, _, rfl⟩ <;> exact ⟨rfl, rfl⟩

/-- A new peer changes no other one. -/
theorem Created.others {peerClass : PeerClass} {offer : Bytes} {engine : Engine}
    {srv srv' : RTCServer} (h : Created peerClass offer engine srv srv') {q : Nat}
    (hq : q ≠ srv.peers.size) : srv'.peers.get q = srv.peers.get q := by
  by_cases hlt : q < srv.peers.size
  · exact h.old q hlt
  · have hsize := h.size
    rw [Heap.get_beyond (by omega), Heap.get_beyond (by omega)]

/-! ## What a step does to sessions -/

/-- The fields of a peer that sessions are about. -/
def RtcPeer.session (p : RtcPeer) : PeerClass × Bool × Bytes × Option Nat :=
  (p.peerClass, p.peerConnection, p.ufrag, p.scache)

/-- Sessions, caches and links are as before; a peer may have changed its state. -/
structure Quiet (srv srv' : RTCServer) : Prop where
  streams : srv'.sarsPeersStreamIDMaps = srv.sarsPeersStreamIDMaps
  ufrags : srv'.sarsPeersUfragMaps = srv.sarsPeersUfragMaps
  scaches : srv'.scaches = srv.scaches
  size : srv'.peers.size = srv.peers.size
  session : ∀ q, (srv'.peers.get q).session = (srv.peers.get q).session
  state : ∀ q, (srv'.peers.get q).peerconnectionState = (srv.peers.get q).peerconnectionState ∨
    (srv.peers.get q).peerConnection = true

theorem Quiet.refl (srv : RTCServer) : Quiet srv srv :=
  { streams := rfl, ufrags := rfl, scaches := rfl, size := rfl, session := fun _ => rfl
    state := fun _ => Or.inl rfl }

theorem quiet_heard (srv : RTCServer) (addr : SockaddrIn) (p : Nat) :
    Quiet srv ((srv.bind addr p).heard addr p) :=
  { streams := rfl, ufrags := rfl, scaches := rfl
    size := Heap.size_modify srv.peers p _
    session := Heap.get_modify_field RtcPeer.session (by intro _; rfl)
    state := fun q =>
      Or.inl (Heap.get_modify_field RtcPeer.peerconnectionState (by intro _; rfl) q) }

theorem Framed.quiet {p : Nat} {srv srv' : RTCServer} (h : Framed p srv srv')
    (connected : (srv.peers.get p).peerConnection = true) : Quiet srv srv' :=
  { streams := h.streams, ufrags := h.ufrags, scaches := h.scaches, size := h.size
    session := by
      intro q
      have hfixed := h.fixed q
      simp only [RtcPeer.fixed, Prod.mk.injEq] at hfixed
      simp only [RtcPeer.session, hfixed]
    state := by
      intro q
      by_cases hq : q = p
      · exact Or.inr (hq ▸ connected)
      · exact Or.inl (by rw [h.others q hq]) }

/-- The four things a step can do to the sessions. -/
inductive Session (w : World) : Event → World → Prop where
  | same {e : Event} {w' : World} (sessions : w'.sessions = w.sessions)
      (quiet : Quiet w.server w'.server) : Session w e w'
  | opened {e : Event} {w' : World} {streamID : Bytes} {scache : Nat}
      (sessions : w'.sessions = w.sessions)
      (opened : Opened streamID w.server w'.server scache) : Session w e w'
  | begun {i : Nat} {offer streamUrl : Bytes} {engine : Engine} {job : Job} {srv : RTCServer}
      {w' : World} (free : w.sessions i = none)
      (passed : passing w (.body i offer streamUrl engine) = some (job.kind, job.streamID))
      (opened : Opened job.streamID w.server srv job.scache)
      (wanted : (srv.scaches.get job.scache).canPublish = job.kind.wants)
      (created : Created job.kind.peerClass offer engine srv w'.server)
      (peer : job.peer = srv.peers.size)
      (sessions : w'.sessions = Function.update w.sessions i (some (job, false))) :
      Session w (.body i offer streamUrl engine) w'
  | finished {i : Nat} {ret : Int} {job : Job} {w' : World}
      (suspended : w.sessions i = some (job, false)) (linked : w'.server = w.server.link job)
      (sessions : w'.sessions = Function.update w.sessions i (some (job, true))) :
      Session w (.written i ret) w'

theorem Move.session {w w' : World} {e : Event} {out : List Output} (hm : Move w e w' out) :
    Session w e w' := by
  cases hm with
  | idle => exact .same rfl (.refl _)
  | stopped => exact .same rfl (.refl _)
  | accepted kind => exact .same (sessionsOf_accepted _ kind) (.refl _)
  | rejected reading _ opened _ => exact .opened (sessionsOf_set_same reading rfl) opened
  | @begun i _ _ _ _ _ _ _ _ _ running reading url opened wanted created =>
    have hfree : w.sessions i = none := by
      simp only [World.sessions, sessionsOf, reading]
      rfl
    have hcan := opened.canPublish.symm.trans wanted
    refine .begun hfree ?_ opened wanted created rfl (sessionsOf_set reading _)
    simp only [passing, reading, url, running, hcan, and_self, if_true]
  | @finished i job ret writing =>
    have hsuspended : w.sessions i = some (job, false) := by
      simp only [World.sessions, sessionsOf, writing]
      rfl
    exact .finished hsuspended (handleWritten_link _ _ _) (sessionsOf_set writing _)
  | heard targeted => exact .same rfl (quiet_heard _ _ _)
  | called connected call => exact .same rfl ((callback_framed call).quiet connected.2)

theorem step_session (w : World) (e : Event) : Session w e (w.step e).1 := (step_move w e).session

end Sars
