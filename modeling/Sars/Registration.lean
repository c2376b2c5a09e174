import Sars.StreamInvariant

/-!
# Only registered peers in a stream

Neither caller looks at the result of `CreateRtcPeer`, so a peer whose creation
failed is handed to its stream like any other. In the runs in which no creation
of a request behind the check fails, publishers and players have a connection
and are found under their own ufrag. The engine is assumed to generate ufrags
that are pairwise distinct and, as ice-ufrags are, without a colon.
-/

namespace Sars

open ByteMemory ObjectHeap GrowingMap EventRuns World DecimalText

/-- Publishers and players have a connection and are registered under their ufrag. -/
def AllRegistered (srv : RTCServer) : Prop :=
  ∀ c p, ((srv.scaches.get c).publisher = some p ∨ p ∈ (srv.scaches.get c).players) →
    (srv.peers.get p).peerConnection = true ∧
      srv.sarsPeersUfragMaps.lookup (srv.peers.get p).ufrag = some p

/-! ## What the engine generates -/

/-- The ufrag in the answer to this event, if the engine is asked for one. -/
def Event.lufrag : Event → Option Bytes
  | .body _ _ _ engine => if engine.connects then getUfragFromSdp engine.answer else none
  | _ => none

/-- The key under which the peer of this event is registered. -/
def Event.key : Event → Option Bytes
  | .body _ offer _ engine => peerKey offer engine
  | _ => none

def generatedBy (w : World) (e : Event) : List Bytes :=
  if (passing w e).isSome then e.lufrag.toList else []

/-- The ufrags the engine generates in a run, in order. -/
def generated (w : World) (es : List Event) : List Bytes :=
  outputs (fun w e => ((w.step e).1, generatedBy w e)) w es

structure EngineUfrags (lufrags : List Bytes) : Prop where
  distinct : lufrags.Nodup
  plain : ∀ l ∈ lufrags, (58 : UInt8) ∉ l

instance (lufrags : List Bytes) : Decidable (EngineUfrags lufrags) :=
  decidable_of_iff (lufrags.Nodup ∧ ∀ l ∈ lufrags, (58 : UInt8) ∉ l)
    ⟨fun h => ⟨h.1, h.2⟩, fun h => ⟨h.distinct, h.plain⟩⟩

/-- A request that passes the check has its peer created: there is a connection, and
offer and answer have an ice-ufrag. -/
def Succeeds (w : World) (e : Event) : Prop := (passing w e).isSome → e.key.isSome

instance (w : World) (e : Event) : Decidable (Succeeds w e) :=
  inferInstanceAs (Decidable (_ → _))

theorem peerKey_split {offer key : Bytes} {engine : Engine} (h : peerKey offer engine = some key) :
    ∃ lufrag ufrag, engine.connects = true ∧ getUfragFromSdp engine.answer = some lufrag ∧
      key = lufrag ++ 58 :: ufrag := by
  simp only [peerKey] at h
  split_ifs at h with hconnects
  cases hoffer : getUfragFromSdp offer with
  | none => simp [hoffer] at h
  | some ufrag =>
    cases hanswer : getUfragFromSdp engine.answer with
    | none => simp [hoffer, hanswer] at h
    | some lufrag =>
      simp only [hoffer, hanswer] at h
      exact ⟨lufrag, ufrag, hconnects, rfl, (Option.some.inj h).symm⟩

/-! ## The invariant -/

/-- Keys begin with ufrags that are not going to be generated again. -/
def Spent (srv : RTCServer) (future : List Bytes) : Prop :=
  ∀ u p, srv.sarsPeersUfragMaps.lookup u = some p →
    ∃ l r, u = l ++ 58 :: r ∧ (58 : UInt8) ∉ l ∧ l ∉ future

def SessionsRegistered (σ : Sessions) (srv : RTCServer) : Prop :=
  ∀ i job done, σ i = some (job, done) → (srv.peers.get job.peer).peerConnection = true ∧
    srv.sarsPeersUfragMaps.lookup (srv.peers.get job.peer).ufrag = some job.peer

structure Registering (w : World) (future : List Bytes) : Prop where
  inv : StreamInv w.sessions w.server
  registered : SessionsRegistered w.sessions w.server
  spent : Spent w.server future

theorem SessionsRegistered.of_same {σ : Sessions} {srv srv' : RTCServer}
    (h : SessionsRegistered σ srv) (ufrags : srv'.sarsPeersUfragMaps = srv.sarsPeersUfragMaps)
    (session : ∀ q, (srv'.peers.get q).session = (srv.peers.get q).session) :
    SessionsRegistered σ srv' := by
  intro i job done hi
  have hsession := session job.peer
  simp only [RtcPeer.session, Prod.mk.injEq] at hsession
  rw [hsession.2.1, hsession.2.2.1, ufrags]
  exact h i job done hi

theorem SessionsRegistered.begun {σ : Sessions} {srv srv' : RTCServer} {i : Nat} {job : Job}
    {offer key : Bytes} {engine : Engine} (h : SessionsRegistered σ srv) (inv : StreamInv σ srv)
    (created : Created job.kind.peerClass offer engine srv srv')
    (new : job.peer = srv.peers.size) (hkey : peerKey offer engine = some key)
    (unused : srv.sarsPeersUfragMaps.lookup key = none) :
    SessionsRegistered (Function.update σ i (some (job, false))) srv' := by
  obtain ⟨hufrag, _, hmap⟩ := created.registered key hkey
  intro j b done hj
  rcases session_cases hj with ⟨_, heq⟩ | ⟨_, hold⟩
  · cases heq
    obtain ⟨_, _, hconnects, _⟩ := peerKey_split hkey
    rw [new, created.connection, hufrag, hmap, lookup_emplace_self, unused]
    exact ⟨hconnects, rfl⟩
  · have hne : b.peer ≠ srv.peers.size := by
      have hlt := (inv.peer j b done hold).1
      omega
    obtain ⟨hconn, hlookup⟩ := h j b done hold
    rw [created.others hne, hmap]
    exact ⟨hconn, emplace_extends _ _ _ _ _ hlookup⟩

theorem SessionsRegistered.finished {σ : Sessions} {srv : RTCServer} {i : Nat} {job : Job}
    (h : SessionsRegistered σ srv) (suspended : σ i = some (job, false)) :
    SessionsRegistered (Function.update σ i (some (job, true))) (srv.link job) := by
  intro j b done hj
  rw [link_field RtcPeer.peerConnection (fun _ => rfl), link_field RtcPeer.ufrag (fun _ => rfl)]
  rcases session_cases hj with ⟨_, heq⟩ | ⟨_, hold⟩
  · cases heq
    exact h i job false suspended
  · exact h j b done hold

theorem Spent.mono {srv : RTCServer} {now future : List Bytes} (h : Spent srv (now ++ future)) :
    Spent srv future := by
  intro u p hu
  obtain ⟨l, r, hsplit, hplain, hout⟩ := h u p hu
  exact ⟨l, r, hsplit, hplain, fun hmem => hout (List.mem_append_right now hmem)⟩

theorem Registering.step {w : World} {e : Event} {future : List Bytes}
    (h : Registering w (generatedBy w e ++ future))
    (ufrags : EngineUfrags (generatedBy w e ++ future)) (succeeds : Succeeds w e) :
    Registering (w.step e).1 future := by
  have hsession := step_session w e
  have inv' := h.inv.session hsession
  cases hsession with
  | same sessions quiet =>
    refine { inv := inv', registered := ?_, spent := ?_ }
    · rw [sessions]
      exact h.registered.of_same quiet.ufrags quiet.session
    · have hspent := h.spent.mono
      simp only [Spent] at hspent ⊢
      rw [quiet.ufrags]
      exact hspent
  | opened sessions opened =>
    obtain ⟨hpeers, hufrags⟩ := opened.peers
    refine { inv := inv', registered := ?_, spent := ?_ }
    · rw [sessions]
      exact h.registered.of_same hufrags fun q => by rw [hpeers]
    · have hspent := h.spent.mono
      simp only [Spent] at hspent ⊢
      rw [hufrags]
      exact hspent
  | @begun i offer streamUrl engine job srv _ free passed opened wanted created new sessions =>
    obtain ⟨hpeers, hufrags⟩ := opened.peers
    have hkey : (peerKey offer engine).isSome := succeeds (by rw [passed]; rfl)
    obtain ⟨key, hkey⟩ := Option.isSome_iff_exists.mp hkey
    obtain ⟨lufrag, ufrag, hconnects, hanswer, rfl⟩ := peerKey_split hkey
    have hnow : generatedBy w (.body i offer streamUrl engine) = [lufrag] := by
      simp [generatedBy, passed, Event.lufrag, hconnects, hanswer]
    have hplain : (58 : UInt8) ∉ lufrag := ufrags.plain lufrag (by simp [hnow])
    have hlast : lufrag ∉ future := by
      have hdistinct := ufrags.distinct
      rw [hnow] at hdistinct
      exact (List.nodup_cons.mp hdistinct).1
    -- a key that is there begins with another ufrag
    have hunused : srv.sarsPeersUfragMaps.lookup (lufrag ++ 58 :: ufrag) = none := by
      rw [hufrags]
      cases hlookup : w.server.sarsPeersUfragMaps.lookup (lufrag ++ 58 :: ufrag) with
      | none => rfl
      | some p =>
        obtain ⟨l, r, hsplit, hl, hout⟩ := h.spent _ p hlookup
        have hsame := congrArg (List.takeWhile fun b : UInt8 => b != 58) hsplit
        rw [before_colon hplain, before_colon hl] at hsame
        exact absurd (by simp [hnow, hsame]) hout
    have hregistered : SessionsRegistered w.sessions srv :=
      h.registered.of_same hufrags fun q => by rw [hpeers]
    refine { inv := inv', registered := ?_, spent := ?_ }
    · rw [sessions]
      exact hregistered.begun (h.inv.opened opened) created new hkey hunused
    · intro u p hu
      rw [(created.registered _ hkey).2.2] at hu
      rcases lookup_emplace hu with hold | ⟨_, rfl, _⟩
      · rw [hufrags] at hold
        exact h.spent.mono u p hold
      · exact ⟨lufrag, ufrag, rfl, hplain, hlast⟩
  | finished suspended linked sessions =>
    refine { inv := inv', registered := ?_, spent := ?_ }
    · rw [sessions, linked]
      exact h.registered.finished suspended
    · rw [linked]
      exact h.spent.mono

theorem Registering.run {es : List Event} {w : World} (h : Registering w (generated w es))
    (ufrags : EngineUfrags (generated w es)) (succeed : Meets World.step Succeeds w es) :
    Registering (after World.step w es) [] := by
  induction es generalizing w with
  | nil => exact h
  | cons e es ih =>
    have hsplit : generated w (e :: es) = generatedBy w e ++ generated (w.step e).1 es := rfl
    rw [hsplit] at h ufrags
    have hrest : EngineUfrags (generated (w.step e).1 es) :=
      { distinct := ufrags.distinct.of_append_right
        plain := fun l hl => ufrags.plain l (List.mem_append_right _ hl) }
    exact ih (h.step ufrags succeed.1) hrest succeed.2

/-- Where every creation succeeds, a stream has registered peers only. -/
theorem registered_run (es : List Event) (ufrags : EngineUfrags (generated start es))
    (succeed : Meets step Succeeds start es) : AllRegistered (after step start es).server := by
  have hstart : Registering start (generated start es) :=
    { inv := streamInv_start
      registered := fun _ _ _ h => nomatch h
      spent := fun _ _ h => nomatch h }
  have hend := hstart.run ufrags succeed
  intro c p hp
  have hsession : ∃ i job, (after step start es).sessions i = some (job, true) ∧ job.peer = p := by
    rcases hp with hpublisher | hplayer
    · obtain ⟨i, job, hi, _, hpeer, _⟩ := hend.inv.publisher c p hpublisher
      exact ⟨i, job, hi, hpeer⟩
    · obtain ⟨i, job, hi, _, hpeer, _⟩ := hend.inv.players c p hplayer
      exact ⟨i, job, hi, hpeer⟩
  obtain ⟨i, job, hi, rfl⟩ := hsession
  exact hend.registered i job true hi

/-! ### A publisher and a player, and a publisher without a connection -/

def publishAndPlay : List Event :=
  served 0 .publish [0x2F, 0x73] [0x61] ++ served 1 .play [0x2F, 0x73] [0x63]

theorem registered_run_publishAndPlay :
    AllRegistered (after step start publishAndPlay).server :=
  registered_run publishAndPlay (by decide +kernel) (by decide +kernel)

/-- The engine gives no connection, and the peer becomes the publisher of "s". -/
def unconnected : List Event :=
  [.accept .publish,
    .body 0 (sdpOf [0x62]) [0x2F, 0x73]
      { connects := false, localVideoSsrc := 1, localAudioSsrc := 2, answer := [] },
    .written 0 0]

theorem unconnected_installed :
    ¬ ∀ es, EngineUfrags (generated start es) → AllRegistered (after step start es).server := by
  intro h
  have hall := h unconnected (by decide +kernel) 0 0 (Or.inl (by decide +kernel))
  exact absurd hall.1 (by decide +kernel)

end Sars
