import Sars.CallbackSafety

/-!
# When the process stays up

A request whose url has no stream id makes the process exit, and a callback that
follows a null pointer crashes it: the link from a peer to its stream, the
publisher of the stream and its connection, and the sender of a peer that was
never registered. Nothing else stops it. In particular no datagram does, and no
frame, since players that are connected have a connection.
-/

namespace Sars

open ByteMemory ObjectHeap GrowingMap EventRuns World

/-- The pointers that this callback follows are not null. -/
def Ready (srv : RTCServer) (p : Nat) (cb : RTCServer.Callback) : Prop :=
  SafeCallback srv p cb ∧
    ∀ data addr, cb = .onSendDataToRemote data addr → (srv.peers.get p).sender = true

/-- What the process survives. -/
def Survives (w : World) : Event → Prop
  | .body i _ streamUrl _ => (∃ kind, w.handlers[i]? = some (.reading kind)) →
      getStreamIdFromStreamUrl streamUrl ≠ none
  | .callback p cb => w.Connected p → Ready w.server p cb
  | _ => True

section

variable {σ : Sessions} {srv : RTCServer} {p : Nat}

theorem cacheMediaLoop_total (players : List Nat) (media : MediaData) (ssrc payloadType : UInt32)
    (connected : ∀ q ∈ players, (srv.peers.get q).peerconnectionState = .kConnected →
      (srv.peers.get q).peerConnection = true) :
    ∃ out, srv.cacheMediaLoop media players ssrc payloadType = some out := by
  induction players generalizing ssrc payloadType with
  | nil => exact ⟨[], rfl⟩
  | cons it players ih =>
    have hrest := fun q hq => connected q (List.mem_cons_of_mem it hq)
    simp only [RTCServer.cacheMediaLoop]
    by_cases hstate : (srv.peers.get it).peerconnectionState = .kConnected
    · have hconn := connected it List.mem_cons_self hstate
      rw [if_neg (not_not_intro hstate), if_pos hconn]
      split
      all_goals
        obtain ⟨fed, hfed⟩ := ih _ _ hrest
        exact ⟨_, by rw [hfed]; rfl⟩
    · rw [if_pos hstate]
      exact ih ssrc payloadType hrest

/-- A player asks exactly when it is linked all the way. -/
theorem requestPublisherIFrame_iff (hclass : (srv.peers.get p).peerClass = .player) :
    (∃ out, srv.requestPublisherIFrame p = some out) ↔ Linked srv p := by
  constructor
  · rintro ⟨out, h⟩
    obtain ⟨c, hc, h⟩ := Option.bind_eq_some_iff.mp h
    obtain ⟨q, hq, h⟩ := Option.bind_eq_some_iff.mp h
    simp only [RTCServer.requestIFrame] at h
    split_ifs at h with hconn
    exact ⟨c, hc, fun _ => ⟨q, hq, hconn⟩⟩
  · rintro ⟨c, hc, hplayer⟩
    obtain ⟨q, hq, hconn⟩ := hplayer hclass
    refine ⟨[.requestIFrame q (srv.peers.get q).remoteVideoSsrc], ?_⟩
    simp only [RTCServer.requestPublisherIFrame, hc, hq, Option.bind_eq_bind, Option.bind_some,
      RTCServer.requestIFrame, hconn, if_true]

/-- The state of a player does not matter to its links. -/
theorem linked_updateState (newState : PeerConnectionState) :
    Linked (srv.updatePeer p fun peer => { peer with peerconnectionState := newState }) p ↔
      Linked srv p := by
  have field : ∀ {β : Type} (g : RtcPeer → β)
      (_ : ∀ peer : RtcPeer, g { peer with peerconnectionState := newState } = g peer) (q : Nat),
      g ((srv.updatePeer p fun peer => { peer with peerconnectionState := newState }).peers.get q) =
        g (srv.peers.get q) := fun g same q => Heap.get_modify_field g same q
  simp only [Linked, field RtcPeer.scache (fun _ => rfl), field RtcPeer.peerClass (fun _ => rfl),
    field RtcPeer.peerConnection (fun _ => rfl)]
  rfl

theorem callback_iff (inv : StreamInv σ srv) (cb : RTCServer.Callback) :
    (∃ result, srv.callback p cb = some result) ↔ Ready srv p cb := by
  have always : ∀ {result : RTCServer × List Output}, srv.callback p cb = some result →
      Ready srv p cb → ((∃ result, srv.callback p cb = some result) ↔ Ready srv p cb) :=
    fun hcall hready => ⟨fun _ => hready, fun _ => ⟨_, hcall⟩⟩
  have asks : ∀ {srv' : RTCServer}, (∃ result,
        ((srv'.requestPublisherIFrame p).map fun out => (srv', out)) = some result) ↔
      ∃ out, srv'.requestPublisherIFrame p = some out := by
    intro srv'
    cases srv'.requestPublisherIFrame p <;> simp
  cases cb with
  | onIceConnectionChange | onAddVideoTrack | onAddAudioTrack | onAddLocalVideoTrack
    | onAddLocalAudioTrack =>
    refine always rfl ⟨?_, by intro _ _ h; cases h⟩
    intro hreads
    cases hclass : (srv.peers.get p).peerClass <;> rw [hclass] at hreads <;> cases hreads
  | onConnectionChange newState =>
    cases hclass : (srv.peers.get p).peerClass with
    | publisher =>
      have hcall : srv.callback p (.onConnectionChange newState) =
          some (srv.updatePeer p fun peer => peer.onConnectionChange newState, []) := by
        simp only [RTCServer.callback, hclass]
      refine always hcall ⟨?_, by intro _ _ h; cases h⟩
      intro hreads
      rw [hclass] at hreads
      cases hreads
    | player =>
      by_cases hconnected : newState = .kConnected
      · simp only [RTCServer.callback, hclass, if_pos hconnected, asks]
        have hclass' : ((srv.updatePeer p fun peer =>
            { peer with peerconnectionState := newState }).peers.get p).peerClass = .player := by
          rw [← hclass]
          exact Heap.get_modify_field RtcPeer.peerClass (by intro _; rfl) p
        rw [requestPublisherIFrame_iff hclass', linked_updateState]
        simp [Ready, SafeCallback, readsStream, hclass, hconnected]
      · have hcall : srv.callback p (.onConnectionChange newState) =
            some (srv.updatePeer p fun peer =>
              { peer with peerconnectionState := newState }, []) := by
          simp only [RTCServer.callback, hclass, if_neg hconnected]
        refine always hcall ⟨?_, by intro _ _ h; cases h⟩
        intro hreads
        rw [hclass] at hreads
        exact absurd (of_decide_eq_true hreads) hconnected
  | onRecvMediaData media =>
    cases hclass : (srv.peers.get p).peerClass with
    | publisher =>
      constructor
      · rintro ⟨result, hcall⟩
        simp only [RTCServer.callback, hclass] at hcall
        obtain ⟨c, hc, _⟩ := Option.bind_eq_some_iff.mp hcall
        refine ⟨fun _ => ⟨c, hc, fun hplayer => ?_⟩, by intro _ _ h; cases h⟩
        rw [hclass] at hplayer
        cases hplayer
      · rintro ⟨hsafe, _⟩
        obtain ⟨c, hc, _⟩ := hsafe (by rw [hclass]; rfl)
        obtain ⟨fed, hfed⟩ :=
          cacheMediaLoop_total (srv.scaches.get c).players media 0 0 fun q _ hstate =>
            inv.connected q (by rw [hstate]; decide)
        refine ⟨(srv, fed), ?_⟩
        simp only [RTCServer.callback, hclass, hc, RTCServer.cacheMedia, Option.bind_eq_bind,
          Option.bind_some, hfed, Option.pure_def]
    | player =>
      have hcall : srv.callback p (.onRecvMediaData media) = some (srv, []) := by
        simp only [RTCServer.callback, hclass]
      refine always hcall ⟨?_, by intro _ _ h; cases h⟩
      intro hreads
      rw [hclass] at hreads
      cases hreads
  | onRequestIFrame ssrc =>
    cases hclass : (srv.peers.get p).peerClass with
    | publisher =>
      have hcall : srv.callback p (.onRequestIFrame ssrc) = some (srv, []) := by
        simp only [RTCServer.callback, hclass]
      refine always hcall ⟨?_, by intro _ _ h; cases h⟩
      intro hreads
      rw [hclass] at hreads
      cases hreads
    | player =>
      simp only [RTCServer.callback, hclass, asks]
      rw [requestPublisherIFrame_iff hclass]
      simp [Ready, SafeCallback, readsStream, hclass]
  | onSendDataToRemote data addr =>
    have hreads :
        readsStream (srv.peers.get p).peerClass (.onSendDataToRemote data addr) = false := by
      cases (srv.peers.get p).peerClass <;> rfl
    simp only [RTCServer.callback, RTCServer.udpSocketSend, RTCServer.sendPktToClient, Ready,
      SafeCallback, hreads]
    cases hsender : (srv.peers.get p).sender <;> simp

end

/-- The condition is exact for each step. -/
theorem step_running_iff {w : World} (e : Event) (inv : StreamInv w.sessions w.server)
    (running : w.status = .running) : (w.step e).1.status = .running ↔ Survives w e := by
  cases e with
  | accept kind =>
    refine ⟨fun _ => trivial, fun _ => ?_⟩
    rw [step_accept running]
    exact running
  | body i offer streamUrl engine =>
    by_cases reading : ∃ kind, w.handlers[i]? = some (.reading kind)
    · obtain ⟨kind, hread⟩ := reading
      rw [step_body running hread]
      rcases handleBody_cases kind w.server offer streamUrl engine with ⟨hnone, hexit⟩ |
        ⟨streamID, srv, scache, hid, _, ⟨_, hret⟩ | ⟨_, srv', answer, _, hwrite⟩⟩
      · simp [World.stepBody, hexit, Survives, hread, hnone]
      · simp [World.stepBody, hret, Survives, hread, hid, running]
      · simp [World.stepBody, hwrite, Survives, hread, hid, running]
    · rw [step_body_idle (not_exists.mp reading)]
      exact ⟨fun _ h => absurd h reading, fun _ => running⟩
  | written i ret =>
    refine ⟨fun _ => trivial, fun _ => ?_⟩
    by_cases writing : ∃ job, w.handlers[i]? = some (.writing job)
    · obtain ⟨job, writing⟩ := writing
      rw [step_written running writing]
      exact running
    · rw [step_written_idle (not_exists.mp writing)]
      exact running
  | datagram buf addr =>
    rw [step_datagram_eq running, stepDatagram_eq]
    cases target w.server buf.val addr <;> simp [Survives, running]
  | callback p cb =>
    rw [step_callback running]
    by_cases connected : w.Connected p
    · cases hcall : w.server.callback p cb with
      | none =>
        rw [stepCallback_none connected hcall]
        refine ⟨(by intro h; cases h), fun h => ?_⟩
        obtain ⟨result, hsome⟩ := (callback_iff inv cb).mpr (h connected)
        rw [hcall] at hsome
        cases hsome
      | some result =>
        rw [stepCallback_some connected hcall]
        exact ⟨fun _ _ => (callback_iff inv cb).mp ⟨result, hcall⟩, fun _ => running⟩
    · rw [World.stepCallback, if_neg connected]
      exact ⟨fun _ h => absurd h connected, fun _ => running⟩

/-- The process is up after a run exactly when it survives every step. -/
theorem running_iff (es : List Event) :
    (after step start es).status = .running ↔ Meets step Survives start es := by
  refine lasts_iff (fun w : World => w.status = .running)
    (I := fun w : World => StreamInv w.sessions w.server)
    (fun w e h => h.session (step_session w e))
    (fun w e h hrun => step_running_iff e h hrun) (fun w e hstop => ?_) streamInv_start rfl es
  rw [step_stopped hstop]
  exact hstop

end Sars
