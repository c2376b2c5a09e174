import Sars.AddressBindings
import Sars.Reordering

/-!
# Datagrams out of order

The network may deliver the datagrams of different senders in any order. When
they are for different peers the server does not notice: it ends in the same
state, up to the order in which addresses were entered into the map, and every
peer sees the same datagrams and sends the same ones. A datagram may also change
places with a callback of another peer, with the arrival of a request and with
the return of a write; only the body of a request has to keep its place, since
it may register the peer that the datagram names.
-/

namespace Sars

open ByteMemory ObjectHeap GrowingMap EventRuns World

/-! ## What a callback does -/

/-- What a callback does to its own peer. -/
def RtcPeer.react (peer : RtcPeer) : RTCServer.Callback → RtcPeer
  | .onIceConnectionChange newState => peer.onIceConnectionChange newState
  | .onConnectionChange newState =>
    match peer.peerClass with
    | .publisher => peer.onConnectionChange newState
    | .player => { peer with peerconnectionState := newState }
  | .onAddVideoTrack ssrc => peer.onAddVideoTrack ssrc
  | .onAddAudioTrack ssrc => peer.onAddAudioTrack ssrc
  | .onAddLocalVideoTrack ssrc codecs => peer.onAddLocalVideoTrack ssrc codecs
  | .onAddLocalAudioTrack ssrc codecs => peer.onAddLocalAudioTrack ssrc codecs
  | .onRecvMediaData _ | .onRequestIFrame _ | .onSendDataToRemote _ _ => peer

/-- What a callback emits; `none` is a null pointer. -/
def RTCServer.emits (srv : RTCServer) (p : Nat) : RTCServer.Callback → Option (List Output)
  | .onConnectionChange newState =>
    match (srv.peers.get p).peerClass with
    | .publisher => some []
    | .player => if newState = .kConnected then srv.requestPublisherIFrame p else some []
  | .onRecvMediaData media =>
    match (srv.peers.get p).peerClass with
    | .publisher => (srv.peers.get p).scache.bind fun scache => srv.cacheMedia scache media
    | .player => some []
  | .onRequestIFrame _ =>
    match (srv.peers.get p).peerClass with
    | .publisher => some []
    | .player => srv.requestPublisherIFrame p
  | .onSendDataToRemote data addr => srv.udpSocketSend p data addr
  | _ => some []

/-- The fields of a peer that others look at. -/
def RtcPeer.visible (p : RtcPeer) : RtcPeer := { p with remoteAddr := none }

/-- Two servers that differ in bindings and in the remote addresses of other peers than `p`. -/
structure Alike (p : Nat) (srv srv' : RTCServer) : Prop where
  scaches : srv'.scaches = srv.scaches
  visible : ∀ q, (srv'.peers.get q).visible = (srv.peers.get q).visible
  remoteAddr : (srv'.peers.get p).remoteAddr = (srv.peers.get p).remoteAddr

theorem Alike.peer {p : Nat} {srv srv' : RTCServer} (h : Alike p srv srv') :
    srv'.peers.get p = srv.peers.get p := by
  have hvisible := h.visible p
  have hremote := h.remoteAddr
  generalize srv'.peers.get p = a at hvisible hremote
  generalize srv.peers.get p = b at hvisible hremote
  cases a
  cases b
  simp only [RtcPeer.visible, RtcPeer.mk.injEq] at hvisible hremote ⊢
  tauto

theorem Alike.field {β : Type} {p : Nat} {srv srv' : RTCServer} (h : Alike p srv srv')
    (g : RtcPeer → β) (same : ∀ peer : RtcPeer, g peer.visible = g peer) (q : Nat) :
    g (srv'.peers.get q) = g (srv.peers.get q) := by
  rw [← same, h.visible q, same]

theorem Alike.requestPublisherIFrame {p : Nat} {srv srv' : RTCServer} (h : Alike p srv srv')
    (q : Nat) : srv'.requestPublisherIFrame q = srv.requestPublisherIFrame q := by
  have hconn := h.field RtcPeer.peerConnection fun _ => rfl
  have hssrc := h.field RtcPeer.remoteVideoSsrc fun _ => rfl
  have hscache := h.field RtcPeer.scache fun _ => rfl
  simp only [RTCServer.requestPublisherIFrame, RTCServer.requestIFrame, h.scaches, hconn, hssrc,
    hscache]

theorem Alike.cacheMediaLoop {p : Nat} {srv srv' : RTCServer} (h : Alike p srv srv')
    (media : MediaData) (players : List Nat) (ssrc payloadType : UInt32) :
    srv'.cacheMediaLoop media players ssrc payloadType =
      srv.cacheMediaLoop media players ssrc payloadType := by
  have hconn := h.field RtcPeer.peerConnection fun _ => rfl
  have hstate := h.field RtcPeer.peerconnectionState fun _ => rfl
  have hvideo := h.field RtcPeer.localVideoSsrc fun _ => rfl
  have haudio := h.field RtcPeer.localAudioSsrc fun _ => rfl
  have hvideotype := h.field RtcPeer.localVideoPayloadtype fun _ => rfl
  have haudiotype := h.field RtcPeer.localAudioPayloadtype fun _ => rfl
  induction players generalizing ssrc payloadType with
  | nil => rfl
  | cons it players ih =>
    simp only [RTCServer.cacheMediaLoop, hconn, hstate, hvideo, haudio, hvideotype, haudiotype, ih]

/-- A callback emits the same when only bindings and other remote addresses differ. -/
theorem Alike.emits {p : Nat} {srv srv' : RTCServer} (h : Alike p srv srv')
    (cb : RTCServer.Callback) : srv'.emits p cb = srv.emits p cb := by
  cases cb with
  | onIceConnectionChange | onAddVideoTrack | onAddAudioTrack | onAddLocalVideoTrack
  | onAddLocalAudioTrack => rfl
  | onConnectionChange newState =>
    simp only [RTCServer.emits, h.peer, h.requestPublisherIFrame]
  | onRecvMediaData media =>
    simp only [RTCServer.emits, h.peer, RTCServer.cacheMedia, h.scaches, h.cacheMediaLoop]
  | onRequestIFrame ssrc =>
    simp only [RTCServer.emits, h.peer, h.requestPublisherIFrame]
  | onSendDataToRemote data addr =>
    simp only [RTCServer.emits, RTCServer.udpSocketSend, RTCServer.sendPktToClient, h.peer]

theorem updatePeer_same {srv : RTCServer} {p : Nat} {f : RtcPeer → RtcPeer}
    (same : f (srv.peers.get p) = srv.peers.get p) : srv.updatePeer p f = srv := by
  rw [RTCServer.updatePeer, Heap.modify_same same]

theorem updatePeer_congr {srv : RTCServer} {p : Nat} {f g : RtcPeer → RtcPeer}
    (same : f (srv.peers.get p) = g (srv.peers.get p)) :
    srv.updatePeer p f = srv.updatePeer p g := by
  rw [RTCServer.updatePeer, Heap.modify_congr same, RTCServer.updatePeer]

/-- The state of a connection is not asked for when key frames are requested. -/
theorem requestPublisherIFrame_state (srv : RTCServer) (p : Nat) (newState : PeerConnectionState) :
    (srv.updatePeer p fun peer =>
      { peer with peerconnectionState := newState }).requestPublisherIFrame p =
      srv.requestPublisherIFrame p := by
  have same := fun {β : Type} (g : RtcPeer → β)
      (hg : ∀ a : RtcPeer, g { a with peerconnectionState := newState } = g a) (q : Nat) =>
    Heap.get_modify_field g (h := srv.peers) (p := p) hg q
  have hconn := same RtcPeer.peerConnection fun _ => rfl
  have hssrc := same RtcPeer.remoteVideoSsrc fun _ => rfl
  have hscache := same RtcPeer.scache fun _ => rfl
  simp only [RTCServer.requestPublisherIFrame, RTCServer.requestIFrame, RTCServer.updatePeer, hconn,
    hssrc, hscache]

/-- A callback changes its own peer and emits what the state before it says. -/
theorem callback_eq (srv : RTCServer) (p : Nat) (cb : RTCServer.Callback) :
    srv.callback p cb =
      (srv.emits p cb).map fun out => (srv.updatePeer p fun peer => peer.react cb, out) := by
  cases cb with
  | onIceConnectionChange | onAddVideoTrack | onAddAudioTrack | onAddLocalVideoTrack
  | onAddLocalAudioTrack => rfl
  | onConnectionChange newState =>
    cases hclass : (srv.peers.get p).peerClass with
    | publisher =>
      have hreact : (fun peer : RtcPeer => peer.react (.onConnectionChange newState))
          (srv.peers.get p) = (srv.peers.get p).onConnectionChange newState := by
        simp only [RtcPeer.react, hclass]
      rw [updatePeer_congr (g := fun peer => peer.onConnectionChange newState) hreact]
      simp only [RTCServer.callback, RTCServer.emits, hclass, Option.map_some]
    | player =>
      have hreact : (fun peer : RtcPeer => peer.react (.onConnectionChange newState))
          (srv.peers.get p) = { srv.peers.get p with peerconnectionState := newState } := by
        simp only [RtcPeer.react, hclass]
      rw [updatePeer_congr (g := fun peer => { peer with peerconnectionState := newState }) hreact]
      simp only [RTCServer.callback, RTCServer.emits, hclass]
      split_ifs
      · rw [requestPublisherIFrame_state]
      · rfl
  | onRecvMediaData media =>
    rw [updatePeer_same rfl]
    cases hclass : (srv.peers.get p).peerClass with
    | publisher =>
      simp only [RTCServer.callback, RTCServer.emits, hclass]
      cases (srv.peers.get p).scache with
      | none => rfl
      | some scache =>
        simp only [Option.bind_eq_bind, Option.bind_some]
        cases srv.cacheMedia scache media <;> rfl
    | player => simp only [RTCServer.callback, RTCServer.emits, hclass, Option.map_some]
  | onRequestIFrame ssrc =>
    rw [updatePeer_same rfl]
    cases hclass : (srv.peers.get p).peerClass <;>
      simp only [RTCServer.callback, RTCServer.emits, hclass, Option.map_some]
  | onSendDataToRemote data addr =>
    rw [updatePeer_same rfl]
    rfl

/-! ## The order of the bindings -/

def RTCServer.withAddrs (srv : RTCServer) (m : Map Bytes Nat) : RTCServer :=
  { srv with sarsPeersAddrMaps := m }

def World.withAddrs (w : World) (m : Map Bytes Nat) : World :=
  { w with server := w.server.withAddrs m }

/-- The same process; the addresses may have been bound in another order. -/
def SameWorld (w w' : World) : Prop :=
  ∃ m, w' = w.withAddrs m ∧ ∀ t, m.lookup t = w.server.sarsPeersAddrMaps.lookup t

theorem SameWorld.refl (w : World) : SameWorld w w :=
  ⟨w.server.sarsPeersAddrMaps, rfl, fun _ => rfl⟩

theorem SameWorld.trans {u v w : World} (h : SameWorld u v) (h' : SameWorld v w) :
    SameWorld u w := by
  obtain ⟨m, rfl, hm⟩ := h
  obtain ⟨m', rfl, hm'⟩ := h'
  exact ⟨m', rfl, fun t => (hm' t).trans (hm t)⟩

def Progress.map (f : RTCServer → RTCServer) : Progress → Progress
  | .exit => .exit
  | .ret srv code => .ret (f srv) code
  | .write srv job answerSdp => .write (f srv) job answerSdp

section

variable (srv : RTCServer) (m : Map Bytes Nat)

theorem getOrCreateStreamCache_withAddrs (streamId : Bytes) :
    (srv.withAddrs m).getOrCreateStreamCache streamId =
      ((srv.getOrCreateStreamCache streamId).1.withAddrs m,
        (srv.getOrCreateStreamCache streamId).2) := by
  simp only [RTCServer.getOrCreateStreamCache, RTCServer.withAddrs]
  cases srv.sarsPeersStreamIDMaps.lookup streamId <;> rfl

theorem createPeer_withAddrs (peerClass : PeerClass) (offer : Bytes) (engine : Engine) :
    RTCServer.createPeer peerClass (srv.withAddrs m) offer engine =
      ((RTCServer.createPeer peerClass srv offer engine).1.withAddrs m,
        (RTCServer.createPeer peerClass srv offer engine).2) := by
  simp only [RTCServer.createPeer, RTCServer.createRtcPeer]
  by_cases hconnects : engine.connects = true
  · simp only [hconnects, not_true_eq_false, if_false, if_true]
    cases getUfragFromSdp offer with
    | none => rfl
    | some ufrag => cases getUfragFromSdp engine.answer <;> rfl
  · simp only [hconnects, Bool.false_eq_true, not_false_eq_true, if_true]
    rfl

theorem handleBody_withAddrs (kind : RequestKind) (offer streamUrl : Bytes) (engine : Engine) :
    Signalling.handleBody kind (srv.withAddrs m) offer streamUrl engine =
      (Signalling.handleBody kind srv offer streamUrl engine).map (·.withAddrs m) := by
  cases kind with
  | publish =>
    simp only [Signalling.handleBody, Signalling.handlePublishBody]
    cases getStreamIdFromStreamUrl streamUrl with
    | none => rfl
    | some streamID =>
      simp only [getOrCreateStreamCache_withAddrs, RTCServer.createRtcPublisher,
        createPeer_withAddrs]
      have hsame : ((srv.getOrCreateStreamCache streamID).1.withAddrs m).scaches =
        (srv.getOrCreateStreamCache streamID).1.scaches := rfl
      rw [hsame]
      split_ifs <;> rfl
  | play =>
    simp only [Signalling.handleBody, Signalling.handlePlayBody]
    cases getStreamIdFromStreamUrl streamUrl with
    | none => rfl
    | some streamID =>
      simp only [getOrCreateStreamCache_withAddrs, RTCServer.createRtcPlayer,
        createPeer_withAddrs]
      have hsame : ((srv.getOrCreateStreamCache streamID).1.withAddrs m).scaches =
        (srv.getOrCreateStreamCache streamID).1.scaches := rfl
      rw [hsame]
      split_ifs <;> rfl

theorem callback_withAddrs (p : Nat) (cb : RTCServer.Callback) :
    (srv.withAddrs m).callback p cb =
      (srv.callback p cb).map fun r => (r.1.withAddrs m, r.2) := by
  have halike : Alike p srv (srv.withAddrs m) :=
    { scaches := rfl, visible := fun _ => rfl, remoteAddr := rfl }
  rw [callback_eq, callback_eq, halike.emits, Option.map_map]
  rfl

theorem target_withAddrs {m : Map Bytes Nat}
    (same : ∀ t, m.lookup t = srv.sarsPeersAddrMaps.lookup t) (buf : Bytes) (addr : SockaddrIn) :
    target (srv.withAddrs m) buf addr = target srv buf addr := by
  simp only [target, RTCServer.withAddrs, same]

end

theorem stepDatagram_withAddrs {w : World} {m : Map Bytes Nat}
    (same : ∀ t, m.lookup t = w.server.sarsPeersAddrMaps.lookup t) (buf : Datagram)
    (addr : SockaddrIn) :
    SameWorld (w.stepDatagram buf.val addr).1 ((w.withAddrs m).stepDatagram buf.val addr).1 ∧
      (w.stepDatagram buf.val addr).2 = ((w.withAddrs m).stepDatagram buf.val addr).2 := by
  have htarget : target (w.withAddrs m).server buf.val addr = target w.server buf.val addr :=
    target_withAddrs w.server same buf.val addr
  rw [stepDatagram_eq, stepDatagram_eq, htarget]
  cases target w.server buf.val addr with
  | none => exact ⟨⟨m, rfl, same⟩, rfl⟩
  | some p => exact ⟨⟨emplace m (remoteText addr) p, rfl, lookup_emplace_congr same _ p⟩, rfl⟩

theorem stepCallback_withAddrs {w : World} {m : Map Bytes Nat}
    (same : ∀ t, m.lookup t = w.server.sarsPeersAddrMaps.lookup t) (p : Nat)
    (cb : RTCServer.Callback) :
    SameWorld (w.stepCallback p cb).1 ((w.withAddrs m).stepCallback p cb).1 ∧
      (w.stepCallback p cb).2 = ((w.withAddrs m).stepCallback p cb).2 := by
  have hcall : (w.withAddrs m).server.callback p cb =
      (w.server.callback p cb).map fun r => (r.1.withAddrs m, r.2) :=
    callback_withAddrs w.server m p cb
  by_cases hconn : w.Connected p
  · have hconn' : (w.withAddrs m).Connected p := hconn
    cases hresult : w.server.callback p cb with
    | none =>
      rw [hresult] at hcall
      rw [stepCallback_none hconn hresult, stepCallback_none hconn' hcall]
      exact ⟨⟨m, rfl, same⟩, rfl⟩
    | some result =>
      obtain ⟨srv, out⟩ := result
      rw [hresult] at hcall
      rw [stepCallback_some hconn hresult, stepCallback_some hconn' hcall]
      have hframed := callback_framed hresult
      refine ⟨⟨m, rfl, fun t => ?_⟩, rfl⟩
      rw [same, hframed.addrs]
  · have hconn' : ¬ (w.withAddrs m).Connected p := hconn
    simp only [World.stepCallback, if_neg hconn, if_neg hconn']
    exact ⟨⟨m, rfl, same⟩, trivial⟩

theorem stepBody_withAddrs {w : World} {m : Map Bytes Nat}
    (same : ∀ t, m.lookup t = w.server.sarsPeersAddrMaps.lookup t) (i : Nat) (kind : RequestKind)
    (offer streamUrl : Bytes) (engine : Engine) :
    SameWorld (w.stepBody i kind offer streamUrl engine).1
        ((w.withAddrs m).stepBody i kind offer streamUrl engine).1 ∧
      (w.stepBody i kind offer streamUrl engine).2 =
        ((w.withAddrs m).stepBody i kind offer streamUrl engine).2 := by
  have hbody : Signalling.handleBody kind (w.withAddrs m).server offer streamUrl engine =
      (Signalling.handleBody kind w.server offer streamUrl engine).map (·.withAddrs m) :=
    handleBody_withAddrs w.server m kind offer streamUrl engine
  simp only [World.stepBody, hbody]
  rcases handleBody_cases kind w.server offer streamUrl engine with ⟨_, hexit⟩ |
    ⟨streamID, srv, scache, _, hopened, ⟨_, hret⟩ | ⟨_, srv', answer, hcreated, hwrite⟩⟩
  · rw [hexit]
    exact ⟨⟨m, rfl, same⟩, rfl⟩
  · rw [hret]
    refine ⟨⟨m, rfl, fun t => ?_⟩, rfl⟩
    rw [same, hopened.addrs]
  · rw [hwrite]
    refine ⟨⟨m, rfl, fun t => ?_⟩, rfl⟩
    rw [same, hcreated.addrs, hopened.addrs]

theorem stepWritten_withAddrs {w : World} {m : Map Bytes Nat}
    (same : ∀ t, m.lookup t = w.server.sarsPeersAddrMaps.lookup t) (i : Nat) (job : Job)
    (ret : Int) :
    SameWorld (w.stepWritten i job ret).1 ((w.withAddrs m).stepWritten i job ret).1 ∧
      (w.stepWritten i job ret).2 = ((w.withAddrs m).stepWritten i job ret).2 := by
  cases hkind : job.kind <;>
    simp only [World.stepWritten, Signalling.handleWritten, hkind] <;>
    exact ⟨⟨m, rfl, same⟩, rfl⟩

/-- No step can tell in which order the addresses were bound. -/
theorem step_withAddrs {w : World} {m : Map Bytes Nat}
    (same : ∀ t, m.lookup t = w.server.sarsPeersAddrMaps.lookup t) (e : Event) :
    SameWorld (w.step e).1 ((w.withAddrs m).step e).1 ∧
      (w.step e).2 = ((w.withAddrs m).step e).2 := by
  by_cases running : w.status = .running
  · have running' : (w.withAddrs m).status = .running := running
    cases e with
    | accept kind =>
      rw [step_accept running, step_accept running']
      exact ⟨⟨m, rfl, same⟩, rfl⟩
    | body i offer streamUrl engine =>
      by_cases hread : ∃ kind, w.handlers[i]? = some (.reading kind)
      · obtain ⟨kind, hkind⟩ := hread
        rw [step_body running hkind, step_body (w := w.withAddrs m) running' hkind]
        exact stepBody_withAddrs same i kind offer streamUrl engine
      · have hother := not_exists.mp hread
        rw [step_body_idle hother, step_body_idle (w := w.withAddrs m) hother]
        exact ⟨⟨m, rfl, same⟩, rfl⟩
    | written i ret =>
      by_cases hwrite : ∃ job, w.handlers[i]? = some (.writing job)
      · obtain ⟨job, hjob⟩ := hwrite
        rw [step_written running hjob, step_written (w := w.withAddrs m) running' hjob]
        exact stepWritten_withAddrs same i job ret
      · have hother := not_exists.mp hwrite
        rw [step_written_idle hother, step_written_idle (w := w.withAddrs m) hother]
        exact ⟨⟨m, rfl, same⟩, rfl⟩
    | datagram buf addr =>
      rw [step_datagram_eq running, step_datagram_eq running']
      exact stepDatagram_withAddrs same buf addr
    | callback p cb =>
      rw [step_callback running, step_callback running']
      exact stepCallback_withAddrs same p cb
  · have running' : ¬ (w.withAddrs m).status = .running := running
    rw [step_stopped running, step_stopped running']
    exact ⟨⟨m, rfl, same⟩, rfl⟩

/-! ## Independent events -/

/-- The peer a datagram is handed to or sent by. -/
def Output.party : Output → Option Nat
  | .udpSocketRecv p _ _ | .processRemoteData p _ _ | .sendTo p _ _ => some p
  | _ => none

/-- Events a datagram may change places with. -/
def Passes (w : World) (buf : Datagram) (addr : SockaddrIn) : Event → Prop
  | .accept _ | .written _ _ => True
  | .body _ _ _ _ => False
  | .datagram buf' addr' =>
    addr ≠ addr' ∧ ∀ p, target w.server buf.val addr = some p →
      target w.server buf'.val addr' ≠ some p
  | .callback p cb =>
    target w.server buf.val addr ≠ some p ∧ (w.step (.callback p cb)).1.status = w.status

/-- One of the two is a datagram and may change places with the other. -/
def Independent (w : World) (a b : Event) : Prop :=
  (∃ buf addr, a = .datagram buf addr ∧ Passes w buf addr b) ∨
    ∃ buf addr, b = .datagram buf addr ∧ Passes w buf addr a

theorem SameWorld.symm {w w' : World} (h : SameWorld w w') : SameWorld w' w := by
  obtain ⟨m, rfl, hm⟩ := h
  exact ⟨w.server.sarsPeersAddrMaps, rfl, fun t => (hm t).symm⟩

/-- An event keeps what the target of a datagram depends on. -/
theorem Move.target {w w' : World} {buf : Datagram} {addr : SockaddrIn} {e : Event}
    {out : List Output} (hm : Move w e w' out) (h : Passes w buf addr e) :
    target w'.server buf.val addr = target w.server buf.val addr := by
  have same : ∀ srv : RTCServer, srv.sarsPeersUfragMaps = w.server.sarsPeersUfragMaps →
      srv.sarsPeersAddrMaps.lookup (remoteText addr) =
        w.server.sarsPeersAddrMaps.lookup (remoteText addr) →
      Sars.target srv buf.val addr = Sars.target w.server buf.val addr := by
    intro srv hufrags haddr
    simp only [Sars.target, hufrags, haddr]
  cases hm with
  | idle => rfl
  | stopped => rfl
  | accepted => rfl
  | rejected => exact h.elim
  | begun => exact h.elim
  | @finished i job ret =>
    obtain ⟨hufrags, haddrs, _⟩ := handleWritten_addressing w.server job ret
    exact same _ hufrags (by rw [haddrs])
  | @heard buf' addr' q targeted =>
    refine same _ rfl (lookup_emplace_ne q ?_)
    exact fun heq => h.1 (remoteText_injective heq)
  | called _ call =>
    have hframed := callback_framed call
    exact same _ hframed.ufrags (by rw [hframed.addrs])

theorem udpSocketRecv_party {srv : RTCServer} {p : Nat} {data : Bytes} {addr : NetAddr}
    {o : Output} (h : o ∈ srv.udpSocketRecv p data addr) : o.party = some p := by
  rcases List.mem_cons.mp h with rfl | h
  · rfl
  · split_ifs at h
    · rw [List.mem_singleton.mp h]
      rfl
    · cases h

theorem emits_party {srv : RTCServer} {p q : Nat} {o : Output} (h : Emits srv p o)
    (party : o.party = some q) : q = p := by
  cases o with
  | sendTo r data addr =>
    rw [← h.1]
    exact (Option.some.inj party).symm
  | requestIFrame | feedMediaData => cases party
  | write | setPublisher | addPlayer | udpSocketRecv | processRemoteData => exact h.elim

/-- What an event emits that a datagram may pass is not for the peer of the datagram. -/
theorem Move.party {w w' : World} {buf : Datagram} {addr : SockaddrIn} {e : Event}
    {out : List Output} {p : Nat} (hm : Move w e w' out) (h : Passes w buf addr e)
    (targeted : Sars.target w.server buf.val addr = some p) :
    ∀ o ∈ out, o.party ≠ some p := by
  cases hm with
  | idle => exact List.forall_mem_nil _
  | stopped => exact List.forall_mem_nil _
  | accepted => exact List.forall_mem_nil _
  | rejected => exact List.forall_mem_nil _
  | begun => exact h.elim
  | @finished i job ret =>
    cases hkind : job.kind <;> simp only [Signalling.handleWritten, hkind] <;>
      exact List.forall_mem_singleton.mpr (Option.some_ne_none p).symm
  | heard targeted' =>
    intro o ho heq
    rw [udpSocketRecv_party ho] at heq
    exact h.2 p targeted (targeted'.trans heq)
  | called _ call =>
    intro o ho heq
    exact h.1 (targeted.trans (congrArg some (emits_party (callback_emits call o ho) heq)))

theorem Move.connection {w w' : World} {buf : Datagram} {addr : SockaddrIn} {e : Event}
    {out : List Output} (hm : Move w e w' out) (h : Passes w buf addr e) (q : Nat) :
    (w'.server.peers.get q).peerConnection = (w.server.peers.get q).peerConnection := by
  cases hm with
  | idle => rfl
  | stopped => rfl
  | accepted => rfl
  | rejected => exact h.elim
  | begun => exact h.elim
  | @finished i job ret =>
    obtain ⟨_, _, hpeers⟩ := handleWritten_addressing w.server job ret
    rw [hpeers]
    exact Heap.get_modify_field RtcPeer.peerConnection (by intro _; rfl) q
  | heard => exact Heap.get_modify_field RtcPeer.peerConnection (by intro _; rfl) q
  | called _ call => exact congrArg (fun f => f.2.1) ((callback_framed call).fixed q)

theorem passes_status {w : World} {buf : Datagram} {addr : SockaddrIn} {e : Event}
    (h : Passes w buf addr e) : (w.step e).1.status = w.status := by
  by_cases running : w.status = .running
  · cases e with
    | accept kind => rw [step_accept running]
    | body => exact h.elim
    | written i ret =>
      by_cases hwrite : ∃ job, w.handlers[i]? = some (.writing job)
      · obtain ⟨job, hjob⟩ := hwrite
        rw [step_written running hjob]
        rfl
      · rw [step_written_idle (not_exists.mp hwrite)]
    | datagram buf' addr' =>
      rw [step_datagram_eq running, stepDatagram_eq]
      cases target w.server buf'.val addr' <;> rfl
    | callback p cb => exact h.2
  · rw [step_stopped running]

/-! ## Changing places -/

/-- The process after `p` has received from an address. -/
def World.reach (w : World) (addr : SockaddrIn) (p : Nat) : World :=
  { w with server := (w.server.bind addr p).heard addr p }

theorem connected_reach (w : World) (addr : SockaddrIn) (p q : Nat) :
    (w.reach addr p).Connected q ↔ w.Connected q := by
  have hsize : (w.reach addr p).server.peers.size = w.server.peers.size :=
    Heap.size_modify w.server.peers p _
  have hconn : ((w.reach addr p).server.peers.get q).peerConnection =
      (w.server.peers.get q).peerConnection :=
    Heap.get_modify_field RtcPeer.peerConnection (by intro _; rfl) q
  rw [World.Connected, World.Connected, hsize, hconn]

theorem udpSocketRecv_congr {srv srv' : RTCServer} {p : Nat} {data : Bytes} {addr : NetAddr}
    (same : (srv'.peers.get p).peerConnection = (srv.peers.get p).peerConnection) :
    srv'.udpSocketRecv p data addr = srv.udpSocketRecv p data addr := by
  simp only [RTCServer.udpSocketRecv, same]

theorem step_reach {w : World} {buf : Datagram} {addr : SockaddrIn} {p : Nat}
    (running : w.status = .running) (targeted : target w.server buf.val addr = some p) :
    w.step (.datagram buf addr) =
      (w.reach addr p, w.server.udpSocketRecv p buf.val (netAddr addr)) := by
  have hrecv : ((w.server.bind addr p).heard addr p).udpSocketRecv p buf.val (netAddr addr) =
      w.server.udpSocketRecv p buf.val (netAddr addr) :=
    udpSocketRecv_congr (Heap.get_modify_field RtcPeer.peerConnection (by intro _; rfl) p)
  rw [step_datagram_eq running, stepDatagram_eq, targeted]
  simp only [hrecv]
  rfl

theorem reach_comm (w : World) {addr addr' : SockaddrIn} {p q : Nat} (apart : addr ≠ addr')
    (other : p ≠ q) :
    SameWorld ((w.reach addr p).reach addr' q) ((w.reach addr' q).reach addr p) := by
  have htexts : remoteText addr ≠ remoteText addr' := fun h => apart (remoteText_injective h)
  have hpeers := Heap.modify_comm w.server.peers
    (fun peer : RtcPeer => { peer with remoteAddr := some (netAddr addr) })
    (fun peer : RtcPeer => { peer with remoteAddr := some (netAddr addr') }) other
  refine ⟨((w.reach addr' q).reach addr p).server.sarsPeersAddrMaps, ?_,
    lookup_emplace_comm htexts.symm w.server.sarsPeersAddrMaps q p⟩
  simp only [World.reach, World.withAddrs, RTCServer.withAddrs, RTCServer.heard, RTCServer.bind,
    RTCServer.updatePeer, hpeers]

theorem alike_reach {srv : RTCServer} {addr : SockaddrIn} {p q : Nat} (other : q ≠ p) :
    Alike q srv ((srv.bind addr p).heard addr p) :=
  { scaches := rfl
    visible := Heap.get_modify_field RtcPeer.visible (by intro _; rfl)
    remoteAddr := by rw [RTCServer.heard, RTCServer.updatePeer, Heap.get_modify_ne _ other]; rfl }

/-- A callback of another peer does not notice that `p` has received. -/
theorem callback_reach {srv : RTCServer} {addr : SockaddrIn} {p q : Nat} (other : q ≠ p)
    (cb : RTCServer.Callback) :
    ((srv.bind addr p).heard addr p).callback q cb =
      (srv.callback q cb).map fun r => ((r.1.bind addr p).heard addr p, r.2) := by
  rw [callback_eq, callback_eq, (alike_reach other).emits, Option.map_map]
  refine congrArg (fun f => (srv.emits q cb).map f) (funext fun out => Prod.ext ?_ rfl)
  simp only [RTCServer.heard, RTCServer.updatePeer, RTCServer.bind, Function.comp_apply]
  rw [Heap.modify_comm _ _ _ other]

theorem written_reach {w : World} {i : Nat} {job : Job} (addr : SockaddrIn) (p : Nat)
    (ret : Int) :
    (w.reach addr p).stepWritten i job ret =
      ((w.stepWritten i job ret).1.reach addr p, (w.stepWritten i job ret).2) := by
  have hpeers := Heap.modify_commute w.server.peers
    (f := fun peer : RtcPeer => { peer with remoteAddr := some (netAddr addr) })
    (g := fun peer : RtcPeer => { peer with scache := some job.scache }) (fun _ => rfl) p job.peer
  cases hkind : job.kind <;>
    simp only [World.stepWritten, Signalling.handleWritten, hkind] <;>
    simp only [Signalling.handlePublishWritten, Signalling.handlePlayWritten, World.reach,
      RTCServer.heard, RTCServer.bind, RTCServer.updatePeer, RTCServer.updateCache, hpeers]

/-- A datagram for `p` may come before or after an event it can pass. -/
theorem passes_reach {w : World} {buf : Datagram} {addr : SockaddrIn} {e : Event} {p : Nat}
    (running : w.status = .running) (h : Passes w buf addr e)
    (targeted : target w.server buf.val addr = some p) :
    SameWorld ((w.reach addr p).step e).1 ((w.step e).1.reach addr p) ∧
      ((w.reach addr p).step e).2 = (w.step e).2 := by
  have running' : (w.reach addr p).status = .running := running
  cases e with
  | accept kind =>
    rw [step_accept running, step_accept running']
    exact ⟨.refl _, rfl⟩
  | body => exact h.elim
  | written i ret =>
    by_cases hwrite : ∃ job, w.handlers[i]? = some (.writing job)
    · obtain ⟨job, hjob⟩ := hwrite
      rw [step_written running hjob, step_written (w := w.reach addr p) running' hjob,
        written_reach]
      exact ⟨.refl _, rfl⟩
    · have hother := not_exists.mp hwrite
      rw [step_written_idle hother, step_written_idle (w := w.reach addr p) hother]
      exact ⟨.refl _, rfl⟩
  | datagram buf' addr' =>
    have hback : Passes w buf' addr' (.datagram buf addr) :=
      ⟨h.1.symm, fun q hq hp => h.2 q hp hq⟩
    have htarget := (step_move w (.datagram buf addr)).target hback
    rw [step_reach running targeted] at htarget
    cases hto : target w.server buf'.val addr' with
    | none =>
      have hto' := htarget.trans hto
      rw [step_datagram_eq running, step_datagram_eq running', stepDatagram_eq, stepDatagram_eq,
        hto, hto']
      exact ⟨.refl _, rfl⟩
    | some q =>
      have hother : p ≠ q := fun heq => h.2 p targeted (heq ▸ hto)
      rw [step_reach running hto, step_reach running' (htarget.trans hto)]
      refine ⟨reach_comm w h.1 hother, udpSocketRecv_congr ?_⟩
      exact Heap.get_modify_field RtcPeer.peerConnection (by intro _; rfl) q
  | callback q cb =>
    have hother : q ≠ p := fun heq => h.1 (heq ▸ targeted)
    have hcall : (w.reach addr p).server.callback q cb =
        (w.server.callback q cb).map fun r => ((r.1.bind addr p).heard addr p, r.2) :=
      callback_reach hother cb
    rw [step_callback running, step_callback running']
    by_cases hconn : w.Connected q
    · have hconn' : (w.reach addr p).Connected q := (connected_reach w addr p q).mpr hconn
      cases hresult : w.server.callback q cb with
      | none =>
        rw [hresult] at hcall
        rw [stepCallback_none hconn hresult, stepCallback_none hconn' hcall]
        exact ⟨.refl _, rfl⟩
      | some result =>
        obtain ⟨srv, out⟩ := result
        rw [hresult] at hcall
        rw [stepCallback_some hconn hresult, stepCallback_some hconn' hcall]
        exact ⟨.refl _, rfl⟩
    · have hconn' : ¬ (w.reach addr p).Connected q := (connected_reach w addr p q).not.mpr hconn
      simp only [World.stepCallback, if_neg hconn, if_neg hconn']
      exact ⟨.refl _, trivial⟩

/-- A datagram and an event it can pass may change places. -/
theorem passes_swap {w : World} {buf : Datagram} {addr : SockaddrIn} {e : Event}
    (h : Passes w buf addr e) :
    SameWorld (after step w [.datagram buf addr, e]) (after step w [e, .datagram buf addr]) ∧
      ∀ k, ofKey Output.party k (outputs step w [.datagram buf addr, e]) =
        ofKey Output.party k (outputs step w [e, .datagram buf addr]) := by
  simp only [after_cons, after_nil, outputs_cons, outputs_nil, List.append_nil]
  have hmove := step_move w e
  have htarget := hmove.target h
  have hstatus := passes_status h
  by_cases running : w.status = .running
  · have running' := hstatus.trans running
    cases hto : target w.server buf.val addr with
    | none =>
      rw [step_datagram_eq running, step_datagram_eq running', stepDatagram_eq, stepDatagram_eq,
        htarget, hto]
      exact ⟨.refl _, fun k => by rw [List.nil_append, List.append_nil]⟩
    | some p =>
      obtain ⟨hsame, hout⟩ := passes_reach running h hto
      rw [step_reach running hto, step_reach running' (htarget.trans hto)]
      refine ⟨hsame, fun k => ?_⟩
      rw [hout, udpSocketRecv_congr (hmove.connection h p)]
      refine ofKey_swap (fun o ho o' ho' heq => ?_) k
      exact hmove.party h hto o' ho' (heq.symm.trans (udpSocketRecv_party ho))
  · rw [step_stopped running, step_stopped running, step_stopped running]
    exact ⟨.refl _, fun _ => rfl⟩

/-! ## Any order of arrival -/

def arrivals : Commuting step Output.party Independent where
  same := SameWorld
  refl := SameWorld.refl
  trans _ _ _ := SameWorld.trans
  congr w w' e h := by
    obtain ⟨m, rfl, hm⟩ := h
    exact step_withAddrs hm e
  swap w a b h := by
    rcases h with ⟨buf, addr, rfl, hpasses⟩ | ⟨buf, addr, rfl, hpasses⟩
    · exact passes_swap hpasses
    · obtain ⟨hsame, hout⟩ := passes_swap hpasses
      exact ⟨hsame.symm, fun k => (hout k).symm⟩

/-- Runs that differ in when independent datagrams arrived end in the same state and go on
the same way, and every peer has been handed and has sent the same datagrams in the same order. -/
theorem datagrams_reordered {es fs : List Event} (h : Reordered step Independent start es fs) :
    SameWorld (after step start es) (after step start fs) ∧
      (∀ k, ofKey Output.party k (outputs step start es) =
        ofKey Output.party k (outputs step start fs)) ∧
      ∀ gs, outputs step (after step start es) gs = outputs step (after step start fs) gs := by
  obtain ⟨hsame, hout⟩ := arrivals.reordered h
  exact ⟨hsame, hout, fun gs => (arrivals.congr_run hsame gs).2⟩

def otherClient : SockaddrIn := { client with sinPort := ⟨[0x13, 0x89], rfl⟩ }

/-- Two clients whose requests bind them to two publishers. -/
theorem datagrams_reordered_twoClients :
    SameWorld
      (after step start (twoPublishers ++
        [.datagram firstRequest client, .datagram secondRequest otherClient]))
      (after step start (twoPublishers ++
        [.datagram secondRequest otherClient, .datagram firstRequest client])) := by
  have hfirst :
      target (after step start twoPublishers).server firstRequest.val client = some 0 := by
    decide +kernel
  have hsecond : target (after step start twoPublishers).server secondRequest.val otherClient =
      some 1 := by
    decide +kernel
  have hpasses : Passes (after step start twoPublishers) firstRequest client
      (.datagram secondRequest otherClient) := by
    refine ⟨by decide, fun p hp hq => ?_⟩
    cases hfirst.symm.trans hp
    cases hsecond.symm.trans hq
  exact (datagrams_reordered (.swap twoPublishers [] (Or.inl ⟨_, _, rfl, hpasses⟩))).1

end Sars
