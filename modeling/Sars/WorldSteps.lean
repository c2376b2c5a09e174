import Sars.Signalling
import Sars.StunAcceptance

/-!
# What one step of the process can do

One lemma for each operation of the server and, from them, the list of moves:
every step of the process is one of the constructors of `Move`, with everything
the step reads in its premises. The invariants are proved from this list and
never unfold the operations again.
-/

namespace Sars

open ByteMemory ObjectHeap GrowingMap EventRuns TlvFraming

/-! ## Creating peers and caches -/

/-- The key of a peer whose creation succeeds. -/
def peerKey (offer : Bytes) (engine : Engine) : Option Bytes :=
  if engine.connects then
    match getUfragFromSdp offer, getUfragFromSdp engine.answer with
    | some ufrag, some lufrag => some (lufrag ++ 58 :: ufrag)
    | _, _ => none
  else none

/-- What the creation of a peer leaves behind, whether it succeeds or not. -/
structure Created (peerClass : PeerClass) (offer : Bytes) (engine : Engine)
    (srv srv' : RTCServer) : Prop where
  streams : srv'.sarsPeersStreamIDMaps = srv.sarsPeersStreamIDMaps
  addrs : srv'.sarsPeersAddrMaps = srv.sarsPeersAddrMaps
  scaches : srv'.scaches = srv.scaches
  size : srv'.peers.size = srv.peers.size + 1
  old : ∀ q, q < srv.peers.size → srv'.peers.get q = srv.peers.get q
  class_eq : (srv'.peers.get srv.peers.size).peerClass = peerClass
  connection : (srv'.peers.get srv.peers.size).peerConnection = engine.connects
  state : (srv'.peers.get srv.peers.size).peerconnectionState = .kNew
  unlinked : (srv'.peers.get srv.peers.size).scache = none
  unaddressed : (srv'.peers.get srv.peers.size).remoteAddr = none
  registered : ∀ key, peerKey offer engine = some key →
    (srv'.peers.get srv.peers.size).ufrag = key ∧
      (srv'.peers.get srv.peers.size).sender = true ∧
      srv'.sarsPeersUfragMaps = emplace srv.sarsPeersUfragMaps key srv.peers.size
  unregistered : peerKey offer engine = none →
    srv'.sarsPeersUfragMaps = srv.sarsPeersUfragMaps

/-- One peer has been added and nothing else has changed. -/
structure Fresh (srv srv' : RTCServer) (peer : RtcPeer) : Prop where
  streams : srv'.sarsPeersStreamIDMaps = srv.sarsPeersStreamIDMaps
  ufrags : srv'.sarsPeersUfragMaps = srv.sarsPeersUfragMaps
  addrs : srv'.sarsPeersAddrMaps = srv.sarsPeersAddrMaps
  scaches : srv'.scaches = srv.scaches
  size : srv'.peers.size = srv.peers.size + 1
  old : ∀ q, q < srv.peers.size → srv'.peers.get q = srv.peers.get q
  new : srv'.peers.get srv.peers.size = peer

theorem fresh_alloc (srv : RTCServer) (peer : RtcPeer) :
    Fresh srv { srv with peers := srv.peers.alloc peer } peer :=
  { streams := rfl, ufrags := rfl, addrs := rfl, scaches := rfl
    size := Heap.size_alloc srv.peers peer
    old := fun _ hq => Heap.get_alloc peer hq
    new := Heap.get_alloc_self srv.peers peer }

theorem Fresh.update {srv srv' : RTCServer} {peer : RtcPeer} (h : Fresh srv srv' peer)
    (f : RtcPeer → RtcPeer) : Fresh srv (srv'.updatePeer srv.peers.size f) (f peer) :=
  { streams := h.streams, ufrags := h.ufrags, addrs := h.addrs, scaches := h.scaches
    size := by rw [RTCServer.updatePeer, Heap.size_modify, h.size]
    old := by
      intro q hq
      rw [RTCServer.updatePeer, Heap.get_modify_ne f (by omega), h.old q hq]
    new := by
      have hlt : srv.peers.size < srv'.peers.size := by
        rw [h.size]
        omega
      rw [RTCServer.updatePeer, Heap.get_modify_self f hlt, h.new] }

/-- The fields a peer is created with. -/
structure NewPeer (peerClass : PeerClass) (engine : Engine) (peer : RtcPeer) : Prop where
  class_eq : peer.peerClass = peerClass
  connection : peer.peerConnection = engine.connects
  state : peer.peerconnectionState = .kNew
  unlinked : peer.scache = none
  unaddressed : peer.remoteAddr = none

theorem Fresh.failed {srv srv' : RTCServer} {peer : RtcPeer} {peerClass : PeerClass}
    {offer : Bytes} {engine : Engine} (h : Fresh srv srv' peer)
    (hnew : NewPeer peerClass engine peer) (hkey : peerKey offer engine = none) :
    Created peerClass offer engine srv srv' :=
  { streams := h.streams, addrs := h.addrs, scaches := h.scaches, size := h.size, old := h.old
    class_eq := h.new ▸ hnew.class_eq, connection := h.new ▸ hnew.connection
    state := h.new ▸ hnew.state, unlinked := h.new ▸ hnew.unlinked
    unaddressed := h.new ▸ hnew.unaddressed
    registered := by simp [hkey]
    unregistered := fun _ => h.ufrags }

theorem Fresh.succeeded {srv srv' : RTCServer} {peer : RtcPeer} {peerClass : PeerClass}
    {offer key : Bytes} {engine : Engine} (h : Fresh srv srv' peer)
    (hnew : NewPeer peerClass engine peer) (hkey : peerKey offer engine = some key) :
    Created peerClass offer engine srv
      { srv'.updatePeer srv.peers.size (fun p => { p with sender := true, ufrag := key }) with
        sarsPeersUfragMaps := emplace srv'.sarsPeersUfragMaps key srv.peers.size } := by
  have hdone := h.update fun p => { p with sender := true, ufrag := key }
  exact
    { streams := hdone.streams, addrs := hdone.addrs, scaches := hdone.scaches
      size := hdone.size, old := hdone.old
      class_eq := by rw [hdone.new]; exact hnew.class_eq
      connection := by rw [hdone.new]; exact hnew.connection
      state := by rw [hdone.new]; exact hnew.state
      unlinked := by rw [hdone.new]; exact hnew.unlinked
      unaddressed := by rw [hdone.new]; exact hnew.unaddressed
      registered := by
        intro key' h'
        rw [hkey] at h'
        cases h'
        rw [hdone.new, h.ufrags]
        exact ⟨rfl, rfl, rfl⟩
      unregistered := by simp [hkey] }

theorem createPeer_created (peerClass : PeerClass) (srv : RTCServer) (offer : Bytes)
    (engine : Engine) :
    ∃ srv' answer, RTCServer.createPeer peerClass srv offer engine =
        (srv', srv.peers.size, answer) ∧
      Created peerClass offer engine srv srv' := by
  have hnew := fresh_alloc srv { peerClass := peerClass }
  by_cases hconnects : engine.connects = true
  · have hlinked := (hnew.update fun p => { p with peerConnection := true }).update fun p =>
      { p with localVideoSsrc := engine.localVideoSsrc, localAudioSsrc := engine.localAudioSsrc }
    have hpeer : NewPeer peerClass engine
        { peerClass := peerClass, peerConnection := true, localVideoSsrc := engine.localVideoSsrc
          localAudioSsrc := engine.localAudioSsrc } :=
      { class_eq := rfl, connection := hconnects.symm, state := rfl, unlinked := rfl
        unaddressed := rfl }
    cases hoffer : getUfragFromSdp offer with
    | none =>
      refine ⟨_, engine.answer, ?_, hlinked.failed hpeer (by simp [peerKey, hoffer])⟩
      simp [RTCServer.createPeer, RTCServer.createRtcPeer, hconnects, hoffer]
    | some ufrag =>
      cases hanswer : getUfragFromSdp engine.answer with
      | none =>
        refine ⟨_, engine.answer, ?_, hlinked.failed hpeer (by simp [peerKey, hanswer])⟩
        simp [RTCServer.createPeer, RTCServer.createRtcPeer, hconnects, hoffer, hanswer]
      | some lufrag =>
        have hkey : peerKey offer engine = some (lufrag ++ 58 :: ufrag) := by
          simp [peerKey, hconnects, hoffer, hanswer]
        refine ⟨_, engine.answer, ?_, hlinked.succeeded hpeer hkey⟩
        simp [RTCServer.createPeer, RTCServer.createRtcPeer, hconnects, hoffer, hanswer]
        rfl
  · have hoff : engine.connects = false := by simpa using hconnects
    have hpeer : NewPeer peerClass engine { peerClass := peerClass } :=
      { class_eq := rfl, connection := hoff.symm, state := rfl, unlinked := rfl
        unaddressed := rfl }
    refine ⟨_, [], ?_, hnew.failed hpeer (by simp [peerKey, hoff])⟩
    simp [RTCServer.createPeer, RTCServer.createRtcPeer, hoff]

/-! ## The first half of a request -/

/-- The cache of a stream, found or made. -/
structure Opened (streamID : Bytes) (srv srv' : RTCServer) (scache : Nat) : Prop where
  cases : (srv.sarsPeersStreamIDMaps.lookup streamID = some scache ∧ srv' = srv) ∨
    (srv.sarsPeersStreamIDMaps.lookup streamID = none ∧ scache = srv.scaches.size ∧
      srv' = { srv with
        scaches := srv.scaches.alloc {}
        sarsPeersStreamIDMaps := emplace srv.sarsPeersStreamIDMaps streamID scache })

theorem getOrCreateStreamCache_opened (srv : RTCServer) (streamID : Bytes) :
    Opened streamID srv (srv.getOrCreateStreamCache streamID).1
      (srv.getOrCreateStreamCache streamID).2 := by
  simp only [RTCServer.getOrCreateStreamCache]
  cases h : srv.sarsPeersStreamIDMaps.lookup streamID with
  | some scache => exact ⟨Or.inl ⟨h, rfl⟩⟩
  | none => exact ⟨Or.inr ⟨h, rfl, rfl⟩⟩

theorem Opened.addrs {streamID : Bytes} {srv srv' : RTCServer} {scache : Nat}
    (h : Opened streamID srv srv' scache) : srv'.sarsPeersAddrMaps = srv.sarsPeersAddrMaps := by
  rcases h.cases with ⟨_, rfl⟩ | ⟨_, _, rfl⟩ <;> rfl

def RequestKind.peerClass : RequestKind → PeerClass
  | .publish => .publisher
  | .play => .player

theorem RequestKind.peerClass_injective : Function.Injective RequestKind.peerClass := by
  intro a b h
  cases a <;> cases b <;> first | rfl | cases h

/-- The state of `CanPublish` that lets a request of this kind through. -/
def RequestKind.wants : RequestKind → Bool
  | .publish => true
  | .play => false

theorem handleBody_cases (kind : RequestKind) (srv : RTCServer) (offer streamUrl : Bytes)
    (engine : Engine) :
    (getStreamIdFromStreamUrl streamUrl = none ∧
      Signalling.handleBody kind srv offer streamUrl engine = .exit) ∨
    ∃ streamID srv' scache, getStreamIdFromStreamUrl streamUrl = some streamID ∧
      Opened streamID srv srv' scache ∧
      (((srv'.scaches.get scache).canPublish ≠ kind.wants ∧
          Signalling.handleBody kind srv offer streamUrl engine = .ret srv' (-15)) ∨
        ((srv'.scaches.get scache).canPublish = kind.wants ∧
          ∃ srv'' answer, Created kind.peerClass offer engine srv' srv'' ∧
            Signalling.handleBody kind srv offer streamUrl engine =
              .write srv'' { kind := kind, streamID := streamID, scache := scache
                             peer := srv'.peers.size } answer)) := by
  cases hid : getStreamIdFromStreamUrl streamUrl with
  | none =>
    left
    cases kind <;>
      simp [Signalling.handleBody, Signalling.handlePublishBody, Signalling.handlePlayBody, hid]
  | some streamID =>
    right
    have hopened := getOrCreateStreamCache_opened srv streamID
    refine ⟨streamID, _, _, rfl, hopened, ?_⟩
    obtain ⟨srv'', answer, hcreate, hcreated⟩ := createPeer_created kind.peerClass
      (srv.getOrCreateStreamCache streamID).1 offer engine
    by_cases hcan : ((srv.getOrCreateStreamCache streamID).1.scaches.get
        (srv.getOrCreateStreamCache streamID).2).canPublish = kind.wants
    · refine Or.inr ⟨hcan, srv'', answer, hcreated, ?_⟩
      cases kind <;> simp only [RequestKind.wants, RequestKind.peerClass] at hcan hcreate <;>
        simp [Signalling.handleBody, Signalling.handlePublishBody, Signalling.handlePlayBody, hid,
          hcan, RTCServer.createRtcPublisher, RTCServer.createRtcPlayer, hcreate]
    · refine Or.inl ⟨hcan, ?_⟩
      cases kind <;> simp only [RequestKind.wants, Bool.not_eq_true, Bool.not_eq_false] at hcan <;>
        simp [Signalling.handleBody, Signalling.handlePublishBody, Signalling.handlePlayBody, hid,
          hcan]

/-! ## Datagrams -/

/-- What a datagram is to the server. -/
inductive Traffic where
  | malformed
  | request (username : Bytes)
  | other
  deriving DecidableEq

def traffic (buf : Bytes) : Traffic :=
  if Stun.isStun buf = .ok true then
    match Stun.parse buf with
    | .ok (.packet stun) =>
      if stun.klass = .request ∧ stun.method = Stun.Method.binding then .request stun.username
      else .other
    | _ => .malformed
  else .other

theorem parse_total {buf : Bytes} (hlen : buf.length ≤ 65535) :
    (∃ p, Stun.parse buf = .ok (.packet p)) ∨ Stun.parse buf = .ok .nullptr := by
  by_cases h : ∃ attrs, Stun.Grammar buf attrs
  · obtain ⟨attrs, hg⟩ := h
    obtain ⟨p, hp, _⟩ := Stun.parse_grammar hg hlen
    exact Or.inl ⟨p, hp⟩
  · exact Or.inr (Stun.parse_outside hlen fun attrs hg => h ⟨attrs, hg⟩)

/-- The server with an address bound to a peer, unless it is bound already. -/
def RTCServer.bind (srv : RTCServer) (addr : SockaddrIn) (p : Nat) : RTCServer :=
  { srv with sarsPeersAddrMaps := emplace srv.sarsPeersAddrMaps (remoteText addr) p }

/-- The peer a datagram goes to, read off the two maps. -/
def target (srv : RTCServer) (buf : Bytes) (addr : SockaddrIn) : Option Nat :=
  match traffic buf with
  | .malformed => none
  | .other => srv.sarsPeersAddrMaps.lookup (remoteText addr)
  | .request username =>
    (srv.sarsPeersUfragMaps.lookup username).map fun p =>
      (srv.sarsPeersAddrMaps.lookup (remoteText addr)).getD p

/-- An address is bound to the target, or unbound and the target is named. -/
theorem target_cases {srv : RTCServer} {buf : Bytes} {addr : SockaddrIn} {p : Nat}
    (h : target srv buf addr = some p) :
    srv.sarsPeersAddrMaps.lookup (remoteText addr) = some p ∨
      (srv.sarsPeersAddrMaps.lookup (remoteText addr) = none ∧
        ∃ username, traffic buf = .request username ∧
          srv.sarsPeersUfragMaps.lookup username = some p) := by
  simp only [target] at h
  cases htraffic : traffic buf with
  | malformed =>
    rw [htraffic] at h
    cases h
  | other =>
    rw [htraffic] at h
    exact Or.inl h
  | request username =>
    rw [htraffic] at h
    obtain ⟨q, hq, hp⟩ := Option.map_eq_some_iff.mp h
    cases hbound : srv.sarsPeersAddrMaps.lookup (remoteText addr) with
    | some r =>
      rw [hbound] at hp
      exact Or.inl (congrArg some hp)
    | none =>
      rw [hbound] at hp
      exact Or.inr ⟨rfl, username, rfl, hq.trans (congrArg some hp)⟩

/-- An address as the engine is told it. -/
def netAddr (addr : SockaddrIn) : NetAddr := { ip := inetNtoa addr.sinAddr, port := addr.sinPort }

/-- The server after a datagram has been handed to `p`. -/
def RTCServer.heard (srv : RTCServer) (addr : SockaddrIn) (p : Nat) : RTCServer :=
  srv.updatePeer p fun peer => { peer with remoteAddr := some (netAddr addr) }

theorem bind_bound {srv : RTCServer} {addr : SockaddrIn} {p : Nat} (q : Nat)
    (h : srv.sarsPeersAddrMaps.lookup (remoteText addr) = some p) : srv.bind addr q = srv := by
  simp only [RTCServer.bind, emplace_present q h]

theorem lookup_bind (srv : RTCServer) (addr : SockaddrIn) (p : Nat) :
    (srv.bind addr p).sarsPeersAddrMaps.lookup (remoteText addr) =
      some ((srv.sarsPeersAddrMaps.lookup (remoteText addr)).getD p) :=
  lookup_emplace_self srv.sarsPeersAddrMaps (remoteText addr) p

theorem deliver_bound {srv : RTCServer} {buf : Bytes} {addr : SockaddrIn} {p : Nat}
    (h : srv.sarsPeersAddrMaps.lookup (remoteText addr) = some p) :
    srv.deliver buf addr =
      (srv.heard addr p, (srv.heard addr p).udpSocketRecv p buf (netAddr addr)) := by
  simp only [RTCServer.deliver, h]
  rfl

theorem deliver_unbound {srv : RTCServer} {buf : Bytes} {addr : SockaddrIn}
    (h : srv.sarsPeersAddrMaps.lookup (remoteText addr) = none) :
    srv.deliver buf addr = (srv, []) := by
  simp only [RTCServer.deliver, h]

/-- A received datagram is dropped or handed to its target, whose address it sets. -/
theorem onRecvClientPkt_target (srv : RTCServer) (buf : Datagram) (addr : SockaddrIn) :
    srv.onRecvClientPkt buf.val addr = .ok
      (match target srv buf.val addr with
      | none => (srv, [])
      | some p => ((srv.bind addr p).heard addr p,
          ((srv.bind addr p).heard addr p).udpSocketRecv p buf.val (netAddr addr))) := by
  have direct : srv.deliver buf.val addr =
      match srv.sarsPeersAddrMaps.lookup (remoteText addr) with
      | none => (srv, [])
      | some p => ((srv.bind addr p).heard addr p,
          ((srv.bind addr p).heard addr p).udpSocketRecv p buf.val (netAddr addr)) := by
    cases hbound : srv.sarsPeersAddrMaps.lookup (remoteText addr) with
    | none => rw [deliver_unbound hbound]
    | some p => simp only [deliver_bound hbound, bind_bound p hbound]
  have named : ∀ p : Nat, (srv.bind addr p).deliver buf.val addr =
      (((srv.bind addr ((srv.sarsPeersAddrMaps.lookup (remoteText addr)).getD p)).heard addr
          ((srv.sarsPeersAddrMaps.lookup (remoteText addr)).getD p)),
        (((srv.bind addr ((srv.sarsPeersAddrMaps.lookup (remoteText addr)).getD p)).heard addr
          ((srv.sarsPeersAddrMaps.lookup (remoteText addr)).getD p)).udpSocketRecv
            ((srv.sarsPeersAddrMaps.lookup (remoteText addr)).getD p) buf.val (netAddr addr))) := by
    intro p
    rw [deliver_bound (lookup_bind srv addr p)]
    cases hbound : srv.sarsPeersAddrMaps.lookup (remoteText addr) with
    | none => rfl
    | some q => rw [bind_bound p hbound, bind_bound _ hbound]
  have hlen : buf.val.length ≤ 65535 := buf.property.trans (by decide)
  obtain ⟨b, hb⟩ := Stun.isStun_total buf.val
  cases b with
  | false => simp [RTCServer.onRecvClientPkt, target, traffic, hb, direct]
  | true =>
    rcases parse_total hlen with ⟨p, hp⟩ | hnull
    · by_cases hbinding : p.klass = .request ∧ p.method = Stun.Method.binding
      · cases hlookup : srv.sarsPeersUfragMaps.lookup p.username with
        | none => simp [RTCServer.onRecvClientPkt, target, traffic, hb, hp, hbinding, hlookup]
        | some q =>
          have hq := named q
          simp only [RTCServer.bind] at hq
          simp [RTCServer.onRecvClientPkt, target, traffic, hb, hp, hbinding, hlookup, hq,
            RTCServer.bind]
      · simp [RTCServer.onRecvClientPkt, target, traffic, hb, hp, hbinding, direct]
    · simp [RTCServer.onRecvClientPkt, target, traffic, hb, hnull]

/-! ## Callbacks -/

/-- The fields of a peer that no callback touches. -/
def RtcPeer.fixed (p : RtcPeer) : PeerClass × Bool × Bool × Bytes × Option NetAddr × Option Nat :=
  (p.peerClass, p.peerConnection, p.sender, p.ufrag, p.remoteAddr, p.scache)

/-- Nothing has changed but fields of `p` that callbacks may touch. -/
structure Framed (p : Nat) (srv srv' : RTCServer) : Prop where
  streams : srv'.sarsPeersStreamIDMaps = srv.sarsPeersStreamIDMaps
  ufrags : srv'.sarsPeersUfragMaps = srv.sarsPeersUfragMaps
  addrs : srv'.sarsPeersAddrMaps = srv.sarsPeersAddrMaps
  scaches : srv'.scaches = srv.scaches
  size : srv'.peers.size = srv.peers.size
  fixed : ∀ q, (srv'.peers.get q).fixed = (srv.peers.get q).fixed
  others : ∀ q, q ≠ p → srv'.peers.get q = srv.peers.get q

theorem Framed.refl (p : Nat) (srv : RTCServer) : Framed p srv srv :=
  { streams := rfl, ufrags := rfl, addrs := rfl, scaches := rfl, size := rfl
    fixed := fun _ => rfl, others := fun _ _ => rfl }

theorem framed_updatePeer (srv : RTCServer) (p : Nat) {f : RtcPeer → RtcPeer}
    (h : ∀ peer, (f peer).fixed = peer.fixed) : Framed p srv (srv.updatePeer p f) :=
  { streams := rfl, ufrags := rfl, addrs := rfl, scaches := rfl
    size := Heap.size_modify srv.peers p f
    fixed := Heap.get_modify_field RtcPeer.fixed h
    others := fun _ hq => Heap.get_modify_ne f hq }

theorem onConnectionChange_fixed (p : RtcPeer) (newState : PeerConnectionState) :
    (p.onConnectionChange newState).fixed = p.fixed := by
  unfold RtcPeer.onConnectionChange
  split_ifs <;> rfl

theorem onIceConnectionChange_fixed (p : RtcPeer) (newState : IceConnectionState) :
    (p.onIceConnectionChange newState).fixed = p.fixed := by
  simp only [RtcPeer.onIceConnectionChange]
  split_ifs <;> rfl

theorem callback_framed {srv srv' : RTCServer} {p : Nat} {cb : RTCServer.Callback}
    {out : List Output} (h : srv.callback p cb = some (srv', out)) : Framed p srv srv' := by
  have update : ∀ f : RtcPeer → RtcPeer, (∀ peer, (f peer).fixed = peer.fixed) →
      some (srv.updatePeer p f, ([] : List Output)) = some (srv', out) → Framed p srv srv' := by
    intro f hf heq
    cases heq
    exact framed_updatePeer srv p hf
  have same : ∀ {fed : Option (List Output)}, (fed.map fun out => (srv, out)) = some (srv', out) →
      Framed p srv srv' := by
    intro fed heq
    obtain ⟨_, _, hpair⟩ := Option.map_eq_some_iff.mp heq
    cases hpair
    exact Framed.refl p srv
  cases cb with
  | onIceConnectionChange newState => exact update _ (fun _ => onIceConnectionChange_fixed _ _) h
  | onConnectionChange newState =>
    simp only [RTCServer.callback] at h
    cases hclass : (srv.peers.get p).peerClass with
    | publisher =>
      rw [hclass] at h
      exact update _ (fun _ => onConnectionChange_fixed _ _) h
    | player =>
      rw [hclass] at h
      simp only at h
      by_cases hconnected : newState = .kConnected
      · rw [if_pos hconnected] at h
        obtain ⟨_, _, hpair⟩ := Option.map_eq_some_iff.mp h
        cases hpair
        exact framed_updatePeer srv p fun _ => rfl
      · rw [if_neg hconnected] at h
        exact update (fun peer => { peer with peerconnectionState := newState }) (fun _ => rfl) h
  | onAddVideoTrack ssrc =>
    exact update (fun peer => peer.onAddVideoTrack ssrc) (fun _ => rfl) h
  | onAddAudioTrack ssrc =>
    exact update (fun peer => peer.onAddAudioTrack ssrc) (fun _ => rfl) h
  | onAddLocalVideoTrack ssrc codecs =>
    exact update (fun peer => peer.onAddLocalVideoTrack ssrc codecs) (fun _ => rfl) h
  | onAddLocalAudioTrack ssrc codecs =>
    exact update (fun peer => peer.onAddLocalAudioTrack ssrc codecs) (fun _ => rfl) h
  | onRecvMediaData media =>
    simp only [RTCServer.callback] at h
    cases hclass : (srv.peers.get p).peerClass with
    | publisher =>
      rw [hclass] at h
      obtain ⟨scache, _, h⟩ := Option.bind_eq_some_iff.mp h
      obtain ⟨fed, _, h⟩ := Option.bind_eq_some_iff.mp h
      cases h
      exact Framed.refl p srv
    | player =>
      rw [hclass] at h
      cases h
      exact Framed.refl p srv
  | onRequestIFrame ssrc =>
    simp only [RTCServer.callback] at h
    cases hclass : (srv.peers.get p).peerClass with
    | publisher =>
      rw [hclass] at h
      cases h
      exact Framed.refl p srv
    | player =>
      rw [hclass] at h
      exact same h
  | onSendDataToRemote data addr => exact same h

/-- Key frames asked for and datagrams sent. -/
def Output.control : Output → Bool
  | .requestIFrame _ _ | .sendTo _ _ _ => true
  | _ => false

/-- Only `OnRecvMediaData` of a publisher feeds frames. -/
theorem callback_cases {srv srv' : RTCServer} {p : Nat} {cb : RTCServer.Callback}
    {out : List Output} (h : srv.callback p cb = some (srv', out)) :
    (∀ o ∈ out, o.control = true) ∨ ∃ media scache, cb = .onRecvMediaData media ∧
      (srv.peers.get p).scache = some scache ∧ srv.cacheMedia scache media = some out := by
  have mapped : ∀ {fed : Option (List Output)} {srv₁ : RTCServer},
      (∀ l, fed = some l → ∀ o ∈ l, o.control = true) →
      (fed.map fun l => (srv₁, l)) = some (srv', out) → ∀ o ∈ out, o.control = true := by
    intro fed srv₁ hfed heq
    obtain ⟨l, hl, hpair⟩ := Option.map_eq_some_iff.mp heq
    cases hpair
    exact hfed _ hl
  have asked : ∀ (srv₁ : RTCServer) (l : List Output), srv₁.requestPublisherIFrame p = some l →
      ∀ o ∈ l, o.control = true := by
    intro srv₁ l hl
    obtain ⟨scache, _, hl⟩ := Option.bind_eq_some_iff.mp hl
    obtain ⟨publisher, _, hl⟩ := Option.bind_eq_some_iff.mp hl
    simp only [RTCServer.requestIFrame] at hl
    split_ifs at hl
    cases hl
    exact List.forall_mem_singleton.mpr rfl
  have silent : ∀ {srv₁ : RTCServer}, some (srv₁, ([] : List Output)) = some (srv', out) →
      ∀ o ∈ out, o.control = true := by
    intro srv₁ heq
    cases heq
    exact List.forall_mem_nil _
  cases cb with
  | onIceConnectionChange newState => exact Or.inl (silent h)
  | onConnectionChange newState =>
    simp only [RTCServer.callback] at h
    cases hclass : (srv.peers.get p).peerClass with
    | publisher =>
      rw [hclass] at h
      exact Or.inl (silent h)
    | player =>
      rw [hclass] at h
      simp only at h
      split_ifs at h
      · exact Or.inl (mapped (asked _) h)
      · exact Or.inl (silent h)
  | onAddVideoTrack ssrc => exact Or.inl (silent h)
  | onAddAudioTrack ssrc => exact Or.inl (silent h)
  | onAddLocalVideoTrack ssrc codecs => exact Or.inl (silent h)
  | onAddLocalAudioTrack ssrc codecs => exact Or.inl (silent h)
  | onRecvMediaData media =>
    simp only [RTCServer.callback] at h
    cases hclass : (srv.peers.get p).peerClass with
    | publisher =>
      rw [hclass] at h
      obtain ⟨scache, hscache, h⟩ := Option.bind_eq_some_iff.mp h
      obtain ⟨fed, hfed, h⟩ := Option.bind_eq_some_iff.mp h
      cases h
      exact Or.inr ⟨media, scache, rfl, hscache, hfed⟩
    | player =>
      rw [hclass] at h
      exact Or.inl (silent h)
  | onRequestIFrame ssrc =>
    simp only [RTCServer.callback] at h
    cases hclass : (srv.peers.get p).peerClass with
    | publisher =>
      rw [hclass] at h
      exact Or.inl (silent h)
    | player =>
      rw [hclass] at h
      exact Or.inl (mapped (asked _) h)
  | onSendDataToRemote data addr =>
    refine Or.inl (mapped (fun l hl => ?_) h)
    simp only [RTCServer.udpSocketSend, RTCServer.sendPktToClient] at hl
    split_ifs at hl
    cases hl
    exact List.forall_mem_singleton.mpr rfl

theorem cacheMediaLoop_outputs {srv : RTCServer} {media : MediaData} {players : List Nat}
    {ssrc payloadType : UInt32} {out : List Output}
    (h : srv.cacheMediaLoop media players ssrc payloadType = some out) :
    ∀ o ∈ out, ∃ q frame, o = .feedMediaData q frame := by
  induction players generalizing ssrc payloadType out with
  | nil =>
    cases h
    exact List.forall_mem_nil _
  | cons it players ih =>
    simp only [RTCServer.cacheMediaLoop] at h
    split_ifs at h with hstate hconn
    · exact ih h
    · obtain ⟨fed, hfed, hout⟩ := Option.bind_eq_some_iff.mp h
      cases hout
      exact List.forall_mem_cons.mpr ⟨⟨_, _, rfl⟩, ih hfed⟩

/-- Callbacks only feed frames, ask for key frames and send datagrams. -/
theorem callback_outputs {srv srv' : RTCServer} {p : Nat} {cb : RTCServer.Callback}
    {out : List Output} (h : srv.callback p cb = some (srv', out)) :
    ∀ o ∈ out, o.control = true ∨ ∃ q frame, o = .feedMediaData q frame := by
  rcases callback_cases h with hcontrol | ⟨_, _, _, _, hfed⟩
  · exact fun o ho => Or.inl (hcontrol o ho)
  · exact fun o ho => Or.inr (cacheMediaLoop_outputs hfed o ho)

/-- What a callback of `p` may emit: peers with a connection are asked and fed, and `p` itself
sends to its own address. -/
def Emits (srv : RTCServer) (p : Nat) : Output → Prop
  | .requestIFrame q _ | .feedMediaData q _ => (srv.peers.get q).peerConnection = true
  | .sendTo q _ addr => q = p ∧ addr = (srv.peers.get p).sendAddr
  | _ => False

theorem cacheMediaLoop_emits {srv : RTCServer} {media : MediaData} {players : List Nat}
    {ssrc payloadType : UInt32} {out : List Output} (p : Nat)
    (h : srv.cacheMediaLoop media players ssrc payloadType = some out) :
    ∀ o ∈ out, Emits srv p o := by
  induction players generalizing ssrc payloadType out with
  | nil =>
    cases h
    exact List.forall_mem_nil _
  | cons it players ih =>
    simp only [RTCServer.cacheMediaLoop] at h
    split_ifs at h with hstate hconn
    · exact ih h
    · obtain ⟨fed, hfed, hout⟩ := Option.bind_eq_some_iff.mp h
      cases hout
      exact List.forall_mem_cons.mpr ⟨hconn, ih hfed⟩

theorem callback_emits {srv srv' : RTCServer} {p : Nat} {cb : RTCServer.Callback}
    {out : List Output} (h : srv.callback p cb = some (srv', out)) : ∀ o ∈ out, Emits srv p o := by
  have silent : ∀ {srv₁ : RTCServer}, some (srv₁, ([] : List Output)) = some (srv', out) →
      ∀ o ∈ out, Emits srv p o := by
    intro srv₁ heq
    cases heq
    exact List.forall_mem_nil _
  have asked : ∀ {srv₁ : RTCServer},
      (∀ q, (srv₁.peers.get q).peerConnection = (srv.peers.get q).peerConnection) →
      ((srv₁.requestPublisherIFrame p).map fun l => (srv₁, l)) = some (srv', out) →
      ∀ o ∈ out, Emits srv p o := by
    intro srv₁ same heq
    obtain ⟨l, hl, hpair⟩ := Option.map_eq_some_iff.mp heq
    cases hpair
    obtain ⟨c, _, hl⟩ := Option.bind_eq_some_iff.mp hl
    obtain ⟨q, _, hl⟩ := Option.bind_eq_some_iff.mp hl
    simp only [RTCServer.requestIFrame] at hl
    split_ifs at hl with hconn
    cases hl
    exact List.forall_mem_singleton.mpr ((same q).symm.trans hconn)
  cases cb with
  | onIceConnectionChange newState => exact silent h
  | onConnectionChange newState =>
    simp only [RTCServer.callback] at h
    cases hclass : (srv.peers.get p).peerClass with
    | publisher =>
      rw [hclass] at h
      exact silent h
    | player =>
      rw [hclass] at h
      simp only at h
      split_ifs at h
      · exact asked (Heap.get_modify_field RtcPeer.peerConnection (by intro _; rfl)) h
      · exact silent h
  | onAddVideoTrack ssrc => exact silent h
  | onAddAudioTrack ssrc => exact silent h
  | onAddLocalVideoTrack ssrc codecs => exact silent h
  | onAddLocalAudioTrack ssrc codecs => exact silent h
  | onRecvMediaData media =>
    simp only [RTCServer.callback] at h
    cases hclass : (srv.peers.get p).peerClass with
    | publisher =>
      rw [hclass] at h
      obtain ⟨scache, _, h⟩ := Option.bind_eq_some_iff.mp h
      obtain ⟨fed, hfed, h⟩ := Option.bind_eq_some_iff.mp h
      cases h
      exact cacheMediaLoop_emits p hfed
    | player =>
      rw [hclass] at h
      exact silent h
  | onRequestIFrame ssrc =>
    simp only [RTCServer.callback] at h
    cases hclass : (srv.peers.get p).peerClass with
    | publisher =>
      rw [hclass] at h
      exact silent h
    | player =>
      rw [hclass] at h
      exact asked (fun _ => rfl) h
  | onSendDataToRemote data addr =>
    obtain ⟨l, hl, hpair⟩ := Option.map_eq_some_iff.mp h
    cases hpair
    simp only [RTCServer.udpSocketSend, RTCServer.sendPktToClient] at hl
    split_ifs at hl
    cases hl
    exact List.forall_mem_singleton.mpr ⟨rfl, rfl⟩

/-! ## The moves of the process -/

/-- What a step can do, with what it reads in the premises. -/
inductive Move (w : World) : Event → World → List Output → Prop where
  | idle (e : Event) : Move w e w []
  | stopped (e : Event) (status : Status) : Move w e { w with status := status } []
  | accepted (kind : RequestKind) :
      Move w (.accept kind) { w with handlers := w.handlers ++ [.reading kind] } []
  | rejected {i : Nat} {kind : RequestKind} {offer streamUrl streamID : Bytes} {engine : Engine}
      {srv : RTCServer} {scache : Nat} (reading : w.handlers[i]? = some (.reading kind))
      (url : getStreamIdFromStreamUrl streamUrl = some streamID)
      (opened : Opened streamID w.server srv scache)
      (unwanted : (srv.scaches.get scache).canPublish ≠ kind.wants) :
      Move w (.body i offer streamUrl engine)
        { w with server := srv, handlers := w.handlers.set i (.returned (-15) none) } []
  | begun {i : Nat} {kind : RequestKind} {offer streamUrl streamID answer : Bytes}
      {engine : Engine} {srv srv' : RTCServer} {scache : Nat} (running : w.status = .running)
      (reading : w.handlers[i]? = some (.reading kind))
      (url : getStreamIdFromStreamUrl streamUrl = some streamID)
      (opened : Opened streamID w.server srv scache)
      (wanted : (srv.scaches.get scache).canPublish = kind.wants)
      (created : Created kind.peerClass offer engine srv srv') :
      Move w (.body i offer streamUrl engine)
        { w with
          server := srv'
          handlers := w.handlers.set i (.writing
            { kind := kind, streamID := streamID, scache := scache, peer := srv.peers.size }) }
        [.write i answer]
  | finished {i : Nat} {job : Job} {ret : Int} (writing : w.handlers[i]? = some (.writing job)) :
      Move w (.written i ret)
        { w with
          server := (Signalling.handleWritten w.server job ret).1
          handlers := w.handlers.set i
            (.returned (Signalling.handleWritten w.server job ret).2.2 (some job)) }
        (Signalling.handleWritten w.server job ret).2.1
  | heard {buf : Datagram} {addr : SockaddrIn} {p : Nat}
      (targeted : target w.server buf.val addr = some p) :
      Move w (.datagram buf addr) { w with server := (w.server.bind addr p).heard addr p }
        (((w.server.bind addr p).heard addr p).udpSocketRecv p buf.val (netAddr addr))
  | called {p : Nat} {cb : RTCServer.Callback} {srv : RTCServer} {out : List Output}
      (connected : w.Connected p) (call : w.server.callback p cb = some (srv, out)) :
      Move w (.callback p cb) { w with server := srv } out

theorem stepDatagram_eq (w : World) (buf : Datagram) (addr : SockaddrIn) :
    w.stepDatagram buf.val addr =
      match target w.server buf.val addr with
      | none => (w, [])
      | some p => ({ w with server := (w.server.bind addr p).heard addr p },
          ((w.server.bind addr p).heard addr p).udpSocketRecv p buf.val (netAddr addr)) := by
  rw [World.stepDatagram, onRecvClientPkt_target]
  cases target w.server buf.val addr <;> rfl

theorem step_stopped {w : World} (h : w.status ≠ .running) (e : Event) : w.step e = (w, []) := by
  simp only [World.step]
  rw [if_pos h]

theorem step_body {w : World} {i : Nat} {kind : RequestKind} (running : w.status = .running)
    (reading : w.handlers[i]? = some (.reading kind)) (offer streamUrl : Bytes)
    (engine : Engine) :
    w.step (.body i offer streamUrl engine) = w.stepBody i kind offer streamUrl engine := by
  simp only [World.step]
  rw [if_neg (not_not_intro running)]
  simp only [reading]

theorem step_written {w : World} {i : Nat} {job : Job} (running : w.status = .running)
    (writing : w.handlers[i]? = some (.writing job)) (ret : Int) :
    w.step (.written i ret) = w.stepWritten i job ret := by
  simp only [World.step]
  rw [if_neg (not_not_intro running)]
  simp only [writing]

theorem step_body_idle {w : World} {i : Nat} (other : ∀ kind, w.handlers[i]? ≠ some (.reading kind))
    (offer streamUrl : Bytes) (engine : Engine) :
    w.step (.body i offer streamUrl engine) = (w, []) := by
  by_cases running : w.status = .running
  · simp only [World.step, if_neg (not_not_intro running)]
  · exact step_stopped running _

theorem step_written_idle {w : World} {i : Nat}
    (other : ∀ job, w.handlers[i]? ≠ some (.writing job)) (ret : Int) :
    w.step (.written i ret) = (w, []) := by
  by_cases running : w.status = .running
  · simp only [World.step, if_neg (not_not_intro running)]
  · exact step_stopped running _

theorem step_accept {w : World} (running : w.status = .running) (kind : RequestKind) :
    w.step (.accept kind) = ({ w with handlers := w.handlers ++ [.reading kind] }, []) := by
  simp only [World.step]
  rw [if_neg (not_not_intro running)]

theorem step_datagram_eq {w : World} (running : w.status = .running) (buf : Datagram)
    (addr : SockaddrIn) : w.step (.datagram buf addr) = w.stepDatagram buf.val addr := by
  simp only [World.step]
  rw [if_neg (not_not_intro running)]

theorem stepCallback_some {w : World} {p : Nat} {cb : RTCServer.Callback} {srv : RTCServer}
    {out : List Output} (connected : w.Connected p)
    (call : w.server.callback p cb = some (srv, out)) :
    w.stepCallback p cb = ({ w with server := srv }, out) := by
  simp only [World.stepCallback, if_pos connected, call]

theorem stepCallback_none {w : World} {p : Nat} {cb : RTCServer.Callback}
    (connected : w.Connected p) (call : w.server.callback p cb = none) :
    w.stepCallback p cb = ({ w with status := .crashed }, []) := by
  simp only [World.stepCallback, if_pos connected, call]

theorem step_callback {w : World} (running : w.status = .running) (p : Nat)
    (cb : RTCServer.Callback) : w.step (.callback p cb) = w.stepCallback p cb := by
  simp only [World.step]
  rw [if_neg (not_not_intro running)]

/-- Every step of the process is one of the moves. -/
theorem step_move (w : World) (e : Event) : Move w e (w.step e).1 (w.step e).2 := by
  simp only [World.step]
  by_cases hrun : w.status = .running
  · rw [if_neg (not_not_intro hrun)]
    cases e with
    | accept kind => exact .accepted kind
    | body i offer streamUrl engine =>
      cases hread : w.handlers[i]? with
      | none => simpa only [hread] using Move.idle _
      | some handler =>
        cases handler with
        | writing job => simpa only [hread] using Move.idle _
        | returned ret job => simpa only [hread] using Move.idle _
        | reading kind =>
          simp only [hread, World.stepBody]
          rcases handleBody_cases kind w.server offer streamUrl engine with ⟨_, hexit⟩ |
            ⟨streamID, srv, scache, hid, hopened, ⟨hcan, hret⟩ |
              ⟨hcan, srv', answer, hcreated, hwrite⟩⟩
          · rw [hexit]
            exact .stopped _ _
          · rw [hret]
            exact .rejected hread hid hopened hcan
          · rw [hwrite]
            exact .begun hrun hread hid hopened hcan hcreated
    | written i ret =>
      cases hwrite : w.handlers[i]? with
      | none => simpa only [hwrite] using Move.idle _
      | some handler =>
        cases handler with
        | reading kind => simpa only [hwrite] using Move.idle _
        | returned ret' job => simpa only [hwrite] using Move.idle _
        | writing job =>
          simp only [hwrite, World.stepWritten]
          exact .finished hwrite
    | datagram buf addr =>
      simp only [stepDatagram_eq]
      cases htarget : target w.server buf.val addr with
      | none => exact .idle _
      | some p => exact .heard htarget
    | callback p cb =>
      simp only [World.stepCallback]
      by_cases hconn : w.Connected p
      · rw [if_pos hconn]
        cases hcall : w.server.callback p cb with
        | none => exact .stopped _ _
        | some result =>
          obtain ⟨srv, out⟩ := result
          exact .called hconn hcall
      · rw [if_neg hconn]
        exact .idle _
  · rw [if_pos hrun]
    exact .idle e

end Sars
