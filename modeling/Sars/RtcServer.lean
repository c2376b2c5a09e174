import Sars.StunParse
import Sars.RtcPeer
import Sars.SignallingText
import Sars.ObjectHeap
import Sars.GrowingMap

/-!
# Stream caches and the media server

`StreamCache_` and `RTCServer` with the three maps. Shared pointers are numbers
into two heaps that are part of the server state. The engine is represented by
the outcome of the calls made while a peer is created; a null pointer that the
source dereferences is `none`.
-/

namespace Sars

open ByteMemory ObjectHeap GrowingMap

structure StreamCache where
  canPublish : Bool := true
  publisher : Option Nat := none
  players : List Nat := []
  deriving DecidableEq

instance : Inhabited StreamCache := ⟨{}⟩

def StreamCache.setPublisher (c : StreamCache) (publisher : Nat) : StreamCache :=
  { c with canPublish := false, publisher := some publisher }

def StreamCache.addPlayer (c : StreamCache) (player : Nat) : StreamCache :=
  { c with players := c.players ++ [player] }

/-- What the server does to the world outside its own state. -/
inductive Output where
  | write (handler : Nat) (answerSdp : Bytes)
  | setPublisher (scache peer : Nat)
  | addPlayer (scache peer : Nat)
  | feedMediaData (player : Nat) (frame : MediaData)
  | requestIFrame (publisher : Nat) (ssrc : UInt32)
  | udpSocketRecv (peer : Nat) (data : Bytes) (addr : NetAddr)
  | processRemoteData (peer : Nat) (data : Bytes) (addr : NetAddr)
  | sendTo (peer : Nat) (data : Bytes) (addr : Option SockaddrIn)
  deriving DecidableEq

structure RTCServer where
  sarsPeersStreamIDMaps : Map Bytes Nat := ∅
  sarsPeersUfragMaps : Map Bytes Nat := ∅
  sarsPeersAddrMaps : Map Bytes Nat := ∅
  peers : Heap RtcPeer := .empty
  scaches : Heap StreamCache := .empty

/-- The engine's part in the creation of a peer, and the two random ssrcs. -/
structure Engine where
  connects : Bool
  localVideoSsrc : UInt32
  localAudioSsrc : UInt32
  answer : Bytes

/-- The frame handed on: a copy of the received one under another ssrc. -/
def mediaFrame (media : MediaData) (ssrc payloadType : UInt32) : MediaData :=
  { media with
    data := media.data.take media.len.toInt.toNat, ssrc := ssrc, payloadType := payloadType
    data_length := by rw [List.length_take, media.data_length, Nat.min_self] }

theorem mediaFrame_data (media : MediaData) (ssrc payloadType : UInt32) :
    (mediaFrame media ssrc payloadType).data = media.data :=
  List.take_of_length_le (Nat.le_of_eq media.data_length)

namespace RTCServer

def updatePeer (srv : RTCServer) (p : Nat) (f : RtcPeer → RtcPeer) : RTCServer :=
  { srv with peers := srv.peers.modify p f }

def updateCache (srv : RTCServer) (c : Nat) (f : StreamCache → StreamCache) : RTCServer :=
  { srv with scaches := srv.scaches.modify c f }

/-! ## Creating peers and caches -/

/-- `-1` is returned after whatever was done to the peer up to that point. -/
def createRtcPeer (srv : RTCServer) (peer : Nat) (offer : Bytes) (engine : Engine)
    (hasLocal : Bool) : RTCServer × Bytes × Int :=
  if ¬ engine.connects then (srv, [], -1)
  else
    let srv := srv.updatePeer peer fun p => { p with peerConnection := true }
    let srv :=
      if hasLocal then
        srv.updatePeer peer fun p =>
          { p with
            localVideoSsrc := engine.localVideoSsrc
            localAudioSsrc := engine.localAudioSsrc }
      else srv
    match getUfragFromSdp offer with
    | none => (srv, engine.answer, -1)
    | some ufrag =>
      match getUfragFromSdp engine.answer with
      | none => (srv, engine.answer, -1)
      | some lufrag =>
        let srv := srv.updatePeer peer fun p =>
          { p with sender := true, ufrag := lufrag ++ 58 :: ufrag }
        ({ srv with
            sarsPeersUfragMaps := emplace srv.sarsPeersUfragMaps (lufrag ++ 58 :: ufrag) peer },
          engine.answer, 0)

/-- The result of `CreateRtcPeer` is dropped by both callers. -/
def createPeer (peerClass : PeerClass) (srv : RTCServer) (offer : Bytes) (engine : Engine) :
    RTCServer × Nat × Bytes :=
  let peer := srv.peers.size
  let srv := { srv with peers := srv.peers.alloc { peerClass := peerClass } }
  let (srv, answer, _) := srv.createRtcPeer peer offer engine true
  (srv, peer, answer)

def createRtcPublisher : RTCServer → Bytes → Engine → RTCServer × Nat × Bytes :=
  createPeer .publisher

def createRtcPlayer : RTCServer → Bytes → Engine → RTCServer × Nat × Bytes :=
  createPeer .player

def getOrCreateStreamCache (srv : RTCServer) (streamId : Bytes) : RTCServer × Nat :=
  match srv.sarsPeersStreamIDMaps.lookup streamId with
  | some scache => (srv, scache)
  | none =>
    let scache := srv.scaches.size
    ({ srv with
        scaches := srv.scaches.alloc {}
        sarsPeersStreamIDMaps := emplace srv.sarsPeersStreamIDMaps streamId scache }, scache)

/-! ## Datagrams -/

def udpSocketRecv (srv : RTCServer) (p : Nat) (data : Bytes) (addr : NetAddr) : List Output :=
  .udpSocketRecv p data addr ::
    if (srv.peers.get p).peerConnection then [.processRemoteData p data addr] else []

/-- The second half of `OnRecvClientPkt`: the lookup by address. -/
def deliver (srv : RTCServer) (buf : Bytes) (addr : SockaddrIn) : RTCServer × List Output :=
  match srv.sarsPeersAddrMaps.lookup (remoteText addr) with
  | none => (srv, [])
  | some p =>
    let remoteAddr : NetAddr := { ip := inetNtoa addr.sinAddr, port := addr.sinPort }
    let srv := srv.updatePeer p fun peer => { peer with remoteAddr := some remoteAddr }
    (srv, srv.udpSocketRecv p buf remoteAddr)

def onRecvClientPkt (srv : RTCServer) (buf : Bytes) (addr : SockaddrIn) :
    Mem (RTCServer × List Output) := do
  if ← Stun.isStun buf then
    match ← Stun.parse buf with
    | .packet stun =>
      if stun.klass = .request ∧ stun.method = Stun.Method.binding then
        match srv.sarsPeersUfragMaps.lookup stun.username with
        | none => return (srv, [])
        | some peer =>
          let srv := { srv with
            sarsPeersAddrMaps := emplace srv.sarsPeersAddrMaps (remoteText addr) peer }
          return srv.deliver buf addr
      else return srv.deliver buf addr
    | _ => return (srv, [])
  else return srv.deliver buf addr

/-- The address argument is not used; the peer sends to its own remote address. -/
def sendPktToClient (srv : RTCServer) (p : Nat) (data : Bytes) (_addr : Option SockaddrIn) :
    Option (List Output) :=
  if (srv.peers.get p).sender then some [.sendTo p data (srv.peers.get p).sendAddr] else none

def udpSocketSend (srv : RTCServer) (p : Nat) (data : Bytes) (addr : NetAddr) :
    Option (List Output) :=
  srv.sendPktToClient p data
    ((inetPton addr.ip).map fun sinAddr => { sinPort := addr.port, sinAddr := sinAddr })

/-! ## Media -/

def requestIFrame (srv : RTCServer) (publisher : Nat) : Option (List Output) :=
  if (srv.peers.get publisher).peerConnection then
    some [.requestIFrame publisher (srv.peers.get publisher).remoteVideoSsrc]
  else none

/-- `_scache->_publisher->RequestIFrame()` of a player. -/
def requestPublisherIFrame (srv : RTCServer) (player : Nat) : Option (List Output) := do
  let scache ← (srv.peers.get player).scache
  let publisher ← (srv.scaches.get scache).publisher
  srv.requestIFrame publisher

/-- The loop of `CacheMedia` with the two variables it shares between players. -/
def cacheMediaLoop (srv : RTCServer) (media : MediaData) :
    List Nat → (ssrc payloadType : UInt32) → Option (List Output)
  | [], _, _ => some []
  | it :: players, ssrc, payloadType =>
    let peer := srv.peers.get it
    if peer.peerconnectionState ≠ .kConnected then
      srv.cacheMediaLoop media players ssrc payloadType
    else
      let (ssrc, payloadType) :=
        match media.mediaType with
        | .kMediaVideo => (peer.localVideoSsrc, peer.localVideoPayloadtype)
        | .kMediaAudio => (peer.localAudioSsrc, peer.localAudioPayloadtype)
        | .other _ => (ssrc, payloadType)
      if peer.peerConnection then do
        let fed ← srv.cacheMediaLoop media players ssrc payloadType
        return .feedMediaData it (mediaFrame media ssrc payloadType) :: fed
      else none

def cacheMedia (srv : RTCServer) (scache : Nat) (media : MediaData) : Option (List Output) :=
  srv.cacheMediaLoop media (srv.scaches.get scache).players 0 0

/-! ## Callbacks of the engine -/

inductive Callback where
  | onIceConnectionChange (newState : IceConnectionState)
  | onConnectionChange (newState : PeerConnectionState)
  | onAddVideoTrack (ssrc : UInt32)
  | onAddAudioTrack (ssrc : UInt32)
  | onAddLocalVideoTrack (ssrc : UInt32) (codecInfoMap : CodecInfoMap VideoCodeInfo)
  | onAddLocalAudioTrack (ssrc : UInt32) (codecInfoMap : CodecInfoMap AudioCodeInfo)
  | onRecvMediaData (media : MediaData)
  | onRequestIFrame (ssrc : UInt32)
  | onSendDataToRemote (data : Bytes) (addr : NetAddr)

/-- Dispatched to the class of the peer; `none` is the dereference of a null pointer. -/
def callback (srv : RTCServer) (p : Nat) : Callback → Option (RTCServer × List Output)
  | .onIceConnectionChange newState =>
    some (srv.updatePeer p fun peer => peer.onIceConnectionChange newState, [])
  | .onConnectionChange newState =>
    match (srv.peers.get p).peerClass with
    | .publisher => some (srv.updatePeer p fun peer => peer.onConnectionChange newState, [])
    | .player =>
      let srv := srv.updatePeer p fun peer => { peer with peerconnectionState := newState }
      if newState = .kConnected then (srv.requestPublisherIFrame p).map fun out => (srv, out)
      else some (srv, [])
  | .onAddVideoTrack ssrc => some (srv.updatePeer p fun peer => peer.onAddVideoTrack ssrc, [])
  | .onAddAudioTrack ssrc => some (srv.updatePeer p fun peer => peer.onAddAudioTrack ssrc, [])
  | .onAddLocalVideoTrack ssrc codecInfoMap =>
    some (srv.updatePeer p fun peer => peer.onAddLocalVideoTrack ssrc codecInfoMap, [])
  | .onAddLocalAudioTrack ssrc codecInfoMap =>
    some (srv.updatePeer p fun peer => peer.onAddLocalAudioTrack ssrc codecInfoMap, [])
  | .onRecvMediaData media =>
    match (srv.peers.get p).peerClass with
    | .publisher => do
      let scache ← (srv.peers.get p).scache
      let fed ← srv.cacheMedia scache media
      return (srv, fed)
    | .player => some (srv, [])
  | .onRequestIFrame _ =>
    match (srv.peers.get p).peerClass with
    | .publisher => some (srv, [])
    | .player => (srv.requestPublisherIFrame p).map fun out => (srv, out)
  | .onSendDataToRemote data addr => (srv.udpSocketSend p data addr).map fun out => (srv, out)

end RTCServer

end Sars
