import Sars.Stun
import Sars.DecimalText

/-!
# Peers

The record of a peer with the fields the server reads, the values the WebRTC
engine hands to it and the callbacks that concern the peer alone. Publisher and
player are one record with the class they were created with, since the engine
calls both through the base class. What the engine itself does is outside: a
peer only knows whether it got a connection.
-/

namespace Sars

open ByteMemory NetworkOrder DecimalText

inductive PeerConnectionState where
  | kNew
  | kConnected
  | kDisconnected
  | kFailed
  | kClosed
  | other (code : UInt32)
  deriving DecidableEq

inductive IceConnectionState where
  | kIceConnectionFailed
  | kIceConnectionClosed
  | other (code : UInt32)
  deriving DecidableEq

inductive MediaType where
  | kMediaVideo
  | kMediaAudio
  | other (code : UInt32)
  deriving DecidableEq

/-- The two codecs the server looks for. -/
inductive VideoCodeType where
  | kVideoCodeH264
  | other (code : UInt32)
  deriving DecidableEq

inductive AudioCodeType where
  | kAudioCodecOpus
  | other (code : UInt32)
  deriving DecidableEq

structure VideoCodeInfo where
  payloadType : UInt32
  codecType : VideoCodeType
  deriving DecidableEq

structure AudioCodeInfo where
  payloadType : UInt32
  codecType : AudioCodeType
  deriving DecidableEq

/-- A `std::map` keyed by payload type, in the order it is iterated. -/
structure CodecInfoMap (α : Type) where
  entries : List (UInt32 × α)
  sorted : entries.Pairwise fun a b => a.1 < b.1
  deriving DecidableEq

def CodecInfoMap.empty {α : Type} : CodecInfoMap α := { entries := [], sorted := .nil }

/-- A frame from the engine; `data_` points to exactly `len_` bytes. -/
structure MediaData where
  mediaType : MediaType
  data : Bytes
  len : Int32
  timestamp : UInt64
  ssrc : UInt32
  payloadType : UInt32
  rotateAngle : UInt32
  audioFrameLen : UInt32
  data_length : data.length = len.toInt.toNat
  deriving DecidableEq

/-- An address as the engine has it: text and a port in network order. -/
structure NetAddr where
  ip : Bytes
  port : Block 2
  deriving DecidableEq

inductive PeerClass where
  | publisher
  | player
  deriving DecidableEq

structure RtcPeer where
  peerClass : PeerClass
  isIceBreak : Bool := false
  isPeerBreak : Bool := false
  peerConnection : Bool := false
  localVideoCodecInfoMap : CodecInfoMap VideoCodeInfo := .empty
  localAudioCodecInfoMap : CodecInfoMap AudioCodeInfo := .empty
  remoteVideoSsrc : UInt32 := 0
  remoteAudioSsrc : UInt32 := 0
  localVideoSsrc : UInt32 := 0
  localAudioSsrc : UInt32 := 0
  localVideoPayloadtype : UInt32 := 0
  localAudioPayloadtype : UInt32 := 0
  peerconnectionState : PeerConnectionState := .kNew
  sender : Bool := false
  ufrag : Bytes := []
  remoteAddr : Option NetAddr := none
  scache : Option Nat := none
  deriving DecidableEq

instance : Inhabited RtcPeer := ⟨{ peerClass := .player }⟩

/-! ## Network addresses -/

def inetNtoa (addr : Block 4) : Bytes := dotted addr.val

/-- `none` when the text is no address and the result is left unassigned. -/
def inetPton (t : Bytes) : Option (Block 4) :=
  match ofDotted t with
  | some bs => if h : bs.length = 4 then some ⟨bs, h⟩ else none
  | none => none

def ntohs (port : Block 2) : UInt16 := ofBe16 (port.val.getD 0 0) (port.val.getD 1 0)

/-- The text under which a source address is kept. -/
def remoteText (addr : SockaddrIn) : Bytes :=
  colon (inetNtoa addr.sinAddr) (ntohs addr.sinPort).toNat

theorem inetPton_inetNtoa (addr : Block 4) : inetPton (inetNtoa addr) = some addr := by
  have hne : addr.val ≠ [] := by
    intro h
    have hlen := addr.property
    rw [h] at hlen
    cases hlen
  simp only [inetPton, inetNtoa]
  rw [ofDotted_dotted hne]
  exact dif_pos addr.property

theorem ntohs_injective : Function.Injective ntohs := by
  rintro ⟨p, hp⟩ ⟨q, hq⟩ h
  match p, hp, q, hq with
  | [a, b], _, [c, d], _ =>
    have hbytes := congrArg be16 h
    simp only [ntohs, List.getD_cons_zero, List.getD_cons_succ, be16_ofBe16] at hbytes
    exact Subtype.ext hbytes

theorem colon_notMem_inetNtoa (addr : Block 4) : (58 : UInt8) ∉ inetNtoa addr := by
  intro h
  rcases mem_dotted h with hdigit | hdot
  · simp [isDigit] at hdigit
  · exact absurd hdot (by decide)

theorem remoteText_injective : Function.Injective remoteText := by
  intro a b h
  obtain ⟨hip, hport⟩ := colon_injective (colon_notMem_inetNtoa a.sinAddr) h
  have haddr : some a.sinAddr = some b.sinAddr := by
    rw [← inetPton_inetNtoa a.sinAddr, ← inetPton_inetNtoa b.sinAddr, hip]
  have hsame := ntohs_injective (UInt16.toNat_inj.mp hport)
  cases a
  cases b
  cases haddr
  cases hsame
  rfl

/-! ## Callbacks of one peer -/

namespace RtcPeer

def onConnectionChange (p : RtcPeer) (newState : PeerConnectionState) : RtcPeer :=
  let p := { p with peerconnectionState := newState }
  if newState = .kDisconnected ∨ newState = .kFailed ∨ newState = .kClosed then
    { p with isPeerBreak := true }
  else p

def onIceConnectionChange (p : RtcPeer) (newState : IceConnectionState) : RtcPeer :=
  if newState = .kIceConnectionFailed ∨ newState = .kIceConnectionClosed then
    { p with isIceBreak := true }
  else p

/-- The first H264 entry sets a payload type that is still zero. -/
def onAddLocalVideoTrack (p : RtcPeer) (ssrc : UInt32) (codecInfoMap : CodecInfoMap VideoCodeInfo) :
    RtcPeer :=
  let payloadtype := codecInfoMap.entries.foldl
    (fun pt e => if pt = 0 ∧ e.2.codecType = .kVideoCodeH264 then e.2.payloadType else pt)
    p.localVideoPayloadtype
  { p with
    localVideoPayloadtype := payloadtype, localVideoCodecInfoMap := codecInfoMap
    localVideoSsrc := ssrc }

def onAddLocalAudioTrack (p : RtcPeer) (ssrc : UInt32) (codecInfoMap : CodecInfoMap AudioCodeInfo) :
    RtcPeer :=
  let payloadtype := codecInfoMap.entries.foldl
    (fun pt e => if pt = 0 ∧ e.2.codecType = .kAudioCodecOpus then e.2.payloadType else pt)
    p.localAudioPayloadtype
  { p with
    localAudioPayloadtype := payloadtype, localAudioCodecInfoMap := codecInfoMap
    localAudioSsrc := ssrc }

def onAddVideoTrack (p : RtcPeer) (ssrc : UInt32) : RtcPeer := { p with remoteVideoSsrc := ssrc }

def onAddAudioTrack (p : RtcPeer) (ssrc : UInt32) : RtcPeer := { p with remoteAudioSsrc := ssrc }

def isPeerTimeOut (p : RtcPeer) : Bool := p.isIceBreak || p.isPeerBreak

/-- Where `SendPktToClient` sends, whatever address it was called with. -/
def sendAddr (p : RtcPeer) : Option SockaddrIn := do
  let remoteAddr ← p.remoteAddr
  let sinAddr ← inetPton remoteAddr.ip
  return { sinPort := remoteAddr.port, sinAddr := sinAddr }

end RtcPeer

end Sars
