import Sars.RtcServer
import Sars.EventRuns

/-!
# Signalling requests and the server process

`HandlePublish` and `HandlePlay` are coroutines that are switched out in
`body_read_all` and in `w->Write` and nowhere else, so a request makes two
steps. The process interleaves them with datagrams and callbacks of the engine.
A request body has already been taken apart into its two strings. `make_shared`
gives no null pointer, so the two null tests of the handlers never fire and are
left out. The answer text comes from the engine; the `dump` that puts it into the
response is assumed not to throw.
-/

namespace Sars

open ByteMemory ObjectHeap GrowingMap EventRuns

inductive RequestKind where
  | publish
  | play
  deriving DecidableEq

/-- The locals of a handler that is suspended in `w->Write`. -/
structure Job where
  kind : RequestKind
  streamID : Bytes
  scache : Nat
  peer : Nat
  deriving DecidableEq

inductive Handler where
  | reading (kind : RequestKind)
  | writing (job : Job)
  | returned (ret : Int) (job : Option Job)
  deriving DecidableEq

/-- How the first half of a handler ends. -/
inductive Progress where
  | exit
  | ret (srv : RTCServer) (code : Int)
  | write (srv : RTCServer) (job : Job) (answerSdp : Bytes)

inductive Status where
  | running
  | exited
  | crashed
  deriving DecidableEq

structure World where
  server : RTCServer := {}
  handlers : List Handler := []
  status : Status := .running

/-- The buffer of `Cycle` has 2048 bytes. -/
abbrev Datagram := {b : Bytes // b.length ≤ 2048}

inductive Event where
  | accept (kind : RequestKind)
  | body (handler : Nat) (offer streamUrl : Bytes) (engine : Engine)
  | written (handler : Nat) (ret : Int)
  | datagram (buf : Datagram) (addr : SockaddrIn)
  | callback (peer : Nat) (cb : RTCServer.Callback)

namespace Signalling

def handlePublishBody (srv : RTCServer) (offer streamUrl : Bytes) (engine : Engine) : Progress :=
  match getStreamIdFromStreamUrl streamUrl with
  | none => .exit
  | some streamID =>
    let (srv, scache) := srv.getOrCreateStreamCache streamID
    if (srv.scaches.get scache).canPublish = false then .ret srv (-15)
    else
      let (srv, peer, answerSdp) := srv.createRtcPublisher offer engine
      .write srv { kind := .publish, streamID := streamID, scache := scache, peer := peer }
        answerSdp

def handlePlayBody (srv : RTCServer) (offer streamUrl : Bytes) (engine : Engine) : Progress :=
  match getStreamIdFromStreamUrl streamUrl with
  | none => .exit
  | some streamID =>
    let (srv, scache) := srv.getOrCreateStreamCache streamID
    if (srv.scaches.get scache).canPublish = true then .ret srv (-15)
    else
      let (srv, peer, answerSdp) := srv.createRtcPlayer offer engine
      .write srv { kind := .play, streamID := streamID, scache := scache, peer := peer } answerSdp

/-- What follows `w->Write` in `HandlePublish`; the return code of the write is returned. -/
def handlePublishWritten (srv : RTCServer) (job : Job) (ret : Int) :
    RTCServer × List Output × Int :=
  let srv := srv.updateCache job.scache fun c => c.setPublisher job.peer
  let srv := srv.updatePeer job.peer fun p => { p with scache := some job.scache }
  (srv, [.setPublisher job.scache job.peer], ret)

/-- In `HandlePlay` the return code of the write is dropped. -/
def handlePlayWritten (srv : RTCServer) (job : Job) : RTCServer × List Output × Int :=
  let srv := srv.updateCache job.scache fun c => c.addPlayer job.peer
  let srv := srv.updatePeer job.peer fun p => { p with scache := some job.scache }
  (srv, [.addPlayer job.scache job.peer], 0)

def handleBody (kind : RequestKind) : RTCServer → Bytes → Bytes → Engine → Progress :=
  match kind with
  | .publish => handlePublishBody
  | .play => handlePlayBody

def handleWritten (srv : RTCServer) (job : Job) (ret : Int) : RTCServer × List Output × Int :=
  match job.kind with
  | .publish => handlePublishWritten srv job ret
  | .play => handlePlayWritten srv job

end Signalling

namespace World

open Signalling

def stepBody (w : World) (i : Nat) (kind : RequestKind) (offer streamUrl : Bytes)
    (engine : Engine) : World × List Output :=
  match handleBody kind w.server offer streamUrl engine with
  | .exit => ({ w with status := .exited }, [])
  | .ret srv code =>
    ({ w with server := srv, handlers := w.handlers.set i (.returned code none) }, [])
  | .write srv job answerSdp =>
    ({ w with server := srv, handlers := w.handlers.set i (.writing job) }, [.write i answerSdp])

def stepWritten (w : World) (i : Nat) (job : Job) (ret : Int) : World × List Output :=
  let (srv, out, code) := handleWritten w.server job ret
  ({ w with server := srv, handlers := w.handlers.set i (.returned code (some job)) }, out)

def stepDatagram (w : World) (buf : Bytes) (addr : SockaddrIn) : World × List Output :=
  match w.server.onRecvClientPkt buf addr with
  | .ok (srv, out) => ({ w with server := srv }, out)
  | .error _ => ({ w with status := .crashed }, [])

/-- The engine can only call back a peer for which it has made a connection. -/
def Connected (w : World) (p : Nat) : Prop :=
  p < w.server.peers.size ∧ (w.server.peers.get p).peerConnection = true

instance (w : World) (p : Nat) : Decidable (Connected w p) :=
  inferInstanceAs (Decidable (_ ∧ _))

def stepCallback (w : World) (p : Nat) (cb : RTCServer.Callback) : World × List Output :=
  if Connected w p then
    match w.server.callback p cb with
    | some (srv, out) => ({ w with server := srv }, out)
    | none => ({ w with status := .crashed }, [])
  else (w, [])

/-- One step of the process; an event that is not enabled does nothing. -/
def step (w : World) (e : Event) : World × List Output :=
  if w.status ≠ .running then (w, [])
  else
    match e with
    | .accept kind => ({ w with handlers := w.handlers ++ [.reading kind] }, [])
    | .body i offer streamUrl engine =>
      match w.handlers[i]? with
      | some (.reading kind) => stepBody w i kind offer streamUrl engine
      | _ => (w, [])
    | .written i ret =>
      match w.handlers[i]? with
      | some (.writing job) => stepWritten w i job ret
      | _ => (w, [])
    | .datagram buf addr => stepDatagram w buf.val addr
    | .callback p cb => stepCallback w p cb

/-- The server before its first request. -/
def start : World := {}

end World

/-! ## Requests for concrete runs -/

/-- An SDP with nothing but the line of its ice-ufrag. -/
def sdpOf (ufrag : Bytes) : Bytes := iceUfrag ++ 0x3A :: ufrag ++ crlf

/-- The engine makes a connection and answers with this ufrag. -/
def engineOf (lufrag : Bytes) : Engine :=
  { connects := true, localVideoSsrc := 1, localAudioSsrc := 2, answer := sdpOf lufrag }

/-- Request `i` from its arrival to the return of its write, for a peer with ufrag "b". -/
def served (i : Nat) (kind : RequestKind) (streamUrl lufrag : Bytes) : List Event :=
  [.accept kind, .body i (sdpOf [0x62]) streamUrl (engineOf lufrag), .written i 0]

def keyFrame : MediaData :=
  { mediaType := .kMediaVideo, data := [0, 1, 2], len := 3, timestamp := 0, ssrc := 7
    payloadType := 96, rotateAngle := 0, audioFrameLen := 0, data_length := by decide }

end Sars
