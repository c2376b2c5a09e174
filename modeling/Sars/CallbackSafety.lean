import Sars.AddressBindings
import Sars.StreamInvariant

/-!
# Callbacks that read a stream

A peer can be reached from the network as soon as it is registered, and it is
linked to its stream only when its handler has returned from `w->Write`. Where
the callbacks that follow the link come after that, and every publisher has a
connection, none of the pointers on the way from a player to the connection of
its publisher is null.
-/

namespace Sars

open ByteMemory ObjectHeap GrowingMap EventRuns World

/-- The callbacks that follow the link from a peer to its stream. -/
def readsStream : PeerClass → RTCServer.Callback → Bool
  | .publisher, .onRecvMediaData _ => true
  | .player, .onConnectionChange newState => newState = .kConnected
  | .player, .onRequestIFrame _ => true
  | _, _ => false

/-- None of the pointers from the peer to its stream, and for a player on to the
connection of the publisher, is null. -/
def Linked (srv : RTCServer) (p : Nat) : Prop :=
  ∃ c, (srv.peers.get p).scache = some c ∧
    ((srv.peers.get p).peerClass = .player → ∃ q, (srv.scaches.get c).publisher = some q ∧
      (srv.peers.get q).peerConnection = true)

def SafeCallback (srv : RTCServer) (p : Nat) (cb : RTCServer.Callback) : Prop :=
  readsStream (srv.peers.get p).peerClass cb = true → Linked srv p

/-- A datagram has been delivered to the peer. -/
def Reached (w : World) (p : Nat) : Prop := ((w.server.peers.get p).remoteAddr).isSome = true

/-- The engine calls back only peers that a datagram has reached. -/
def Delivered (w : World) : Event → Prop
  | .callback p _ => Reached w p
  | _ => True

instance (w : World) : (e : Event) → Decidable (Delivered w e)
  | .callback p _ => inferInstanceAs (Decidable ((w.server.peers.get p).remoteAddr.isSome = true))
  | .accept _ | .body _ _ _ _ | .written _ _ | .datagram _ _ => isTrue trivial

/-! ## The order that makes callbacks safe -/

def Handler.returnedFor (p : Nat) : Handler → Bool
  | .returned _ (some job) => job.peer = p
  | _ => false

/-- The handler that made this peer has returned. -/
def World.hasReturned (w : World) (p : Nat) : Bool := w.handlers.any (Handler.returnedFor p)

/-- This step takes a publish past the check. -/
def publishing (w : World) (e : Event) : Bool :=
  match passing w e with
  | some (.publish, _) => true
  | _ => false

def Event.connects : Event → Bool
  | .body _ _ _ engine => engine.connects
  | _ => false

/-- A callback that reads the stream comes after the return of the handler. -/
def AfterReturn (w : World) : Event → Prop
  | .callback p cb =>
    readsStream (w.server.peers.get p).peerClass cb = true → w.hasReturned p = true
  | _ => True

instance (w : World) : (e : Event) → Decidable (AfterReturn w e)
  | .callback p cb => inferInstanceAs (Decidable
      (readsStream (w.server.peers.get p).peerClass cb = true → w.hasReturned p = true))
  | .accept _ | .body _ _ _ _ | .written _ _ | .datagram _ _ => isTrue trivial

/-- Publishes get a connection and callbacks wait for the handler. -/
def InOrder (w : World) (e : Event) : Prop :=
  (publishing w e = true → e.connects = true) ∧ AfterReturn w e

instance (w : World) (e : Event) : Decidable (InOrder w e) :=
  inferInstanceAs (Decidable ((_ → _) ∧ _))

/-! ## The invariant -/

structure PublishersConnected (σ : Sessions) (srv : RTCServer) : Prop where
  inv : StreamInv σ srv
  connected : ∀ i job done, σ i = some (job, done) → job.kind = .publish →
    (srv.peers.get job.peer).peerConnection = true

theorem PublishersConnected.step {w : World} {e : Event}
    (h : PublishersConnected w.sessions w.server) (order : InOrder w e) :
    PublishersConnected (w.step e).1.sessions (w.step e).1.server := by
  have hsession := step_session w e
  refine { inv := h.inv.session hsession, connected := ?_ }
  cases hsession with
  | same sessions quiet =>
    intro i job done hi hkind
    rw [sessions] at hi
    have hfields := quiet.session job.peer
    simp only [RtcPeer.session, Prod.mk.injEq] at hfields
    rw [hfields.2.1]
    exact h.connected i job done hi hkind
  | opened sessions opened =>
    intro i job done hi hkind
    rw [sessions] at hi
    rw [opened.peers.1]
    exact h.connected i job done hi hkind
  | @begun i offer streamUrl engine job srv _ free passed opened wanted created new sessions =>
    intro j b done hj hkind
    rw [sessions] at hj
    rcases session_cases hj with ⟨_, heq⟩ | ⟨_, hold⟩
    · cases heq
      have hpublishing : publishing w (.body i offer streamUrl engine) = true := by
        simp only [publishing]
        rw [passed, hkind]
      rw [new, created.connection]
      exact order.1 hpublishing
    · have hne : b.peer ≠ srv.peers.size := by
        have hlt := (h.inv.peer j b done hold).1
        rw [opened.peers.1]
        omega
      rw [created.others hne, opened.peers.1]
      exact h.connected j b done hold hkind
  | finished suspended linked sessions =>
    intro j b done hj hkind
    rw [sessions] at hj
    rw [linked, link_field RtcPeer.peerConnection (fun _ => rfl)]
    rcases session_cases hj with ⟨_, heq⟩ | ⟨_, hold⟩
    · cases heq
      exact h.connected _ _ false suspended hkind
    · exact h.connected j b done hold hkind

theorem publishersConnected_start : PublishersConnected start.sessions start.server :=
  { inv := streamInv_start, connected := fun _ _ _ h => nomatch h }

theorem session_of_hasReturned {w : World} {p : Nat} (h : w.hasReturned p = true) :
    ∃ i job, w.sessions i = some (job, true) ∧ job.peer = p := by
  obtain ⟨handler, hmem, hfor⟩ := List.any_eq_true.mp h
  match handler with
  | .reading _ => cases hfor
  | .writing _ => cases hfor
  | .returned _ none => cases hfor
  | .returned _ (some job) =>
    obtain ⟨i, hi⟩ := returned_session hmem
    exact ⟨i, job, hi, of_decide_eq_true hfor⟩

/-- A peer whose handler has returned is linked all the way. -/
theorem PublishersConnected.linked {w : World} {p : Nat}
    (h : PublishersConnected w.sessions w.server) (returned : w.hasReturned p = true) :
    Linked w.server p := by
  obtain ⟨i, job, hi, rfl⟩ := session_of_hasReturned returned
  obtain ⟨_, hclass, hscache⟩ := h.inv.peer i job true hi
  refine ⟨job.scache, hscache, fun hplayer => ?_⟩
  have hkind : job.kind = .play :=
    RequestKind.peerClass_injective (hclass.symm.trans hplayer)
  -- the stream was taken when the play passed, so it has a publisher
  have htaken := h.inv.playing i job true hi hkind
  cases hpublisher : (w.server.scaches.get job.scache).publisher with
  | none =>
    rw [(h.inv.taken job.scache).mpr hpublisher] at htaken
    cases htaken
  | some q =>
    obtain ⟨j, b, hj, hpub, rfl, _⟩ := h.inv.publisher _ _ hpublisher
    exact ⟨b.peer, rfl, h.connected j b true hj hpub⟩

/-- In runs that keep the order no callback follows a null pointer. -/
theorem callbacks_safe (es : List Event) (p : Nat) (cb : RTCServer.Callback)
    (order : Meets step InOrder start (es ++ [.callback p cb])) :
    SafeCallback (after step start es).server p cb := by
  obtain ⟨hrun, hlast⟩ := meets_append.mp order
  have hinv : PublishersConnected (after step start es).sessions (after step start es).server :=
    invariant_run (I := fun w => PublishersConnected w.sessions w.server)
      (fun _ _ h horder => h.step horder) publishersConnected_start hrun
  intro hreads
  exact hinv.linked (hlast.1.2 hreads)

/-! ### A callback before and after the return of the handler -/

/-- A publisher that is suspended in its write and has been reached by a datagram. -/
def reachedEarly : List Event :=
  [.accept .publish, .body 0 (sdpOf [0x62]) [0x2F, 0x73] (engineOf [0x61]),
    .datagram firstRequest client]

theorem callbacks_safe_returned :
    SafeCallback (after step start (reachedEarly ++ [.written 0 0])).server 0
      (.onRecvMediaData keyFrame) := by
  have order : Meets step InOrder start
      (reachedEarly ++ [.written 0 0] ++ [.callback 0 (.onRecvMediaData keyFrame)]) := by
    decide +kernel
  -- the run is not to be evaluated again when the two statements are compared
  generalize reachedEarly ++ [.written 0 0] = es at *
  exact callbacks_safe es 0 (.onRecvMediaData keyFrame) order

/-- The stream of the publisher is still null. -/
theorem early_callback_unsafe :
    ¬ ∀ (es : List Event) (p : Nat) (cb : RTCServer.Callback), Meets step Delivered start es →
      (after step start es).status = .running → Reached (after step start es) p →
        SafeCallback (after step start es).server p cb := by
  intro h
  have hsafe := h reachedEarly 0 (.onRecvMediaData keyFrame) (by decide +kernel)
    (by decide +kernel) (by unfold Reached; decide +kernel)
  have hclass : ((after step start reachedEarly).server.peers.get 0).peerClass = .publisher := by
    decide +kernel
  obtain ⟨c, hc, _⟩ := hsafe (by rw [hclass]; rfl)
  have hnull : ((after step start reachedEarly).server.peers.get 0).scache = none := by
    decide +kernel
  rw [hnull] at hc
  cases hc

end Sars
