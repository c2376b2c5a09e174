import Sars.AddressBindings
import Sars.StunNormalForm

/-!
# Digests nobody reads

A datagram means three things to the server: who sent it, whether it is broken,
and whom it names if it is a BINDING REQUEST. Whether it is signed, and with
which password, is not among them. A run in which any of the accepted messages
were written again under other passwords, or under none, is the same run.
-/

namespace Sars

open ByteMemory ObjectHeap GrowingMap EventRuns World

/-- An event as the server sees it: the bytes of a datagram count only as its `traffic`. -/
inductive SameTraffic : Event → Event → Prop
  | same (e : Event) : SameTraffic e e
  | datagram {buf buf' : Datagram} (addr : SockaddrIn)
      (agree : traffic buf'.val = traffic buf.val) :
      SameTraffic (.datagram buf addr) (.datagram buf' addr)

/-- The second datagram is the message of the first, written again under some password. -/
inductive Resigned (hmac : Bytes → Bytes → Block 20) : Event → Event → Prop
  | same (e : Event) : Resigned hmac e e
  | signed {buf buf' : Datagram} (addr : SockaddrIn) {p out : Stun} {password buffer : Bytes}
      (accepted : Stun.parse buf.val = .ok (.packet p)) (short : p.username.length < 513)
      (room : (p.authenticate password).serializedSize ≤ buffer.length)
      (written : Stun.serialize hmac (p.authenticate password) buffer = .ok out)
      (sent : buf'.val = out.data.take out.size) :
      Resigned hmac (.datagram buf addr) (.datagram buf' addr)

/-- An output without the bytes of the datagram that is handed on. -/
def Output.handedOn : Output → Output
  | .udpSocketRecv p _ addr => .udpSocketRecv p [] addr
  | .processRemoteData p _ addr => .processRemoteData p [] addr
  | o => o

/-! ## One datagram -/

theorem udpSocketRecv_handedOn (srv : RTCServer) (p : Nat) (data data' : Bytes) (addr : NetAddr) :
    (srv.udpSocketRecv p data' addr).map Output.handedOn =
      (srv.udpSocketRecv p data addr).map Output.handedOn := by
  simp only [RTCServer.udpSocketRecv]
  split_ifs <;> rfl

theorem target_agree {srv : RTCServer} {buf buf' : Bytes} (addr : SockaddrIn)
    (agree : traffic buf' = traffic buf) : target srv buf' addr = target srv buf addr := by
  simp only [target, agree]

theorem step_sameTraffic (w : World) (e e' : Event) (h : SameTraffic e e') :
    (w.step e').1 = (w.step e).1 ∧
      (w.step e').2.map Output.handedOn = (w.step e).2.map Output.handedOn := by
  cases h with
  | same => exact ⟨rfl, rfl⟩
  | @datagram buf buf' addr agree =>
    by_cases running : w.status = .running
    · rw [step_datagram_eq running, step_datagram_eq running, stepDatagram_eq, stepDatagram_eq,
        target_agree addr agree]
      cases target w.server buf.val addr with
      | none => exact ⟨rfl, rfl⟩
      | some p => exact ⟨rfl, udpSocketRecv_handedOn _ _ _ _ _⟩
    · rw [step_stopped running, step_stopped running]
      exact ⟨rfl, rfl⟩

theorem traffic_accepted {data : Bytes} {p : Stun} (accepted : Stun.parse data = .ok (.packet p)) :
    traffic data =
      if p.klass = .request ∧ p.method = Stun.Method.binding then .request p.username
      else .other := by
  have hstun : Stun.isStun data = .ok true := by
    obtain ⟨b, hb⟩ := Stun.isStun_total data
    cases b with
    | false => simp [Stun.parse, Stun.parseWith, hb] at accepted
    | true => exact hb
  simp only [traffic, hstun, accepted, if_true]

/-- What is written again is the same traffic. -/
theorem Resigned.sameTraffic {hmac : Bytes → Bytes → Block 20} {e e' : Event}
    (h : Resigned hmac e e') : SameTraffic e e' := by
  cases h with
  | same => exact .same e
  | @signed buf buf' addr p out password buffer accepted short room written sent =>
    have hlen : buf.val.length ≤ 65535 := buf.property.trans (by decide)
    obtain ⟨out', q, hout, _, hparse, hsame, _⟩ :=
      Stun.written_again hmac password hlen accepted short room
    cases hout.symm.trans written
    rw [← sent] at hparse
    refine .datagram addr ?_
    rw [traffic_accepted hparse, traffic_accepted accepted, hsame.klass, hsame.method,
      hsame.username]

/-! ## Whole runs -/

/-- Signing messages with other passwords, or not at all, changes nothing but the bytes that are
handed to the engine. -/
theorem digests_unread (hmac : Bytes → Bytes → Block 20) {es es' : List Event}
    (resigned : List.Forall₂ (Resigned hmac) es es') :
    after step start es' = after step start es ∧
      (outputs step start es').map Output.handedOn =
        (outputs step start es).map Output.handedOn :=
  run_related (step_sameTraffic · · ·) (resigned.imp fun _ _ h => h.sameTraffic)

/-- A request without a digest and the same one signed with "p". -/
theorem digests_unread_firstRequest :
    ∃ buf : Datagram, buf.val.length = 60 ∧
      after step start (twoPublishers ++ [.datagram buf client]) =
        after step start (twoPublishers ++ [.datagram firstRequest client]) := by
  have hlength : (Stun.serialize Stun.bindingResponseHmac
      (Stun.bindingPacket.authenticate [0x70]) (List.replicate 60 0)).toOption.map
        (fun out => (out.data.take out.size).length) = some 60 := by
    decide +kernel
  have hparse : Stun.parse firstRequest.val = .ok (.packet Stun.bindingPacket) := by decide +kernel
  cases hwritten : Stun.serialize Stun.bindingResponseHmac
      (Stun.bindingPacket.authenticate [0x70]) (List.replicate 60 0) with
  | error fault =>
    rw [hwritten] at hlength
    cases hlength
  | ok out =>
    rw [hwritten] at hlength
    have hsize : (out.data.take out.size).length = 60 := Option.some.inj hlength
    have hresigned : Resigned Stun.bindingResponseHmac (.datagram firstRequest client)
        (.datagram ⟨out.data.take out.size, by omega⟩ client) :=
      .signed client hparse (by decide) (by decide) hwritten rfl
    refine ⟨⟨out.data.take out.size, by omega⟩, hsize, ?_⟩
    exact (digests_unread Stun.bindingResponseHmac (List.rel_append
      (List.forall₂_same.mpr fun e _ => .same e) (.cons hresigned .nil))).1

end Sars
