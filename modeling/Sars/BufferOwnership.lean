import Sars.AddressBindings

/-!
# The receive buffers

`Cycle` allocates a buffer for each datagram, and nothing releases one but the
packet that `UdpSocketRecv` wraps it in. Every early exit of `OnRecvClientPkt`
drops the pointer, so the books balance over a run exactly when each datagram
finds a peer.
-/

namespace Sars

open ByteMemory EventRuns World

/-- The buffers allocated for what this step receives. -/
def allocated (w : World) : Event → Nat
  | .datagram _ _ => if w.status = .running then 1 else 0
  | _ => 0

/-- Each `UdpSocketRecv` gives a buffer to a `MyPacket`. -/
def wrapped (out : List Output) : Nat := (deliveries out).length

def charge (w : World) (e : Event) : Int := allocated w e - wrapped (w.step e).2

/-- Buffers that were allocated and neither released nor given to a packet. -/
def outstanding (es : List Event) : Int := tally step charge start es

/-- A datagram that `RecvFrom` has put into a buffer. -/
def Received (w : World) : Event → Prop
  | .datagram _ _ => w.status = .running
  | _ => False

/-- No buffer is outstanding after any received datagram. -/
def BuffersBalanced (es : List Event) : Prop :=
  ∀ as e bs, es = as ++ e :: bs → Received (after step start as) e → outstanding (as ++ [e]) = 0

/-- The datagram is no malformed STUN, a binding request names a registered peer, and
anything else comes from a bound address. -/
def Claimed (srv : RTCServer) (buf : Bytes) (addr : SockaddrIn) : Prop :=
  match traffic buf with
  | .malformed => False
  | .request username => srv.sarsPeersUfragMaps.lookup username ≠ none
  | .other => srv.sarsPeersAddrMaps.lookup (remoteText addr) ≠ none

def AllClaimed (w : World) : Event → Prop
  | .datagram buf addr => w.status = .running → Claimed w.server buf.val addr
  | _ => True

theorem claimed_iff {srv : RTCServer} {buf : Bytes} {addr : SockaddrIn} :
    Claimed srv buf addr ↔ target srv buf addr ≠ none := by
  simp only [Claimed, target]
  cases traffic buf with
  | malformed => simp
  | request username => simp
  | other => exact Iff.rfl

/-- Only a received datagram is charged. -/
theorem charge_other {w : World} {e : Event} (other : ¬ Received w e) : charge w e = 0 := by
  by_cases running : w.status = .running
  · have hsub := (step_move w e).received
    cases e with
    | datagram buf addr => exact absurd running other
    | accept | body | written | callback =>
      have hnone : deliveries (w.step _).2 = [] :=
        List.map_eq_nil_iff.mp (List.sublist_nil.mp hsub)
      simp [charge, allocated, wrapped, hnone]
  · rw [charge, step_stopped running]
    cases e <;> simp [allocated, wrapped, deliveries, running]

/-- A received datagram is charged for unless it has a target. -/
theorem charge_datagram {w : World} (running : w.status = .running) (buf : Datagram)
    (addr : SockaddrIn) :
    charge w (.datagram buf addr) = 0 ↔ Claimed w.server buf.val addr := by
  rw [claimed_iff]
  rcases step_datagram running buf addr with ⟨hnone, hidle⟩ | ⟨p, hp, hdelivered, _⟩
  · simp [charge, allocated, wrapped, running, hnone, hidle, deliveries]
  · simp [charge, allocated, wrapped, running, hp, hdelivered]

theorem buffers_balanced_iff (es : List Event) :
    BuffersBalanced es ↔ Meets step AllClaimed start es := by
  have hcharged : (fun w e => Received w e → charge w e = 0) = AllClaimed := by
    funext w e
    cases e with
    | datagram buf addr =>
      exact propext (forall_congr' fun running => charge_datagram running _ _)
    | accept | body | written | callback =>
      exact propext (iff_of_true (fun h => False.elim h) trivial)
  have free : ∀ w e, ¬ Received w e → charge w e = 0 := fun _ _ other => charge_other other
  rw [← hcharged]
  exact tally_settled free

/-- A datagram from an unknown address. -/
theorem dropped_buffer_leaks : ¬ ∀ es, BuffersBalanced es := by
  intro h
  have hzero := h [.datagram ⟨[0x80], by decide⟩ client] [] _ [] rfl rfl
  exact absurd hzero (by decide +kernel)

end Sars
