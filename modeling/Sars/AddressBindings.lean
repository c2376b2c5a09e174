import Sars.WorldSteps

/-!
# Which peer an address belongs to

The invariant ties the map by address to the map by ufrag and to the addresses
the peers keep. Bindings are made once and never change. From this: traffic to a
peer with a known address stays with that peer, a binding request decides where
its sender's traffic goes as long as the address was not bound to someone else,
and datagrams from addresses that stay unbound could as well not have come.
-/

namespace Sars

open ByteMemory ObjectHeap GrowingMap EventRuns World

/-! ## The invariant -/

structure AddressInv (srv : RTCServer) : Prop where
  ufrags : ∀ u p, srv.sarsPeersUfragMaps.lookup u = some p →
    p < srv.peers.size ∧ (srv.peers.get p).peerConnection = true ∧
      (srv.peers.get p).sender = true ∧ (srv.peers.get p).ufrag = u
  addrs : ∀ t p, srv.sarsPeersAddrMaps.lookup t = some p →
    ∃ u, srv.sarsPeersUfragMaps.lookup u = some p
  remote : ∀ p r, (srv.peers.get p).remoteAddr = some r →
    ∃ addr, r = netAddr addr ∧ srv.sarsPeersAddrMaps.lookup (remoteText addr) = some p

/-- The fields of a peer the invariant speaks of. -/
def RtcPeer.addressing (p : RtcPeer) : Bool × Bool × Bytes × Option NetAddr :=
  (p.peerConnection, p.sender, p.ufrag, p.remoteAddr)

theorem AddressInv.of_same {srv srv' : RTCServer} (h : AddressInv srv)
    (ufrags : srv'.sarsPeersUfragMaps = srv.sarsPeersUfragMaps)
    (addrs : srv'.sarsPeersAddrMaps = srv.sarsPeersAddrMaps)
    (size : srv'.peers.size = srv.peers.size)
    (same : ∀ q, (srv'.peers.get q).addressing = (srv.peers.get q).addressing) :
    AddressInv srv' := by
  have fields : ∀ q, (srv'.peers.get q).peerConnection = (srv.peers.get q).peerConnection ∧
      (srv'.peers.get q).sender = (srv.peers.get q).sender ∧
      (srv'.peers.get q).ufrag = (srv.peers.get q).ufrag ∧
      (srv'.peers.get q).remoteAddr = (srv.peers.get q).remoteAddr := by
    intro q
    simpa only [RtcPeer.addressing, Prod.mk.injEq] using same q
  refine { ufrags := ?_, addrs := ?_, remote := ?_ }
  · intro u p hu
    obtain ⟨hconn, hsender, hufrag, _⟩ := fields p
    rw [hconn, hsender, hufrag, size]
    exact h.ufrags u p (ufrags ▸ hu)
  · rw [addrs, ufrags]
    exact h.addrs
  · intro p r hr
    rw [addrs]
    exact h.remote p r ((fields p).2.2.2 ▸ hr)

theorem Framed.addressing {p : Nat} {srv srv' : RTCServer} (h : Framed p srv srv') (q : Nat) :
    (srv'.peers.get q).addressing = (srv.peers.get q).addressing := by
  have hfixed := h.fixed q
  simp only [RtcPeer.fixed, Prod.mk.injEq] at hfixed
  simp only [RtcPeer.addressing, hfixed]

theorem AddressInv.opened {streamID : Bytes} {srv srv' : RTCServer} {scache : Nat}
    (h : AddressInv srv) (ho : Opened streamID srv srv' scache) : AddressInv srv' := by
  rcases ho.cases with ⟨_, rfl⟩ | ⟨_, _, rfl⟩
  · exact h
  · exact h.of_same rfl rfl rfl fun _ => rfl

theorem AddressInv.created {peerClass : PeerClass} {offer : Bytes} {engine : Engine}
    {srv srv' : RTCServer} (h : AddressInv srv) (hc : Created peerClass offer engine srv srv') :
    AddressInv srv' := by
  -- an entry for the new peer, if there is one, is made from the peer's own key
  have entries : ∀ u p, srv'.sarsPeersUfragMaps.lookup u = some p →
      srv.sarsPeersUfragMaps.lookup u = some p ∨
        (p = srv.peers.size ∧ engine.connects = true ∧
          (srv'.peers.get srv.peers.size).sender = true ∧
          (srv'.peers.get srv.peers.size).ufrag = u) := by
    intro u p hu
    cases hkey : peerKey offer engine with
    | none => exact Or.inl (hc.unregistered hkey ▸ hu)
    | some key =>
      obtain ⟨hufrag, hsender, hmap⟩ := hc.registered key hkey
      rw [hmap] at hu
      rcases lookup_emplace hu with hold | ⟨_, rfl, rfl⟩
      · exact Or.inl hold
      · have hconnects : engine.connects = true := by
          by_contra hoff
          simp [peerKey, hoff] at hkey
        exact Or.inr ⟨rfl, hconnects, hsender, hufrag⟩
  have kept : ∀ u p, srv.sarsPeersUfragMaps.lookup u = some p →
      srv'.sarsPeersUfragMaps.lookup u = some p := by
    intro u p hu
    cases hkey : peerKey offer engine with
    | none => exact (hc.unregistered hkey).symm ▸ hu
    | some key =>
      rw [(hc.registered key hkey).2.2]
      exact emplace_extends _ _ _ u p hu
  refine { ufrags := ?_, addrs := ?_, remote := ?_ }
  · intro u p hu
    rcases entries u p hu with hold | ⟨rfl, hconnects, hsender, hufrag⟩
    · obtain ⟨hlt, hrest⟩ := h.ufrags u p hold
      rw [hc.old p hlt, hc.size]
      exact ⟨by omega, hrest⟩
    · refine ⟨?_, hc.connection.trans hconnects, hsender, hufrag⟩
      rw [hc.size]
      omega
  · intro t p ht
    rw [hc.addrs] at ht
    obtain ⟨u, hu⟩ := h.addrs t p ht
    exact ⟨u, kept u p hu⟩
  · intro p r hr
    rw [hc.addrs]
    by_cases hold : p < srv.peers.size
    · exact h.remote p r (hc.old p hold ▸ hr)
    · by_cases hnew : p = srv.peers.size
      · rw [hnew, hc.unaddressed] at hr
        cases hr
      · have hsize := hc.size
        rw [Heap.get_beyond (by omega)] at hr
        cases hr

theorem AddressInv.bind {srv : RTCServer} {buf : Bytes} {addr : SockaddrIn} {p : Nat}
    (h : AddressInv srv) (targeted : target srv buf addr = some p) :
    AddressInv (srv.bind addr p) := by
  rcases target_cases targeted with hbound | ⟨_, u, _, hu⟩
  · rw [bind_bound p hbound]
    exact h
  · refine { ufrags := h.ufrags, addrs := ?_, remote := ?_ }
    · intro t q hq
      rcases lookup_emplace hq with hold | ⟨_, _, rfl⟩
      · exact h.addrs t q hold
      · exact ⟨u, hu⟩
    · intro q r hr
      obtain ⟨a, ha, hbound⟩ := h.remote q r hr
      exact ⟨a, ha, emplace_extends _ _ _ _ q hbound⟩

theorem bound_of_target {srv : RTCServer} {buf : Bytes} {addr : SockaddrIn} {p : Nat}
    (targeted : target srv buf addr = some p) :
    (srv.bind addr p).sarsPeersAddrMaps.lookup (remoteText addr) = some p := by
  rw [lookup_bind]
  rcases target_cases targeted with hbound | ⟨hbound, _⟩ <;> rw [hbound] <;> rfl

theorem AddressInv.heard {srv : RTCServer} {addr : SockaddrIn} {p : Nat} (h : AddressInv srv)
    (bound : srv.sarsPeersAddrMaps.lookup (remoteText addr) = some p) :
    AddressInv (srv.heard addr p) := by
  have other : ∀ q, ((srv.heard addr p).peers.get q).peerConnection =
        (srv.peers.get q).peerConnection ∧
      ((srv.heard addr p).peers.get q).sender = (srv.peers.get q).sender ∧
      ((srv.heard addr p).peers.get q).ufrag = (srv.peers.get q).ufrag := by
    intro q
    refine ⟨?_, ?_, ?_⟩
    · exact Heap.get_modify_field RtcPeer.peerConnection (by intro _; rfl) q
    · exact Heap.get_modify_field RtcPeer.sender (by intro _; rfl) q
    · exact Heap.get_modify_field RtcPeer.ufrag (by intro _; rfl) q
  have hsize : (srv.heard addr p).peers.size = srv.peers.size := Heap.size_modify _ _ _
  refine { ufrags := ?_, addrs := h.addrs, remote := ?_ }
  · intro u q hu
    obtain ⟨hconn, hsender, hufrag⟩ := other q
    rw [hconn, hsender, hufrag, hsize]
    exact h.ufrags u q hu
  · intro q r hr
    by_cases hq : q = p
    · obtain ⟨u, hu⟩ := h.addrs _ _ bound
      have hlt := (h.ufrags u p hu).1
      subst hq
      have hself : ((srv.heard addr q).peers.get q).remoteAddr = some (netAddr addr) := by
        rw [RTCServer.heard, RTCServer.updatePeer, Heap.get_modify_self _ hlt]
      rw [hself] at hr
      exact ⟨addr, (Option.some.inj hr).symm, bound⟩
    · have hsame : (srv.heard addr p).peers.get q = srv.peers.get q := Heap.get_modify_ne _ hq
      rw [hsame] at hr
      exact h.remote q r hr

theorem handleWritten_addressing (srv : RTCServer) (job : Job) (ret : Int) :
    (Signalling.handleWritten srv job ret).1.sarsPeersUfragMaps = srv.sarsPeersUfragMaps ∧
      (Signalling.handleWritten srv job ret).1.sarsPeersAddrMaps = srv.sarsPeersAddrMaps ∧
      (Signalling.handleWritten srv job ret).1.peers =
        srv.peers.modify job.peer fun p => { p with scache := some job.scache } := by
  cases h : job.kind <;> simp only [Signalling.handleWritten, h] <;> exact ⟨rfl, rfl, rfl⟩

theorem AddressInv.move {w w' : World} {e : Event} {out : List Output} (h : AddressInv w.server)
    (hm : Move w e w' out) : AddressInv w'.server := by
  cases hm with
  | idle => exact h
  | stopped => exact h
  | accepted => exact h
  | rejected _ _ opened _ => exact h.opened opened
  | begun _ _ _ opened _ created => exact (h.opened opened).created created
  | @finished i job ret writing =>
    obtain ⟨hufrags, haddrs, hpeers⟩ := handleWritten_addressing w.server job ret
    refine h.of_same hufrags haddrs (by rw [hpeers, Heap.size_modify]) fun q => ?_
    rw [hpeers]
    exact Heap.get_modify_field RtcPeer.addressing (by intro _; rfl) q
  | heard targeted => exact (h.bind targeted).heard (bound_of_target targeted)
  | called _ call =>
    have hframed := callback_framed call
    exact h.of_same hframed.ufrags hframed.addrs hframed.size hframed.addressing

theorem addressInv_start : AddressInv start.server :=
  { ufrags := by intro u p h; cases h
    addrs := by intro t p h; cases h
    remote := by
      intro p r h
      have hdefault : start.server.peers.get p = default := Heap.get_beyond (Nat.zero_le p)
      rw [hdefault] at h
      cases h }

theorem addressInv_after (es : List Event) : AddressInv (after step start es).server :=
  invariant_after (fun w e h => AddressInv.move h (step_move w e)) addressInv_start es

/-! ## Bindings are permanent -/

/-- Entries of the two peer maps survive every move. -/
theorem Move.extends {w w' : World} {e : Event} {out : List Output} (hm : Move w e w' out) :
    Extends w.server.sarsPeersAddrMaps w'.server.sarsPeersAddrMaps ∧
      Extends w.server.sarsPeersUfragMaps w'.server.sarsPeersUfragMaps := by
  have opened : ∀ {streamID srv scache}, Opened streamID w.server srv scache →
      srv.sarsPeersAddrMaps = w.server.sarsPeersAddrMaps ∧
        srv.sarsPeersUfragMaps = w.server.sarsPeersUfragMaps := by
    intro streamID srv scache ho
    rcases ho.cases with ⟨_, rfl⟩ | ⟨_, _, rfl⟩ <;> exact ⟨rfl, rfl⟩
  cases hm with
  | idle => exact ⟨.refl _, .refl _⟩
  | stopped => exact ⟨.refl _, .refl _⟩
  | accepted => exact ⟨.refl _, .refl _⟩
  | rejected _ _ ho _ =>
    obtain ⟨haddrs, hufrags⟩ := opened ho
    simp only [haddrs, hufrags]
    exact ⟨.refl _, .refl _⟩
  | @begun i kind offer streamUrl streamID answer engine srv srv' scache _ _ _ ho _ created =>
    obtain ⟨haddrs, hufrags⟩ := opened ho
    simp only [created.addrs, haddrs]
    refine ⟨.refl _, ?_⟩
    cases hkey : peerKey offer engine with
    | none =>
      rw [created.unregistered hkey, hufrags]
      exact .refl _
    | some key =>
      rw [(created.registered key hkey).2.2, hufrags]
      exact emplace_extends _ _ _
  | @finished i job ret writing =>
    obtain ⟨hufrags, haddrs, _⟩ := handleWritten_addressing w.server job ret
    simp only [haddrs, hufrags]
    exact ⟨.refl _, .refl _⟩
  | heard targeted => exact ⟨emplace_extends _ _ _, .refl _⟩
  | called _ call =>
    have hframed := callback_framed call
    simp only [hframed.addrs, hframed.ufrags]
    exact ⟨.refl _, .refl _⟩

theorem addrs_extend (w : World) (es : List Event) :
    Extends w.server.sarsPeersAddrMaps (after step w es).server.sarsPeersAddrMaps := by
  induction es generalizing w with
  | nil => exact .refl _
  | cons e es ih => exact (step_move w e).extends.1.trans (ih (w.step e).1)

/-! ## Outgoing datagrams -/

theorem sendAddr_netAddr {p : RtcPeer} {addr : SockaddrIn}
    (h : p.remoteAddr = some (netAddr addr)) :
    p.sendAddr = some addr := by
  simp only [RtcPeer.sendAddr, h, netAddr, inetPton_inetNtoa, Option.bind_eq_bind, Option.bind_some,
    Option.pure_def]

/-- Traffic to a peer whose address is known goes to an address of that peer. -/
theorem outgoing_to_own_address (es : List Event) :
    (∀ t p fs, (after step start es).server.sarsPeersAddrMaps.lookup t = some p →
      (after step start (es ++ fs)).server.sarsPeersAddrMaps.lookup t = some p ∧
        ∃ u, (after step start es).server.sarsPeersUfragMaps.lookup u = some p) ∧
    (∀ p r, ((after step start es).server.peers.get p).remoteAddr = some r →
      (after step start es).server.sarsPeersAddrMaps.lookup
        (DecimalText.colon r.ip (ntohs r.port).toNat) = some p) ∧
    (∀ p q r, ((after step start es).server.peers.get p).remoteAddr = some r →
      ((after step start es).server.peers.get q).remoteAddr = some r → p = q) ∧
    (∀ p data arg out, ((after step start es).server.peers.get p).remoteAddr ≠ none →
      (after step start es).server.sendPktToClient p data arg = some out →
      ∃ addr, out = [.sendTo p data (some addr)] ∧
        (after step start es).server.sarsPeersAddrMaps.lookup (remoteText addr) = some p) := by
  have hinv := addressInv_after es
  have bound : ∀ p r, ((after step start es).server.peers.get p).remoteAddr = some r →
      (after step start es).server.sarsPeersAddrMaps.lookup
        (DecimalText.colon r.ip (ntohs r.port).toNat) = some p := by
    intro p r hr
    obtain ⟨addr, rfl, hbound⟩ := hinv.remote p r hr
    exact hbound
  refine ⟨?_, bound, ?_, ?_⟩
  · intro t p fs ht
    rw [after_append]
    exact ⟨addrs_extend _ fs t p ht, hinv.addrs t p ht⟩
  · intro p q r hp hq
    have hsame := (bound p r hp).symm.trans (bound q r hq)
    exact Option.some.inj hsame
  · intro p data arg out hset hsend
    obtain ⟨r, hr⟩ := Option.ne_none_iff_exists'.mp hset
    obtain ⟨addr, rfl, hbound⟩ := hinv.remote p r hr
    simp only [RTCServer.sendPktToClient] at hsend
    split_ifs at hsend
    rw [sendAddr_netAddr hr] at hsend
    exact ⟨addr, (Option.some.inj hsend).symm, hbound⟩

/-! ## Deliveries -/

/-- A datagram handed to a peer through `UdpSocketRecv`. -/
def delivered : Output → Option (Nat × Bytes × NetAddr)
  | .udpSocketRecv p data addr => some (p, data, addr)
  | _ => none

def deliveries (out : List Output) : List (Nat × Bytes × NetAddr) := out.filterMap delivered

theorem deliveries_recv (srv : RTCServer) (p : Nat) (data : Bytes) (addr : NetAddr) :
    deliveries (srv.udpSocketRecv p data addr) = [(p, data, addr)] := by
  simp only [RTCServer.udpSocketRecv, deliveries]
  split_ifs <;> rfl

/-- A datagram without a target changes nothing; one with a target is delivered
there, and its sender is bound to that peer afterwards. -/
theorem step_datagram {w : World} (running : w.status = .running) (buf : Datagram)
    (addr : SockaddrIn) :
    (target w.server buf.val addr = none ∧ w.step (.datagram buf addr) = (w, [])) ∨
    ∃ p, target w.server buf.val addr = some p ∧
      deliveries (w.step (.datagram buf addr)).2 = [(p, buf.val, netAddr addr)] ∧
      (w.step (.datagram buf addr)).1.server.sarsPeersAddrMaps.lookup (remoteText addr) =
        some p := by
  have hstep : w.step (.datagram buf addr) = w.stepDatagram buf.val addr := by
    simp only [World.step]
    rw [if_neg (not_not_intro running)]
  rw [hstep, stepDatagram_eq]
  cases htarget : target w.server buf.val addr with
  | none => exact Or.inl ⟨rfl, rfl⟩
  | some p => exact Or.inr ⟨p, rfl, deliveries_recv _ _ _ _, bound_of_target htarget⟩

/-- A datagram whose sender is unbound even afterwards was dropped without a trace. -/
theorem unbound_idle {w : World} {buf : Datagram} {addr : SockaddrIn}
    (h : (w.step (.datagram buf addr)).1.server.sarsPeersAddrMaps.lookup (remoteText addr) =
      none) : w.step (.datagram buf addr) = (w, []) := by
  by_cases running : w.status = .running
  · rcases step_datagram running buf addr with ⟨_, hidle⟩ | ⟨p, _, _, hbound⟩
    · exact hidle
    · rw [hbound] at h
      cases h
  · exact step_stopped running _

/-- Everything but datagrams from addresses that are unbound in `srv`. -/
def fromBound (srv : RTCServer) : Event → Bool
  | .datagram _ addr => (srv.sarsPeersAddrMaps.lookup (remoteText addr)).isSome
  | _ => true

def asReceived : Event → Option (Bytes × NetAddr)
  | .datagram buf addr => some (buf.val, netAddr addr)
  | _ => none

theorem callback_silent {srv srv' : RTCServer} {p : Nat} {cb : RTCServer.Callback}
    {out : List Output} (h : srv.callback p cb = some (srv', out)) : deliveries out = [] := by
  refine List.filterMap_eq_nil_iff.mpr fun o ho => ?_
  rcases callback_outputs h o ho with hcontrol | ⟨_, _, rfl⟩
  · cases o <;> first | rfl | cases hcontrol
  · rfl

/-- A step delivers at most the datagram it received, byte for byte. -/
theorem Move.received {w w' : World} {e : Event} {out : List Output} (h : Move w e w' out) :
    ((deliveries out).map Prod.snd).Sublist (asReceived e).toList := by
  cases h with
  | idle => exact List.nil_sublist _
  | stopped => exact List.nil_sublist _
  | accepted => exact List.nil_sublist _
  | rejected => exact List.nil_sublist _
  | begun => exact List.nil_sublist _
  | @finished i job ret =>
    cases hkind : job.kind <;> simp only [Signalling.handleWritten, hkind] <;>
      exact List.nil_sublist _
  | heard => rw [deliveries_recv]; exact List.Sublist.refl _
  | called _ call => rw [callback_silent call]; exact List.nil_sublist _

theorem deliveries_received (w : World) (es : List Event) :
    ((deliveries (outputs step w es)).map Prod.snd).Sublist (es.filterMap asReceived) := by
  induction es generalizing w with
  | nil => exact List.Sublist.refl _
  | cons e es ih =>
    have hhead := (step_move w e).received
    have hsplit : (e :: es).filterMap asReceived =
        (asReceived e).toList ++ es.filterMap asReceived := by
      cases h : asReceived e <;> simp [h]
    rw [outputs_cons, hsplit, deliveries, List.filterMap_append, List.map_append]
    exact hhead.append (ih (w.step e).1)

/-- Without the datagrams of the addresses that end up unbound the run is the same. -/
theorem strangers_inert (es : List Event) :
    run step start (es.filter (fromBound (after step start es).server)) = run step start es ∧
    deliveries (outputs step start (es.filter (fromBound (after step start es).server))) =
      deliveries (outputs step start es) ∧
    ((deliveries (outputs step start es)).map Prod.snd).Sublist (es.filterMap asReceived) := by
  have hsame : run step start (es.filter (fromBound (after step start es).server)) =
      run step start es := by
    refine run_filter fun as e bs hes hdrop => ?_
    cases e with
    | datagram buf addr =>
      apply unbound_idle
      -- bindings only grow, so an address unbound at the end is unbound after this step
      have hend :
          (after step start es).server.sarsPeersAddrMaps.lookup (remoteText addr) = none := by
        simpa [fromBound] using hdrop
      cases hnow : ((after step start as).step (.datagram buf addr)).1.server
          |>.sarsPeersAddrMaps.lookup (remoteText addr) with
      | none => rfl
      | some p =>
        have hlater := addrs_extend ((after step start as).step (.datagram buf addr)).1 bs _ p hnow
        rw [hes, after_append, after_cons, hlater] at hend
        cases hend
    | accept | body | written | callback => cases hdrop
  refine ⟨hsame, ?_, deliveries_received start es⟩
  rw [outputs, hsame, outputs]

/-! ## Binding requests -/

/-- `Parse` accepts the datagram as a BINDING REQUEST of the registered peer `p`. -/
def Names (srv : RTCServer) (buf : Datagram) (p : Nat) : Prop :=
  ∃ stun, Stun.parse buf.val = .ok (.packet stun) ∧ stun.klass = .request ∧
    stun.method = Stun.Method.binding ∧ srv.sarsPeersUfragMaps.lookup stun.username = some p

/-- A request of a registered peer from `addr` is one of `p`. -/
def NoRebinding (addr : SockaddrIn) (p : Nat) (w : World) (e : Event) : Prop :=
  ∀ buf q, e = .datagram buf addr → Names w.server buf q → q = p

/-- The datagram is delivered to `p`, and so is every later one from `addr` that is not
dropped, until a request from `addr` names another registered peer. -/
def BindsTo (w : World) (buf : Datagram) (addr : SockaddrIn) (p : Nat) : Prop :=
  deliveries (w.step (.datagram buf addr)).2 = [(p, buf.val, netAddr addr)] ∧
  ∀ es buf', Meets step (NoRebinding addr p) (w.step (.datagram buf addr)).1
      (es ++ [.datagram buf' addr]) →
    ∀ d ∈ deliveries ((after step (w.step (.datagram buf addr)).1 es).step (.datagram buf' addr)).2,
      d.1 = p

theorem Names.traffic {srv : RTCServer} {buf : Datagram} {p : Nat} (h : Names srv buf p) :
    ∃ username, traffic buf.val = .request username ∧
      srv.sarsPeersUfragMaps.lookup username = some p := by
  obtain ⟨stun, hparse, hclass, hmethod, hlookup⟩ := h
  refine ⟨stun.username, ?_, hlookup⟩
  obtain ⟨b, hb⟩ := Stun.isStun_total buf.val
  cases b with
  | false => simp [Stun.parse, Stun.parseWith, hb] at hparse
  | true => simp [Sars.traffic, hb, hparse, hclass, hmethod]

theorem Names.target {srv : RTCServer} {buf : Datagram} {p : Nat} (h : Names srv buf p)
    (addr : SockaddrIn) :
    target srv buf.val addr = some ((srv.sarsPeersAddrMaps.lookup (remoteText addr)).getD p) := by
  obtain ⟨username, htraffic, hlookup⟩ := h.traffic
  simp only [Sars.target, htraffic, hlookup, Option.map_some]

/-- Whatever arrives from a bound address goes to the peer it is bound to. -/
theorem target_bound {srv : RTCServer} {buf : Bytes} {addr : SockaddrIn} {p q : Nat}
    (bound : srv.sarsPeersAddrMaps.lookup (remoteText addr) = some p)
    (h : target srv buf addr = some q) : q = p := by
  rcases target_cases h with hq | ⟨hnone, _⟩
  · exact Option.some.inj (hq.symm.trans bound)
  · rw [bound] at hnone
    cases hnone

/-- A binding request decides where its sender's traffic goes exactly when the address
was not bound to another peer before. -/
theorem binding_request_decides (es : List Event) (buf : Datagram) (addr : SockaddrIn) (p : Nat)
    (running : (after step start es).status = .running)
    (names : Names (after step start es).server buf p) :
    BindsTo (after step start es) buf addr p ↔
      ((after step start es).server.sarsPeersAddrMaps.lookup (remoteText addr) = none ∨
        (after step start es).server.sarsPeersAddrMaps.lookup (remoteText addr) = some p) := by
  have htarget := names.target addr
  rcases step_datagram running buf addr with ⟨hnone, _⟩ | ⟨q, hq, hdelivered, hbound⟩
  · rw [htarget] at hnone
    cases hnone
  · have hqp : q = ((after step start es).server.sarsPeersAddrMaps.lookup
        (remoteText addr)).getD p := Option.some.inj (hq.symm.trans htarget)
    constructor
    · rintro ⟨hnow, _⟩
      rw [hdelivered] at hnow
      have hsame : q = p := by simpa using hnow
      cases hmap : (after step start es).server.sarsPeersAddrMaps.lookup (remoteText addr) with
      | none => exact Or.inl rfl
      | some r =>
        rw [hmap] at hqp
        exact Or.inr (congrArg some (hqp.symm.trans hsame))
    · intro hmap
      have hsame : q = p := by
        rcases hmap with hmap | hmap <;> rw [hqp, hmap] <;> rfl
      subst hsame
      refine ⟨hdelivered, fun fs buf' _ d hd => ?_⟩
      have hlater := addrs_extend _ fs _ q hbound
      by_cases hrun : (after step ((after step start es).step (.datagram buf addr)).1 fs).status =
          .running
      · rcases step_datagram hrun buf' addr with ⟨_, hidle⟩ | ⟨r, hr, hdel, _⟩
        · rw [hidle] at hd
          cases hd
        · rw [hdel] at hd
          rw [List.mem_singleton.mp hd]
          exact target_bound hlater hr
      · rw [step_stopped hrun] at hd
        cases hd

/-! ### An address bound before -/

/-- The publishers "a:b" and "c:b" of two streams. -/
def twoPublishers : List Event :=
  served 0 .publish [0x2F, 0x73] [0x61] ++ served 1 .publish [0x2F, 0x74] [0x63]

def firstRequest : Datagram := ⟨Stun.bindingRequest, by decide⟩

/-- A BINDING REQUEST for "c:b". -/
def secondRequest : Datagram :=
  ⟨[0x00, 0x01, 0x00, 0x08, 0x21, 0x12, 0xA4, 0x42, 1, 2, 3, 4, 5, 6, 7, 8, 9, 10, 11, 12,
    0x00, 0x06, 0x00, 0x03, 0x63, 0x3A, 0x62, 0x00], by decide⟩

def secondPacket : Stun :=
  { klass := .request, method := Stun.Method.binding
    transactionId := Stun.bindingTransactionId
    data := secondRequest.val, size := 28, username := [0x63, 0x3A, 0x62] }

def client : SockaddrIn := { sinPort := ⟨[0x13, 0x88], rfl⟩, sinAddr := ⟨[10, 0, 0, 1], rfl⟩ }

theorem binding_request_decides_unbound :
    BindsTo (after step start twoPublishers) firstRequest client 0 := by
  have names : Names (after step start twoPublishers).server firstRequest 0 :=
    ⟨Stun.bindingPacket, by decide +kernel, rfl, rfl, by decide +kernel⟩
  have unbound : (after step start twoPublishers).server.sarsPeersAddrMaps.lookup
      (remoteText client) = none := by decide +kernel
  exact (binding_request_decides twoPublishers firstRequest client 0 (by decide +kernel)
    names).mpr (Or.inl unbound)

/-- The second request is accepted and its datagram goes to the first peer. -/
theorem binding_request_overruled :
    ¬ ∀ (es : List Event) (buf : Datagram) (addr : SockaddrIn) (p : Nat),
      (after step start es).status = .running → Names (after step start es).server buf p →
        BindsTo (after step start es) buf addr p := by
  intro h
  have names : Names (after step start
      (twoPublishers ++ [.datagram firstRequest client])).server secondRequest 1 :=
    ⟨secondPacket, by decide +kernel, rfl, rfl, by decide +kernel⟩
  have hbinds := h _ secondRequest client 1 (by decide +kernel) names
  exact absurd hbinds.1 (by decide +kernel)

end Sars
