import Sars.AddressBindings

/-!
# Where a peer's datagrams go

A peer has one remote address, which every datagram handed to it overwrites. Over
a whole run, what is sent for a peer goes to the source of the datagram that was
handed to it last. While there has been none, the peer's IP and port have not been
assigned, which is `none` here; `SendPktToClient` still calls `SendTo`.
-/

namespace Sars

open ByteMemory ObjectHeap GrowingMap EventRuns World

/-- The source of a datagram that is handed to `p`. -/
def heardFrom (p : Nat) : Output → Option NetAddr
  | .udpSocketRecv q _ addr => if q = p then some addr else none
  | _ => none

/-- The address of `p` after this output. -/
def overwrite (p : Nat) (known : Option NetAddr) (o : Output) : Option NetAddr :=
  (heardFrom p o).or known

theorem foldl_overwrite (p : Nat) (known : Option NetAddr) (out : List Output) :
    out.foldl (overwrite p) known = ((out.filterMap (heardFrom p)).getLast?).or known := by
  induction out using List.reverseRecOn with
  | nil => rfl
  | append_singleton out o ih =>
    rw [List.foldl_append, List.filterMap_append, List.getLast?_append, ih]
    simp only [List.foldl_cons, List.foldl_nil, overwrite]
    cases h : heardFrom p o <;> simp [h]

/-- What is sent for `p` goes to the address that is known. -/
def GoesTo (p : Nat) (known : Option NetAddr) : Output → Prop
  | .sendTo q _ addr => q = p → addr.map netAddr = known
  | _ => True

theorem sendAddr_known {srv : RTCServer} (inv : AddressInv srv) (p : Nat) :
    ((srv.peers.get p).sendAddr).map netAddr = (srv.peers.get p).remoteAddr := by
  cases hr : (srv.peers.get p).remoteAddr with
  | none => simp [RtcPeer.sendAddr, hr]
  | some r =>
    obtain ⟨addr, rfl, _⟩ := inv.remote p r hr
    rw [sendAddr_netAddr hr, Option.map_some]

/-- A callback hears nothing, and what it sends goes to the address of its peer. -/
theorem callback_goes {srv srv' : RTCServer} (inv : AddressInv srv) {q : Nat}
    {cb : RTCServer.Callback} {out : List Output} (call : srv.callback q cb = some (srv', out))
    (p : Nat) : ∀ o ∈ out, heardFrom p o = none ∧ GoesTo p (srv.peers.get p).remoteAddr o := by
  intro o ho
  have hemits := callback_emits call o ho
  cases o with
  | sendTo r data addr =>
    obtain ⟨rfl, rfl⟩ := hemits
    refine ⟨rfl, ?_⟩
    rintro rfl
    exact sendAddr_known inv r
  | requestIFrame | feedMediaData => exact ⟨rfl, trivial⟩
  | write | setPublisher | addPlayer | udpSocketRecv | processRemoteData => cases hemits

theorem heard_remoteAddr {srv : RTCServer} (addr : SockaddrIn) {q : Nat} (p : Nat)
    (present : q < srv.peers.size) :
    ((srv.heard addr q).peers.get p).remoteAddr =
      if q = p then some (netAddr addr) else (srv.peers.get p).remoteAddr := by
  by_cases hq : q = p
  · subst hq
    rw [if_pos rfl, RTCServer.heard, RTCServer.updatePeer, Heap.get_modify_self _ present]
  · rw [if_neg hq, RTCServer.heard, RTCServer.updatePeer, Heap.get_modify_ne _ (Ne.symm hq)]

/-- One step: the address of `p` is what the outputs say, and what is sent goes there. -/
theorem Move.goes {w w' : World} {e : Event} {out : List Output} (hm : Move w e w' out)
    (inv : AddressInv w.server) (p : Nat) :
    (w'.server.peers.get p).remoteAddr =
        out.foldl (overwrite p) (w.server.peers.get p).remoteAddr ∧
      ∀ before o later, out = before ++ o :: later →
        GoesTo p (before.foldl (overwrite p) (w.server.peers.get p).remoteAddr) o := by
  -- where nothing is heard, everything goes to the old address
  have unheard : (∀ o ∈ out, heardFrom p o = none ∧ GoesTo p (w.server.peers.get p).remoteAddr o) →
      (w'.server.peers.get p).remoteAddr = (w.server.peers.get p).remoteAddr →
      (w'.server.peers.get p).remoteAddr =
          out.foldl (overwrite p) (w.server.peers.get p).remoteAddr ∧
        ∀ before o later, out = before ++ o :: later →
          GoesTo p (before.foldl (overwrite p) (w.server.peers.get p).remoteAddr) o := by
    intro hout hsame
    have same : ∀ l : List Output, (∀ o ∈ l, o ∈ out) →
        l.foldl (overwrite p) (w.server.peers.get p).remoteAddr =
          (w.server.peers.get p).remoteAddr := by
      intro l hl
      have hnone : l.filterMap (heardFrom p) = [] :=
        List.filterMap_eq_nil_iff.mpr fun o ho => (hout o (hl o ho)).1
      rw [foldl_overwrite, hnone]
      rfl
    refine ⟨hsame.trans (same out fun _ ho => ho).symm, ?_⟩
    rintro before o later rfl
    rw [same before fun _ ho => List.mem_append_left _ ho]
    exact (hout o (List.mem_append_right _ List.mem_cons_self)).2
  cases hm with
  | idle => exact unheard (List.forall_mem_nil _) rfl
  | stopped => exact unheard (List.forall_mem_nil _) rfl
  | accepted => exact unheard (List.forall_mem_nil _) rfl
  | rejected _ _ opened =>
    refine unheard (List.forall_mem_nil _) ?_
    rcases opened.cases with ⟨_, rfl⟩ | ⟨_, _, rfl⟩ <;> rfl
  | @begun i kind _ _ streamID answer engine srv srv' scache _ _ _ opened _ created =>
    refine unheard (List.forall_mem_singleton.mpr ⟨rfl, trivial⟩) ?_
    have hpeers : srv.peers = w.server.peers := by
      rcases opened.cases with ⟨_, rfl⟩ | ⟨_, _, rfl⟩ <;> rfl
    by_cases hnew : p = srv.peers.size
    · rw [hnew, created.unaddressed, ← hpeers, Heap.get_beyond (Nat.le_refl _)]
      rfl
    · by_cases hlt : p < srv.peers.size
      · rw [created.old p hlt, hpeers]
      · have hsize := created.size
        have hbeyond : srv'.peers.size ≤ p := by omega
        rw [Heap.get_beyond hbeyond, ← hpeers, Heap.get_beyond (Nat.le_of_not_lt hlt)]
  | @finished i job ret _ =>
    obtain ⟨_, _, hpeers⟩ := handleWritten_addressing w.server job ret
    refine unheard ?_ ?_
    · simp only [Signalling.handleWritten]
      cases job.kind <;> exact List.forall_mem_singleton.mpr ⟨rfl, trivial⟩
    · rw [hpeers]
      exact Heap.get_modify_field RtcPeer.remoteAddr (by intro _; rfl) p
  | @heard buf addr q targeted =>
    obtain ⟨u, hu⟩ := (inv.bind targeted).addrs _ _ (bound_of_target targeted)
    have hlt := ((inv.bind targeted).ufrags u q hu).1
    have hheard := heard_remoteAddr addr p hlt
    have hout : ∀ o ∈ ((w.server.bind addr q).heard addr q).udpSocketRecv q buf.val (netAddr addr),
        ∀ known, GoesTo p known o := by
      simp only [RTCServer.udpSocketRecv]
      split_ifs <;> simp [GoesTo]
    have hfold : (((w.server.bind addr q).heard addr q).udpSocketRecv q buf.val
        (netAddr addr)).foldl (overwrite p) (w.server.peers.get p).remoteAddr =
          if q = p then some (netAddr addr) else (w.server.peers.get p).remoteAddr := by
      simp only [RTCServer.udpSocketRecv]
      split_ifs <;> simp [overwrite, heardFrom, *]
    refine ⟨hheard.trans hfold.symm, fun before o later hsplit => hout o ?_ _⟩
    rw [hsplit]
    exact List.mem_append_right _ List.mem_cons_self
  | called _ call =>
    refine unheard (callback_goes inv call p) ?_
    have hfixed := (callback_framed call).fixed p
    simp only [RtcPeer.fixed, Prod.mk.injEq] at hfixed
    exact hfixed.2.2.2.2.1

/-- What is sent for a peer goes to where the last datagram handed to it came from. -/
theorem replies_to_last_sender (es : List Event) {before later : List Output} {p : Nat}
    {data : Bytes} {addr : Option SockaddrIn}
    (sends : outputs step start es = before ++ .sendTo p data addr :: later) :
    addr.map netAddr = (before.filterMap (heardFrom p)).getLast? := by
  have hgoes := (outputs_fold (fun w : World => (w.server.peers.get p).remoteAddr) (overwrite p)
    (GoesTo p) (I := fun w : World => AddressInv w.server) (fun w e h => h.move (step_move w e))
    (fun w e h => ((step_move w e).goes h p).1) (fun w e h => ((step_move w e).goes h p).2)
    addressInv_start).2 before _ later sends rfl
  have hstart : (start.server.peers.get p).remoteAddr = none := by
    rw [Heap.get_beyond (Nat.zero_le p)]
    rfl
  rw [hgoes, foldl_overwrite, hstart, Option.or_none]

/-- A publisher that is reached by a datagram and answers it. -/
def answering : List Event :=
  [.accept .publish, .body 0 (sdpOf [0x62]) [0x2F, 0x73] (engineOf [0x61]),
    .datagram firstRequest client, .callback 0 (.onSendDataToRemote [1, 2] (netAddr client))]

theorem replies_to_last_sender_answering :
    some (netAddr client) =
      ((outputs step start answering).dropLast.filterMap (heardFrom 0)).getLast? :=
  replies_to_last_sender answering (show outputs step start answering =
    (outputs step start answering).dropLast ++ [.sendTo 0 [1, 2] (some client)] by decide +kernel)

end Sars
