import Sars.StreamRooms

/-!
# Callbacks in the room of the peer

A callback that the process survives is at most one act in the room of its peer,
and its outputs are what that act shows: the frames of a linked publisher go to
the viewers that are up, and a linked player has the publisher of its own stream
asked for a key frame.
-/

namespace Sars

open ByteMemory ObjectHeap GrowingMap EventRuns World

/-! ## Callbacks -/

/-- The loop of `CacheMedia` feeds one frame to each player that is connected. -/
theorem cacheMediaLoop_shown {β : Type} {srv : RTCServer} {media : MediaData}
    (g : Output → Option β) (k : Nat → β) {players : List Nat} {ssrc payloadType : UInt32}
    {out : List Output} (h : srv.cacheMediaLoop media players ssrc payloadType = some out)
    (shows : ∀ q ∈ players, ∀ frame : MediaData, frame.plain = media.plain →
      g (.feedMediaData q frame) = some (k q)) :
    out.filterMap g = (players.filter fun q =>
      (srv.peers.get q).peerconnectionState = .kConnected).map k := by
  induction players generalizing ssrc payloadType out with
  | nil =>
    cases h
    rfl
  | cons it players ih =>
    have hrest : ∀ q ∈ players, ∀ frame : MediaData, frame.plain = media.plain →
        g (.feedMediaData q frame) = some (k q) :=
      fun q hq => shows q (List.mem_cons_of_mem it hq)
    simp only [RTCServer.cacheMediaLoop] at h
    split_ifs at h with hstate hconn
    · rw [List.filter_cons_of_neg (by simpa using hstate)]
      exact ih h hrest
    · obtain ⟨fed, hfed, hout⟩ := Option.bind_eq_some_iff.mp h
      cases hout
      have hstate' : (srv.peers.get it).peerconnectionState = .kConnected := not_not.mp hstate
      have hframe := shows it List.mem_cons_self
      rw [List.filterMap_cons_some (hframe _ (by rw [mediaFrame_eq]; rfl)), ih hfed hrest,
        List.filter_cons_of_pos (by simpa using hstate'), List.map_cons]

section

variable {w w' : World} {i : Nat} {job : Job} {done : Bool}

theorem streamOf_session (inv : StreamInv w.sessions w.server)
    (hi : w.sessions i = some (job, done)) : w.streamOf job.peer = some job.streamID :=
  (streamOf_iff inv).mpr ⟨i, job, done, hi, rfl, rfl⟩

/-- A callback that sets the state of a peer. -/
theorem room_state {newState : PeerConnectionState} (inv : StreamInv w.sessions w.server)
    (inv' : StreamInv w'.sessions w'.server) (hi : w.sessions i = some (job, done))
    (sessions : w'.sessions = w.sessions) (framed : Framed job.peer w.server w'.server)
    (state : (w'.server.peers.get job.peer).peerconnectionState = newState) :
    w'.room = Function.update w.room job.streamID
      { w.room job.streamID with
        live := Function.update (w.room job.streamID).live job.peer (newState = .kConnected) } := by
  have hstream : ∀ p, w'.streamOf p = w.streamOf p := fun p =>
    streamOf_congr inv inv' fun b _ => by rw [sessions]
  have hmine := streamOf_session inv hi
  have hpublishes : ∀ s, w'.server.publishes s = w.server.publishes s := by
    intro s
    funext p
    have hfixed := framed.fixed p
    simp only [RtcPeer.fixed, Prod.mk.injEq] at hfixed
    simp only [RTCServer.publishes, hfixed, framed.streams]
  have hpublisher : ∀ s, w'.server.publisher s = w.server.publisher s := by
    intro s
    simp only [RTCServer.publisher, framed.streams, framed.scaches]
  have hplayers : ∀ s, w'.server.players s = w.server.players s := by
    intro s
    simp only [RTCServer.players, framed.streams, framed.scaches]
  funext s
  by_cases hs : s = job.streamID
  · subst hs
    rw [Function.update_self]
    refine Room.ext (hpublishes _) (hpublisher _) (congrArg List.dedup (hplayers _)) ?_
    funext p
    by_cases hp : p = job.peer
    · subst hp
      simp [World.room, World.live, hstream, hmine, state]
    · simp [World.room, World.live, hstream, hp, framed.others p hp]
  · rw [Function.update_of_ne hs]
    refine Room.ext (hpublishes _) (hpublisher _) (congrArg List.dedup (hplayers _)) ?_
    funext p
    by_cases hp : p = job.peer
    · subst hp
      simp [World.room, World.live, hstream, hmine, Ne.symm hs]
    · simp [World.room, World.live, hstream, framed.others p hp]

/-- A player that is linked has the publisher of its own stream asked. -/
theorem asked_shown {out : List Output} (h : Enrolled w.sessions w.server)
    (hi : w.sessions i = some (job, done))
    (hclass : (w.server.peers.get job.peer).peerClass = .player)
    (call : w.server.requestPublisherIFrame job.peer = some out) :
    out.filterMap w.shown =
      ((w.room job.streamID).askFor job.peer).map fun o => (job.streamID, o) := by
  have inv := h.inv
  obtain ⟨_, hkindclass, hlink⟩ := inv.peer i job done hi
  have hkind : job.kind = .play :=
    RequestKind.peerClass_injective (hkindclass.symm.trans hclass)
  obtain ⟨c, hc, call⟩ := Option.bind_eq_some_iff.mp call
  obtain ⟨q, hq, call⟩ := Option.bind_eq_some_iff.mp call
  simp only [RTCServer.requestIFrame] at call
  split_ifs at call
  cases call
  cases done with
  | false =>
    rw [hlink] at hc
    cases hc
  | true =>
    rw [hlink] at hc
    cases hc
    have hlookup := inv.stream i job true hi
    have hmem : job.peer ∈ (w.room job.streamID).viewers := by
      simp only [World.room, RTCServer.players, hlookup]
      exact List.mem_dedup.mpr (h.listed i job hi hkind)
    have hcurrent : (w.room job.streamID).current = some q := by
      simp only [World.room, RTCServer.publisher, hlookup, Option.bind_some, hq]
    obtain ⟨j, b, hj, _, rfl, hcache⟩ := inv.publisher _ _ hq
    have hstream := inv.stream j b true hj
    rw [hcache] at hstream
    have hsame := inv.injective _ _ _ hstream hlookup
    have hpub := streamOf_session inv hj
    rw [hsame] at hpub
    simp only [Room.askFor, if_pos hmem, hcurrent, Option.map_some, Option.toList_some,
      List.map_singleton]
    exact List.filterMap_cons_some (by simp only [World.shown, hpub, Option.map_some])

/-- A frame of a linked publisher is shown to the viewers of its room that are up. -/
theorem fed_shown {media : MediaData} {scache : Nat} {out : List Output}
    (inv : StreamInv w.sessions w.server) (hi : w.sessions i = some (job, done))
    (hclass : (w.server.peers.get job.peer).peerClass = .publisher)
    (hc : (w.server.peers.get job.peer).scache = some scache)
    (fed : w.server.cacheMedia scache media = some out) :
    out.filterMap w.shown =
      ((w.room job.streamID).step (.frame job.peer media.plain)).2.map fun o =>
        (job.streamID, o) := by
  obtain ⟨_, _, hlink⟩ := inv.peer i job done hi
  cases done with
  | false =>
    rw [hlink] at hc
    cases hc
  | true =>
    rw [hlink] at hc
    cases hc
    have hlookup := inv.stream i job true hi
    have hplayers : w.server.players job.streamID =
        (w.server.scaches.get job.scache).players := by
      simp only [RTCServer.players, hlookup]
    have hstream : ∀ q ∈ (w.server.scaches.get job.scache).players,
        w.streamOf q = some job.streamID := by
      intro q hq
      obtain ⟨j, b, hj, _, rfl, hcache⟩ := inv.players _ q hq
      have hb := inv.stream j b true hj
      rw [hcache] at hb
      rw [streamOf_session inv hj, inv.injective _ _ _ hb hlookup]
    have hsource : (w.room job.streamID).sources job.peer = true := by
      simp [World.room, RTCServer.publishes, hclass, hlink, hlookup]
    have hviewers : (w.room job.streamID).viewers =
        (w.server.scaches.get job.scache).players := by
      simp only [World.room, hplayers, (inv.nodup job.scache).dedup]
    have hshown := cacheMediaLoop_shown w.shown
      (fun q => (job.streamID, Room.Shown.fed q media.plain)) fed
      (fun q hq frame hframe => by
        simp only [World.shown, hstream q hq, Option.map_some, hframe])
    rw [hshown]
    simp only [Room.step, hsource, if_true, hviewers, List.map_map]
    have hfilter : (w.server.scaches.get job.scache).players.filter (fun q =>
          decide ((w.server.peers.get q).peerconnectionState = .kConnected)) =
        (w.server.scaches.get job.scache).players.filter (w.room job.streamID).live := by
      refine List.filter_congr fun q hq => ?_
      simp [World.room, World.live, hstream q hq]
    rw [hfilter]
    rfl

theorem publisher_not_viewer (inv : StreamInv w.sessions w.server) {p : Nat}
    (hclass : (w.server.peers.get p).peerClass = .publisher) (s : Bytes) :
    p ∉ (w.room s).viewers := by
  intro hmem
  have hplays := List.mem_dedup.mp hmem
  simp only [RTCServer.players] at hplays
  cases hlookup : w.server.sarsPeersStreamIDMaps.lookup s with
  | none => simp [hlookup] at hplays
  | some c =>
    simp only [hlookup] at hplays
    obtain ⟨j, b, hj, hkind, rfl, _⟩ := inv.players c p hplays
    rw [(inv.peer j b true hj).2.1, hkind] at hclass
    cases hclass

theorem player_not_source {p : Nat} (hclass : (w.server.peers.get p).peerClass = .player)
    (s : Bytes) : (w.room s).sources p = false := by
  simp [World.room, RTCServer.publishes, hclass]

theorem onConnectionChange_state (p : RtcPeer) (newState : PeerConnectionState) :
    (p.onConnectionChange newState).peerconnectionState = newState := by
  simp only [RtcPeer.onConnectionChange]
  split_ifs <;> rfl

/-- A callback with its outputs, in the room of the peer. -/
theorem callback_room {cb : RTCServer.Callback} {srv : RTCServer} {out : List Output}
    (h : Enrolled w.sessions w.server) (h' : Enrolled w.sessions srv)
    (hi : w.sessions i = some (job, done)) (connected : w.Connected job.peer)
    (call : w.server.callback job.peer cb = some (srv, out)) :
    run (family Room.step) w.room ((callbackActs job.peer cb).map fun a => (job.streamID, a)) =
      (({ w with server := srv } : World).room,
        out.filterMap ({ w with server := srv } : World).shown) := by
  have hframed := callback_framed call
  have hstream : ∀ p, ({ w with server := srv } : World).streamOf p = w.streamOf p := fun _ => rfl
  have stated : ∀ newState : PeerConnectionState,
      (srv.peers.get job.peer).peerconnectionState = newState →
      ({ w with server := srv } : World).room = Function.update w.room job.streamID
        { w.room job.streamID with
          live := Function.update (w.room job.streamID).live job.peer
            (newState = .kConnected) } :=
    fun _ hstate => room_state h.inv h'.inv hi rfl hframed hstate
  -- nothing to see
  have unseen : callbackActs job.peer cb = [] →
      (∀ q, (srv.peers.get q).peerconnectionState =
        (w.server.peers.get q).peerconnectionState) →
      out.filterMap ({ w with server := srv } : World).shown = [] →
      run (family Room.step) w.room
          ((callbackActs job.peer cb).map fun a => (job.streamID, a)) =
        (({ w with server := srv } : World).room,
          out.filterMap ({ w with server := srv } : World).shown) := by
    intro hnone hstate hout
    have hroom : ({ w with server := srv } : World).room = w.room :=
      room_same h.inv h'.inv rfl (hframed.quiet connected.2) hstate
    rw [hnone, hout, hroom]
    rfl
  have updated : ∀ f : RtcPeer → RtcPeer,
      (∀ peer, (f peer).peerconnectionState = peer.peerconnectionState) →
      callbackActs job.peer cb = [] →
      some (w.server.updatePeer job.peer f, ([] : List Output)) = some (srv, out) →
      run (family Room.step) w.room
          ((callbackActs job.peer cb).map fun a => (job.streamID, a)) =
        (({ w with server := srv } : World).room,
          out.filterMap ({ w with server := srv } : World).shown) := by
    intro f hf hnone heq
    cases heq
    exact unseen hnone (Heap.get_modify_field RtcPeer.peerconnectionState hf) rfl
  cases cb with
  | onIceConnectionChange newState =>
    refine updated _ (fun peer => ?_) rfl call
    simp only [RtcPeer.onIceConnectionChange]
    split_ifs <;> rfl
  | onAddVideoTrack ssrc => exact updated (fun p => p.onAddVideoTrack ssrc) (fun _ => rfl) rfl call
  | onAddAudioTrack ssrc => exact updated (fun p => p.onAddAudioTrack ssrc) (fun _ => rfl) rfl call
  | onAddLocalVideoTrack ssrc codecs =>
    exact updated (fun p => p.onAddLocalVideoTrack ssrc codecs) (fun _ => rfl) rfl call
  | onAddLocalAudioTrack ssrc codecs =>
    exact updated (fun p => p.onAddLocalAudioTrack ssrc codecs) (fun _ => rfl) rfl call
  | onSendDataToRemote data addr =>
    obtain ⟨l, hl, hpair⟩ := Option.map_eq_some_iff.mp call
    cases hpair
    simp only [RTCServer.udpSocketSend, RTCServer.sendPktToClient] at hl
    split_ifs at hl
    cases hl
    exact unseen rfl (fun _ => rfl) rfl
  | onRequestIFrame ssrc =>
    simp only [RTCServer.callback] at call
    cases hclass : (w.server.peers.get job.peer).peerClass with
    | publisher =>
      rw [hclass] at call
      cases call
      simp only [callbackActs, List.map_singleton, run_singleton, family, Room.step, Room.askFor,
        if_neg (publisher_not_viewer h.inv hclass job.streamID), Function.update_eq_self]
      rfl
    | player =>
      rw [hclass] at call
      obtain ⟨l, hl, hpair⟩ := Option.map_eq_some_iff.mp call
      cases hpair
      simp only [callbackActs, List.map_singleton, run_singleton, family, Room.step,
        asked_shown h hi hclass hl]
      rw [Function.update_eq_self]
  | onRecvMediaData media =>
    simp only [RTCServer.callback] at call
    cases hclass : (w.server.peers.get job.peer).peerClass with
    | publisher =>
      rw [hclass] at call
      obtain ⟨scache, hc, call⟩ := Option.bind_eq_some_iff.mp call
      obtain ⟨fed, hfed, call⟩ := Option.bind_eq_some_iff.mp call
      cases call
      have hshown := fed_shown h.inv hi hclass hc hfed
      simp only [callbackActs, List.map_singleton, run_singleton, family]
      rw [← hshown]
      simp only [Room.step]
      rw [Function.update_eq_self]
    | player =>
      rw [hclass] at call
      cases call
      simp only [callbackActs, List.map_singleton, run_singleton, family, Room.step,
        player_not_source hclass job.streamID, Bool.false_eq_true, if_false,
        Function.update_eq_self]
      rfl
  | onConnectionChange newState =>
    have moved : (srv.peers.get job.peer).peerconnectionState = newState →
        out.filterMap ({ w with server := srv } : World).shown =
          (if newState = .kConnected then (w.room job.streamID).askFor job.peer else []).map
            (fun o => (job.streamID, o)) →
        run (family Room.step) w.room
            ((callbackActs job.peer (.onConnectionChange newState)).map
              fun a => (job.streamID, a)) =
          (({ w with server := srv } : World).room,
            out.filterMap ({ w with server := srv } : World).shown) := by
      intro hstate hout
      rw [stated newState hstate, hout]
      simp only [callbackActs, List.map_singleton, run_singleton, family, Room.step,
        decide_eq_true_eq]
    simp only [RTCServer.callback] at call
    cases hclass : (w.server.peers.get job.peer).peerClass with
    | publisher =>
      rw [hclass] at call
      cases call
      refine moved ?_ ?_
      · rw [RTCServer.updatePeer, Heap.get_modify_self _ connected.1, onConnectionChange_state]
      · simp only [Room.askFor, if_neg (publisher_not_viewer h.inv hclass job.streamID), ite_self]
        rfl
    | player =>
      rw [hclass] at call
      simp only at call
      have hself : ∀ f : RtcPeer → RtcPeer,
          (w.server.updatePeer job.peer f).peers.get job.peer = f (w.server.peers.get job.peer) :=
        fun f => Heap.get_modify_self f connected.1
      split_ifs at call with hconnected
      · obtain ⟨l, hl, hpair⟩ := Option.map_eq_some_iff.mp call
        obtain ⟨hsrv, rfl⟩ := Prod.mk.inj hpair
        rw [hsrv] at hl
        have hpeer := hself fun peer => { peer with peerconnectionState := newState }
        rw [hsrv] at hpeer
        have hstate : (srv.peers.get job.peer).peerconnectionState = newState := by rw [hpeer]
        have hclass' : (srv.peers.get job.peer).peerClass = .player := by rw [hpeer, ← hclass]
        have hasked := asked_shown (w := { w with server := srv }) h' hi hclass' hl
        refine moved hstate ?_
        rw [hasked, if_pos hconnected, stated newState hstate, Function.update_self]
        rfl
      · cases call
        refine moved (by rw [hself]) ?_
        rw [if_neg hconnected]
        rfl

end

end Sars
