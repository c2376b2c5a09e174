import Sars.StreamInvariant

/-!
# Which frames a player is fed

The frames fed to a player over a run, against the frames that the publishers of
its stream received while it was in the list and connected. One call of
`CacheMedia` is the loop lemma; that the cache belongs to the player's own
stream and lists the player once is the invariant.
-/

namespace Sars

open ByteMemory ObjectHeap GrowingMap EventRuns World

/-- The frames fed to `q`. -/
def fedTo (q : Nat) : Output → Option MediaData
  | .feedMediaData p frame => if p = q then some frame else none
  | _ => none

/-- The received frame under the peer's own ssrc and payload type of its medium. -/
def RtcPeer.frameOf (peer : RtcPeer) (media : MediaData) : MediaData :=
  match media.mediaType with
  | .kMediaVideo =>
    { media with ssrc := peer.localVideoSsrc, payloadType := peer.localVideoPayloadtype }
  | .kMediaAudio =>
    { media with ssrc := peer.localAudioSsrc, payloadType := peer.localAudioPayloadtype }
  | .other _ => { media with ssrc := 0, payloadType := 0 }

/-- The handler made this peer for a request of this kind and stream. -/
def Handler.made (kind : RequestKind) (streamID : Bytes) (p : Nat) (h : Handler) : Bool :=
  match h.session with
  | some (job, _) => job.kind = kind ∧ job.streamID = streamID ∧ job.peer = p
  | none => false

def World.made (w : World) (kind : RequestKind) (streamID : Bytes) (p : Nat) : Bool :=
  w.handlers.any (Handler.made kind streamID p)

/-- The players of a stream. -/
def RTCServer.players (srv : RTCServer) (streamID : Bytes) : List Nat :=
  match srv.sarsPeersStreamIDMaps.lookup streamID with
  | some scache => (srv.scaches.get scache).players
  | none => []

/-- What `q` is to be fed in one step: the frame that a linked publisher of the stream
receives while `q` is one of its players and connected. -/
def received (q : Nat) (streamID : Bytes) (w : World) : Event → List MediaData
  | .callback p (.onRecvMediaData media) =>
    if w.status = .running ∧ w.Connected p ∧ w.made .publish streamID p = true ∧
        ((w.server.peers.get p).scache).isSome = true ∧ q ∈ w.server.players streamID ∧
        (w.server.peers.get q).peerconnectionState = .kConnected then
      [(w.server.peers.get q).frameOf media]
    else []
  | _ => []

/-! ## One call of `CacheMedia` -/

theorem mediaFrame_eq (media : MediaData) (ssrc payloadType : UInt32) :
    mediaFrame media ssrc payloadType =
      { media with ssrc := ssrc, payloadType := payloadType } := by
  simp only [mediaFrame, MediaData.mk.injEq, and_self, and_true, true_and]
  exact mediaFrame_data media ssrc payloadType

/-- The loop feeds each connected player of a list without repetitions once, with the
player's own frame; for other media the shared variables stay zero. -/
theorem cacheMediaLoop_fed (srv : RTCServer) (media : MediaData) (q : Nat) {players : List Nat}
    (ssrc payloadType : UInt32) (nodup : players.Nodup)
    (connected : ∀ p ∈ players, (srv.peers.get p).peerconnectionState = .kConnected →
      (srv.peers.get p).peerConnection = true)
    (shared : ∀ code, media.mediaType = .other code → ssrc = 0 ∧ payloadType = 0) :
    ∃ out, srv.cacheMediaLoop media players ssrc payloadType = some out ∧
      out.filterMap (fedTo q) =
        if q ∈ players ∧ (srv.peers.get q).peerconnectionState = .kConnected then
          [(srv.peers.get q).frameOf media]
        else [] := by
  induction players generalizing ssrc payloadType with
  | nil => exact ⟨[], rfl, by simp⟩
  | cons it players ih =>
    obtain ⟨hnew, hrest⟩ := List.nodup_cons.mp nodup
    have htail := fun p hp => connected p (List.mem_cons_of_mem it hp)
    by_cases hstate : (srv.peers.get it).peerconnectionState = .kConnected
    · have hconn := connected it List.mem_cons_self hstate
      -- one player: its frame, and then the rest with whatever the variables hold
      have one : ∀ ssrc' payloadType' : UInt32,
          (∀ code, media.mediaType = .other code → ssrc' = 0 ∧ payloadType' = 0) →
          mediaFrame media ssrc' payloadType' = (srv.peers.get it).frameOf media →
          ∃ out, (do
              let fed ← srv.cacheMediaLoop media players ssrc' payloadType'
              return Output.feedMediaData it (mediaFrame media ssrc' payloadType') :: fed) =
                some out ∧
            out.filterMap (fedTo q) =
              if q ∈ it :: players ∧ (srv.peers.get q).peerconnectionState = .kConnected then
                [(srv.peers.get q).frameOf media]
              else [] := by
        intro ssrc' payloadType' hshared hframe
        obtain ⟨fed, hfed, hrun⟩ := ih ssrc' payloadType' hrest htail hshared
        refine ⟨_, by rw [hfed]; rfl, ?_⟩
        by_cases hq : it = q
        · subst hq
          rw [List.filterMap_cons_some (b := mediaFrame media ssrc' payloadType')
            (by simp [fedTo]), hrun, hframe]
          simp [hnew, hstate]
        · have hne : q ≠ it := Ne.symm hq
          rw [List.filterMap_cons_none (by simp [fedTo, hq]), hrun]
          simp [hne]
      cases htype : media.mediaType with
      | kMediaVideo =>
        obtain ⟨out, hout, hfed⟩ := one (srv.peers.get it).localVideoSsrc
          (srv.peers.get it).localVideoPayloadtype (by simp [htype])
          (by simp only [mediaFrame_eq, RtcPeer.frameOf, htype])
        refine ⟨out, ?_, hfed⟩
        rw [← hout]
        simp [RTCServer.cacheMediaLoop, hstate, htype, hconn]
      | kMediaAudio =>
        obtain ⟨out, hout, hfed⟩ := one (srv.peers.get it).localAudioSsrc
          (srv.peers.get it).localAudioPayloadtype (by simp [htype])
          (by simp only [mediaFrame_eq, RtcPeer.frameOf, htype])
        refine ⟨out, ?_, hfed⟩
        rw [← hout]
        simp [RTCServer.cacheMediaLoop, hstate, htype, hconn]
      | other code =>
        obtain ⟨rfl, rfl⟩ := shared code htype
        obtain ⟨out, hout, hfed⟩ := one 0 0 (fun _ _ => ⟨rfl, rfl⟩)
          (by simp only [mediaFrame_eq, RtcPeer.frameOf, htype])
        refine ⟨out, ?_, hfed⟩
        rw [← hout]
        simp [RTCServer.cacheMediaLoop, hstate, htype, hconn]
    · obtain ⟨out, hout, hfed⟩ := ih ssrc payloadType hrest htail shared
      refine ⟨out, ?_, ?_⟩
      · simpa [RTCServer.cacheMediaLoop, hstate] using hout
      · rw [hfed]
        by_cases hq : q = it
        · subst hq
          simp [hstate]
        · simp [hq]

/-! ## Sessions over a run -/

theorem made_iff {w : World} {kind : RequestKind} {streamID : Bytes} {p : Nat} :
    w.made kind streamID p = true ↔ ∃ i job done, w.sessions i = some (job, done) ∧
      job.kind = kind ∧ job.streamID = streamID ∧ job.peer = p := by
  constructor
  · intro h
    obtain ⟨handler, hmem, hmade⟩ := List.any_eq_true.mp h
    obtain ⟨i, hi⟩ := List.mem_iff_getElem?.mp hmem
    simp only [Handler.made] at hmade
    cases hsession : handler.session with
    | none => simp [hsession] at hmade
    | some session =>
      obtain ⟨job, done⟩ := session
      rw [hsession] at hmade
      refine ⟨i, job, done, ?_, of_decide_eq_true hmade⟩
      simp only [World.sessions, sessionsOf, hi, Option.bind_some, hsession]
  · rintro ⟨i, job, done, hi, hmade⟩
    obtain ⟨handler, hget, hsession⟩ := Option.bind_eq_some_iff.mp hi
    refine List.any_eq_true.mpr ⟨handler, List.mem_of_getElem? hget, ?_⟩
    simp only [Handler.made]
    rw [hsession]
    exact decide_eq_true hmade

/-- A session keeps its job. -/
theorem Session.kept {w w' : World} {e : Event} (hs : Session w e w') {i : Nat} {job : Job}
    (h : ∃ done, w.sessions i = some (job, done)) : ∃ done, w'.sessions i = some (job, done) := by
  obtain ⟨done, hi⟩ := h
  cases hs with
  | same sessions _ => exact ⟨done, by rw [sessions, hi]⟩
  | opened sessions _ => exact ⟨done, by rw [sessions, hi]⟩
  | @begun j _ _ _ job' _ _ free _ _ _ _ _ sessions =>
    have hne : i ≠ j := by
      rintro rfl
      rw [free] at hi
      cases hi
    exact ⟨done, by rw [sessions, Function.update_of_ne hne, hi]⟩
  | @finished j _ job' _ suspended _ sessions =>
    by_cases hij : i = j
    · subst hij
      rw [suspended] at hi
      cases hi
      exact ⟨true, by rw [sessions, Function.update_self]⟩
    · exact ⟨done, by rw [sessions, Function.update_of_ne hij, hi]⟩

/-- A peer that ends up playing a stream never plays another one. -/
theorem plays_only {as bs : List Event} {q i : Nat} {streamID : Bytes} {job : Job} {done : Bool}
    (plays : (after step start (as ++ bs)).made .play streamID q = true)
    (session : (after step start as).sessions i = some (job, done)) (peer : job.peer = q) :
    job.streamID = streamID := by
  obtain ⟨j, b, done', hj, _, hstream, hpeer⟩ := made_iff.mp plays
  have hinv := streamInv_after (as ++ bs)
  rw [after_append] at hj hinv
  obtain ⟨done'', hi⟩ := invariant_after
    (I := fun w => ∃ done, w.sessions i = some (job, done))
    (fun w e h => (step_session w e).kept h) ⟨done, session⟩ bs
  have hij := hinv.distinct i j job b done'' done' hi hj (peer.trans hpeer.symm)
  subst hij
  rw [hi] at hj
  cases hj
  exact hstream

/-! ## What a step feeds -/

/-- Nothing but `OnRecvMediaData` feeds a frame. -/
theorem Move.feeds_nothing {w w' : World} {e : Event} {out : List Output} (hm : Move w e w' out)
    (other : ∀ p media, e ≠ .callback p (.onRecvMediaData media)) (q : Nat) :
    out.filterMap (fedTo q) = [] := by
  cases hm with
  | idle => rfl
  | stopped => rfl
  | accepted => rfl
  | rejected => rfl
  | begun => rfl
  | @finished i job ret writing =>
    cases hkind : job.kind <;> simp only [Signalling.handleWritten, hkind] <;> rfl
  | heard =>
    simp only [RTCServer.udpSocketRecv]
    split_ifs <;> rfl
  | called _ call =>
    rcases callback_cases call with hcontrol | ⟨media, _, hcb, _⟩
    · refine List.filterMap_eq_nil_iff.mpr fun o ho => ?_
      have hcontrol := hcontrol o ho
      cases o <;> first | rfl | cases hcontrol
    · exact absurd (by rw [hcb]) (other _ media)

theorem received_nothing {q : Nat} {streamID : Bytes} {w : World} {e : Event}
    (other : ∀ p media, e ≠ .callback p (.onRecvMediaData media)) :
    received q streamID w e = [] := by
  unfold received
  split
  · exact absurd rfl (other _ _)
  · rfl

section

variable {w : World} {q i : Nat} {streamID : Bytes} {job : Job}

/-- The cache of a linked publisher lists a player exactly when both are of one stream
and the player is in it. -/
theorem listed_iff (inv : StreamInv w.sessions w.server)
    (plays : ∀ j b done, w.sessions j = some (b, done) → b.peer = q → b.streamID = streamID)
    (linked : w.sessions i = some (job, true)) (publish : job.kind = .publish) :
    q ∈ (w.server.scaches.get job.scache).players ↔
      w.made .publish streamID job.peer = true ∧ q ∈ w.server.players streamID := by
  have hstream := inv.stream i job true linked
  constructor
  · intro hq
    obtain ⟨j, b, hj, _, hbpeer, hbcache⟩ := inv.players job.scache q hq
    have hbstream := inv.stream j b true hj
    rw [plays j b true hj hbpeer, hbcache] at hbstream
    have hid := inv.injective _ _ _ hstream hbstream
    refine ⟨made_iff.mpr ⟨i, job, true, linked, publish, hid, rfl⟩, ?_⟩
    simp only [RTCServer.players, hbstream]
    exact hq
  · rintro ⟨hmade, hq⟩
    obtain ⟨j, b, done, hj, _, hbstream, hbpeer⟩ := made_iff.mp hmade
    have hij := inv.distinct i j job b true done linked hj hbpeer.symm
    subst hij
    rw [linked] at hj
    cases hj
    rw [hbstream] at hstream
    simp only [RTCServer.players, hstream] at hq
    exact hq

/-- A peer made by a publish is a publisher. -/
theorem class_of_made (inv : StreamInv w.sessions w.server) {p : Nat}
    (made : w.made .publish streamID p = true) :
    (w.server.peers.get p).peerClass = .publisher := by
  obtain ⟨j, b, done, hj, hkind, _, rfl⟩ := made_iff.mp made
  rw [(inv.peer j b done hj).2.1, hkind]
  rfl

theorem step_feeds_publisher (inv : StreamInv w.sessions w.server)
    (plays : ∀ j b done, w.sessions j = some (b, done) → b.peer = q → b.streamID = streamID)
    (running : w.status = .running) (connected : w.Connected job.peer)
    (linked : w.sessions i = some (job, true)) (publish : job.kind = .publish)
    (media : MediaData) :
    (w.stepCallback job.peer (.onRecvMediaData media)).2.filterMap (fedTo q) =
      received q streamID w (.callback job.peer (.onRecvMediaData media)) := by
  obtain ⟨_, hclass, hscache⟩ := inv.peer i job true linked
  rw [publish] at hclass
  simp only [RequestKind.peerClass, if_true] at hclass hscache
  obtain ⟨out, hfed, hframes⟩ := cacheMediaLoop_fed w.server media q 0 0 (inv.nodup job.scache)
    (fun r _ hstate => inv.connected r (by rw [hstate]; decide)) (fun _ _ => ⟨rfl, rfl⟩)
  have hcall : w.server.callback job.peer (.onRecvMediaData media) = some (w.server, out) := by
    simp only [RTCServer.callback, hclass, hscache, RTCServer.cacheMedia, Option.bind_eq_bind,
      Option.bind_some, hfed, Option.pure_def]
  rw [stepCallback_some connected hcall, hframes]
  simp only [received, running, connected, hscache, listed_iff inv plays linked publish,
    Option.isSome_some, true_and, and_assoc]

/-- A frame for a publisher goes to the players of its stream. -/
theorem step_feeds (inv : StreamInv w.sessions w.server)
    (plays : ∀ j b done, w.sessions j = some (b, done) → b.peer = q → b.streamID = streamID)
    (p : Nat) (media : MediaData) :
    (w.step (.callback p (.onRecvMediaData media))).2.filterMap (fedTo q) =
      received q streamID w (.callback p (.onRecvMediaData media)) := by
  by_cases running : w.status = .running
  · rw [step_callback running]
    by_cases connected : w.Connected p
    · cases hclass : (w.server.peers.get p).peerClass with
      | player =>
        have hnot : w.made .publish streamID p ≠ true := by
          intro hmade
          rw [class_of_made inv hmade] at hclass
          cases hclass
        have hcall : w.server.callback p (.onRecvMediaData media) = some (w.server, []) := by
          simp only [RTCServer.callback, hclass]
        rw [stepCallback_some connected hcall]
        simp [received, hnot]
      | publisher =>
        cases hscache : (w.server.peers.get p).scache with
        | none =>
          have hcall : w.server.callback p (.onRecvMediaData media) = none := by
            simp only [RTCServer.callback, hclass, hscache, Option.bind_eq_bind, Option.bind_none]
          rw [stepCallback_none connected hcall]
          simp [received, hscache]
        | some c =>
          obtain ⟨i, job, hi, rfl, _⟩ := inv.linked p c hscache
          have hkind : job.kind = .publish :=
            RequestKind.peerClass_injective ((inv.peer i job true hi).2.1.symm.trans hclass)
          exact step_feeds_publisher inv plays running connected hi hkind media
    · simp [World.stepCallback, received, connected]
  · rw [step_stopped running]
    simp [received, running]

end

/-- The frames fed to a player are those the publishers of its stream received while it
was in the list and connected. -/
theorem fan_out_exact (es : List Event) (q : Nat) (streamID : Bytes)
    (plays : (after step start es).made .play streamID q = true) :
    (outputs step start es).filterMap (fedTo q) =
      outputs (fun w e => ((w.step e).1, received q streamID w e)) start es := by
  refine outputs_filterMap fun as e bs hes => ?_
  rw [hes] at plays
  by_cases hmedia : ∃ p media, e = .callback p (.onRecvMediaData media)
  · obtain ⟨p, media, rfl⟩ := hmedia
    exact step_feeds (streamInv_after as) (fun _ _ _ hi hpeer => plays_only plays hi hpeer) p media
  · have other : ∀ p media, e ≠ .callback p (.onRecvMediaData media) :=
      fun p media heq => hmedia ⟨p, media, heq⟩
    rw [(step_move _ e).feeds_nothing other q, received_nothing other]

/-! ### One player -/

def h264 : CodecInfoMap VideoCodeInfo :=
  { entries := [(125, { payloadType := 125, codecType := .kVideoCodeH264 })], sorted := by simp }

/-- A player joins and connects; one frame comes before that and one after. -/
def watched : List Event :=
  served 0 .publish [0x2F, 0x73] [0x61] ++ served 1 .play [0x2F, 0x73] [0x63] ++
    [.callback 1 (.onAddLocalVideoTrack 1 h264), .callback 0 (.onRecvMediaData keyFrame),
      .callback 1 (.onConnectionChange .kConnected), .callback 0 (.onRecvMediaData keyFrame)]

theorem fan_out_exact_watched :
    (outputs step start watched).filterMap (fedTo 1) =
      [{ keyFrame with ssrc := 1, payloadType := 125 }] :=
  (fan_out_exact watched 1 [0x73] (by decide +kernel)).trans (by decide +kernel)

end Sars
