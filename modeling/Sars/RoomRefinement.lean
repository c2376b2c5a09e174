import Sars.RoomCallbacks

/-!
# The process refines its rooms

Every step of the process is a run of the rooms, so every run is. What is shown
to the members of a stream is what its room shows when it is run by itself on
the acts of that stream. Two players that stay connected see the same frames.
-/

namespace Sars

open ByteMemory ObjectHeap GrowingMap EventRuns World

/-! ## Steps -/

section

variable {w : World}

/-- What a step must be for the rooms. -/
def Matches (w : World) (acts : List (Bytes × Room.Act Nat MediaData)) (r : World × List Output) :
    Prop :=
  run (family Room.step) w.room acts = (r.1.room, r.2.filterMap r.1.shown)

theorem matches_idle (w : World) : Matches w [] (w, []) := rfl

theorem admits_iff (inv : StreamInv w.sessions w.server) {streamID : Bytes} (kind : RequestKind) :
    (w.room streamID).admits kind.role = true ↔ w.server.canPublish streamID = kind.wants := by
  have hcan : w.server.canPublish streamID = (w.server.publisher streamID).isNone := by
    simp only [RTCServer.canPublish, RTCServer.publisher]
    cases w.server.sarsPeersStreamIDMaps.lookup streamID with
    | none => rfl
    | some c =>
      simp only [Option.bind_some]
      rw [Bool.eq_iff_iff, inv.taken c, Option.isNone_iff_eq_none]
  rw [hcan]
  cases kind with
  | publish => rfl
  | play =>
    simp only [Room.admits, RequestKind.role, RequestKind.wants, World.room]
    cases w.server.publisher streamID <;> simp

theorem shown_write {i : Nat} (job : Job) (done : Bool) (answer : Bytes)
    (hi : w.sessions i = some (job, done)) :
    [Output.write i answer].filterMap w.shown = [(job.streamID, .admitted i)] :=
  List.filterMap_cons_some (by simp only [World.shown, hi, Option.map_some])

theorem body_matches {i : Nat} {offer streamUrl : Bytes} {engine : Engine} {kind : RequestKind}
    (h : Enrolled w.sessions w.server) (running : w.status = .running)
    (reading : w.handlers[i]? = some (.reading kind))
    (survives : (w.step (.body i offer streamUrl engine)).1.status = .running) :
    Matches w (w.meaning (.body i offer streamUrl engine))
      (w.step (.body i offer streamUrl engine)) := by
  have h' := h.step (e := .body i offer streamUrl engine)
  rw [step_body running reading] at h' survives ⊢
  rcases handleBody_cases kind w.server offer streamUrl engine with
    ⟨_, hexit⟩ | ⟨streamID, srv, scache, hid, hopened, hrest⟩
  · simp only [World.stepBody, hexit] at survives
    cases survives
  · have hcan := hopened.canPublish
    rcases hrest with ⟨hunwanted, hret⟩ | ⟨hwanted, srv', answer, hcreated, hwrite⟩
    · have hrefused : (w.room streamID).admits kind.role = false := by
        rw [Bool.eq_false_iff, ne_eq, admits_iff h.inv, ← hcan]
        exact hunwanted
      simp only [World.stepBody, hret] at h' ⊢
      have hroom := room_opened h.inv h'.inv (sessionsOf_set_same reading rfl) hopened
      simp only [Matches, World.meaning, reading, hid, run_singleton, family, Room.step, hrefused,
        Bool.false_eq_true, if_false, Function.update_eq_self, hroom]
      rfl
    · have hadmitted : (w.room streamID).admits kind.role = true := by
        rw [admits_iff h.inv, ← hcan]
        exact hwanted
      simp only [World.stepBody, hwrite] at h' ⊢
      have hfree : w.sessions i = none := by
        simp only [World.sessions, sessionsOf, reading]
        rfl
      have hsessions := sessionsOf_set reading (.writing
        { kind := kind, streamID := streamID, scache := scache, peer := srv.peers.size })
      have hroom := room_begun { kind := kind, streamID := streamID, scache := scache
                                 peer := srv.peers.size }
        h.inv h'.inv hfree hopened hcreated rfl hsessions
      simp only [Matches, World.meaning, reading, hid, run_singleton, family, Room.step, hadmitted,
        if_true, Function.update_eq_self, hroom, List.map_singleton, Prod.mk.injEq, true_and]
      have hsession := congrFun hsessions i
      rw [Function.update_self] at hsession
      exact (shown_write { kind := kind, streamID := streamID, scache := scache
                           peer := srv.peers.size } false answer (by exact hsession)).symm

theorem written_matches {i : Nat} {ret : Int} {job : Job} (h : Enrolled w.sessions w.server)
    (running : w.status = .running) (writing : w.handlers[i]? = some (.writing job)) :
    Matches w (w.meaning (.written i ret)) (w.step (.written i ret)) := by
  have h' := h.step (e := .written i ret)
  rw [step_written running writing] at h' ⊢
  have hsuspended : w.sessions i = some (job, false) := by
    simp only [World.sessions, sessionsOf, writing]
    rfl
  have hroom := room_finished h.inv h'.inv hsuspended (handleWritten_link _ _ _)
    (sessionsOf_set writing _)
  have hout : ∀ w' : World,
      (Signalling.handleWritten w.server job ret).2.1.filterMap w'.shown = [] := by
    intro w'
    simp only [Signalling.handleWritten]
    cases job.kind <;> rfl
  simp only [Matches, World.meaning, writing, run_singleton, family, Room.step, hroom,
    List.map_nil, Prod.mk.injEq, true_and]
  exact (hout _).symm

theorem callback_matches {p : Nat} {cb : RTCServer.Callback} (h : Enrolled w.sessions w.server)
    (running : w.status = .running)
    (survives : (w.step (.callback p cb)).1.status = .running) :
    Matches w (w.meaning (.callback p cb)) (w.step (.callback p cb)) := by
  have h' := h.step (e := .callback p cb)
  rw [step_callback running] at h' survives ⊢
  by_cases connected : w.Connected p
  · cases call : w.server.callback p cb with
    | none =>
      rw [stepCallback_none connected call] at survives
      cases survives
    | some result =>
      obtain ⟨srv, out⟩ := result
      rw [stepCallback_some connected call] at h' ⊢
      obtain ⟨i, job, done, hi, rfl⟩ := h.owned p connected.1
      simp only [Matches, World.meaning, if_pos connected, streamOf_session h.inv hi]
      exact callback_room h h' hi connected call
  · simp only [World.meaning, World.stepCallback, if_neg connected]
    exact matches_idle w

theorem datagram_matches {buf : Datagram} {addr : SockaddrIn} (h : Enrolled w.sessions w.server)
    (running : w.status = .running) :
    Matches w (w.meaning (.datagram buf addr)) (w.step (.datagram buf addr)) := by
  have h' := h.step (e := .datagram buf addr)
  rw [step_datagram_eq running, stepDatagram_eq] at h' ⊢
  cases htarget : target w.server buf.val addr with
  | none => exact matches_idle w
  | some p =>
    simp only [htarget] at h' ⊢
    have hquiet := quiet_heard w.server addr p
    have hroom : ({ w with server := (w.server.bind addr p).heard addr p } : World).room = w.room :=
      room_same h.inv h'.inv rfl hquiet
        (Heap.get_modify_field RtcPeer.peerconnectionState (by intro _; rfl))
    simp only [Matches, World.meaning, hroom, RTCServer.udpSocketRecv]
    split_ifs <;> rfl

theorem accept_matches {kind : RequestKind} (h : Enrolled w.sessions w.server)
    (running : w.status = .running) :
    Matches w (w.meaning (.accept kind)) (w.step (.accept kind)) := by
  have h' := h.step (e := .accept kind)
  rw [step_accept running] at h' ⊢
  have hroom : ({ w with handlers := w.handlers ++ [.reading kind] } : World).room = w.room :=
    room_same h.inv h'.inv (sessionsOf_accepted _ kind) (.refl _) (fun _ => rfl)
  simp only [Matches, World.meaning, hroom]
  rfl

/-- Where the process stops, nothing has happened to the rooms. -/
theorem stopped_matches {e : Event} (running : w.status = .running)
    (stops : (w.step e).1.status ≠ .running) : Matches w [] (w.step e) := by
  have hmove := step_move w e
  generalize w.step e = r at hmove stops ⊢
  obtain ⟨w', out⟩ := r
  cases hmove with
  | stopped => rfl
  | idle => exact absurd running stops
  | accepted => exact absurd running stops
  | rejected => exact absurd running stops
  | begun => exact absurd running stops
  | finished => exact absurd running stops
  | heard => exact absurd running stops
  | called => exact absurd running stops

theorem step_matches (h : Enrolled w.sessions w.server) (e : Event) :
    Matches w (w.roomActs e) (w.step e) := by
  by_cases running : w.status = .running
  · by_cases survives : (w.step e).1.status = .running
    · rw [World.roomActs, if_pos ⟨running, survives⟩]
      cases e with
      | accept kind => exact accept_matches h running
      | body i offer streamUrl engine =>
        by_cases reading : ∃ kind, w.handlers[i]? = some (.reading kind)
        · obtain ⟨kind, reading⟩ := reading
          exact body_matches h running reading survives
        · have other := not_exists.mp reading
          rw [step_body_idle other, meaning_body_idle other]
          exact matches_idle w
      | written i ret =>
        by_cases writing : ∃ job, w.handlers[i]? = some (.writing job)
        · obtain ⟨job, writing⟩ := writing
          exact written_matches h running writing
        · have other := not_exists.mp writing
          rw [step_written_idle other, meaning_written_idle other]
          exact matches_idle w
      | datagram buf addr => exact datagram_matches h running
      | callback p cb => exact callback_matches h running survives
    · rw [World.roomActs, if_neg fun both => survives both.2]
      exact stopped_matches running survives
  · rw [step_stopped running, World.roomActs, if_neg fun both => running both.1]
    exact matches_idle w

end

/-! ## What has been shown stays -/

/-- The peer or the handler that an output is about is there. -/
def Attributed (w : World) : Output → Prop
  | .write i _ => ∃ job done, w.sessions i = some (job, done)
  | .requestIFrame p _ | .feedMediaData p _ => p < w.server.peers.size
  | _ => True

theorem connected_lt {srv : RTCServer} {p : Nat} (h : (srv.peers.get p).peerConnection = true) :
    p < srv.peers.size := by
  by_contra hbeyond
  rw [Heap.get_beyond (Nat.le_of_not_lt hbeyond)] at h
  cases h

theorem callback_attributed {w : World} {srv : RTCServer} {p : Nat} {cb : RTCServer.Callback}
    {out : List Output} (call : w.server.callback p cb = some (srv, out)) :
    ∀ o ∈ out, Attributed { w with server := srv } o := by
  have hsize := (callback_framed call).size
  have present : ∀ q, (w.server.peers.get q).peerConnection = true → q < srv.peers.size :=
    fun q hconn => hsize ▸ connected_lt hconn
  intro o ho
  have hemits := callback_emits call o ho
  cases o with
  | requestIFrame q ssrc => exact present q hemits
  | feedMediaData q frame => exact present q hemits
  | write => cases hemits
  | setPublisher | addPlayer | udpSocketRecv | processRemoteData | sendTo => exact trivial

theorem step_attributed (w : World) (e : Event) :
    ∀ o ∈ (w.step e).2, Attributed (w.step e).1 o := by
  have hmove := step_move w e
  generalize w.step e = r at hmove ⊢
  obtain ⟨w', out⟩ := r
  cases hmove with
  | idle => exact List.forall_mem_nil _
  | stopped => exact List.forall_mem_nil _
  | accepted => exact List.forall_mem_nil _
  | rejected => exact List.forall_mem_nil _
  | @begun i kind _ _ streamID _ _ srv _ scache _ reading =>
    have hsession := congrFun (sessionsOf_set reading (.writing
      { kind := kind, streamID := streamID, scache := scache, peer := srv.peers.size })) i
    rw [Function.update_self] at hsession
    exact List.forall_mem_singleton.mpr ⟨_, false, hsession⟩
  | @finished i job ret _ =>
    simp only [Signalling.handleWritten]
    cases job.kind <;> exact List.forall_mem_singleton.mpr trivial
  | heard =>
    dsimp only
    split_ifs
    · exact List.forall_mem_cons.mpr ⟨trivial, List.forall_mem_singleton.mpr trivial⟩
    · exact List.forall_mem_singleton.mpr trivial
  | called _ call => exact callback_attributed call

theorem streamOf_after {w : World} {p : Nat} {streamID : Bytes}
    (h : Enrolled w.sessions w.server) (es : List Event) (hp : w.streamOf p = some streamID) :
    (after step w es).streamOf p = some streamID := by
  obtain ⟨i, job, done, hi, hpeer, hstream⟩ := (streamOf_iff h.inv).mp hp
  obtain ⟨done', hi'⟩ := invariant_after
    (I := fun w => ∃ done, w.sessions i = some (job, done))
    (fun w e h => (step_session w e).kept h) ⟨done, hi⟩ es
  have inv : Enrolled (after step w es).sessions (after step w es).server :=
    invariant_after (I := fun w : World => Enrolled w.sessions w.server) (fun _ _ h => h.step) h es
  exact (streamOf_iff inv.inv).mpr ⟨i, job, done', hi', hpeer, hstream⟩

theorem shown_after {w : World} {o : Output} (h : Enrolled w.sessions w.server)
    (attributed : Attributed w o) (es : List Event) : (after step w es).shown o = w.shown o := by
  have ofPeer : ∀ p, p < w.server.peers.size → (after step w es).streamOf p = w.streamOf p := by
    intro p hp
    obtain ⟨i, job, done, hi, rfl⟩ := h.owned p hp
    have hstream := streamOf_session h.inv hi
    rw [hstream, streamOf_after h es hstream]
  cases o with
  | write i answer =>
    obtain ⟨job, done, hi⟩ := attributed
    obtain ⟨done', hi'⟩ := invariant_after
      (I := fun w => ∃ done, w.sessions i = some (job, done))
      (fun w e h => (step_session w e).kept h) ⟨done, hi⟩ es
    simp only [World.shown, hi, hi', Option.map_some]
  | requestIFrame p ssrc => simp only [World.shown, ofPeer p attributed]
  | feedMediaData q frame => simp only [World.shown, ofPeer q attributed]
  | setPublisher => rfl
  | addPlayer => rfl
  | udpSocketRecv => rfl
  | processRemoteData => rfl
  | sendTo => rfl

/-! ## Runs -/

/-- The rooms of all streams. -/
abbrev roomsStep : (Bytes → Room Nat) → Bytes × Room.Act Nat MediaData →
    (Bytes → Room Nat) × List (Bytes × Room.Shown Nat MediaData) :=
  family Room.step

def roomRefinement : Refinement World.step roomsStep where
  Inv w := Enrolled w.sessions w.server
  abs := World.room
  act := World.roomActs
  obs := World.shown
  keep _ _ h := h.step
  matched _ e h := step_matches h e

theorem enrolled_after (es : List Event) :
    Enrolled (after step start es).sessions (after step start es).server :=
  invariant_after (I := fun w : World => Enrolled w.sessions w.server) (fun _ _ h => h.step)
    enrolled_start es

theorem seen_shown {w : World} (h : Enrolled w.sessions w.server) (es : List Event) :
    roomRefinement.seen w es = (outputs step w es).filterMap (after step w es).shown :=
  roomRefinement.seen_at_end h
    (fun w e hw o ho es => shown_after hw.step (step_attributed w e o ho) es) es

theorem room_start : start.room = fun _ => Room.empty := by
  funext s
  have hpeers : ∀ p, start.server.peers.get p = { peerClass := .player } :=
    fun p => Heap.get_beyond (Nat.zero_le _)
  refine Room.ext ?_ rfl rfl ?_
  · funext p
    simp [World.room, RTCServer.publishes, hpeers, Room.empty]
  · funext p
    simp [World.room, World.live, hpeers, Room.empty]

/-- The process is one room for each stream. -/
theorem process_refines_rooms (es : List Event) :
    run roomsStep (fun _ => Room.empty) (roomRefinement.acts start es) =
      ((after step start es).room,
        (outputs step start es).filterMap (after step start es).shown) := by
  rw [← room_start, ← seen_shown enrolled_start]
  exact roomRefinement.run_acts enrolled_start es

/-- What is shown in one room. -/
def World.shownIn (w : World) (streamID : Bytes) (o : Output) :
    Option (Room.Shown Nat MediaData) :=
  (w.shown o).bind (only streamID)

theorem run_in_room {w : World} (h : Enrolled w.sessions w.server) (es : List Event)
    (streamID : Bytes) :
    (outputs step w es).filterMap ((after step w es).shownIn streamID) =
      outputs Room.step (w.room streamID)
        ((roomRefinement.acts w es).filterMap (only streamID)) := by
  obtain ⟨_, hout⟩ := run_eq (roomRefinement.run_acts h es)
  rw [seen_shown h] at hout
  have hroom := (family_only Room.step streamID w.room (roomRefinement.acts w es)).2
  rw [← hroom]
  have hacts : outputs roomsStep w.room (roomRefinement.acts w es) =
      (outputs step w es).filterMap (after step w es).shown := hout
  rw [hacts, List.filterMap_filterMap]
  rfl

/-- The frames fed to `q`, without the ssrc and payload type of `q`. -/
def framesTo (q : Nat) (o : Output) : Option MediaData := (fedTo q o).map MediaData.plain

theorem frames_in_room {w : World} {q : Nat} {streamID : Bytes}
    (h : Enrolled w.sessions w.server) (member : w.streamOf q = some streamID) (es : List Event) :
    (outputs step w es).filterMap (framesTo q) =
      (outputs Room.step (w.room streamID)
        ((roomRefinement.acts w es).filterMap (only streamID))).filterMap (Room.fedTo q) := by
  have hstream := streamOf_after h es member
  rw [← run_in_room h, List.filterMap_filterMap]
  refine List.filterMap_congr fun o _ => ?_
  cases o with
  | feedMediaData p frame =>
    by_cases hp : p = q
    · subst hp
      simp [framesTo, fedTo, World.shownIn, World.shown, hstream, only, Room.fedTo]
    · simp only [framesTo, fedTo, if_neg hp, World.shownIn, World.shown, Option.map_none]
      cases (after step w es).streamOf p with
      | none => rfl
      | some t =>
        simp only [Option.map_some, Option.bind_some, only]
        split_ifs
        · exact (if_neg hp).symm
        · rfl
  | write i answer =>
    simp only [framesTo, fedTo, World.shownIn, World.shown, Option.map_none]
    cases (after step w es).sessions i with
    | none => rfl
    | some session =>
      simp only [Option.map_some, Option.bind_some, only]
      split_ifs <;> rfl
  | requestIFrame p ssrc =>
    simp only [framesTo, fedTo, World.shownIn, World.shown, Option.map_none]
    cases (after step w es).streamOf p with
    | none => rfl
    | some t =>
      simp only [Option.map_some, Option.bind_some, only]
      split_ifs <;> rfl
  | setPublisher => rfl
  | addPlayer => rfl
  | udpSocketRecv => rfl
  | processRemoteData => rfl
  | sendTo => rfl

/-- No state but `kConnected` is reported for `q`. -/
def StaysConnected (q : Nat) (es : List Event) : Prop :=
  ∀ newState, .callback q (.onConnectionChange newState) ∈ es → newState = .kConnected

theorem acts_stay {w : World} {q : Nat} {es : List Event} (stays : StaysConnected q es)
    {b : Bytes × Room.Act Nat MediaData} (hb : b ∈ roomRefinement.acts w es) :
    b.2.downs q = false := by
  obtain ⟨t, e, he, hact⟩ := roomRefinement.mem_acts hb
  have hmeaning : b ∈ t.meaning e := by
    have hacts : b ∈ t.roomActs e := hact
    simp only [World.roomActs] at hacts
    split_ifs at hacts
    · exact hacts
    · cases hacts
  cases e with
  | accept kind => cases hmeaning
  | body i offer streamUrl engine =>
    simp only [World.meaning] at hmeaning
    split at hmeaning
    · rw [List.mem_singleton.mp hmeaning]
      rfl
    · cases hmeaning
  | written i ret =>
    simp only [World.meaning] at hmeaning
    split at hmeaning
    · rw [List.mem_singleton.mp hmeaning]
      rfl
    · cases hmeaning
  | datagram buf addr => cases hmeaning
  | callback p cb =>
    simp only [World.meaning] at hmeaning
    split_ifs at hmeaning
    · split at hmeaning
      · obtain ⟨a, ha, rfl⟩ := List.mem_map.mp hmeaning
        cases cb with
        | onConnectionChange newState =>
          rw [List.mem_singleton.mp ha]
          by_cases hp : p = q
          · subst hp
            simp [Room.Act.downs, stays newState he]
          · simp [Room.Act.downs, hp]
        | onRecvMediaData media =>
          rw [List.mem_singleton.mp ha]
          rfl
        | onRequestIFrame ssrc =>
          rw [List.mem_singleton.mp ha]
          rfl
        | _ => cases ha
      · cases hmeaning
    · cases hmeaning

theorem players_watch {w : World} {q : Nat} {streamID : Bytes}
    (inv : StreamInv w.sessions w.server) (plays : q ∈ w.server.players streamID)
    (connected : (w.server.peers.get q).peerconnectionState = .kConnected) :
    w.streamOf q = some streamID ∧ Room.Watching q (w.room streamID) := by
  have hstream : w.streamOf q = some streamID := by
    simp only [RTCServer.players] at plays
    cases hlookup : w.server.sarsPeersStreamIDMaps.lookup streamID with
    | none => simp [hlookup] at plays
    | some c =>
      simp only [hlookup] at plays
      obtain ⟨j, b, hj, _, rfl, rfl⟩ := inv.players c q plays
      rw [streamOf_session inv hj, inv.injective _ _ _ (inv.stream j b true hj) hlookup]
  refine ⟨hstream, List.mem_dedup.mpr plays, ?_⟩
  simp [World.room, World.live, hstream, connected]

/-- Two players of a stream are fed the same frames while both stay connected. -/
theorem players_agree (as bs : List Event) (streamID : Bytes) (q r : Nat)
    (plays : ∀ p ∈ [q, r], p ∈ (after step start as).server.players streamID ∧
      ((after step start as).server.peers.get p).peerconnectionState = .kConnected ∧
      StaysConnected p bs) :
    (outputs step (after step start as) bs).filterMap (framesTo q) =
      (outputs step (after step start as) bs).filterMap (framesTo r) := by
  have h := enrolled_after as
  have broadcasts : ∀ p ∈ [q, r],
      (outputs step (after step start as) bs).filterMap (framesTo p) =
        outputs (fun room a => ((Room.step room a).1, room.broadcast a))
          ((after step start as).room streamID)
          ((roomRefinement.acts (after step start as) bs).filterMap (only streamID)) := by
    intro p hp
    obtain ⟨hplays, hconnected, hstays⟩ := plays p hp
    obtain ⟨hstream, hwatching⟩ := players_watch h.inv hplays hconnected
    rw [frames_in_room h hstream]
    refine Room.watching_run hwatching fun a ha => ?_
    obtain ⟨b, hb, hba⟩ := List.mem_filterMap.mp ha
    simp only [only] at hba
    split_ifs at hba
    cases hba
    exact acts_stay hstays hb
  rw [broadcasts q (by simp), broadcasts r (by simp)]

/-- A publisher and two players, both of which connect. -/
def twoPlayers : List Event :=
  served 0 .publish [0x2F, 0x73] [0x61] ++ served 1 .play [0x2F, 0x73] [0x63] ++
    served 2 .play [0x2F, 0x73] [0x64] ++
    [.callback 1 (.onConnectionChange .kConnected), .callback 2 (.onConnectionChange .kConnected)]

theorem players_agree_twoPlayers :
    (outputs step (after step start twoPlayers)
        [.callback 0 (.onRecvMediaData keyFrame), .callback 2 (.onRequestIFrame 1)]).filterMap
      (framesTo 1) = [keyFrame.plain] := by
  refine (players_agree twoPlayers _ [0x73] 1 2 fun p hp => ⟨?_, ?_, ?_⟩).trans (by decide +kernel)
  · revert p
    decide +kernel
  · revert p
    decide +kernel
  · intro newState h
    simp at h

end Sars
