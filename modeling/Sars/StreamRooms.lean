import Sars.Enrolment
import Sars.Room
import Mathlib.Data.List.Dedup

/-!
# Every stream is a room of its own

The process against one room for each stream id. A request that is read, the
return of its handler and the callbacks of a peer are acts in the room of its
stream; the rest of the process is not seen there. This module has the three
readings, of states, events and outputs, and what the creation of caches and
peers and the return of a handler do to the rooms.
-/

namespace Sars

open ByteMemory ObjectHeap GrowingMap EventRuns World

/-! ## The room of a stream -/

def RequestKind.role : RequestKind → Role
  | .publish => .source
  | .play => .viewer

/-- A frame without the ssrc and payload type it is sent under. -/
def MediaData.plain (media : MediaData) : MediaData := { media with ssrc := 0, payloadType := 0 }

def RTCServer.publisher (srv : RTCServer) (streamID : Bytes) : Option Nat :=
  (srv.sarsPeersStreamIDMaps.lookup streamID).bind fun c => (srv.scaches.get c).publisher

/-- The peer is a publisher that is linked to the stream. -/
def RTCServer.publishes (srv : RTCServer) (streamID : Bytes) (p : Nat) : Bool :=
  (srv.peers.get p).peerClass = .publisher ∧ (srv.peers.get p).scache.isSome ∧
    (srv.peers.get p).scache = srv.sarsPeersStreamIDMaps.lookup streamID

def World.live (w : World) (streamID : Bytes) (p : Nat) : Bool :=
  w.streamOf p = some streamID ∧ (w.server.peers.get p).peerconnectionState = .kConnected

def World.room (w : World) (streamID : Bytes) : Room Nat :=
  { sources := w.server.publishes streamID, current := w.server.publisher streamID
    viewers := (w.server.players streamID).dedup, live := w.live streamID
    nodup := List.nodup_dedup _ }

def callbackActs (p : Nat) : RTCServer.Callback → List (Room.Act Nat MediaData)
  | .onConnectionChange newState => [.state p (newState = .kConnected)]
  | .onRecvMediaData media => [.frame p media.plain]
  | .onRequestIFrame _ => [.ask p]
  | _ => []

/-- What an event is in the room of its stream. -/
def World.meaning (w : World) : Event → List (Bytes × Room.Act Nat MediaData)
  | .body i _ streamUrl _ =>
    match w.handlers[i]?, getStreamIdFromStreamUrl streamUrl with
    | some (.reading kind), some streamID => [(streamID, .request kind.role i)]
    | _, _ => []
  | .written i _ =>
    match w.handlers[i]? with
    | some (.writing job) => [(job.streamID, .enter job.kind.role job.peer)]
    | _ => []
  | .callback p cb =>
    if w.Connected p then
      match w.streamOf p with
      | some streamID => (callbackActs p cb).map fun a => (streamID, a)
      | none => []
    else []
  | _ => []

theorem meaning_body_idle {w : World} {i : Nat}
    (other : ∀ kind, w.handlers[i]? ≠ some (.reading kind)) (offer streamUrl : Bytes)
    (engine : Engine) : w.meaning (.body i offer streamUrl engine) = [] := by
  simp only [World.meaning]
  cases hread : w.handlers[i]? with
  | none => rfl
  | some handler =>
    cases handler with
    | reading kind => exact absurd hread (other kind)
    | writing job => rfl
    | returned ret job => rfl

theorem meaning_written_idle {w : World} {i : Nat}
    (other : ∀ job, w.handlers[i]? ≠ some (.writing job)) (ret : Int) :
    w.meaning (.written i ret) = [] := by
  simp only [World.meaning]

/-- An event the process does not survive has no meaning to the rooms. -/
def World.roomActs (w : World) (e : Event) : List (Bytes × Room.Act Nat MediaData) :=
  if w.status = .running ∧ (w.step e).1.status = .running then w.meaning e else []

/-- What an output shows, and in which room. -/
def World.shown (w : World) : Output → Option (Bytes × Room.Shown Nat MediaData)
  | .write i _ => (w.sessions i).map fun s => (s.1.streamID, .admitted i)
  | .requestIFrame p _ => (w.streamOf p).map fun streamID => (streamID, .asked p)
  | .feedMediaData q frame => (w.streamOf q).map fun streamID => (streamID, .fed q frame.plain)
  | _ => none

/-! ## Steps that leave the rooms alone -/

section

variable {w w' : World}

theorem room_same (inv : StreamInv w.sessions w.server) (inv' : StreamInv w'.sessions w'.server)
    (sessions : w'.sessions = w.sessions) (quiet : Quiet w.server w'.server)
    (state : ∀ q, (w'.server.peers.get q).peerconnectionState =
      (w.server.peers.get q).peerconnectionState) : w'.room = w.room := by
  have hstream : ∀ p, w'.streamOf p = w.streamOf p := fun p =>
    streamOf_congr inv inv' fun job _ => by rw [sessions]
  funext streamID
  refine Room.ext ?_ ?_ ?_ ?_
  · funext p
    have hsession := quiet.session p
    simp only [RtcPeer.session, Prod.mk.injEq] at hsession
    simp only [World.room, RTCServer.publishes, hsession, quiet.streams]
  · simp only [World.room, RTCServer.publisher, quiet.streams, quiet.scaches]
  · simp only [World.room, RTCServer.players, quiet.streams, quiet.scaches]
  · funext p
    simp only [World.room, World.live, hstream, state]

/-- A stream that is opened has nobody in it. -/
theorem opened_members {streamID : Bytes} {srv srv' : RTCServer} {scache : Nat}
    (opened : Opened streamID srv srv' scache) (s : Bytes) :
    srv'.publisher s = srv.publisher s ∧ srv'.players s = srv.players s := by
  rcases opened.cases with ⟨_, rfl⟩ | ⟨hnone, rfl, rfl⟩
  · exact ⟨rfl, rfl⟩
  · by_cases hs : s = streamID
    · subst hs
      simp only [RTCServer.publisher, RTCServer.players, hnone, lookup_emplace_self,
        Option.getD_none, Option.bind_some, Option.bind_none, Heap.get_alloc_self, and_self]
    · have hempty : ∀ c, (srv.scaches.alloc {}).get c = srv.scaches.get c :=
        Heap.get_alloc_default srv.scaches
      simp only [RTCServer.publisher, RTCServer.players, lookup_emplace_ne _ hs, hempty, and_self]

theorem opened_publishes {σ : Sessions} {streamID : Bytes} {srv srv' : RTCServer} {scache : Nat}
    (inv : StreamInv σ srv) (opened : Opened streamID srv srv' scache) (s : Bytes) (p : Nat) :
    srv'.publishes s p = srv.publishes s p := by
  rcases opened.cases with ⟨_, rfl⟩ | ⟨hnone, rfl, rfl⟩
  · rfl
  · by_cases hs : s = streamID
    · subst hs
      -- no peer is linked to the cache that has just been made
      have hnew : (srv.peers.get p).scache ≠ some srv.scaches.size := by
        intro hlink
        obtain ⟨i, job, hi, _, hcache⟩ := inv.linked p _ hlink
        have hlt := inv.streams _ _ (inv.stream i job true hi)
        omega
      simp only [RTCServer.publishes, lookup_emplace_self, hnone, Option.getD_none, hnew]
      cases (srv.peers.get p).scache <;> simp
    · simp only [RTCServer.publishes, lookup_emplace_ne _ hs]

theorem room_opened {streamID : Bytes} {scache : Nat} (inv : StreamInv w.sessions w.server)
    (inv' : StreamInv w'.sessions w'.server) (sessions : w'.sessions = w.sessions)
    (opened : Opened streamID w.server w'.server scache) : w'.room = w.room := by
  have hstream : ∀ p, w'.streamOf p = w.streamOf p := fun p =>
    streamOf_congr inv inv' fun job _ => by rw [sessions]
  funext s
  obtain ⟨hpublisher, hplayers⟩ := opened_members opened s
  refine Room.ext ?_ hpublisher ?_ ?_
  · funext p
    exact opened_publishes inv opened s p
  · simp only [World.room, hplayers]
  · funext p
    simp only [World.room, World.live, hstream, opened.peers.1]

/-- A peer that has just been made is in no room. -/
theorem room_begun (job : Job) {i : Nat} {offer : Bytes} {engine : Engine} {srv : RTCServer}
    (inv : StreamInv w.sessions w.server) (inv' : StreamInv w'.sessions w'.server)
    (free : w.sessions i = none) (opened : Opened job.streamID w.server srv job.scache)
    (created : Created job.kind.peerClass offer engine srv w'.server)
    (peer : job.peer = srv.peers.size)
    (sessions : w'.sessions = Function.update w.sessions i (some (job, false))) :
    w'.room = w.room := by
  have hnew : w.server.peers.get srv.peers.size = { peerClass := .player } := by
    rw [opened.peers.1]
    exact Heap.get_beyond (Nat.le_refl _)
  have hold : ∀ p, p ≠ srv.peers.size → w'.server.peers.get p = w.server.peers.get p := by
    intro p hp
    rw [created.others hp, opened.peers.1]
  have hstream : ∀ p, p ≠ srv.peers.size → w'.streamOf p = w.streamOf p := by
    intro p hp
    refine streamOf_congr inv inv' fun b hb => ?_
    rw [sessions]
    constructor
    · rintro ⟨j, done, hj⟩
      have hji : j ≠ i := by
        rintro rfl
        rw [free] at hj
        cases hj
      exact ⟨j, done, by rw [Function.update_of_ne hji, hj]⟩
    · rintro ⟨j, done, hj⟩
      rcases session_cases hj with ⟨_, heq⟩ | ⟨_, hbefore⟩
      · cases heq
        exact absurd (hb.symm.trans peer) hp
      · exact ⟨j, done, hbefore⟩
  funext s
  obtain ⟨hpublisher, hplayers⟩ := opened_members opened s
  refine Room.ext ?_ ?_ ?_ ?_
  · funext p
    have hopened := opened_publishes inv opened s p
    simp only [RTCServer.publishes, opened.peers.1] at hopened
    by_cases hp : p = srv.peers.size
    · rw [hp]
      simp [World.room, RTCServer.publishes, created.unlinked, hnew]
    · simp only [World.room, RTCServer.publishes, hold p hp, created.streams, hopened]
  · simp only [World.room, RTCServer.publisher, created.streams, created.scaches]
    exact hpublisher
  · simp only [World.room, RTCServer.players, created.streams, created.scaches]
    exact congrArg List.dedup hplayers
  · funext p
    by_cases hp : p = srv.peers.size
    · rw [hp]
      simp [World.room, World.live, created.state, hnew]
    · simp only [World.room, World.live, hold p hp, hstream p hp]

end

/-! ## The return of a handler -/

theorem link_streams (srv : RTCServer) (job : Job) :
    (srv.link job).sarsPeersStreamIDMaps = srv.sarsPeersStreamIDMaps := rfl

section

variable {σ : Sessions} {srv : RTCServer} {i : Nat} {job : Job}

/-- The other streams do not notice. -/
theorem link_elsewhere (inv : StreamInv σ srv) (suspended : σ i = some (job, false)) {s : Bytes}
    (hs : s ≠ job.streamID) :
    (srv.link job).publisher s = srv.publisher s ∧ (srv.link job).players s = srv.players s ∧
      ∀ p, (srv.link job).publishes s p = srv.publishes s p := by
  have hlookup := inv.stream i job false suspended
  have hother : srv.sarsPeersStreamIDMaps.lookup s ≠ some job.scache :=
    fun h => hs (inv.injective _ _ _ h hlookup)
  obtain ⟨hlt, _, hunlinked⟩ := inv.peer i job false suspended
  refine ⟨?_, ?_, ?_⟩
  · simp only [RTCServer.publisher, link_streams]
    cases h : srv.sarsPeersStreamIDMaps.lookup s with
    | none => rfl
    | some c =>
      rw [Option.bind_some, Option.bind_some, link_cache_ne fun hc => hother (hc ▸ h)]
  · simp only [RTCServer.players, link_streams]
    cases h : srv.sarsPeersStreamIDMaps.lookup s with
    | none => rfl
    | some c => simp only [link_cache_ne fun hc => hother (hc ▸ h)]
  · intro p
    simp only [RTCServer.publishes, link_streams]
    by_cases hp : p = job.peer
    · subst hp
      rw [link_peer hlt, hunlinked]
      simp [Ne.symm hother]
    · simp only [link_peer_ne hp]

theorem link_publish (inv : StreamInv σ srv) (suspended : σ i = some (job, false))
    (hkind : job.kind = .publish) :
    (srv.link job).publisher job.streamID = some job.peer ∧
      (srv.link job).players job.streamID = srv.players job.streamID ∧
      (srv.link job).publishes job.streamID =
        Function.update (srv.publishes job.streamID) job.peer true := by
  have hlookup := inv.stream i job false suspended
  have hcache := link_cache (inv.streams _ _ hlookup)
  obtain ⟨hlt, hclass, _⟩ := inv.peer i job false suspended
  obtain ⟨_, hpublisher, hplayers⟩ := join_publish (srv.scaches.get job.scache) hkind
  refine ⟨?_, ?_, ?_⟩
  · simp only [RTCServer.publisher, link_streams, hlookup, Option.bind_some, hcache, hpublisher]
  · simp only [RTCServer.players, link_streams, hlookup, hcache, hplayers]
  · funext p
    by_cases hp : p = job.peer
    · subst hp
      rw [hkind] at hclass
      rw [Function.update_self]
      simp only [RTCServer.publishes, link_streams, link_peer hlt, hclass, hlookup]
      rfl
    · rw [Function.update_of_ne hp]
      simp only [RTCServer.publishes, link_streams, link_peer_ne hp]

theorem link_play (inv : StreamInv σ srv) (suspended : σ i = some (job, false))
    (hkind : job.kind = .play) :
    (srv.link job).publisher job.streamID = srv.publisher job.streamID ∧
      (srv.link job).players job.streamID = srv.players job.streamID ++ [job.peer] ∧
      ∀ p, (srv.link job).publishes job.streamID p = srv.publishes job.streamID p := by
  have hlookup := inv.stream i job false suspended
  have hcache := link_cache (inv.streams _ _ hlookup)
  obtain ⟨hlt, hclass, _⟩ := inv.peer i job false suspended
  obtain ⟨_, hpublisher⟩ := join_play (srv.scaches.get job.scache) hkind
  refine ⟨?_, ?_, ?_⟩
  · simp only [RTCServer.publisher, link_streams, hlookup, Option.bind_some, hcache, hpublisher]
  · simp only [RTCServer.players, link_streams, hlookup, hcache, Job.join, hkind,
      StreamCache.addPlayer]
  · intro p
    by_cases hp : p = job.peer
    · subst hp
      rw [hkind] at hclass
      simp [RTCServer.publishes, link_peer hlt, hclass, RequestKind.peerClass]
    · simp only [RTCServer.publishes, link_streams, link_peer_ne hp]

theorem players_nodup (inv : StreamInv σ srv) (s : Bytes) : (srv.players s).Nodup := by
  simp only [RTCServer.players]
  cases srv.sarsPeersStreamIDMaps.lookup s with
  | none => exact List.nodup_nil
  | some c => exact inv.nodup c

end

theorem room_finished {w w' : World} {i : Nat} {job : Job} (inv : StreamInv w.sessions w.server)
    (inv' : StreamInv w'.sessions w'.server) (suspended : w.sessions i = some (job, false))
    (linked : w'.server = w.server.link job)
    (sessions : w'.sessions = Function.update w.sessions i (some (job, true))) :
    w'.room = Function.update w.room job.streamID
      ((w.room job.streamID).enter job.peer job.kind.role) := by
  have hstream : ∀ p, w'.streamOf p = w.streamOf p := by
    intro p
    refine streamOf_congr inv inv' fun b _ => ?_
    rw [sessions]
    constructor
    · rintro ⟨j, done, hj⟩
      by_cases hji : j = i
      · subst hji
        rw [suspended] at hj
        cases hj
        exact ⟨j, true, by rw [Function.update_self]⟩
      · exact ⟨j, done, by rw [Function.update_of_ne hji, hj]⟩
    · rintro ⟨j, done, hj⟩
      obtain ⟨x, hx⟩ := StreamInv.finish_back suspended hj
      exact ⟨j, x, hx⟩
  have hlive : ∀ s, w'.live s = w.live s := by
    intro s
    funext p
    simp only [World.live, hstream, linked,
      link_field RtcPeer.peerconnectionState (fun _ => rfl)]
  funext s
  by_cases hs : s = job.streamID
  · subst hs
    rw [Function.update_self]
    cases hkind : job.kind with
    | publish =>
      obtain ⟨hpublisher, hplayers, hpublishes⟩ := link_publish inv suspended hkind
      rw [← linked] at hpublisher hplayers hpublishes
      refine Room.ext hpublishes hpublisher ?_ (hlive _)
      exact congrArg List.dedup hplayers
    | play =>
      obtain ⟨hpublisher, hplayers, hpublishes⟩ := link_play inv suspended hkind
      rw [← linked] at hpublisher hplayers hpublishes
      have hnodup := players_nodup inv' job.streamID
      rw [hplayers] at hnodup
      -- a suspended session is not yet in the list
      have hnew : job.peer ∉ (w.room job.streamID).viewers := by
        intro hmem
        exact (List.nodup_append.mp hnodup).2.2 _ (List.mem_dedup.mp hmem) _
          (List.mem_singleton_self _) rfl
      simp only [RequestKind.role, Room.enter, dif_neg hnew]
      refine Room.ext (funext hpublishes) hpublisher ?_ (hlive _)
      simp only [World.room, hplayers, hnodup.dedup,
        (players_nodup inv job.streamID).dedup]
  · obtain ⟨hpublisher, hplayers, hpublishes⟩ := link_elsewhere inv suspended hs
    rw [← linked] at hpublisher hplayers hpublishes
    rw [Function.update_of_ne hs]
    exact Room.ext (funext hpublishes) hpublisher (congrArg List.dedup hplayers) (hlive _)

end Sars
