import Sars.StreamInvariant

/-!
# What a rejected request leaves behind

A request that runs without others in between, from any reachable state. A play
of an unknown stream is turned away after its cache has been made, and a publish
whose write fails reports the failure after it has taken the stream; in all
other cases a request that returns an error has changed nothing.
-/

namespace Sars

open ByteMemory ObjectHeap GrowingMap EventRuns World

structure Unchanged (srv srv' : RTCServer) : Prop where
  streams : srv'.sarsPeersStreamIDMaps = srv.sarsPeersStreamIDMaps
  ufrags : srv'.sarsPeersUfragMaps = srv.sarsPeersUfragMaps
  addrs : srv'.sarsPeersAddrMaps = srv.sarsPeersAddrMaps
  scaches : ∀ c, srv'.scaches.get c = srv.scaches.get c

/-- Both halves of the request of handler `i`. -/
def request (w : World) (i : Nat) (offer streamUrl : Bytes) (engine : Engine) (ret : Int) :
    World :=
  after step w [.body i offer streamUrl engine, .written i ret]

/-- If the handler returns an error, the maps and the caches are as they were. -/
def RejectedUnchanged (w : World) (i : Nat) (offer streamUrl : Bytes) (engine : Engine)
    (ret : Int) : Prop :=
  ∀ code job, (request w i offer streamUrl engine ret).handlers[i]? = some (.returned code job) →
    code ≠ 0 → Unchanged w.server (request w i offer streamUrl engine ret).server

/-- The stream is taken already or the write succeeds; for a play, the stream is known. -/
def Harmless (srv : RTCServer) (streamID : Bytes) (ret : Int) : RequestKind → Prop
  | .publish => srv.canPublish streamID = false ∨ ret = 0
  | .play => srv.sarsPeersStreamIDMaps.lookup streamID ≠ none

theorem Unchanged.canPublish {srv srv' : RTCServer} (h : Unchanged srv srv') (streamID : Bytes) :
    srv'.canPublish streamID = srv.canPublish streamID := by
  simp only [RTCServer.canPublish, h.streams, h.scaches]

/-- Finding a cache changes nothing, and making one shows in the map of streams. -/
theorem Opened.unchanged_iff {streamID : Bytes} {srv srv' : RTCServer} {scache : Nat}
    (h : Opened streamID srv srv' scache) :
    Unchanged srv srv' ↔ srv.sarsPeersStreamIDMaps.lookup streamID ≠ none := by
  constructor
  · intro hsame hnone
    have hlookup := h.lookup
    rw [hsame.streams, hnone] at hlookup
    cases hlookup
  · intro hknown
    rcases h.cases with ⟨_, rfl⟩ | ⟨hnone, _, _⟩
    · exact { streams := rfl, ufrags := rfl, addrs := rfl, scaches := fun _ => rfl }
    · exact absurd hnone hknown

theorem known_of_taken {srv : RTCServer} {streamID : Bytes}
    (h : srv.canPublish streamID = false) :
    srv.sarsPeersStreamIDMaps.lookup streamID ≠ none := by
  intro hnone
  simp [RTCServer.canPublish, hnone] at h

/-! ## The two ways through a request -/

theorem request_rejected {w : World} {i : Nat} {kind : RequestKind} {offer streamUrl : Bytes}
    {engine : Engine} {srv : RTCServer} {code : Int} (running : w.status = .running)
    (reading : w.handlers[i]? = some (.reading kind))
    (body : Signalling.handleBody kind w.server offer streamUrl engine = .ret srv code)
    (ret : Int) :
    request w i offer streamUrl engine ret =
      { w with server := srv, handlers := w.handlers.set i (.returned code none) } := by
  have hlt : i < w.handlers.length := (List.getElem?_eq_some_iff.mp reading).1
  simp only [request, after_cons, after_nil, step_body running reading, World.stepBody, body]
  simp [World.step, hlt]

theorem request_passed {w : World} {i : Nat} {kind : RequestKind} {offer streamUrl answer : Bytes}
    {engine : Engine} {srv : RTCServer} {job : Job} (running : w.status = .running)
    (reading : w.handlers[i]? = some (.reading kind))
    (body : Signalling.handleBody kind w.server offer streamUrl engine = .write srv job answer)
    (ret : Int) :
    (request w i offer streamUrl engine ret).server = srv.link job ∧
      (request w i offer streamUrl engine ret).handlers[i]? =
        some (.returned (Signalling.handleWritten srv job ret).2.2 (some job)) := by
  have hlt : i < w.handlers.length := (List.getElem?_eq_some_iff.mp reading).1
  have hwriting : (w.handlers.set i (.writing job))[i]? = some (.writing job) := by simp [hlt]
  have hnext :=
    step_written (w := { w with server := srv, handlers := w.handlers.set i (.writing job) })
      running hwriting ret
  simp only [request, after_cons, after_nil, step_body running reading, World.stepBody, body]
  rw [hnext]
  simp [World.stepWritten, handleWritten_link, hlt]

/-! ## When a rejection is clean -/

theorem rejected_unchanged_iff (es : List Event) (i : Nat) (kind : RequestKind)
    (offer streamUrl streamID : Bytes) (engine : Engine) (ret : Int)
    (running : (after step start es).status = .running)
    (reading : (after step start es).handlers[i]? = some (.reading kind))
    (hasId : getStreamIdFromStreamUrl streamUrl = some streamID) :
    RejectedUnchanged (after step start es) i offer streamUrl engine ret ↔
      Harmless (after step start es).server streamID ret kind := by
  have inv := streamInv_after es
  generalize after step start es = w at *
  rcases handleBody_cases kind w.server offer streamUrl engine with ⟨hnone, _⟩ |
    ⟨id, srv, scache, hid, hopened, ⟨hcan, hret⟩ | ⟨hcan, srv', answer, hcreated, hwrite⟩⟩
  · rw [hasId] at hnone
    cases hnone
  · -- turned away with -15
    rw [hasId] at hid
    cases hid
    have hend := request_rejected running reading hret ret
    have hlt : i < w.handlers.length := (List.getElem?_eq_some_iff.mp reading).1
    have hiff : RejectedUnchanged w i offer streamUrl engine ret ↔ Unchanged w.server srv := by
      simp only [RejectedUnchanged]
      rw [hend]
      constructor
      · intro h
        exact h (-15) none (by simp [hlt]) (by decide)
      · intro h _ _ _ _
        exact h
    rw [hiff, hopened.unchanged_iff]
    rw [hopened.canPublish] at hcan
    cases kind with
    | publish =>
      have htaken : w.server.canPublish streamID = false := by simpa [RequestKind.wants] using hcan
      exact ⟨fun _ => Or.inl htaken, fun _ => known_of_taken htaken⟩
    | play => exact Iff.rfl
  · -- through the check, to the end
    rw [hasId] at hid
    cases hid
    obtain ⟨hserver, hhandler⟩ := request_passed running reading hwrite ret
    rw [hopened.canPublish] at hcan
    simp only [RejectedUnchanged]
    rw [hserver, hhandler]
    cases kind with
    | publish =>
      have hfree : w.server.canPublish streamID = true := hcan
      constructor
      · intro h
        by_contra hharm
        have hfails : ret ≠ 0 := fun hzero => hharm (Or.inr hzero)
        have hsame := h ret _ rfl hfails
        have hsize : scache < srv'.scaches.size := by
          rw [hcreated.scaches]
          exact (inv.opened hopened).streams _ _ hopened.lookup
        have htaken : (srv'.link { kind := .publish, streamID := streamID, scache := scache
                                   peer := srv.peers.size }).canPublish streamID = false := by
          have hlookup : srv'.sarsPeersStreamIDMaps.lookup streamID = some scache := by
            rw [hcreated.streams]
            exact hopened.lookup
          simp only [RTCServer.canPublish, RTCServer.link, RTCServer.updatePeer,
            RTCServer.updateCache, hlookup]
          rw [Heap.get_modify_self _ hsize]
          rfl
        rw [hsame.canPublish, hfree] at htaken
        cases htaken
      · rintro (htaken | hzero)
        · rw [hfree] at htaken
          cases htaken
        · intro code job hcode hne
          cases hcode
          exact absurd hzero hne
    | play =>
      have htaken : w.server.canPublish streamID = false := hcan
      constructor
      · exact fun _ => known_of_taken htaken
      · intro _ code job hcode hne
        cases hcode
        exact absurd rfl hne

/-! ### A play of an unknown stream -/

theorem rejected_unchanged_iff_taken :
    RejectedUnchanged (after step start
      (served 0 .publish [0x2F, 0x73] [0x61] ++ [.accept .publish]))
      1 (sdpOf [0x62]) [0x2F, 0x73] (engineOf [0x63]) 0 :=
  (rejected_unchanged_iff _ 1 .publish _ _ [0x73] _ _ (by decide +kernel) (by decide +kernel)
    (by decide +kernel)).mpr (Or.inl (by decide +kernel))

/-- A play of "s" before anyone has published it returns -15 and leaves a cache. -/
theorem rejected_play_changes :
    ¬ ∀ (es : List Event) (i : Nat) (kind : RequestKind) (offer streamUrl streamID : Bytes)
        (engine : Engine) (ret : Int), (after step start es).status = .running →
      (after step start es).handlers[i]? = some (.reading kind) →
      getStreamIdFromStreamUrl streamUrl = some streamID →
      RejectedUnchanged (after step start es) i offer streamUrl engine ret := by
  intro h
  have hrejected := h [.accept .play] 0 .play (sdpOf [0x62]) [0x2F, 0x73] [0x73]
    (engineOf [0x61]) 0 rfl rfl (by decide +kernel)
  have hsame := (hrejected (-15) none (by decide +kernel) (by decide)).streams
  have hlookup := congrArg (fun m => m.lookup [0x73]) hsame
  exact absurd hlookup (by decide +kernel)

end Sars
