import Sars.PeerCallbacks

/-!
# The payload types a peer stamps on media

A callback for a local track goes through the codec map and takes the first
entry of the wanted codec, unless a payload type was taken before; then it
replaces the map. So the payload type is the choice of the first map that had
one, and it belongs to the last map only if that map repeats it. Video and audio
do the same with H264 and Opus.
-/

namespace Sars

open ObjectHeap

/-! ## One medium -/

section

variable {Codec : Type} (payloadType : Codec → UInt32) (wanted : Codec → Prop)
  [DecidablePred wanted]

/-- The loop over the map, guarded by the payload type it sets. -/
def choose (pt : UInt32) (m : CodecInfoMap Codec) : UInt32 :=
  m.entries.foldl (fun pt e => if pt = 0 ∧ wanted e.2 then payloadType e.2 else pt) pt

/-- The payload type of the first entry of the wanted codec. -/
def firstWanted (m : CodecInfoMap Codec) : Option UInt32 :=
  (m.entries.find? fun e => wanted e.2).map fun e => payloadType e.2

def Nonzero (m : CodecInfoMap Codec) : Prop := ∀ e ∈ m.entries, payloadType e.2 ≠ 0

/-- An entry of the wanted codec in the map has this payload type. -/
def Offers (m : CodecInfoMap Codec) (pt : UInt32) : Prop :=
  ∃ e ∈ m.entries, wanted e.2 ∧ payloadType e.2 = pt

/-- The payload type is set when the map has the codec, and is one of the map's. -/
structure Stamped (pt : UInt32) (m : CodecInfoMap Codec) : Prop where
  set : (∃ e ∈ m.entries, wanted e.2) → pt ≠ 0
  offered : pt ≠ 0 → Offers payloadType wanted m pt

/-- The map a history leaves behind. -/
def lastMap (ms : List (CodecInfoMap Codec)) : CodecInfoMap Codec := ms.getLast?.getD .empty

/-- No map has the codec, or the last one repeats the choice of the first that has it. -/
def Repeated (ms : List (CodecInfoMap Codec)) : Prop :=
  (∀ m ∈ ms, firstWanted payloadType wanted m = none) ∨
    ∃ pt, (ms.filterMap (firstWanted payloadType wanted)).head? = some pt ∧
      Offers payloadType wanted (lastMap ms) pt

variable {payloadType wanted}

theorem choose_set {pt : UInt32} (h : pt ≠ 0) (m : CodecInfoMap Codec) :
    choose payloadType wanted pt m = pt := by
  simp only [choose]
  induction m.entries with
  | nil => rfl
  | cons e es ih => rw [List.foldl_cons, if_neg fun hboth => h hboth.1, ih]

theorem choose_zero {m : CodecInfoMap Codec} (nonzero : Nonzero payloadType m) :
    choose payloadType wanted 0 m = (firstWanted payloadType wanted m).getD 0 := by
  obtain ⟨entries, sorted⟩ := m
  simp only [choose, firstWanted]
  unfold Nonzero at nonzero
  dsimp only at nonzero ⊢
  induction entries with
  | nil => rfl
  | cons e es ih =>
    obtain ⟨hzero, hrest⟩ := List.forall_mem_cons.mp nonzero
    by_cases hwanted : wanted e.2
    · have hkeep : choose payloadType wanted (payloadType e.2)
          ⟨es, (List.pairwise_cons.mp sorted).2⟩ = payloadType e.2 := choose_set hzero _
      rw [List.foldl_cons, if_pos ⟨rfl, hwanted⟩, List.find?_cons_of_pos (by simpa using hwanted)]
      exact hkeep
    · rw [List.foldl_cons, if_neg fun hboth => hwanted hboth.2,
        List.find?_cons_of_neg (by simpa using hwanted)]
      exact ih (List.pairwise_cons.mp sorted).2 hrest

theorem firstWanted_offers {m : CodecInfoMap Codec} {pt : UInt32}
    (h : firstWanted payloadType wanted m = some pt) : Offers payloadType wanted m pt := by
  obtain ⟨e, hfind, rfl⟩ := Option.map_eq_some_iff.mp h
  exact ⟨e, List.mem_of_find?_eq_some hfind, by simpa using List.find?_some hfind, rfl⟩

theorem firstWanted_none {m : CodecInfoMap Codec} :
    firstWanted payloadType wanted m = none ↔ ¬ ∃ e ∈ m.entries, wanted e.2 := by
  simp [firstWanted]

/-- The first choice stays. -/
theorem choose_all {ms : List (CodecInfoMap Codec)}
    (nonzero : ∀ m ∈ ms, Nonzero payloadType m) :
    ms.foldl (choose payloadType wanted) 0 =
      ((ms.filterMap (firstWanted payloadType wanted)).head?).getD 0 := by
  have stays : ∀ (pt : UInt32), pt ≠ 0 → ∀ ms : List (CodecInfoMap Codec),
      ms.foldl (choose payloadType wanted) pt = pt := by
    intro pt hpt ms
    induction ms with
    | nil => rfl
    | cons m ms ih => rw [List.foldl_cons, choose_set hpt, ih]
  induction ms with
  | nil => rfl
  | cons m ms ih =>
    obtain ⟨hm, hrest⟩ := List.forall_mem_cons.mp nonzero
    rw [List.foldl_cons, choose_zero hm]
    cases hfirst : firstWanted payloadType wanted m with
    | none => rw [List.filterMap_cons_none hfirst, Option.getD_none, ih hrest]
    | some pt =>
      obtain ⟨e, he, _, rfl⟩ := firstWanted_offers hfirst
      rw [List.filterMap_cons_some hfirst, Option.getD_some, stays _ (hm e he)]
      rfl

theorem lastMap_mem {ms : List (CodecInfoMap Codec)} (h : ms ≠ []) : lastMap ms ∈ ms := by
  rw [lastMap, List.getLast?_eq_some_getLast h]
  exact List.getLast_mem h

theorem stamped_iff {ms : List (CodecInfoMap Codec)}
    (nonzero : ∀ m ∈ ms, Nonzero payloadType m) :
    Stamped payloadType wanted (ms.foldl (choose payloadType wanted) 0) (lastMap ms) ↔
      Repeated payloadType wanted ms := by
  rw [choose_all nonzero]
  cases hhead : (ms.filterMap (firstWanted payloadType wanted)).head? with
  | none =>
    have hnone : ∀ m ∈ ms, firstWanted payloadType wanted m = none := by
      rw [List.head?_eq_none_iff, List.filterMap_eq_nil_iff] at hhead
      exact hhead
    refine iff_of_true { set := ?_, offered := fun h => absurd rfl h } (Or.inl hnone)
    intro hentry
    by_cases hempty : ms = []
    · subst hempty
      obtain ⟨e, he, _⟩ := hentry
      cases he
    · exact absurd hentry (firstWanted_none.mp (hnone _ (lastMap_mem hempty)))
  | some pt =>
    have hsome : ∃ m ∈ ms, firstWanted payloadType wanted m = some pt :=
      List.mem_filterMap.mp (List.mem_of_mem_head? hhead)
    obtain ⟨m, hm, hfirst⟩ := hsome
    have hpt : pt ≠ 0 := by
      obtain ⟨e, he, _, rfl⟩ := firstWanted_offers hfirst
      exact nonzero m hm e he
    rw [Option.getD_some]
    constructor
    · intro hstamped
      exact Or.inr ⟨pt, hhead, hstamped.offered hpt⟩
    · rintro (hnone | ⟨pt', hhead', hoffers⟩)
      · rw [hnone m hm] at hfirst
        cases hfirst
      · rw [hhead] at hhead'
        cases hhead'
        exact { set := fun _ => hpt, offered := fun _ => hoffers }

end

/-! ## Both media of a peer -/

def IsH264 (codec : VideoCodeInfo) : Prop := codec.codecType = .kVideoCodeH264

def IsOpus (codec : AudioCodeInfo) : Prop := codec.codecType = .kAudioCodecOpus

instance : DecidablePred IsH264 := fun codec =>
  inferInstanceAs (Decidable (codec.codecType = .kVideoCodeH264))

instance : DecidablePred IsOpus := fun codec =>
  inferInstanceAs (Decidable (codec.codecType = .kAudioCodecOpus))

inductive TrackAdded where
  | video (ssrc : UInt32) (codecInfoMap : CodecInfoMap VideoCodeInfo)
  | audio (ssrc : UInt32) (codecInfoMap : CodecInfoMap AudioCodeInfo)

namespace TrackAdded

def callback : TrackAdded → RTCServer.Callback
  | video ssrc codecInfoMap => .onAddLocalVideoTrack ssrc codecInfoMap
  | audio ssrc codecInfoMap => .onAddLocalAudioTrack ssrc codecInfoMap

def videoMap : TrackAdded → Option (CodecInfoMap VideoCodeInfo)
  | video _ codecInfoMap => some codecInfoMap
  | audio _ _ => none

def audioMap : TrackAdded → Option (CodecInfoMap AudioCodeInfo)
  | video _ _ => none
  | audio _ codecInfoMap => some codecInfoMap

/-- All payload types of the map are usable. -/
def Nonzero : TrackAdded → Prop
  | video _ codecInfoMap => Sars.Nonzero VideoCodeInfo.payloadType codecInfoMap
  | audio _ codecInfoMap => Sars.Nonzero AudioCodeInfo.payloadType codecInfoMap

end TrackAdded

def RtcPeer.addTrack (p : RtcPeer) : TrackAdded → RtcPeer
  | .video ssrc codecInfoMap => p.onAddLocalVideoTrack ssrc codecInfoMap
  | .audio ssrc codecInfoMap => p.onAddLocalAudioTrack ssrc codecInfoMap

theorem callback_addTrack {srv srv' : RTCServer} {id : Nat} {out : List Output} (c : TrackAdded)
    (hid : id < srv.peers.size) (h : srv.callback id c.callback = some (srv', out)) :
    srv'.peers.get id = (srv.peers.get id).addTrack c := by
  cases c with
  | video ssrc codecInfoMap =>
    cases h
    exact Heap.get_modify_self (fun p : RtcPeer => p.onAddLocalVideoTrack ssrc codecInfoMap) hid
  | audio ssrc codecInfoMap =>
    cases h
    exact Heap.get_modify_self (fun p : RtcPeer => p.onAddLocalAudioTrack ssrc codecInfoMap) hid

/-- Each medium sees its own maps and nothing of the other. -/
structure TracksAdded (p : RtcPeer) (cs : List TrackAdded) (q : RtcPeer) : Prop where
  videoPayloadtype : q.localVideoPayloadtype = (cs.filterMap TrackAdded.videoMap).foldl
    (choose VideoCodeInfo.payloadType IsH264) p.localVideoPayloadtype
  audioPayloadtype : q.localAudioPayloadtype = (cs.filterMap TrackAdded.audioMap).foldl
    (choose AudioCodeInfo.payloadType IsOpus) p.localAudioPayloadtype
  videoMap : q.localVideoCodecInfoMap =
    (cs.filterMap TrackAdded.videoMap).getLast?.getD p.localVideoCodecInfoMap
  audioMap : q.localAudioCodecInfoMap =
    (cs.filterMap TrackAdded.audioMap).getLast?.getD p.localAudioCodecInfoMap

theorem getLast_getD_cons {α : Type} (a d : α) (as : List α) :
    (a :: as).getLast?.getD d = as.getLast?.getD a := by
  rw [List.getLast?_cons]
  rfl

theorem tracksAdded_all (p : RtcPeer) (cs : List TrackAdded) :
    TracksAdded p cs (cs.foldl RtcPeer.addTrack p) := by
  induction cs generalizing p with
  | nil => constructor <;> rfl
  | cons c cs ih =>
    have hrest := ih (p.addTrack c)
    rw [List.foldl_cons]
    cases c with
    | video ssrc codecInfoMap =>
      constructor
      · exact hrest.videoPayloadtype
      · exact hrest.audioPayloadtype
      · exact hrest.videoMap.trans (getLast_getD_cons _ _ _).symm
      · exact hrest.audioMap
    | audio ssrc codecInfoMap =>
      constructor
      · exact hrest.videoPayloadtype
      · exact hrest.audioPayloadtype
      · exact hrest.videoMap
      · exact hrest.audioMap.trans (getLast_getD_cons _ _ _).symm

/-- A peer that no track has been added to. -/
structure FreshTracks (p : RtcPeer) : Prop where
  videoPayloadtype : p.localVideoPayloadtype = 0
  audioPayloadtype : p.localAudioPayloadtype = 0
  videoMap : p.localVideoCodecInfoMap = .empty
  audioMap : p.localAudioCodecInfoMap = .empty

/-- Both payload types are those of the current maps. -/
structure StampedPeer (p : RtcPeer) : Prop where
  video : Stamped VideoCodeInfo.payloadType IsH264 p.localVideoPayloadtype p.localVideoCodecInfoMap
  audio : Stamped AudioCodeInfo.payloadType IsOpus p.localAudioPayloadtype p.localAudioCodecInfoMap

theorem stampedPeer_iff {p q : RtcPeer} {cs : List TrackAdded} (hfresh : FreshTracks p)
    (nonzero : ∀ c ∈ cs, c.Nonzero) (h : TracksAdded p cs q) :
    StampedPeer q ↔
      Repeated VideoCodeInfo.payloadType IsH264 (cs.filterMap TrackAdded.videoMap) ∧
        Repeated AudioCodeInfo.payloadType IsOpus (cs.filterMap TrackAdded.audioMap) := by
  have hvideo : ∀ m ∈ cs.filterMap TrackAdded.videoMap, Nonzero VideoCodeInfo.payloadType m := by
    rw [List.forall_mem_filterMap]
    rintro (⟨ssrc, codecInfoMap⟩ | ⟨ssrc, codecInfoMap⟩) hc m hmap <;> cases hmap
    exact nonzero _ hc
  have haudio : ∀ m ∈ cs.filterMap TrackAdded.audioMap, Nonzero AudioCodeInfo.payloadType m := by
    rw [List.forall_mem_filterMap]
    rintro (⟨ssrc, codecInfoMap⟩ | ⟨ssrc, codecInfoMap⟩) hc m hmap <;> cases hmap
    exact nonzero _ hc
  have hv := h.videoPayloadtype
  have ha := h.audioPayloadtype
  have hvm := h.videoMap
  have ham := h.audioMap
  rw [hfresh.videoPayloadtype] at hv
  rw [hfresh.audioPayloadtype] at ha
  rw [hfresh.videoMap] at hvm
  rw [hfresh.audioMap] at ham
  -- the peer's fields are the folds and last maps that each medium is settled for
  rw [← stamped_iff hvideo, ← stamped_iff haudio, lastMap, lastMap, ← hv, ← ha, ← hvm, ← ham]
  constructor
  · exact fun hboth => ⟨hboth.video, hboth.audio⟩
  · exact fun hboth => { video := hboth.1, audio := hboth.2 }

/-- The payload type of the peer's own medium, for the two media it stamps. -/
def RtcPeer.stamp (p : RtcPeer) : MediaType → Option UInt32
  | .kMediaVideo => some p.localVideoPayloadtype
  | .kMediaAudio => some p.localAudioPayloadtype
  | .other _ => none

/-- Each frame carries the payload type of the player it is fed to. -/
theorem cacheMediaLoop_stamp {srv : RTCServer} {media frame : MediaData} {q : Nat} {pt : UInt32}
    {players : List Nat} {ssrc payloadType : UInt32} {out : List Output}
    (hstamp : (srv.peers.get q).stamp media.mediaType = some pt)
    (h : srv.cacheMediaLoop media players ssrc payloadType = some out)
    (hframe : Output.feedMediaData q frame ∈ out) : frame.payloadType = pt := by
  induction players generalizing ssrc payloadType out with
  | nil =>
    cases h
    cases hframe
  | cons it players ih =>
    simp only [RTCServer.cacheMediaLoop] at h
    split_ifs at h with hstate hconn
    · exact ih h hframe
    · obtain ⟨fed, hfed, hout⟩ := Option.bind_eq_some_iff.mp h
      cases hout
      rcases List.mem_cons.mp hframe with hfirst | hrest
      · cases hfirst
        cases htype : media.mediaType with
        | kMediaVideo =>
          rw [htype] at hstamp
          exact Option.some.inj hstamp
        | kMediaAudio =>
          rw [htype] at hstamp
          exact Option.some.inj hstamp
        | other code =>
          rw [htype] at hstamp
          cases hstamp
      · exact ih hfed hrest

/-- After any history of added tracks, the stamped payload types are those of the current maps
exactly if each medium's last map repeats its first choice; they are what every frame fed to
the peer carries. -/
theorem localPayloadtype_history (srv srv' : RTCServer) (id : Nat) (cs : List TrackAdded)
    (hid : id < srv.peers.size) (hfresh : FreshTracks (srv.peers.get id))
    (nonzero : ∀ c ∈ cs, c.Nonzero)
    (hrun : callbacks srv id (cs.map TrackAdded.callback) = some srv') :
    (StampedPeer (srv'.peers.get id) ↔
      Repeated VideoCodeInfo.payloadType IsH264 (cs.filterMap TrackAdded.videoMap) ∧
        Repeated AudioCodeInfo.payloadType IsOpus (cs.filterMap TrackAdded.audioMap)) ∧
    ∀ scache media out frame pt, srv'.cacheMedia scache media = some out →
      (srv'.peers.get id).stamp media.mediaType = some pt →
      Output.feedMediaData id frame ∈ out → frame.payloadType = pt := by
  constructor
  · rw [callbacks_peer TrackAdded.callback RtcPeer.addTrack callback_addTrack cs hid hrun]
    exact stampedPeer_iff hfresh nonzero (tracksAdded_all _ cs)
  · intro scache media out frame pt hcache hstamp
    exact cacheMediaLoop_stamp hstamp hcache

/-- A map with one H264 entry. -/
def h264Map (payloadType : UInt32) : CodecInfoMap VideoCodeInfo :=
  { entries := [(payloadType, { payloadType := payloadType, codecType := .kVideoCodeH264 })]
    sorted := List.pairwise_singleton _ _ }

theorem h264Map_nonzero {pt : UInt32} (h : pt ≠ 0) (ssrc : UInt32) :
    TrackAdded.Nonzero (.video ssrc (h264Map pt)) :=
  List.forall_mem_singleton.mpr h

theorem localPayloadtype_history_once :
    StampedPeer (((callbacks (onePeer .player) 0
      ([.video 1 (h264Map 96)].map TrackAdded.callback)).getD {}).peers.get 0) := by
  refine (localPayloadtype_history (onePeer .player) _ 0 [.video 1 (h264Map 96)] (by decide)
    ⟨rfl, rfl, rfl, rfl⟩ ?_ rfl).1.mpr ⟨?_, ?_⟩
  · exact List.forall_mem_singleton.mpr (h264Map_nonzero (by decide) 1)
  · exact Or.inr ⟨96, rfl, _, List.mem_singleton.mpr rfl, rfl, rfl⟩
  · exact Or.inl (List.forall_mem_nil _)

/-- A renegotiation that moves H264 from 96 to 97 leaves 96 stamped. -/
theorem renegotiated_payload_type :
    ¬ ∀ (srv srv' : RTCServer) (id : Nat) (cs : List TrackAdded), id < srv.peers.size →
      FreshTracks (srv.peers.get id) → (∀ c ∈ cs, c.Nonzero) →
      callbacks srv id (cs.map TrackAdded.callback) = some srv' →
      StampedPeer (srv'.peers.get id) := by
  intro h
  have hstamped := h (onePeer .player) _ 0 [.video 1 (h264Map 96), .video 1 (h264Map 97)]
    (by decide) ⟨rfl, rfl, rfl, rfl⟩
    (List.forall_mem_cons.mpr ⟨h264Map_nonzero (by decide) 1,
      List.forall_mem_singleton.mpr (h264Map_nonzero (by decide) 1)⟩) rfl
  obtain ⟨e, he, _, hpt⟩ := hstamped.video.offered (by decide)
  rw [List.mem_singleton.mp he] at hpt
  exact absurd hpt (by decide)

end Sars
