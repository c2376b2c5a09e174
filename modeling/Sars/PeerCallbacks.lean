import Sars.WorldSteps

/-!
# What a peer makes of its callbacks

Histories of callbacks of one peer, dispatched as the engine dispatches them.
The break flags are sticky and set in two callbacks, of which a player overrides
one and leaves the flag out. What a whole history leaves behind is a fold of
what one callback does to the peer.
-/

namespace Sars

open ObjectHeap

/-- A history of callbacks of one peer, as far as none of them takes the process down. -/
def callbacks (srv : RTCServer) (id : Nat) (cbs : List RTCServer.Callback) : Option RTCServer :=
  cbs.foldlM (fun srv cb => (srv.callback id cb).map Prod.fst) srv

/-- A history of one kind of callbacks changes the peer as each of them does. -/
theorem callbacks_peer {γ : Type} (callback : γ → RTCServer.Callback)
    (change : RtcPeer → γ → RtcPeer) {id : Nat}
    (one : ∀ {srv srv' : RTCServer} {out : List Output} (c : γ), id < srv.peers.size →
      srv.callback id (callback c) = some (srv', out) →
      srv'.peers.get id = change (srv.peers.get id) c)
    {srv srv' : RTCServer} (cs : List γ) (hid : id < srv.peers.size)
    (h : callbacks srv id (cs.map callback) = some srv') :
    srv'.peers.get id = cs.foldl change (srv.peers.get id) := by
  induction cs generalizing srv with
  | nil =>
    cases h
    rfl
  | cons c cs ih =>
    rw [List.map_cons, callbacks, List.foldlM_cons] at h
    obtain ⟨mid, hmid, hrest⟩ := Option.bind_eq_some_iff.mp h
    obtain ⟨⟨mid', out⟩, hstep, rfl⟩ := Option.map_eq_some_iff.mp hmid
    have hsize : id < mid'.peers.size := by
      rw [(callback_framed hstep).size]
      exact hid
    rw [ih hsize hrest, one c hid hstep, List.foldl_cons]

/-! ## State changes -/

inductive StateChange where
  | ice (newState : IceConnectionState)
  | connection (newState : PeerConnectionState)

namespace StateChange

def callback : StateChange → RTCServer.Callback
  | ice newState => .onIceConnectionChange newState
  | connection newState => .onConnectionChange newState

/-- An ICE connection that failed or was closed. -/
def iceBroken : StateChange → Bool
  | ice newState => newState = .kIceConnectionFailed ∨ newState = .kIceConnectionClosed
  | connection _ => false

/-- A connection that was lost, failed or was closed. -/
def peerBroken : StateChange → Bool
  | ice _ => false
  | connection newState =>
    newState = .kDisconnected ∨ newState = .kFailed ∨ newState = .kClosed

def reported : StateChange → Option PeerConnectionState
  | ice _ => none
  | connection newState => some newState

end StateChange

/-- The last connection state that was reported. -/
def lastReported (cs : List StateChange) : PeerConnectionState :=
  (cs.filterMap StateChange.reported).getLast?.getD .kNew

/-- The callback of the peer's own class; a player's leaves the flag alone. -/
def RtcPeer.change (p : RtcPeer) : StateChange → RtcPeer
  | .ice newState => p.onIceConnectionChange newState
  | .connection newState =>
    match p.peerClass with
    | .publisher => p.onConnectionChange newState
    | .player => { p with peerconnectionState := newState }

theorem RtcPeer.change_publisher {p : RtcPeer} (h : p.peerClass = .publisher)
    (newState : PeerConnectionState) :
    p.change (.connection newState) = p.onConnectionChange newState := by
  simp only [change, h]

theorem RtcPeer.change_player {p : RtcPeer} (h : p.peerClass = .player)
    (newState : PeerConnectionState) :
    p.change (.connection newState) = { p with peerconnectionState := newState } := by
  simp only [change]
  rw [h]

theorem callback_change {srv srv' : RTCServer} {id : Nat} {out : List Output} (c : StateChange)
    (hid : id < srv.peers.size) (h : srv.callback id c.callback = some (srv', out)) :
    srv'.peers.get id = (srv.peers.get id).change c := by
  have update : ∀ (srv : RTCServer) (f : RtcPeer → RtcPeer), id < srv.peers.size →
      (srv.updatePeer id f).peers.get id = f (srv.peers.get id) :=
    fun srv f hid => Heap.get_modify_self f hid
  cases c with
  | ice newState =>
    cases h
    exact update srv _ hid
  | connection newState =>
    simp only [StateChange.callback, RTCServer.callback] at h
    cases hclass : (srv.peers.get id).peerClass with
    | publisher =>
      rw [hclass] at h
      cases h
      rw [RtcPeer.change_publisher hclass]
      exact update srv _ hid
    | player =>
      rw [hclass] at h
      simp only at h
      rw [RtcPeer.change_player hclass]
      by_cases hconnected : newState = .kConnected
      · rw [if_pos hconnected] at h
        obtain ⟨_, _, hpair⟩ := Option.map_eq_some_iff.mp h
        cases hpair
        exact update srv (fun peer => { peer with peerconnectionState := newState }) hid
      · rw [if_neg hconnected] at h
        cases h
        exact update srv (fun peer => { peer with peerconnectionState := newState }) hid

/-- Every field that a history of state changes concerns. -/
structure Changed (p : RtcPeer) (cs : List StateChange) (q : RtcPeer) : Prop where
  class_eq : q.peerClass = p.peerClass
  ice : q.isIceBreak = (p.isIceBreak || cs.any StateChange.iceBroken)
  peer : q.isPeerBreak =
    (p.isPeerBreak || (decide (p.peerClass = .publisher) && cs.any StateChange.peerBroken))
  state : q.peerconnectionState =
    (cs.filterMap StateChange.reported).getLast?.getD p.peerconnectionState

theorem changed_one (p : RtcPeer) (c : StateChange) : Changed p [c] (p.change c) := by
  cases c with
  | ice newState =>
    by_cases hbroken : newState = .kIceConnectionFailed ∨ newState = .kIceConnectionClosed
    · constructor <;> simp [RtcPeer.change, RtcPeer.onIceConnectionChange, hbroken,
        StateChange.iceBroken, StateChange.peerBroken, StateChange.reported]
    · constructor <;> simp [RtcPeer.change, RtcPeer.onIceConnectionChange, hbroken,
        StateChange.iceBroken, StateChange.peerBroken, StateChange.reported]
  | connection newState =>
    cases hclass : p.peerClass with
    | publisher =>
      rw [RtcPeer.change_publisher hclass]
      by_cases hbroken : newState = .kDisconnected ∨ newState = .kFailed ∨ newState = .kClosed
      · constructor <;> simp [RtcPeer.onConnectionChange, hclass, hbroken,
          StateChange.iceBroken, StateChange.peerBroken, StateChange.reported]
      · constructor <;> simp [RtcPeer.onConnectionChange, hclass, hbroken,
          StateChange.iceBroken, StateChange.peerBroken, StateChange.reported]
    | player =>
      rw [RtcPeer.change_player hclass]
      constructor <;> simp [hclass, StateChange.iceBroken, StateChange.reported]

theorem changed_all (p : RtcPeer) (cs : List StateChange) :
    Changed p cs (cs.foldl RtcPeer.change p) := by
  induction cs generalizing p with
  | nil => constructor <;> simp
  | cons c cs ih =>
    have hone := changed_one p c
    have hrest := ih (p.change c)
    rw [List.foldl_cons]
    constructor
    · rw [hrest.class_eq, hone.class_eq]
    · rw [hrest.ice, hone.ice]
      simp [Bool.or_assoc]
    · rw [hrest.peer, hone.peer, hone.class_eq]
      simp [Bool.or_assoc, Bool.and_or_distrib_left]
    · have hsplit : (c :: cs).filterMap StateChange.reported =
          [c].filterMap StateChange.reported ++ cs.filterMap StateChange.reported := by
        rw [← List.filterMap_append, List.singleton_append]
      rw [hrest.state, hone.state, hsplit, List.getLast?_append]
      cases (cs.filterMap StateChange.reported).getLast? <;> rfl

/-- A peer that no callback has reached yet. -/
structure FreshState (p : RtcPeer) : Prop where
  ice : p.isIceBreak = false
  peer : p.isPeerBreak = false
  state : p.peerconnectionState = .kNew

/-- The time-out test tells whether something broke, and the state is the last one reported. -/
structure SeenBroken (p : RtcPeer) (cs : List StateChange) : Prop where
  timeOut : p.isPeerTimeOut = true ↔ ∃ c ∈ cs, c.iceBroken = true ∨ c.peerBroken = true
  state : p.peerconnectionState = lastReported cs

theorem seenBroken_iff {p q : RtcPeer} {cs : List StateChange} (hfresh : FreshState p)
    (h : Changed p cs q) :
    SeenBroken q cs ↔ p.peerClass = .publisher ∨ (∃ c ∈ cs, c.iceBroken = true) ∨
      ¬ ∃ c ∈ cs, c.peerBroken = true := by
  have hstate : q.peerconnectionState = lastReported cs := by
    rw [h.state, hfresh.state]
    rfl
  have htimeOut : q.isPeerTimeOut = true ↔ (∃ c ∈ cs, c.iceBroken = true) ∨
      (p.peerClass = .publisher ∧ ∃ c ∈ cs, c.peerBroken = true) := by
    rw [RtcPeer.isPeerTimeOut, h.ice, h.peer, hfresh.ice, hfresh.peer]
    simp
  have hboth : (∃ c ∈ cs, c.iceBroken = true ∨ c.peerBroken = true) ↔
      (∃ c ∈ cs, c.iceBroken = true) ∨ ∃ c ∈ cs, c.peerBroken = true := by
    constructor
    · rintro ⟨c, hc, hice | hpeer⟩
      · exact Or.inl ⟨c, hc, hice⟩
      · exact Or.inr ⟨c, hc, hpeer⟩
    · rintro (⟨c, hc, hice⟩ | ⟨c, hc, hpeer⟩)
      · exact ⟨c, hc, Or.inl hice⟩
      · exact ⟨c, hc, Or.inr hpeer⟩
  constructor
  · intro hseen
    have hiff := hseen.timeOut
    rw [htimeOut, hboth] at hiff
    by_contra hnone
    obtain ⟨hplayer, hrest⟩ := not_or.mp hnone
    obtain ⟨hice, hpeer⟩ := not_or.mp hrest
    rcases hiff.mpr (Or.inr (not_not.mp hpeer)) with hbroken | ⟨hclass, _⟩
    · exact hice hbroken
    · exact hplayer hclass
  · intro hcond
    refine { timeOut := ?_, state := hstate }
    rw [htimeOut, hboth]
    constructor
    · rintro (hice | ⟨_, hpeer⟩)
      · exact Or.inl hice
      · exact Or.inr hpeer
    · rintro (hice | hpeer)
      · exact Or.inl hice
      · rcases hcond with hclass | hice | hno
        · exact Or.inr ⟨hclass, hpeer⟩
        · exact Or.inl hice
        · exact absurd hpeer hno

/-- Over a whole history, a player is the one whose lost connection goes unseen, unless its
ICE connection broke as well. -/
theorem isPeerTimeOut_history (srv srv' : RTCServer) (id : Nat) (cs : List StateChange)
    (hid : id < srv.peers.size) (hfresh : FreshState (srv.peers.get id))
    (hrun : callbacks srv id (cs.map StateChange.callback) = some srv') :
    SeenBroken (srv'.peers.get id) cs ↔
      (srv.peers.get id).peerClass = .publisher ∨ (∃ c ∈ cs, c.iceBroken = true) ∨
        ¬ ∃ c ∈ cs, c.peerBroken = true := by
  rw [callbacks_peer StateChange.callback RtcPeer.change callback_change cs hid hrun]
  exact seenBroken_iff hfresh (changed_all _ cs)

/-- A server with one peer of this class. -/
def onePeer (peerClass : PeerClass) : RTCServer :=
  { peers := Heap.empty.alloc { peerClass := peerClass } }

theorem isPeerTimeOut_history_publisher :
    SeenBroken (((callbacks (onePeer .publisher) 0
      ([.connection .kFailed].map StateChange.callback)).getD {}).peers.get 0)
      [.connection .kFailed] :=
  (isPeerTimeOut_history (onePeer .publisher) _ 0 [.connection .kFailed] (by decide)
    ⟨rfl, rfl, rfl⟩ rfl).mpr (Or.inl rfl)

/-- A player whose connection fails is not timed out. -/
theorem player_failure_unseen :
    ¬ ∀ (srv srv' : RTCServer) (id : Nat) (cs : List StateChange), id < srv.peers.size →
      FreshState (srv.peers.get id) →
      callbacks srv id (cs.map StateChange.callback) = some srv' →
      SeenBroken (srv'.peers.get id) cs := by
  intro h
  have hseen := h (onePeer .player) _ 0 [.connection .kFailed] (by decide) ⟨rfl, rfl, rfl⟩ rfl
  have htrue := hseen.timeOut.mpr ⟨_, List.mem_singleton.mpr rfl, Or.inr rfl⟩
  exact absurd htrue (by decide)

end Sars
