import Sars.StreamInvariant

/-!
# The table of streams

The invariant of sessions and streams, read as statements about the table: a
stream keeps its cache, a cache keeps its publisher flag, players are listed
once, and a link leads to the stream of the request that made the peer. For the
last one the run is split at that request.
-/

namespace Sars

open ByteMemory ObjectHeap GrowingMap EventRuns World

/-- This step takes a request past its check and allocates the peer. -/
def Allocates (w : World) (e : Event) (kind : RequestKind) (streamID : Bytes) (p : Nat) : Prop :=
  passing w e = some (kind, streamID) ∧ w.server.peers.size = p ∧
    (w.step e).1.server.peers.size = p + 1

/-- The request that created the peer in this run was of this kind and for this stream. -/
def CreatedBy (es : List Event) (kind : RequestKind) (streamID : Bytes) (p : Nat) : Prop :=
  ∃ as e bs, es = as ++ e :: bs ∧ Allocates (after step start as) e kind streamID p

structure TableConsistent (es : List Event) : Prop where
  kept : ∀ as bs streamID c, es = as ++ bs →
    (after step start as).server.sarsPeersStreamIDMaps.lookup streamID = some c →
    (after step start es).server.sarsPeersStreamIDMaps.lookup streamID = some c
  own : ∀ streamID streamID' c,
    (after step start es).server.sarsPeersStreamIDMaps.lookup streamID = some c →
    (after step start es).server.sarsPeersStreamIDMaps.lookup streamID' = some c →
    streamID = streamID'
  taken : ∀ c, ((after step start es).server.scaches.get c).canPublish = false ↔
    ((after step start es).server.scaches.get c).publisher ≠ none
  final : ∀ as bs c, es = as ++ bs →
    ((after step start as).server.scaches.get c).canPublish = false →
    ((after step start es).server.scaches.get c).canPublish = false
  watched : ∀ c, ((after step start es).server.scaches.get c).players ≠ [] →
    ((after step start es).server.scaches.get c).publisher ≠ none
  nodup : ∀ c, ((after step start es).server.scaches.get c).players.Nodup
  single : ∀ c c' p, p ∈ ((after step start es).server.scaches.get c).players →
    p ∈ ((after step start es).server.scaches.get c').players → c = c'
  linked : ∀ p c, ((after step start es).server.peers.get p).scache = some c →
    ∃ kind streamID, CreatedBy es kind streamID p ∧
      (after step start es).server.sarsPeersStreamIDMaps.lookup streamID = some c

/-! ## One step -/

theorem Session.extends {w w' : World} {e : Event} (hs : Session w e w') :
    Extends w.server.sarsPeersStreamIDMaps w'.server.sarsPeersStreamIDMaps := by
  have found : ∀ {streamID : Bytes} {srv srv' : RTCServer} {c : Nat},
      Opened streamID srv srv' c →
      Extends srv.sarsPeersStreamIDMaps srv'.sarsPeersStreamIDMaps := by
    intro streamID srv srv' c ho
    rcases ho.cases with ⟨_, rfl⟩ | ⟨_, _, rfl⟩
    · exact .refl _
    · exact emplace_extends _ _ _
  cases hs with
  | same _ quiet =>
    rw [quiet.streams]
    exact .refl _
  | opened _ opened => exact found opened
  | begun _ _ opened _ created _ _ =>
    rw [created.streams]
    exact found opened
  | finished _ linked _ =>
    rw [linked]
    exact .refl _

/-- A session that a step finds or leaves was there before or has just been allocated. -/
theorem Session.allocated {w w' : World} {e : Event} (hs : Session w e w')
    (hw : (w.step e).1 = w') {i : Nat} {job : Job} {done : Bool}
    (hi : w'.sessions i = some (job, done)) :
    (∃ done, w.sessions i = some (job, done)) ∨ Allocates w e job.kind job.streamID job.peer := by
  cases hs with
  | same sessions _ => exact Or.inl ⟨done, by rw [← sessions, hi]⟩
  | opened sessions _ => exact Or.inl ⟨done, by rw [← sessions, hi]⟩
  | begun _ passed opened _ created peer sessions =>
    rw [sessions] at hi
    rcases session_cases hi with ⟨_, heq⟩ | ⟨_, hold⟩
    · cases heq
      rw [opened.peers.1] at peer
      have hsize := created.size
      rw [opened.peers.1] at hsize
      exact Or.inr ⟨passed, peer.symm, by rw [hw, hsize, peer]⟩
    · exact Or.inl ⟨done, hold⟩
  | finished suspended _ sessions =>
    rw [sessions] at hi
    rcases session_cases hi with ⟨rfl, heq⟩ | ⟨_, hold⟩
    · cases heq
      exact Or.inl ⟨false, suspended⟩
    · exact Or.inl ⟨done, hold⟩

/-! ## Whole runs -/

theorem CreatedBy.snoc {es : List Event} {kind : RequestKind} {streamID : Bytes} {p : Nat}
    (h : CreatedBy es kind streamID p) (e : Event) : CreatedBy (es ++ [e]) kind streamID p := by
  obtain ⟨as, e', bs, rfl, hmakes⟩ := h
  refine ⟨as, e', bs ++ [e], ?_, hmakes⟩
  rw [List.append_assoc, List.cons_append]

/-- The peer of a session was created by the request the session belongs to. -/
theorem session_createdBy (es : List Event) : ∀ i job done,
    (after step start es).sessions i = some (job, done) →
    CreatedBy es job.kind job.streamID job.peer := by
  refine invariant_history
    (I := fun es (w : World) => ∀ i (job : Job) done, w.sessions i = some (job, done) →
      CreatedBy es job.kind job.streamID job.peer) ?_ ?_ es
  · intro i job done hi
    cases hi
  · intro es e ih i job done hi
    rcases (step_session _ e).allocated rfl hi with ⟨done', hold⟩ | hnew
    · exact (ih i job done' hold).snoc e
    · exact ⟨es, e, [], rfl, hnew⟩

theorem streams_extend (as bs : List Event) :
    Extends (after step start as).server.sarsPeersStreamIDMaps
      (after step start (as ++ bs)).server.sarsPeersStreamIDMaps := by
  rw [after_append]
  exact invariant_after
    (I := fun w => Extends (after step start as).server.sarsPeersStreamIDMaps
      w.server.sarsPeersStreamIDMaps)
    (fun w e h => h.trans (step_session w e).extends) (.refl _) bs

theorem taken_after (as bs : List Event) {c : Nat}
    (h : ((after step start as).server.scaches.get c).canPublish = false) :
    ((after step start (as ++ bs)).server.scaches.get c).canPublish = false := by
  rw [after_append]
  have hkept := invariant_after
    (I := fun w => StreamInv w.sessions w.server ∧
      (w.server.scaches.get c).canPublish = false)
    (fun w e hw => ⟨hw.1.session (step_session w e), (step_session w e).taken hw.1 hw.2⟩)
    ⟨streamInv_after as, h⟩ bs
  exact hkept.2

theorem table_consistent (es : List Event) : TableConsistent es := by
  have inv := streamInv_after es
  have taken : ∀ c, ((after step start es).server.scaches.get c).canPublish = false ↔
      ((after step start es).server.scaches.get c).publisher ≠ none := by
    intro c
    rw [ne_eq, ← inv.taken c, Bool.not_eq_true]
  refine { kept := ?_, own := inv.injective, taken := taken, final := ?_, watched := ?_
           nodup := inv.nodup, single := ?_, linked := ?_ }
  · rintro as bs streamID c rfl hlookup
    exact streams_extend as bs streamID c hlookup
  · rintro as bs c rfl htaken
    exact taken_after as bs htaken
  · intro c hplayers
    obtain ⟨p, hp⟩ := List.exists_mem_of_ne_nil _ hplayers
    obtain ⟨i, job, hi, hkind, _, rfl⟩ := inv.players c p hp
    exact (taken _).mp (inv.playing i job true hi hkind)
  · intro c c' p hp hp'
    obtain ⟨i, job, hi, _, hpeer, rfl⟩ := inv.players c p hp
    obtain ⟨j, job', hj, _, hpeer', rfl⟩ := inv.players c' p hp'
    -- one peer has one session
    have hij := inv.distinct i j job job' true true hi hj (hpeer.trans hpeer'.symm)
    subst hij
    rw [hi] at hj
    cases hj
    rfl
  · intro p c hp
    obtain ⟨i, job, hi, rfl, rfl⟩ := inv.linked p c hp
    exact ⟨job.kind, job.streamID, session_createdBy es i job true hi,
      inv.stream i job true hi⟩

end Sars
