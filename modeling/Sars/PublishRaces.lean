import Sars.StreamInvariant

/-!
# One publisher for each stream

`CanPublish` is read before `w->Write` and cleared after it. Where no publish
passes the check while another one of its stream is suspended there, each cache
gets one publisher at most and keeps it; two requests in the window replace it.
-/

namespace Sars

open ByteMemory ObjectHeap GrowingMap EventRuns World

/-- An execution of `SetPublisher` on this cache. -/
def sets (c : Nat) : Output → Bool
  | .setPublisher scache _ => scache == c
  | _ => false

/-- A cache of a stream is set once, and its publisher is never replaced. -/
def PublishedOnce (es : List Event) : Prop :=
  (∀ streamID c, (after step start es).server.sarsPeersStreamIDMaps.lookup streamID = some c →
    (outputs step start es).countP (sets c) ≤ 1) ∧
  ∀ as bs c p, es = as ++ bs →
    ((after step start as).server.scaches.get c).publisher = some p →
    ((after step start es).server.scaches.get c).publisher = some p

/-- A publish of this stream that is suspended in `w->Write`. -/
def Handler.publishing (streamID : Bytes) : Handler → Bool
  | .writing job => job.kind = .publish ∧ job.streamID = streamID
  | _ => false

/-- A publish passes the check only when no other one of its stream is suspended. -/
def Alone (w : World) (e : Event) : Prop :=
  ∀ p ∈ passing w e, p.1 = .publish → ∀ h ∈ w.handlers, h.publishing p.2 = false

instance (w : World) (e : Event) : Decidable (Alone w e) :=
  inferInstanceAs (Decidable (∀ p ∈ passing w e, p.1 = .publish →
    ∀ h ∈ w.handlers, h.publishing p.2 = false))

/-! ## The invariant -/

structure Unraced (σ : Sessions) (srv : RTCServer) : Prop where
  free : ∀ i job, σ i = some (job, false) → job.kind = .publish →
    (srv.scaches.get job.scache).canPublish = true
  single : ∀ i j a b, σ i = some (a, false) → σ j = some (b, false) → a.kind = .publish →
    b.kind = .publish → a.scache = b.scache → i = j

theorem Unraced.begun {σ : Sessions} {srv srv' : RTCServer} {i : Nat} {job : Job}
    (h : Unraced σ srv) (scaches : srv'.scaches = srv.scaches)
    (wanted : (srv.scaches.get job.scache).canPublish = job.kind.wants)
    (alone : job.kind = .publish → ∀ j b, σ j = some (b, false) → b.kind = .publish →
      b.scache ≠ job.scache) :
    Unraced (Function.update σ i (some (job, false))) srv' := by
  refine { free := ?_, single := ?_ }
  · intro j b hj hkind
    rw [scaches]
    rcases session_cases hj with ⟨_, heq⟩ | ⟨_, hold⟩
    · cases heq
      rw [wanted, hkind]
      rfl
    · exact h.free j b hold hkind
  · intro j k a b hj hk hpub hpub' hcache
    rcases session_cases hj with ⟨rfl, heq⟩ | ⟨_, hold⟩ <;>
      rcases session_cases hk with ⟨rfl, heq'⟩ | ⟨_, hold'⟩
    · rfl
    · cases heq
      exact absurd hcache.symm (alone hpub k b hold' hpub')
    · cases heq'
      exact absurd hcache (alone hpub' j a hold hpub)
    · exact h.single j k a b hold hold' hpub hpub' hcache

theorem Unraced.finished {σ : Sessions} {srv : RTCServer} {i : Nat} {job : Job}
    (h : Unraced σ srv) (inv : StreamInv σ srv) (suspended : σ i = some (job, false)) :
    Unraced (Function.update σ i (some (job, true))) (srv.link job) := by
  have back : ∀ {j : Nat} {b : Job}, Function.update σ i (some (job, true)) j = some (b, false) →
      j ≠ i ∧ σ j = some (b, false) := by
    intro j b hj
    rcases session_cases hj with ⟨_, heq⟩ | hold
    · cases heq
    · exact hold
  refine { free := ?_, single := ?_ }
  · intro j b hj hkind
    obtain ⟨hne, hold⟩ := back hj
    have hfree := h.free j b hold hkind
    rcases inv.cache_cases suspended b.scache with ⟨_, hc⟩ | ⟨hsame, hc⟩
    · rw [hc]
      exact hfree
    · rw [hc]
      cases hjob : job.kind with
      | publish => exact absurd (h.single j i b job hold suspended hkind hjob hsame) hne
      | play => exact (join_play _ hjob).1.trans hfree
  · intro j k a b hj hk hpub hpub' hcache
    exact h.single j k a b (back hj).2 (back hk).2 hpub hpub' hcache

/-- What is kept by the steps that meet the condition. -/
def RaceFree (w : World) : Prop := StreamInv w.sessions w.server ∧ Unraced w.sessions w.server

theorem RaceFree.step {w : World} {e : Event} (h : RaceFree w) (alone : Alone w e) :
    RaceFree (w.step e).1 := by
  obtain ⟨inv, hun⟩ := h
  have hsession := step_session w e
  refine ⟨inv.session hsession, ?_⟩
  cases hsession with
  | same sessions quiet =>
    rw [sessions]
    exact { free := by rw [quiet.scaches]; exact hun.free, single := hun.single }
  | opened sessions opened =>
    rw [sessions]
    refine { free := fun i job hi hkind => ?_, single := hun.single }
    rw [opened.caches]
    exact hun.free i job hi hkind
  | @begun i _ _ _ job srv _ free passed opened wanted created peer sessions =>
    rw [sessions]
    have hopened : Unraced w.sessions srv := by
      refine { free := fun j b hj hkind => ?_, single := hun.single }
      rw [opened.caches]
      exact hun.free j b hj hkind
    refine hopened.begun created.scaches wanted fun hkind j b hj hpub hcache => ?_
    -- a suspended publish of this cache is one of the same stream
    have inv' := inv.opened opened
    have hstream := inv'.stream j b false hj
    rw [hcache] at hstream
    have hsame := inv'.injective _ _ _ hstream opened.lookup
    have hother := alone _ passed hkind _ (mem_of_suspended hj)
    simp [Handler.publishing, hpub, hsame] at hother
  | finished suspended linked sessions =>
    rw [sessions, linked]
    exact hun.finished inv suspended

theorem raceFree_start : RaceFree start :=
  ⟨streamInv_start,
    { free := fun _ _ h => nomatch h
      single := fun _ _ _ _ h => nomatch h }⟩

/-! ## Setting a publisher -/

/-- A step sets a publisher only when a suspended publish returns from its write. -/
theorem Move.sets_cases {w w' : World} {e : Event} {out : List Output} (hm : Move w e w' out)
    (c : Nat) :
    out.countP (sets c) = 0 ∨ ∃ i job, w.sessions i = some (job, false) ∧ job.kind = .publish ∧
      job.scache = c ∧ w'.server = w.server.link job ∧ out.countP (sets c) = 1 := by
  cases hm with
  | idle => exact Or.inl rfl
  | stopped => exact Or.inl rfl
  | accepted => exact Or.inl rfl
  | rejected => exact Or.inl rfl
  | begun => exact Or.inl rfl
  | @finished i job ret writing =>
    have hsuspended : w.sessions i = some (job, false) := by
      simp only [World.sessions, sessionsOf, writing]
      rfl
    have hlinked := handleWritten_link w.server job ret
    cases hkind : job.kind with
    | play => exact Or.inl (by simp only [Signalling.handleWritten, hkind]; rfl)
    | publish =>
      by_cases hc : job.scache = c
      · refine Or.inr ⟨i, job, hsuspended, hkind, hc, hlinked, ?_⟩
        simp [Signalling.handleWritten, hkind, Signalling.handlePublishWritten, sets, hc]
      · refine Or.inl ?_
        simp [Signalling.handleWritten, hkind, Signalling.handlePublishWritten, sets, hc]
  | heard =>
    refine Or.inl (List.countP_eq_zero.mpr fun o ho => ?_)
    simp only [RTCServer.udpSocketRecv] at ho
    split_ifs at ho <;> simp at ho <;> rcases ho with rfl | rfl <;> simp [sets]
  | called _ call =>
    refine Or.inl (List.countP_eq_zero.mpr fun o ho => ?_)
    rcases callback_outputs call o ho with hcontrol | ⟨_, _, rfl⟩
    · have hunset : sets c o = false := by cases o <;> first | rfl | cases hcontrol
      exact Bool.eq_false_iff.mp hunset
    · exact Bool.false_ne_true

/-- How many publishers a cache can still get. -/
def room (c : Nat) (w : World) : Nat := if (w.server.scaches.get c).canPublish then 1 else 0

theorem RaceFree.spend {w : World} {e : Event} (h : RaceFree w) (c : Nat) :
    (w.step e).2.countP (sets c) + room c (w.step e).1 ≤ room c w := by
  obtain ⟨inv, hun⟩ := h
  rcases (step_move w e).sets_cases c with hnone | ⟨i, job, hi, hkind, rfl, hlinked, hone⟩
  · rw [hnone, Nat.zero_add]
    simp only [room]
    by_cases hcan : (w.server.scaches.get c).canPublish = true
    · rw [if_pos hcan]
      split_ifs <;> omega
    · have hfalse : (w.server.scaches.get c).canPublish = false := by simpa using hcan
      simp [(step_session w e).taken inv hfalse]
  · have hfree := hun.free i job hi hkind
    have hset : ((w.step e).1.server.scaches.get job.scache).canPublish = false := by
      rw [hlinked, link_cache (inv.streams _ _ (inv.stream i job false hi))]
      exact (join_publish _ hkind).1
    simp [room, hone, hfree, hset]

theorem RaceFree.keeps {w : World} {e : Event} (h : RaceFree w) {c p : Nat}
    (set : (w.server.scaches.get c).publisher = some p) :
    ((w.step e).1.server.scaches.get c).publisher = some p := by
  obtain ⟨inv, hun⟩ := h
  rcases (step_session w e).cache_cases inv c with hsame | ⟨i, job, hi, rfl, hjoin⟩
  · rw [hsame]
    exact set
  · rw [hjoin]
    cases hkind : job.kind with
    | publish =>
      have hnone := (inv.taken job.scache).mp (hun.free i job hi hkind)
      rw [hnone] at set
      cases set
    | play => exact (join_play _ hkind).2.trans set

/-- Publishes that pass the check one at a time for each stream give it one publisher. -/
theorem published_once (es : List Event) (alone : Meets step Alone start es) :
    PublishedOnce es := by
  refine ⟨fun streamID c _ => ?_, fun as bs c p hes hset => ?_⟩
  · have hspent : (outputs step start es).countP (sets c) ≤ room c start :=
      emitted_le (fun _ _ h => h.step) (fun _ _ h _ => h.spend c) raceFree_start alone
    have hone : room c start ≤ 1 := by
      simp only [room]
      split_ifs <;> omega
    exact hspent.trans hone
  · subst hes
    obtain ⟨halone, hrest⟩ := meets_append.mp alone
    have hfree : RaceFree (after step start as) :=
      invariant_run (fun _ _ h => h.step) raceFree_start halone
    rw [after_append]
    exact (invariant_run
      (I := fun w => RaceFree w ∧ (w.server.scaches.get c).publisher = some p)
      (fun _ _ h halone => ⟨h.1.step halone, h.1.keeps h.2⟩) ⟨hfree, hset⟩ hrest).2

/-! ### Two publishes of one stream -/

/-- The second publish comes after the first has returned. -/
def oneAfterTheOther : List Event :=
  served 0 .publish [0x2F, 0x73] [0x61] ++ served 1 .publish [0x2F, 0x73] [0x63]

theorem published_once_oneAfterTheOther : PublishedOnce oneAfterTheOther :=
  published_once oneAfterTheOther (by decide +kernel)

/-- Both pass the check before either has returned from its write. -/
def race : List Event :=
  [.accept .publish, .accept .publish, .body 0 (sdpOf [0x62]) [0x2F, 0x73] (engineOf [0x61]),
    .body 1 (sdpOf [0x62]) [0x2F, 0x73] (engineOf [0x63]), .written 0 0, .written 1 0]

theorem race_publishes_twice : ¬ ∀ es, PublishedOnce es := by
  intro h
  have honce := (h race).1 [0x73] 0 (by decide +kernel)
  exact absurd honce (by decide +kernel)

end Sars
