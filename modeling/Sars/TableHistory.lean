import Sars.AddressBindings
import Sars.Registration
import Mathlib.Data.Finset.Card
import Mathlib.Data.List.TakeWhile

/-!
# What the tables hold

The three maps are written on all paths and erased on none, so each is a record
of what has happened. Of two entries for one key the first counts: an address
belongs to the peer that first heard from it, a pair of ufrags to the first peer
made with it, and the caches are numbered in the order in which streams were
first asked for, whether or not anything came of the request.
-/

namespace Sars

open ByteMemory ObjectHeap GrowingMap EventRuns World

/-! ## What is entered -/

/-- The stream that a request asks for when its body is read. -/
def asks (w : World) : Event → Option Bytes
  | .body i _ streamUrl _ =>
    match w.handlers[i]? with
    | some (.reading _) => if w.status = .running then getStreamIdFromStreamUrl streamUrl else none
    | _ => none
  | _ => none

/-- The key and the peer that a request behind the check puts into the map by ufrag. -/
def registers (w : World) (e : Event) : Option (Bytes × Nat) :=
  if (passing w e).isSome then e.key.map fun key => (key, w.server.peers.size) else none

/-- The streams asked for in a run, in order. -/
def asked (w : World) (es : List Event) : List Bytes :=
  outputs (fun w e => ((w.step e).1, (asks w e).toList)) w es

/-- The keys of the peers made in a run, in order. -/
def registered (w : World) (es : List Event) : List (Bytes × Nat) :=
  outputs (fun w e => ((w.step e).1, (registers w e).toList)) w es

/-- The text of the address a datagram came from. -/
def NetAddr.text (r : NetAddr) : Bytes := DecimalText.colon r.ip (ntohs r.port).toNat

/-- The entry by address that goes with a delivery. -/
def entryOf (d : Nat × Bytes × NetAddr) : Bytes × Nat := (d.2.2.text, d.1)

/-! ## One step -/

/-- What the body of a request does to the server. -/
theorem body_cases {w : World} {i : Nat} {kind : RequestKind} (running : w.status = .running)
    (reading : w.handlers[i]? = some (.reading kind)) (offer streamUrl : Bytes) (engine : Engine) :
    (asks w (.body i offer streamUrl engine) = none ∧
      passing w (.body i offer streamUrl engine) = none ∧
      (w.step (.body i offer streamUrl engine)).1.server = w.server) ∨
    ∃ streamID srv c, asks w (.body i offer streamUrl engine) = some streamID ∧
      Opened streamID w.server srv c ∧
      ((passing w (.body i offer streamUrl engine) = none ∧
          (w.step (.body i offer streamUrl engine)).1.server = srv) ∨
        (passing w (.body i offer streamUrl engine) = some (kind, streamID) ∧
          Created kind.peerClass offer engine srv
            (w.step (.body i offer streamUrl engine)).1.server)) := by
  have hasks : asks w (.body i offer streamUrl engine) = getStreamIdFromStreamUrl streamUrl := by
    simp only [asks, reading, running, if_true]
  rw [step_body running reading, hasks]
  simp only [World.stepBody]
  rcases handleBody_cases kind w.server offer streamUrl engine with ⟨hid, hexit⟩ |
    ⟨streamID, srv, c, hid, hopened, ⟨hcan, hret⟩ | ⟨hcan, srv', answer, hcreated, hwrite⟩⟩
  · rw [hexit]
    exact Or.inl ⟨hid, by simp only [passing, reading, hid], rfl⟩
  · rw [hret]
    refine Or.inr ⟨streamID, srv, c, hid, hopened, Or.inl ⟨?_, rfl⟩⟩
    rw [hopened.canPublish] at hcan
    simp only [passing, reading, hid, hcan, and_false, if_false]
  · rw [hwrite]
    refine Or.inr ⟨streamID, srv, c, hid, hopened, Or.inr ⟨?_, hcreated⟩⟩
    rw [hopened.canPublish] at hcan
    simp only [passing, reading, hid, running, hcan, and_self, if_true]

/-- The stream table after a step: one cache is found or made for the stream asked for. -/
structure Asked (w w' : World) (e : Event) : Prop where
  opened : ∀ streamID, asks w e = some streamID → ∃ srv c, Opened streamID w.server srv c ∧
    w'.server.sarsPeersStreamIDMaps = srv.sarsPeersStreamIDMaps ∧
    w'.server.scaches.size = srv.scaches.size
  same : asks w e = none → w'.server.sarsPeersStreamIDMaps = w.server.sarsPeersStreamIDMaps ∧
    w'.server.scaches.size = w.server.scaches.size

theorem Asked.of_none {w w' : World} {e : Event} (none : asks w e = none)
    (streams : w'.server.sarsPeersStreamIDMaps = w.server.sarsPeersStreamIDMaps)
    (size : w'.server.scaches.size = w.server.scaches.size) : Asked w w' e :=
  { opened := by
      intro streamID h
      rw [none] at h
      cases h
    same := fun _ => ⟨streams, size⟩ }

theorem handleWritten_tables (srv : RTCServer) (job : Job) (ret : Int) :
    (Signalling.handleWritten srv job ret).1.sarsPeersStreamIDMaps = srv.sarsPeersStreamIDMaps ∧
      (Signalling.handleWritten srv job ret).1.scaches.size = srv.scaches.size := by
  rw [handleWritten_link]
  exact ⟨rfl, Heap.size_modify srv.scaches job.scache job.join⟩

/-- Only the body of a request asks for a stream. -/
theorem Move.asked {w w' : World} {e : Event} {out : List Output} (hm : Move w e w' out)
    (other : ∀ i offer streamUrl engine, e ≠ .body i offer streamUrl engine) : Asked w w' e := by
  have hasks : asks w e = none := by
    cases e with
    | body i offer streamUrl engine => exact absurd rfl (other i offer streamUrl engine)
    | _ => rfl
  cases hm with
  | idle => exact .of_none hasks rfl rfl
  | stopped => exact .of_none hasks rfl rfl
  | accepted => exact .of_none hasks rfl rfl
  | rejected => exact absurd rfl (other _ _ _ _)
  | begun => exact absurd rfl (other _ _ _ _)
  | @finished i job ret =>
    obtain ⟨hstreams, hsize⟩ := handleWritten_tables w.server job ret
    exact .of_none hasks hstreams hsize
  | heard => exact .of_none hasks rfl rfl
  | called _ call =>
    have hframed := callback_framed call
    exact .of_none hasks hframed.streams (congrArg Heap.size hframed.scaches)

/-- A body nobody waits for changes nothing. -/
theorem body_idle {w : World} {i : Nat}
    (idle : ¬ (w.status = .running ∧ ∃ kind, w.handlers[i]? = some (.reading kind)))
    (offer streamUrl : Bytes) (engine : Engine) :
    asks w (.body i offer streamUrl engine) = none ∧
      passing w (.body i offer streamUrl engine) = none ∧
      w.step (.body i offer streamUrl engine) = (w, []) := by
  by_cases running : w.status = .running
  · have hother : ∀ kind, w.handlers[i]? ≠ some (.reading kind) :=
      fun kind hkind => idle ⟨running, kind, hkind⟩
    refine ⟨?_, ?_, step_body_idle hother offer streamUrl engine⟩
    · simp only [asks]
    · cases hhandler : w.handlers[i]? with
      | none => simp only [passing, hhandler]
      | some handler =>
        cases handler with
        | reading kind => exact absurd hhandler (hother kind)
        | writing => simp only [passing, hhandler]
        | returned => simp only [passing, hhandler]
  · refine ⟨?_, ?_, step_stopped running _⟩
    · simp only [asks, running, if_false]
      split <;> rfl
    · simp only [passing, running, false_and, if_false]
      split <;> rfl

theorem step_asked (w : World) (e : Event) : Asked w (w.step e).1 e := by
  cases e with
  | body i offer streamUrl engine =>
    by_cases hreading : w.status = .running ∧ ∃ kind, w.handlers[i]? = some (.reading kind)
    · obtain ⟨running, kind, hkind⟩ := hreading
      rcases body_cases running hkind offer streamUrl engine with ⟨hasks, _, hsame⟩ |
        ⟨streamID, srv, c, hasks, hopened, ⟨_, hserver⟩ | ⟨_, hcreated⟩⟩
      · exact .of_none hasks (by rw [hsame]) (by rw [hsame])
      · refine { opened := ?_, same := by simp [hasks] }
        rintro _ h
        cases hasks.symm.trans h
        exact ⟨srv, c, hopened, by rw [hserver], by rw [hserver]⟩
      · refine { opened := ?_, same := by simp [hasks] }
        rintro _ h
        cases hasks.symm.trans h
        exact ⟨srv, c, hopened, hcreated.streams, congrArg Heap.size hcreated.scaches⟩
    · obtain ⟨hasks, _, hidle⟩ := body_idle hreading offer streamUrl engine
      rw [hidle]
      exact .of_none hasks rfl rfl
  | _ => exact (step_move w _).asked (by rintro _ _ _ _ ⟨⟩)

theorem Move.registered {w w' : World} {e : Event} {out : List Output} (hm : Move w e w' out)
    (other : ∀ i offer streamUrl engine, e ≠ .body i offer streamUrl engine) :
    w'.server.sarsPeersUfragMaps = w.server.sarsPeersUfragMaps := by
  cases hm with
  | idle => rfl
  | stopped => rfl
  | accepted => rfl
  | rejected => exact absurd rfl (other _ _ _ _)
  | begun => exact absurd rfl (other _ _ _ _)
  | @finished i job ret => exact (handleWritten_addressing w.server job ret).1
  | heard => rfl
  | called _ call => exact (callback_framed call).ufrags

/-- The map by ufrag after a step. -/
theorem step_registered (w : World) (e : Event) :
    (w.step e).1.server.sarsPeersUfragMaps =
      enter w.server.sarsPeersUfragMaps (registers w e).toList := by
  have silent : registers w e = none →
      (w.step e).1.server.sarsPeersUfragMaps = w.server.sarsPeersUfragMaps →
      (w.step e).1.server.sarsPeersUfragMaps =
        enter w.server.sarsPeersUfragMaps (registers w e).toList := by
    intro hnone hsame
    rw [hnone, hsame]
    rfl
  cases e with
  | body i offer streamUrl engine =>
    have unpassed : passing w (.body i offer streamUrl engine) = none →
        registers w (.body i offer streamUrl engine) = none := by
      intro hpassing
      simp [registers, hpassing]
    by_cases hreading : w.status = .running ∧ ∃ kind, w.handlers[i]? = some (.reading kind)
    · obtain ⟨running, kind, hkind⟩ := hreading
      rcases body_cases running hkind offer streamUrl engine with ⟨_, hpassing, hsame⟩ |
        ⟨streamID, srv, c, hasks, hopened, ⟨hpassing, hserver⟩ | ⟨hpassing, hcreated⟩⟩
      · exact silent (unpassed hpassing) (by rw [hsame])
      · exact silent (unpassed hpassing) (by rw [hserver, hopened.peers.2])
      · have hregisters : registers w (.body i offer streamUrl engine) =
            (peerKey offer engine).map fun key => (key, w.server.peers.size) := by
          simp [registers, hpassing, Event.key]
        cases hkey : peerKey offer engine with
        | none =>
          rw [hkey] at hregisters
          exact silent hregisters (by rw [hcreated.unregistered hkey, hopened.peers.2])
        | some key =>
          rw [hregisters, hkey, (hcreated.registered key hkey).2.2, hopened.peers.1,
            hopened.peers.2]
          rfl
    · obtain ⟨_, hpassing, hidle⟩ := body_idle hreading offer streamUrl engine
      exact silent (unpassed hpassing) (by rw [hidle])
  | _ =>
    exact silent (by simp [registers, Event.key])
      ((step_move w _).registered (by rintro _ _ _ _ ⟨⟩))

/-- The map by address after a step. -/
theorem Move.entered {w w' : World} {e : Event} {out : List Output} (hm : Move w e w' out) :
    w'.server.sarsPeersAddrMaps =
      enter w.server.sarsPeersAddrMaps ((deliveries out).map entryOf) := by
  cases hm with
  | idle => rfl
  | stopped => rfl
  | accepted => rfl
  | rejected _ _ opened _ => exact opened.addrs
  | begun _ _ _ opened _ created => exact created.addrs.trans opened.addrs
  | @finished i job ret =>
    have hsilent : deliveries (Signalling.handleWritten w.server job ret).2.1 = [] := by
      cases hkind : job.kind <;> simp only [Signalling.handleWritten, hkind] <;> rfl
    rw [hsilent]
    exact (handleWritten_addressing w.server job ret).2.1
  | heard =>
    rw [deliveries_recv]
    rfl
  | called _ call =>
    rw [callback_silent call]
    exact (callback_framed call).addrs

/-! ## Whole runs -/

/-- Caches are numbered in the order of first mention of their streams. -/
structure Numbered (ids : List Bytes) (srv : RTCServer) : Prop where
  caches : ∀ id, srv.sarsPeersStreamIDMaps.lookup id =
    if id ∈ ids then some (ids.takeWhile (· ≠ id)).toFinset.card else none
  size : srv.scaches.size = ids.toFinset.card

theorem takeWhile_ne_snoc {ids : List Bytes} {id : Bytes} (present : id ∈ ids) (new : Bytes) :
    (ids ++ [new]).takeWhile (· ≠ id) = ids.takeWhile (· ≠ id) := by
  rw [List.takeWhile_append, if_neg]
  intro hall
  have hwhole : ids.takeWhile (· ≠ id) = ids := List.IsPrefix.eq_of_length
    (List.takeWhile_prefix _) hall
  have hother := List.takeWhile_eq_self_iff.mp hwhole id present
  simp at hother

theorem Numbered.again {ids : List Bytes} {srv : RTCServer} (h : Numbered ids srv) {new : Bytes}
    (present : new ∈ ids) : Numbered (ids ++ [new]) srv := by
  have hset : (ids ++ [new]).toFinset = ids.toFinset := by
    ext id
    simp only [List.mem_toFinset, List.mem_append, List.mem_singleton]
    constructor
    · rintro (hid | rfl)
      · exact hid
      · exact present
    · exact Or.inl
  refine { caches := fun id => ?_, size := by rw [hset, h.size] }
  rw [h.caches]
  by_cases hid : id ∈ ids
  · rw [if_pos hid, if_pos (List.mem_append_left _ hid), takeWhile_ne_snoc hid]
  · have hne : id ≠ new := fun heq => hid (heq ▸ present)
    rw [if_neg hid, if_neg (by simp [hid, hne])]

theorem Numbered.first {ids : List Bytes} {srv srv' : RTCServer} (h : Numbered ids srv)
    {new : Bytes} (absent : new ∉ ids)
    (streams : srv'.sarsPeersStreamIDMaps =
      emplace srv.sarsPeersStreamIDMaps new srv.scaches.size)
    (size : srv'.scaches.size = srv.scaches.size + 1) : Numbered (ids ++ [new]) srv' := by
  have hset : (ids ++ [new]).toFinset = insert new ids.toFinset := by
    ext id
    simp
  refine { caches := fun id => ?_, size := ?_ }
  · rw [streams]
    by_cases hid : id = new
    · subst hid
      have hall : ∀ x ∈ ids, decide (x ≠ id) = true :=
        fun x hx => decide_eq_true fun heq => absent (heq ▸ hx)
      have hwhole : (ids ++ [id]).takeWhile (· ≠ id) = ids := by
        rw [List.takeWhile_append_of_pos hall]
        simp
      rw [lookup_emplace_self, h.caches, if_neg absent, if_pos (by simp), hwhole, h.size]
      rfl
    · rw [lookup_emplace_ne _ hid, h.caches]
      by_cases hold : id ∈ ids
      · rw [if_pos hold, if_pos (List.mem_append_left _ hold), takeWhile_ne_snoc hold]
      · rw [if_neg hold, if_neg (by simp [hold, hid])]
  · rw [size, h.size, hset, Finset.card_insert_of_notMem (by simpa using absent)]

theorem Numbered.step {ids : List Bytes} {w w' : World} {e : Event} (h : Numbered ids w.server)
    (hasked : Asked w w' e) : Numbered (ids ++ (asks w e).toList) w'.server := by
  cases hasks : asks w e with
  | none =>
    obtain ⟨hstreams, hsize⟩ := hasked.same hasks
    rw [Option.toList_none, List.append_nil]
    exact { caches := fun id => by rw [hstreams, h.caches], size := by rw [hsize, h.size] }
  | some streamID =>
    obtain ⟨srv, c, hopened, hstreams, hsize⟩ := hasked.opened streamID hasks
    rw [Option.toList_some]
    rcases hopened.cases with ⟨hlookup, rfl⟩ | ⟨hlookup, rfl, rfl⟩
    · have hpresent : streamID ∈ ids := by
        by_contra habsent
        rw [h.caches, if_neg habsent] at hlookup
        cases hlookup
      have hsame := h.again hpresent
      exact
        { caches := fun id => by rw [hstreams, hsame.caches]
          size := by rw [hsize, hsame.size] }
    · have habsent : streamID ∉ ids := by
        intro hpresent
        rw [h.caches, if_pos hpresent] at hlookup
        cases hlookup
      exact h.first habsent hstreams (by rw [hsize, Heap.size_alloc])

theorem numbered_after (es : List Event) :
    Numbered (asked start es) (after step start es).server :=
  invariant_labels (I := fun ids (w : World) => Numbered ids w.server)
    { caches := fun _ => rfl, size := rfl } (fun _ w e h => h.step (step_asked w e)) es

theorem registered_after (es : List Event) :
    (after step start es).server.sarsPeersUfragMaps = enter ∅ (registered start es) := by
  refine invariant_labels (I := fun entries (w : World) =>
    w.server.sarsPeersUfragMaps = enter ∅ entries) rfl (fun entries w e h => ?_) es
  rw [step_registered, h, ← enter_append]

theorem entered_after (es : List Event) :
    (after step start es).server.sarsPeersAddrMaps =
      enter ∅ ((deliveries (outputs step start es)).map entryOf) := by
  refine invariant_outputs (I := fun out (w : World) =>
    w.server.sarsPeersAddrMaps = enter ∅ ((deliveries out).map entryOf)) rfl
    (fun out w e h => ?_) es
  have happend : deliveries (out ++ (w.step e).2) = deliveries out ++ deliveries (w.step e).2 :=
    List.filterMap_append
  rw [(step_move w e).entered, h, happend, List.map_append, enter_append]

/-- Each table is what has been entered into it, and of two entries the first one counts. -/
theorem first_come_first_kept (es : List Event) :
    (∀ id, (after step start es).server.sarsPeersStreamIDMaps.lookup id =
      if id ∈ asked start es then some ((asked start es).takeWhile (· ≠ id)).toFinset.card
      else none) ∧
    (after step start es).server.scaches.size = (asked start es).toFinset.card ∧
    (∀ key, (after step start es).server.sarsPeersUfragMaps.lookup key =
      ((registered start es).find? fun entry => entry.1 = key).map Prod.snd) ∧
    ∀ text, (after step start es).server.sarsPeersAddrMaps.lookup text =
      ((deliveries (outputs step start es)).find? fun d => d.2.2.text = text).map Prod.fst := by
  have hnumbered := numbered_after es
  refine ⟨hnumbered.caches, hnumbered.size, fun key => ?_, fun text => ?_⟩
  · rw [registered_after, lookup_enter, AList.lookup_empty, Option.none_or]
  · rw [entered_after, lookup_enter, AList.lookup_empty, Option.none_or, List.find?_map,
      Option.map_map]
    rfl

end Sars
