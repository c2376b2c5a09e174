import Sars.Enrolment
import Sars.Refinement

/-!
# The life of a request

A request is answered at most once and joins its stream at most once, after its
answer, with the peer that was made for it. Nothing else is ever written or
joined, and a peer is made for every answer. What the write of the answer comes
to is not looked at: it changes nothing but the code the handler returns.
-/

namespace Sars

open ByteMemory ObjectHeap GrowingMap EventRuns World

/-! ## What a request leaves behind -/

/-- What a request does outside its handler. -/
inductive Deed where
  | answered
  | joined (kind : RequestKind) (scache peer : Nat)
  deriving DecidableEq

/-- Answers and joins are done by requests and by nothing else. -/
def Output.ofRequest : Output → Bool
  | .write _ _ | .setPublisher _ _ | .addPlayer _ _ => true
  | _ => false

/-- The peer that is put into a stream. -/
def Output.member : Output → Option Nat
  | .setPublisher _ peer | .addPlayer _ peer => some peer
  | _ => none

def Output.answer : Output → Bool
  | .write _ _ => true
  | _ => false

/-- The peer was made for this request. -/
def World.Made (w : World) (i p : Nat) : Prop := (w.sessions i).map (fun s => s.1.peer) = some p

instance (w : World) (i p : Nat) : Decidable (w.Made i p) := inferInstanceAs (Decidable (_ = _))

/-- An output as the deed of request `i`. A join is the deed of the request that the
peer was made for. -/
def World.deed (w : World) (i : Nat) : Output → Option Deed
  | .write j _ => if j = i then some .answered else none
  | .setPublisher scache p => if w.Made i p then some (.joined .publish scache p) else none
  | .addPlayer scache p => if w.Made i p then some (.joined .play scache p) else none
  | _ => none

/-- All that a request has done by now. -/
def deeds : Option (Job × Bool) → List Deed
  | none => []
  | some (_, false) => [.answered]
  | some (job, true) => [.answered, .joined job.kind job.scache job.peer]

/-- What `handleWritten` emits. -/
def Job.joinOutput (job : Job) : Output :=
  match job.kind with
  | .publish => .setPublisher job.scache job.peer
  | .play => .addPlayer job.scache job.peer

theorem handleWritten_joinOutput (srv : RTCServer) (job : Job) (ret : Int) :
    (Signalling.handleWritten srv job ret).2.1 = [job.joinOutput] := by
  simp only [Signalling.handleWritten, Job.joinOutput]
  cases job.kind <;> rfl

theorem deed_joinOutput (w : World) (i : Nat) (job : Job) :
    w.deed i job.joinOutput =
      if w.Made i job.peer then some (.joined job.kind job.scache job.peer) else none := by
  simp only [Job.joinOutput]
  cases job.kind <;> rfl

theorem member_joinOutput (job : Job) : job.joinOutput.member = some job.peer := by
  rw [Job.joinOutput]
  cases job.kind <;> rfl

theorem answer_joinOutput (job : Job) : job.joinOutput.answer = false := by
  rw [Job.joinOutput]
  cases job.kind <;> rfl

theorem deed_other {o : Output} (h : o.ofRequest = false) (w : World) (i : Nat) :
    w.deed i o = none := by
  cases o with
  | write => cases h
  | setPublisher => cases h
  | addPlayer => cases h
  | _ => rfl

theorem deed_congr {w w' : World} {i : Nat} (o : Output)
    (same : ∀ p, o.member = some p → (w'.Made i p ↔ w.Made i p)) : w'.deed i o = w.deed i o := by
  cases o with
  | setPublisher scache p => simp only [World.deed, same p rfl]
  | addPlayer scache p => simp only [World.deed, same p rfl]
  | _ => rfl

/-! ## One step -/

/-- The three things a step can do to requests. -/
inductive Served (w w' : World) : List Output → Prop where
  | silent {out : List Output} (sessions : w'.sessions = w.sessions)
      (size : w'.server.peers.size = w.server.peers.size)
      (none : ∀ o ∈ out, o.ofRequest = false) : Served w w' out
  | answered {i : Nat} {job : Job} {answer : Bytes} (free : w.sessions i = none)
      (peer : job.peer = w.server.peers.size)
      (size : w'.server.peers.size = w.server.peers.size + 1)
      (sessions : w'.sessions = Function.update w.sessions i (some (job, false))) :
      Served w w' [.write i answer]
  | joined {i : Nat} {job : Job} (suspended : w.sessions i = some (job, false))
      (size : w'.server.peers.size = w.server.peers.size)
      (sessions : w'.sessions = Function.update w.sessions i (some (job, true))) :
      Served w w' [job.joinOutput]

theorem callback_noRequest {srv srv' : RTCServer} {p : Nat} {cb : RTCServer.Callback}
    {out : List Output} (call : srv.callback p cb = some (srv', out)) :
    ∀ o ∈ out, o.ofRequest = false := by
  intro o ho
  have hemits := callback_emits call o ho
  cases o with
  | write | setPublisher | addPlayer => cases hemits
  | _ => rfl

theorem Move.served {w w' : World} {e : Event} {out : List Output} (hm : Move w e w' out) :
    Served w w' out := by
  cases hm with
  | idle => exact .silent rfl rfl (List.forall_mem_nil _)
  | stopped => exact .silent rfl rfl (List.forall_mem_nil _)
  | accepted kind => exact .silent (sessionsOf_accepted _ kind) rfl (List.forall_mem_nil _)
  | rejected reading _ opened _ =>
    exact .silent (sessionsOf_set_same reading rfl) (congrArg Heap.size opened.peers.1)
      (List.forall_mem_nil _)
  | @begun i _ _ _ _ _ _ _ _ _ _ reading _ opened _ created =>
    have hfree : w.sessions i = none := by
      simp only [World.sessions, sessionsOf, reading]
      rfl
    refine .answered hfree ?_ ?_ (sessionsOf_set reading _)
    · exact congrArg Heap.size opened.peers.1
    · rw [created.size, opened.peers.1]
  | @finished i job ret writing =>
    have hsuspended : w.sessions i = some (job, false) := by
      simp only [World.sessions, sessionsOf, writing]
      rfl
    rw [handleWritten_joinOutput]
    refine .joined hsuspended ?_ (sessionsOf_set writing _)
    rw [handleWritten_link]
    exact Heap.size_modify _ _ _
  | @heard buf addr p _ =>
    refine .silent rfl (Heap.size_modify w.server.peers p _) ?_
    simp only [RTCServer.udpSocketRecv]
    split_ifs <;> simp [Output.ofRequest]
  | called _ call => exact .silent rfl (callback_framed call).size (callback_noRequest call)

/-! ## Runs -/

/-- The outputs so far are what the requests have done. -/
structure Accounted (out : List Output) (w : World) : Prop where
  enrolled : Enrolled w.sessions w.server
  done : ∀ i, out.filterMap (w.deed i) = deeds (w.sessions i)
  members : ∀ o ∈ out, ∀ p, o.member = some p → p < w.server.peers.size
  answers : out.countP Output.answer = w.server.peers.size

theorem accounted_start : Accounted [] start where
  enrolled := enrolled_start
  done _ := rfl
  members := List.forall_mem_nil _
  answers := rfl

theorem made_update {w w' : World} {i j p : Nat} {job : Job} {done : Bool}
    (sessions : w'.sessions = Function.update w.sessions i (some (job, done))) :
    w'.Made j p ↔ if j = i then job.peer = p else w.Made j p := by
  simp only [World.Made, sessions]
  by_cases hj : j = i
  · subst hj
    rw [Function.update_self, if_pos rfl, Option.map_some, Option.some.injEq]
  · rw [Function.update_of_ne hj, if_neg hj]

theorem Accounted.silent {out new : List Output} {w w' : World} (h : Accounted out w)
    (enrolled : Enrolled w'.sessions w'.server) (sessions : w'.sessions = w.sessions)
    (size : w'.server.peers.size = w.server.peers.size)
    (silent : ∀ o ∈ new, o.ofRequest = false) : Accounted (out ++ new) w' := by
  refine ⟨enrolled, ?_, ?_, ?_⟩
  · intro i
    have hnew : new.filterMap (w'.deed i) = [] :=
      List.filterMap_eq_nil_iff.mpr fun o ho => deed_other (silent o ho) w' i
    have hold : out.filterMap (w'.deed i) = out.filterMap (w.deed i) :=
      List.filterMap_congr fun o _ => deed_congr o fun p _ => by simp only [World.Made, sessions]
    rw [List.filterMap_append, hnew, hold, h.done, sessions, List.append_nil]
  · rw [size]
    intro o ho p hp
    rcases List.mem_append.mp ho with hold | hnew
    · exact h.members o hold p hp
    · have hsilent := silent o hnew
      cases o with
      | setPublisher | addPlayer => cases hsilent
      | _ => cases hp
  · have hnew : new.countP Output.answer = 0 := by
      refine List.countP_eq_zero.mpr fun o ho hanswer => ?_
      have hsilent := silent o ho
      cases o with
      | write => cases hsilent
      | _ => cases hanswer
    rw [List.countP_append, hnew, h.answers, size, Nat.add_zero]

theorem Accounted.answered {out : List Output} {w w' : World} {i : Nat} {job : Job}
    {answer : Bytes} (h : Accounted out w) (enrolled : Enrolled w'.sessions w'.server)
    (free : w.sessions i = none) (peer : job.peer = w.server.peers.size)
    (size : w'.server.peers.size = w.server.peers.size + 1)
    (sessions : w'.sessions = Function.update w.sessions i (some (job, false))) :
    Accounted (out ++ [.write i answer]) w' := by
  refine ⟨enrolled, ?_, ?_, ?_⟩
  · intro j
    -- the peer is new, so nothing before was about it
    have hold : out.filterMap (w'.deed j) = out.filterMap (w.deed j) := by
      refine List.filterMap_congr fun o ho => deed_congr o fun p hp => ?_
      have hlt := h.members o ho p hp
      rw [made_update sessions]
      by_cases hj : j = i
      · rw [if_pos hj, hj]
        constructor
        · intro hpeer
          omega
        · intro hmade
          rw [World.Made, free] at hmade
          cases hmade
      · rw [if_neg hj]
    rw [List.filterMap_append, hold, h.done, sessions]
    by_cases hj : j = i
    · subst hj
      simp [free, deeds, World.deed]
    · simp [Function.update_of_ne hj, World.deed, Ne.symm hj]
  · rw [size]
    intro o ho p hp
    rcases List.mem_append.mp ho with hold | hnew
    · have hlt := h.members o hold p hp
      omega
    · rw [List.mem_singleton.mp hnew] at hp
      cases hp
  · rw [List.countP_append, h.answers, size]
    rfl

theorem Accounted.joined {out : List Output} {w w' : World} {i : Nat} {job : Job}
    (h : Accounted out w) (enrolled : Enrolled w'.sessions w'.server)
    (suspended : w.sessions i = some (job, false))
    (size : w'.server.peers.size = w.server.peers.size)
    (sessions : w'.sessions = Function.update w.sessions i (some (job, true))) :
    Accounted (out ++ [job.joinOutput]) w' := by
  have hsame : ∀ j p, w'.Made j p ↔ w.Made j p := by
    intro j p
    rw [made_update sessions]
    by_cases hj : j = i
    · rw [if_pos hj, hj, World.Made, suspended, Option.map_some, Option.some.injEq]
    · rw [if_neg hj]
  refine ⟨enrolled, ?_, ?_, ?_⟩
  · intro j
    have hold : out.filterMap (w'.deed j) = out.filterMap (w.deed j) :=
      List.filterMap_congr fun o _ => deed_congr o fun p _ => hsame j p
    rw [List.filterMap_append, hold, h.done, sessions]
    by_cases hj : j = i
    · subst hj
      have hmade : w'.Made j job.peer := by
        rw [made_update sessions, if_pos rfl]
      have hnew : w'.deed j job.joinOutput = some (.joined job.kind job.scache job.peer) :=
        (deed_joinOutput w' j job).trans (if_pos hmade)
      rw [suspended, Function.update_self, List.filterMap_cons_some hnew]
      rfl
    · have hother : ¬ w'.Made j job.peer := by
        rw [hsame]
        intro hmade
        obtain ⟨⟨b, done⟩, hb, hpeer⟩ := Option.map_eq_some_iff.mp hmade
        exact hj (h.enrolled.inv.distinct j i b job done false hb suspended hpeer)
      have hnew : w'.deed j job.joinOutput = none :=
        (deed_joinOutput w' j job).trans (if_neg hother)
      rw [Function.update_of_ne hj, List.filterMap_cons_none hnew]
      exact List.append_nil _
  · rw [size]
    intro o ho p hp
    rcases List.mem_append.mp ho with hold | hnew
    · exact h.members o hold p hp
    · rw [List.mem_singleton.mp hnew, member_joinOutput] at hp
      rw [← Option.some.inj hp]
      exact (h.enrolled.inv.peer i job false suspended).1
  · rw [List.countP_append, h.answers, size, List.countP_singleton, answer_joinOutput]
    rfl

theorem Accounted.step {out : List Output} {w : World} (h : Accounted out w) (e : Event) :
    Accounted (out ++ (w.step e).2) (w.step e).1 := by
  have enrolled := h.enrolled.step (e := e)
  have hserved := (step_move w e).served
  generalize w.step e = r at enrolled hserved ⊢
  obtain ⟨w', new⟩ := r
  cases hserved with
  | silent sessions size silent => exact h.silent enrolled sessions size silent
  | answered free peer size sessions => exact h.answered enrolled free peer size sessions
  | joined suspended size sessions => exact h.joined enrolled suspended size sessions

theorem accounted_after (es : List Event) :
    Accounted (outputs step start es) (after step start es) :=
  invariant_outputs accounted_start (fun _ _ e h => h.step e) es

/-- Every answer and every join is the deed of one request only. -/
theorem Accounted.once {out : List Output} {w : World} (h : Accounted out w) {o : Output}
    (ho : o ∈ out) (hrequest : o.ofRequest = true) : ∃! i, ∃ d, w.deed i o = some d := by
  have joined : ∀ p, o.member = some p → (∀ i, (∃ d, w.deed i o = some d) ↔ w.Made i p) →
      ∃! i, ∃ d, w.deed i o = some d := by
    intro p hp hdeed
    obtain ⟨i, job, done, hi, hpeer⟩ := h.enrolled.owned p (h.members o ho p hp)
    refine ⟨i, (hdeed i).mpr ?_, fun j hj => ?_⟩
    · rw [World.Made, hi, Option.map_some, hpeer]
    · obtain ⟨⟨b, done'⟩, hb, hpeer'⟩ := Option.map_eq_some_iff.mp ((hdeed j).mp hj)
      exact h.enrolled.inv.distinct j i b job done' done hb hi (hpeer'.trans hpeer.symm)
  cases o with
  | write j answer =>
    refine ⟨j, ⟨.answered, if_pos rfl⟩, fun i hi => ?_⟩
    obtain ⟨d, hd⟩ := hi
    simp only [World.deed] at hd
    split_ifs at hd with hij
    exact hij.symm
  | setPublisher scache p =>
    refine joined p rfl fun i => ?_
    by_cases hmade : w.Made i p <;> simp [World.deed, hmade]
  | addPlayer scache p =>
    refine joined p rfl fun i => ?_
    by_cases hmade : w.Made i p <;> simp [World.deed, hmade]
  | feedMediaData | requestIFrame | udpSocketRecv | processRemoteData | sendTo => cases hrequest

/-- What has been written and joined is what each request has done by now, in its order; no
answer and no join is left over, and there are as many peers as answers. -/
theorem requests_accounted (es : List Event) :
    (∀ i, (outputs step start es).filterMap ((after step start es).deed i) =
        deeds ((after step start es).sessions i)) ∧
      (∀ o ∈ outputs step start es, o.ofRequest = true →
        ∃! i, ∃ d, (after step start es).deed i o = some d) ∧
      (outputs step start es).countP Output.answer = (after step start es).server.peers.size :=
  have h := accounted_after es
  ⟨h.done, fun _ ho => h.once ho, h.answers⟩

/-! ## The result of the write -/

/-- The handler as if the write of its answer had succeeded. -/
def Handler.succeed : Handler → Handler
  | .returned _ (some job) => .returned 0 (some job)
  | h => h

def Event.succeed : Event → Event
  | .written i _ => .written i 0
  | e => e

def World.succeed (w : World) : World := { w with handlers := w.handlers.map Handler.succeed }

section

variable {w : World}

theorem get_succeed (w : World) (i : Nat) :
    w.succeed.handlers[i]? = (w.handlers[i]?).map Handler.succeed :=
  List.getElem?_map

theorem succeed_reading {i : Nat} {kind : RequestKind} :
    w.succeed.handlers[i]? = some (.reading kind) ↔ w.handlers[i]? = some (.reading kind) := by
  rw [get_succeed]
  constructor
  · intro h
    obtain ⟨handler, hget, hsucceed⟩ := Option.map_eq_some_iff.mp h
    cases handler with
    | reading =>
      cases hsucceed
      exact hget
    | writing => cases hsucceed
    | returned ret job => cases job <;> cases hsucceed
  · intro h
    rw [h]
    rfl

theorem succeed_writing {i : Nat} {job : Job} :
    w.succeed.handlers[i]? = some (.writing job) ↔ w.handlers[i]? = some (.writing job) := by
  rw [get_succeed]
  constructor
  · intro h
    obtain ⟨handler, hget, hsucceed⟩ := Option.map_eq_some_iff.mp h
    cases handler with
    | reading => cases hsucceed
    | writing =>
      cases hsucceed
      exact hget
    | returned ret job => cases job <;> cases hsucceed
  · intro h
    rw [h]
    rfl

theorem map_set_succeed (handlers : List Handler) (i : Nat) (h : Handler) :
    (handlers.set i h).map Handler.succeed = (handlers.map Handler.succeed).set i h.succeed :=
  List.map_set

theorem stepBody_succeed (w : World) (i : Nat) (kind : RequestKind) (offer streamUrl : Bytes)
    (engine : Engine) :
    w.succeed.stepBody i kind offer streamUrl engine =
      ((w.stepBody i kind offer streamUrl engine).1.succeed,
        (w.stepBody i kind offer streamUrl engine).2) := by
  simp only [World.stepBody, World.succeed]
  cases Signalling.handleBody kind w.server offer streamUrl engine with
  | exit => rfl
  | ret srv code => simp only [map_set_succeed, Handler.succeed]
  | write srv job answer => simp only [map_set_succeed, Handler.succeed]

theorem stepWritten_succeed (w : World) (i : Nat) (job : Job) (ret : Int) :
    w.succeed.stepWritten i job 0 =
      ((w.stepWritten i job ret).1.succeed, (w.stepWritten i job ret).2) := by
  simp only [World.stepWritten, World.succeed, map_set_succeed, Handler.succeed,
    Signalling.handleWritten]
  cases job.kind <;> rfl

theorem stepCallback_succeed (w : World) (p : Nat) (cb : RTCServer.Callback) :
    w.succeed.stepCallback p cb =
      ((w.stepCallback p cb).1.succeed, (w.stepCallback p cb).2) := by
  by_cases connected : w.Connected p
  · have connected' : w.succeed.Connected p := connected
    cases call : w.server.callback p cb with
    | none =>
      have call' : w.succeed.server.callback p cb = none := call
      rw [stepCallback_none connected call, stepCallback_none connected' call']
      rfl
    | some result =>
      obtain ⟨srv, out⟩ := result
      have call' : w.succeed.server.callback p cb = some (srv, out) := call
      rw [stepCallback_some connected call, stepCallback_some connected' call']
      rfl
  · have connected' : ¬ w.succeed.Connected p := connected
    simp only [World.stepCallback, if_neg connected, if_neg connected']

theorem stepDatagram_succeed (w : World) (buf : Datagram) (addr : SockaddrIn) :
    w.succeed.stepDatagram buf.val addr =
      ((w.stepDatagram buf.val addr).1.succeed, (w.stepDatagram buf.val addr).2) := by
  rw [stepDatagram_eq, stepDatagram_eq]
  simp only [World.succeed]
  cases target w.server buf.val addr <;> rfl

end

theorem step_succeed (w : World) (e : Event) :
    w.succeed.step e.succeed = ((w.step e).1.succeed, (w.step e).2) := by
  by_cases running : w.status = .running
  · have running' : w.succeed.status = .running := running
    cases e with
    | accept kind =>
      change w.succeed.step (.accept kind) = _
      rw [step_accept running, step_accept running']
      simp only [World.succeed, List.map_append]
      rfl
    | body i offer streamUrl engine =>
      change w.succeed.step (.body i offer streamUrl engine) = _
      by_cases reading : ∃ kind, w.handlers[i]? = some (.reading kind)
      · obtain ⟨kind, reading⟩ := reading
        rw [step_body running reading, step_body running' (succeed_reading.mpr reading)]
        exact stepBody_succeed w i kind offer streamUrl engine
      · have other := not_exists.mp reading
        rw [step_body_idle other, step_body_idle fun kind h => other kind (succeed_reading.mp h)]
    | written i ret =>
      change w.succeed.step (.written i 0) = _
      by_cases writing : ∃ job, w.handlers[i]? = some (.writing job)
      · obtain ⟨job, writing⟩ := writing
        rw [step_written running writing, step_written running' (succeed_writing.mpr writing)]
        exact stepWritten_succeed w i job ret
      · have other := not_exists.mp writing
        rw [step_written_idle other,
          step_written_idle fun job h => other job (succeed_writing.mp h)]
    | datagram buf addr =>
      change w.succeed.step (.datagram buf addr) = _
      rw [step_datagram_eq running, step_datagram_eq running']
      exact stepDatagram_succeed w buf addr
    | callback p cb =>
      change w.succeed.step (.callback p cb) = _
      rw [step_callback running, step_callback running']
      exact stepCallback_succeed w p cb
  · have stopped : w.succeed.status ≠ .running := running
    rw [step_stopped running, step_stopped stopped]

/-- Whatever becomes of the answers, the server, the process and all they emit are the same. -/
theorem write_results_unread (es : List Event) :
    run step start (es.map Event.succeed) =
      ((after step start es).succeed, outputs step start es) :=
  run_lockstep step_succeed start es

end Sars
