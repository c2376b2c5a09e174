import Sars.Survival
import Sars.RoomRefinement

/-!
# The HTTP front of the server

The three handlers that `init` registers, in front of the signalling requests:
the two that start a request look at the method, the third one serves a page.
A body is taken apart by the JSON library, which throws on anything that is not
an object with the two strings; the exception leaves the handler before it has
done anything, and whether the HTTP library catches it is left open. The `dump`
of the engine's answer is assumed not to throw. The whole server is a run of the
signalling process, and it ends in two more ways: when the page it serves cannot
be read, and when nobody catches an exception.
-/

namespace Sars

open ByteMemory ObjectHeap GrowingMap EventRuns World

/-- The handlers of `HttpServeMux`. -/
inductive Endpoint where
  | default
  | signalling (kind : RequestKind)

structure HttpMessage where
  path : Bytes
  method : Bytes

/-- "/" -/
def rootPath : Bytes := [0x2F]

/-- "/hello" -/
def helloPath : Bytes := [0x2F, 0x68, 0x65, 0x6C, 0x6C, 0x6F]

/-- "GET" -/
def getMethod : Bytes := [0x47, 0x45, 0x54]

/-- "POST" -/
def postMethod : Bytes := [0x50, 0x4F, 0x53, 0x54]

/-- "text/html" -/
def textHtml : Bytes := [0x74, 0x65, 0x78, 0x74, 0x2F, 0x68, 0x74, 0x6D, 0x6C]

/-- "text/jsonp" -/
def textJsonp : Bytes := [0x74, 0x65, 0x78, 0x74, 0x2F, 0x6A, 0x73, 0x6F, 0x6E, 0x70]

/-- "hello world" -/
def helloWorld : Bytes := [0x68, 0x65, 0x6C, 0x6C, 0x6F, 0x20, 0x77, 0x6F, 0x72, 0x6C, 0x64]

/-- The server with its HTTP front; `thrown` are the requests whose body did not parse. -/
structure Front where
  world : World := {}
  exited : Bool := false
  thrown : List Nat := []

inductive FrontEvent where
  | request (endpoint : Endpoint) (r : HttpMessage) (indexHtml : Option Bytes)
  | body (handler : Nat) (body : Bytes) (engine : Engine)
  | written (handler : Nat) (ret : Int)
  | datagram (buf : Datagram) (addr : SockaddrIn)
  | callback (peer : Nat) (cb : RTCServer.Callback)

inductive FrontOutput where
  | core (o : Output)
  | page (contentLength : Int32) (contentType : Bytes) (status : Option Nat) (body : Bytes)
  | httpError (code : Nat)

namespace Front

/-- The process has neither exited nor crashed. -/
def Up (f : Front) : Prop := f.exited = false ∧ f.world.status = .running

instance (f : Front) : Decidable f.Up := inferInstanceAs (Decidable (_ ∧ _))

/-- A step of the process behind the front. -/
def stepCore (f : Front) (e : Event) : Front × List FrontOutput :=
  ({ f with world := (f.world.step e).1 }, (f.world.step e).2.map .core)

/-- `none` is a file that cannot be opened. -/
def serveStatic (f : Front) (indexHtml : Option Bytes) : Front × List FrontOutput :=
  match indexHtml with
  | none => ({ f with exited := true }, [])
  | some page => (f, [.page (Int32.ofNat page.length) textHtml (some 200) page])

def serveHttp (f : Front) (endpoint : Endpoint) (r : HttpMessage) (indexHtml : Option Bytes) :
    Front × List FrontOutput :=
  match endpoint with
  | .default =>
    if r.path = rootPath then f.serveStatic indexHtml
    else if r.path = helloPath ∧ r.method = getMethod then
      (f, [.page (Int32.ofNat helloWorld.length) textJsonp none helloWorld])
    else (f, [])
  | .signalling kind =>
    if r.method ≠ postMethod then (f, [.httpError 404]) else f.stepCore (.accept kind)

section

-- `json::parse` and the two strings taken from what it returns; `none` is an exception
variable (json : Bytes → Option (Bytes × Bytes))

-- whether the caller of `serve_http` catches exceptions
variable (caught : Bool)

def stepBody (f : Front) (i : Nat) (body : Bytes) (engine : Engine) :
    Front × List FrontOutput :=
  if i ∈ f.thrown then (f, [])
  else
    match f.world.handlers[i]?, json body with
    | some (.reading _), none =>
      if caught then ({ f with thrown := i :: f.thrown }, []) else ({ f with exited := true }, [])
    | _, some (offer, streamUrl) => f.stepCore (.body i offer streamUrl engine)
    | _, none => (f, [])

def step (f : Front) (e : FrontEvent) : Front × List FrontOutput :=
  if ¬ f.Up then (f, [])
  else
    match e with
    | .request endpoint r indexHtml => f.serveHttp endpoint r indexHtml
    | .body i body engine => f.stepBody json caught i body engine
    | .written i ret => f.stepCore (.written i ret)
    | .datagram buf addr => f.stepCore (.datagram buf addr)
    | .callback p cb => f.stepCore (.callback p cb)

/-- What an event is to the process behind the front. -/
def meaning (f : Front) : FrontEvent → Option Event
  | .request .default _ _ => none
  | .request (.signalling kind) r _ => if r.method = postMethod then some (.accept kind) else none
  | .body i body engine =>
    if i ∈ f.thrown then none
    else (json body).map fun texts => .body i texts.1 texts.2 engine
  | .written i ret => some (.written i ret)
  | .datagram buf addr => some (.datagram buf addr)
  | .callback p cb => some (.callback p cb)

end

/-- The page is asked for and cannot be read, or a request's body throws and nobody catches it. -/
def Exits (json : Bytes → Option (Bytes × Bytes)) (caught : Bool) (f : Front) : FrontEvent → Prop
  | .request .default r none => r.path = rootPath
  | .body i body _ => caught = false ∧ i ∉ f.thrown ∧ json body = none ∧
      ∃ kind, f.world.handlers[i]? = some (.reading kind)
  | _ => False

/-- What the server survives. -/
def Survives (json : Bytes → Option (Bytes × Bytes)) (caught : Bool) (f : Front)
    (e : FrontEvent) : Prop :=
  ¬ Exits json caught f e ∧ ∀ core, f.meaning json e = some core → Sars.Survives f.world core

/-- What the process behind the front emits. -/
def coreOutput : FrontOutput → Option Output
  | .core o => some o
  | _ => none

/-! ## One step -/

section

variable {json : Bytes → Option (Bytes × Bytes)} {caught : Bool} {f : Front}

theorem filterMap_coreOutput (out : List Output) :
    (out.map FrontOutput.core).filterMap coreOutput = out := by
  rw [List.filterMap_map]
  exact List.filterMap_some

theorem step_down (down : ¬ f.Up) (e : FrontEvent) : f.step json caught e = (f, []) := if_pos down

/-- The front only adds pages and errors, and it may exit by itself. -/
inductive Passed (json : Bytes → Option (Bytes × Bytes)) (caught : Bool) (f : Front)
    (e : FrontEvent) : Front × List FrontOutput → Prop where
  | core {c : Event} (means : f.meaning json e = some c) (spared : ¬ Exits json caught f e) :
      Passed json caught f e (f.stepCore c)
  | answered {out : List FrontOutput} (means : f.meaning json e = none)
      (spared : ¬ Exits json caught f e)
      (own : out.filterMap coreOutput = []) : Passed json caught f e (f, out)
  | threw (i : Nat) (means : f.meaning json e = none) (spared : ¬ Exits json caught f e) :
      Passed json caught f e ({ f with thrown := i :: f.thrown }, [])
  | exits (means : f.meaning json e = none) (page : Exits json caught f e) :
      Passed json caught f e ({ f with exited := true }, [])

theorem serveHttp_passed (endpoint : Endpoint) (r : HttpMessage) (indexHtml : Option Bytes) :
    Passed json caught f (.request endpoint r indexHtml) (f.serveHttp endpoint r indexHtml) := by
  cases endpoint with
  | default =>
    simp only [serveHttp]
    split_ifs with hroot
    · cases indexHtml with
      | none => exact .exits rfl hroot
      | some page => exact .answered rfl not_false rfl
    · refine .answered rfl ?_ rfl
      cases indexHtml with
      | none => exact hroot
      | some page => exact not_false
    · refine .answered rfl ?_ rfl
      cases indexHtml with
      | none => exact hroot
      | some page => exact not_false
  | signalling kind =>
    simp only [serveHttp]
    by_cases hpost : r.method = postMethod
    · rw [if_neg (not_not_intro hpost)]
      exact .core (if_pos hpost) not_false
    · rw [if_pos hpost]
      exact .answered (if_neg hpost) not_false rfl

theorem stepBody_passed (i : Nat) (body : Bytes) (engine : Engine) :
    Passed json caught f (.body i body engine) (f.stepBody json caught i body engine) := by
  simp only [stepBody]
  by_cases hthrown : i ∈ f.thrown
  · rw [if_pos hthrown]
    exact .answered (if_pos hthrown) (fun h => h.2.1 hthrown) rfl
  · rw [if_neg hthrown]
    cases hjson : json body with
    | some texts =>
      have means : f.meaning json (.body i body engine) =
          some (.body i texts.1 texts.2 engine) := by
        simp only [meaning, if_neg hthrown, hjson, Option.map_some]
      have spared : ¬ Exits json caught f (.body i body engine) := by
        rintro ⟨_, _, hnone, _⟩
        rw [hjson] at hnone
        cases hnone
      cases f.world.handlers[i]? with
      | none => exact .core means spared
      | some handler => cases handler <;> exact .core means spared
    | none =>
      have means : f.meaning json (.body i body engine) = none := by
        simp only [meaning, if_neg hthrown, hjson, Option.map_none]
      cases hhandler : f.world.handlers[i]? with
      | none =>
        refine .answered means ?_ rfl
        rintro ⟨_, _, _, kind, hkind⟩
        rw [hhandler] at hkind
        cases hkind
      | some handler =>
        cases handler with
        | reading kind =>
          cases caught with
          | true => exact .threw i means fun h => Bool.noConfusion h.1
          | false => exact .exits means ⟨rfl, hthrown, hjson, kind, hhandler⟩
        | writing | returned =>
          refine .answered means ?_ rfl
          rintro ⟨_, _, _, kind, hkind⟩
          rw [hhandler] at hkind
          cases hkind

theorem step_passed (up : f.Up) (e : FrontEvent) :
    Passed json caught f e (f.step json caught e) := by
  simp only [step, if_neg (not_not_intro up)]
  cases e with
  | request endpoint r indexHtml => exact serveHttp_passed endpoint r indexHtml
  | body i body engine => exact stepBody_passed i body engine
  | written => exact .core rfl not_false
  | datagram => exact .core rfl not_false
  | callback => exact .core rfl not_false

/-- The condition is exact for each step. -/
theorem step_up_iff (e : FrontEvent) (inv : StreamInv f.world.sessions f.world.server)
    (up : f.Up) : (f.step json caught e).1.Up ↔ Survives json caught f e := by
  have hpassed : Passed json caught f e (f.step json caught e) := step_passed up e
  generalize f.step json caught e = r at hpassed ⊢
  cases hpassed with
  | @core c means spared =>
    have hcore := step_running_iff c inv up.2
    simp only [Survives, means, Option.some.injEq, forall_eq', ← hcore]
    exact ⟨fun h => ⟨spared, h.2⟩, fun h => ⟨up.1, h.2⟩⟩
  | answered means spared =>
    refine ⟨fun _ => ⟨spared, fun core h => ?_⟩, fun _ => up⟩
    rw [means] at h
    cases h
  | threw i means spared =>
    refine ⟨fun _ => ⟨spared, fun core h => ?_⟩, fun _ => up⟩
    rw [means] at h
    cases h
  | exits means page =>
    constructor
    · intro h
      cases h.1
    · exact fun h => absurd page h.1

end

/-! ## Runs -/

section

variable (json : Bytes → Option (Bytes × Bytes)) (caught : Bool)

/-- The whole server is the signalling process for what passes its front. -/
def coreRefinement : Refinement (Front.step json caught) World.step where
  Inv _ := True
  abs := Front.world
  act f e := if f.Up then (f.meaning json e).toList else []
  obs _ := coreOutput
  keep _ _ _ := trivial
  matched f e _ := by
    by_cases up : f.Up
    · rw [if_pos up]
      have hpassed : Passed json caught f e (f.step json caught e) := step_passed up e
      generalize f.step json caught e = r at hpassed ⊢
      cases hpassed with
      | core means spared =>
        rw [means, Option.toList_some, run_singleton, stepCore, filterMap_coreOutput]
      | answered means spared own =>
        rw [means, own]
        rfl
      | threw i means spared =>
        rw [means]
        rfl
      | exits means page =>
        rw [means]
        rfl
    · rw [if_neg up, step_down up]
      rfl

theorem streamInv_step (f : Front) (e : FrontEvent)
    (h : StreamInv f.world.sessions f.world.server) :
    StreamInv (f.step json caught e).1.world.sessions (f.step json caught e).1.world.server := by
  by_cases up : f.Up
  · have hpassed : Passed json caught f e (f.step json caught e) := step_passed up e
    generalize f.step json caught e = r at hpassed ⊢
    cases hpassed with
    | @core c => exact h.session (step_session f.world c)
    | answered => exact h
    | threw => exact h
    | exits => exact h
  · rw [step_down up]
    exact h

/-- The whole server is up after a run exactly when no step serves a page that cannot be read or
lets an exception out, and the process behind the front survives every step that reaches it. -/
theorem server_up_iff (es : List FrontEvent) :
    (after (Front.step json caught) {} es).Up ↔
      Meets (Front.step json caught) (Survives json caught) {} es := by
  refine lasts_iff Up (I := fun f : Front => StreamInv f.world.sessions f.world.server)
    (streamInv_step json caught) (fun f e inv up => step_up_iff e inv up) (fun f e down => ?_)
    streamInv_start ⟨rfl, rfl⟩ es
  rw [step_down down]
  exact down

/-- Behind the front runs the signalling process, and what it emits is what the server emits
apart from pages and errors. -/
theorem server_runs_process (es : List FrontEvent) :
    run World.step start ((coreRefinement json caught).acts {} es) =
      ((after (Front.step json caught) {} es).world,
        (outputs (Front.step json caught) {} es).filterMap coreOutput) := by
  have hseen :=
    (coreRefinement json caught).seen_at_end (s := {}) trivial (fun _ _ _ _ _ _ => rfl) es
  have hrun := (coreRefinement json caught).run_acts (s := {}) trivial es
  rw [hseen] at hrun
  exact hrun

/-- So the whole server is one room for each stream as well. -/
theorem server_refines_rooms (es : List FrontEvent) :
    run roomsStep (fun _ => Room.empty)
        (roomRefinement.acts start ((coreRefinement json caught).acts {} es)) =
      ((after (Front.step json caught) {} es).world.room,
        ((outputs (Front.step json caught) {} es).filterMap coreOutput).filterMap
          (after (Front.step json caught) {} es).world.shown) := by
  obtain ⟨hstate, hout⟩ := run_eq (server_runs_process json caught es)
  rw [← hstate, ← hout]
  exact process_refines_rooms _

end

end Front

end Sars
