import Sars.StreamUrl
import Sars.WorldSteps

/-!
# Requests that are answered

A stream url without a stream id ends the process. Every other request gets a
status code, whatever runs between its two halves.
-/

namespace Sars

open ByteMemory EventRuns World

/-- The process runs and the handler has returned a status code. -/
def World.HasReturned (w : World) (i : Nat) : Prop :=
  w.status = .running ∧ ∃ code job, w.handlers[i]? = some (.returned code job)

/-- The process survives the body, and as long as it runs the handler returns a status code
when its write does, whatever is interleaved with it. -/
def Answered (w : World) (i : Nat) (offer streamUrl : Bytes) (engine : Engine) : Prop :=
  (w.step (.body i offer streamUrl engine)).1.status = .running ∧
  ∀ es ret, (after step (w.step (.body i offer streamUrl engine)).1 es).status = .running →
    (after step (w.step (.body i offer streamUrl engine)).1 (es ++ [.written i ret])).HasReturned i

/-- The handler has read its body: it is suspended in its write or has returned. -/
def Handler.hasRead : Handler → Bool
  | .reading _ => false
  | .writing _ | .returned _ _ => true

theorem Move.hasRead {w w' : World} {e : Event} {out : List Output} (hm : Move w e w' out)
    {i : Nat} (h : ∃ handler, w.handlers[i]? = some handler ∧ handler.hasRead = true) :
    ∃ handler, w'.handlers[i]? = some handler ∧ handler.hasRead = true := by
  have set : ∀ (j : Nat) (new : Handler), new.hasRead = true →
      ∃ handler, (w.handlers.set j new)[i]? = some handler ∧ handler.hasRead = true := by
    intro j new hnew
    obtain ⟨handler, hi, hread⟩ := h
    have hlt : i < w.handlers.length := (List.getElem?_eq_some_iff.mp hi).1
    by_cases hij : j = i
    · subst hij
      exact ⟨new, by simp [hlt], hnew⟩
    · exact ⟨handler, by rw [List.getElem?_set_ne hij, hi], hread⟩
  cases hm with
  | idle => exact h
  | stopped => exact h
  | accepted kind =>
    obtain ⟨handler, hi, hread⟩ := h
    have hlt : i < w.handlers.length := (List.getElem?_eq_some_iff.mp hi).1
    exact ⟨handler, by rw [List.getElem?_append_left hlt, hi], hread⟩
  | rejected => exact set _ _ rfl
  | begun => exact set _ _ rfl
  | finished => exact set _ _ rfl
  | heard => exact h
  | called => exact h

/-- The return of the write ends the handler. -/
theorem written_hasReturned {w : World} {i : Nat} (running : w.status = .running)
    (h : ∃ handler, w.handlers[i]? = some handler ∧ handler.hasRead = true) (ret : Int) :
    (w.step (.written i ret)).1.HasReturned i := by
  obtain ⟨handler, hi, hread⟩ := h
  have hlt : i < w.handlers.length := (List.getElem?_eq_some_iff.mp hi).1
  cases handler with
  | reading kind => cases hread
  | writing job =>
    rw [step_written running hi]
    exact ⟨running, (Signalling.handleWritten w.server job ret).2.2, some job, by
      simp [World.stepWritten, hlt]⟩
  | returned code job =>
    have hidle : w.step (.written i ret) = (w, []) := by simp [World.step, running, hi]
    rw [hidle]
    exact ⟨running, code, job, hi⟩

/-- A request is answered exactly when its url has a stream id. -/
theorem answered_iff (es : List Event) (i : Nat) (kind : RequestKind) (offer streamUrl : Bytes)
    (engine : Engine) (fits : streamUrl.length < 2 ^ 64)
    (running : (after step start es).status = .running)
    (reading : (after step start es).handlers[i]? = some (.reading kind)) :
    Answered (after step start es) i offer streamUrl engine ↔ Named streamUrl := by
  generalize after step start es = w at *
  have hlt : i < w.handlers.length := (List.getElem?_eq_some_iff.mp reading).1
  -- past the url, the body leaves a handler that has read
  have named : ∀ srv handler, handler.hasRead = true →
      (w.stepBody i kind offer streamUrl engine).1 =
        { w with server := srv, handlers := w.handlers.set i handler } →
      Answered w i offer streamUrl engine := by
    intro srv handler hread hbody
    simp only [Answered]
    rw [step_body running reading, hbody]
    refine ⟨running, fun es ret hrun => ?_⟩
    rw [after_append]
    refine written_hasReturned hrun ?_ ret
    exact invariant_after
      (I := fun w : World => ∃ handler, w.handlers[i]? = some handler ∧ handler.hasRead = true)
      (fun w e h => (step_move w e).hasRead h) ⟨handler, by simp [hlt], hread⟩ es
  rcases handleBody_cases kind w.server offer streamUrl engine with ⟨hnone, hexit⟩ |
    ⟨streamID, srv, scache, hid, _, ⟨_, hret⟩ | ⟨_, srv', answer, _, hwrite⟩⟩
  · refine ⟨fun hanswered => ?_, fun hnamed => ?_⟩
    · have hrun := hanswered.1
      rw [step_body running reading, World.stepBody, hexit] at hrun
      cases hrun
    · exact absurd hnamed ((getStreamIdFromStreamUrl_eq_none fits).mp hnone)
  all_goals
    have hnamed : Named streamUrl := by
      by_contra hnot
      rw [(getStreamIdFromStreamUrl_eq_none fits).mpr hnot] at hid
      cases hid
    refine ⟨fun _ => hnamed, fun _ => ?_⟩
  · exact named srv _ rfl (by rw [World.stepBody, hret])
  · exact named srv' _ rfl (by rw [World.stepBody, hwrite])

/-! ### A url without a slash -/

theorem answered_iff_play :
    Answered (after step start (served 0 .publish [0x2F, 0x73] [0x61] ++ [.accept .play]))
      1 (sdpOf [0x62]) [0x2F, 0x73, 0x3F, 0x2F] (engineOf [0x63]) :=
  (answered_iff _ 1 .play _ _ _ (by decide) (by decide +kernel) (by decide +kernel)).mpr
    (by decide +kernel)

/-- A publish with the url "s" leaves the process through `exit(1)`. -/
theorem request_exits :
    ¬ ∀ (es : List Event) (i : Nat) (kind : RequestKind) (offer streamUrl : Bytes)
        (engine : Engine), (after step start es).status = .running →
      (after step start es).handlers[i]? = some (.reading kind) →
      Answered (after step start es) i offer streamUrl engine := by
  intro h
  have hanswered := h [.accept .publish] 0 .publish (sdpOf [0x62]) [0x73] (engineOf [0x61]) rfl rfl
  exact absurd hanswered.1 (by decide +kernel)

end Sars
