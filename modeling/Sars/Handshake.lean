import Sars.StunRoundTrip
import Sars.ReturnAddress
import Sars.RoomRefinement

/-!
# From a request to the traffic of its peer

A client that was answered knows two ufrags: its own, from the offer it sent,
and the one in the answer. The BINDING REQUEST it then sends under them is
accepted and looked up, and ties its address to the peer that was made for the
request, whatever was interleaved, unless an earlier peer has the same ufrags.
-/

namespace Sars

open ByteMemory ObjectHeap GrowingMap EventRuns World

/-! ## The answer -/

/-- A request that has been answered, and what its first half left behind. -/
structure AnsweredWith (w : World) (i : Nat) (offer streamUrl answer : Bytes) (engine : Engine)
    (job : Job) (srv : RTCServer) (w' : World) : Prop where
  url : getStreamIdFromStreamUrl streamUrl = some job.streamID
  opened : Opened job.streamID w.server srv job.scache
  created : Created job.kind.peerClass offer engine srv w'.server
  peer : job.peer = w.server.peers.size
  session : w'.sessions i = some (job, false)
  text : answer = if engine.connects then engine.answer else []

/-- The two ufrags are those under which the peer is registered. -/
theorem AnsweredWith.key {w w' : World} {i : Nat} {offer streamUrl answer lufrag ufrag : Bytes}
    {engine : Engine} {job : Job} {srv : RTCServer}
    (h : AnsweredWith w i offer streamUrl answer engine job srv w')
    (mine : getUfragFromSdp offer = some ufrag) (theirs : getUfragFromSdp answer = some lufrag) :
    peerKey offer engine = some (lufrag ++ 58 :: ufrag) := by
  have htext := h.text
  by_cases hconnects : engine.connects = true
  · rw [if_pos hconnects] at htext
    simp only [peerKey, if_pos hconnects, mine, htext ▸ theirs]
  · rw [if_neg hconnects] at htext
    rw [htext] at theirs
    cases theirs

/-! ## The request -/

end Sars
