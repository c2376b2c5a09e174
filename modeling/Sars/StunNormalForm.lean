import Sars.StunReplies

/-!
# Messages written again

An accepted message that is written again, signed or not, is accepted again and
says the same: unknown attributes, earlier duplicates and the old trailers are
gone. Writing what was read a second time changes nothing. The one exception is
an error code whose class does not fit its eight bits.
-/

namespace Sars

open ByteMemory NetworkOrder TlvFraming

namespace Stun

/-- The packet `q` says what `p` says. An error code is only said by an error response. -/
structure SameMessage (p q : Stun) : Prop where
  klass : q.klass = p.klass
  method : q.method = p.method
  transactionId : q.transactionId = p.transactionId
  username : q.username = p.username
  priority : q.priority = p.priority
  iceControlling : q.iceControlling = p.iceControlling
  iceControlled : q.iceControlled = p.iceControlled
  useCandidate : q.hasUseCandidate = p.hasUseCandidate
  errorCode : q.errorCode = if p.klass = .errorResponse then p.errorCode % 25600 else 0

/-! ## What is read -/

/-- A packet carries neither an address nor a password. -/
theorem parse_unset {data : Bytes} {p : Stun} (hlen : data.length ≤ 65535)
    (accepted : parse data = .ok (.packet p)) : p.xorMappedAddress = none ∧ p.password = [] := by
  obtain ⟨attrs, hg, _⟩ := parse_accepted hlen accepted
  obtain ⟨msgType, tid, hparse, _, _⟩ := parse_absorbed hg hlen
  rw [accepted] at hparse
  cases hparse
  constructor
  · exact foldl_same (·.packet.xorMappedAddress) (fun st r => by simp only [absorbNext, absorb_eq])
      attrs (enterLoop data msgType tid)
  · exact foldl_same (·.packet.password) (fun st r => by simp only [absorbNext, absorb_eq])
      attrs (enterLoop data msgType tid)

theorem word_split {t : Nat} (h : t < 16384) :
    t = t % 16 + 16 * (t / 16 % 2) + 32 * (t / 32 % 8) + 256 * (t / 256 % 2) +
      512 * (t / 512 % 32) := by
  have h2 : t / 32 = t / 16 / 2 := (Nat.div_div_eq_div_mul t 16 2).symm
  have h3 : t / 256 = t / 32 / 8 := (Nat.div_div_eq_div_mul t 32 8).symm
  have h4 : t / 512 = t / 256 / 2 := (Nat.div_div_eq_div_mul t 256 2).symm
  omega

/-- The type field of a packet is the one it was read from. -/
theorem Decodes.typeField_eq {data : Bytes} {attrs : List (Record 4)} {p : Stun}
    (hd : Decodes data attrs p) (low : word16At data 0 < 16384) :
    p.typeField.toNat = word16At data 0 := by
  have hfields := word_split low
  have hclass := hd.klass
  have hmethod := hd.method
  rw [typeField_toNat, hclass, hmethod]
  generalize word16At data 0 = t at hfields ⊢
  have ha : t % 16 < 16 := Nat.mod_lt t (by decide)
  have hb : t / 16 % 2 < 2 := Nat.mod_lt _ (by decide)
  have hc : t / 32 % 8 < 8 := Nat.mod_lt _ (by decide)
  have hd : t / 256 % 2 < 2 := Nat.mod_lt _ (by decide)
  have he : t / 512 % 32 < 32 := Nat.mod_lt _ (by decide)
  generalize t % 16 = a at *
  generalize t / 16 % 2 = b at *
  generalize t / 32 % 8 = c at *
  generalize t / 256 % 2 = d at *
  generalize t / 512 % 32 = e at *
  omega

/-- The first byte that let the message in is the first byte written for it. -/
theorem Decodes.typeField_first {data : Bytes} {attrs : List (Record 4)} {p : Stun}
    (hg : Grammar data attrs) (hd : Decodes data attrs p) :
    (p.typeField >>> 8).toUInt8 < 3 := by
  have hfirst : (data.getD 0 0).toNat < 3 := hg.first
  have hsecond := (data.getD (0 + 1) 0).toNat_lt
  have hword : word16At data 0 < 768 := by
    simp only [word16At]
    omega
  have htype := hd.typeField_eq (by omega)
  have hlow : (p.typeField >>> 8).toUInt8.toNat < 3 := by
    simp [Nat.shiftRight_eq_div_pow]
    omega
  exact hlow

/-! ## What is written -/

/-- Two objects agree in what `serialize` reads; only error responses write their code. -/
structure SameFields (s t : Stun) : Prop where
  fields : t = { s with
    data := t.data, size := t.size, messageIntegrity := t.messageIntegrity
    hasFingerprint := t.hasFingerprint, errorCode := t.errorCode }
  errorCode : s.klass = .errorResponse → t.errorCode = s.errorCode

namespace SameFields

variable {s t : Stun}

theorem added (h : SameFields s t) : t.addErrorCode = s.addErrorCode := by
  have hklass : t.klass = s.klass := by rw [h.fields]
  by_cases hc : s.klass = .errorResponse
  · simp only [addErrorCode, hklass, h.errorCode hc]
  · simp [addErrorCode, hklass, hc]

theorem putErrorCode (h : SameFields s t) (o : Output) : putErrorCode t o = putErrorCode s o := by
  simp only [Stun.putErrorCode, h.added]
  by_cases hc : s.klass = .errorResponse
  · rw [h.errorCode hc]
  · simp [addErrorCode, hc]

theorem serializedSize (h : SameFields s t) : t.serializedSize = s.serializedSize := by
  simp only [Stun.serializedSize, h.added]
  rw [h.fields]
  rfl

theorem writingPass (h : SameFields s t) (hmac : Bytes → Bytes → Block 20) (buffer : Bytes) :
    writingPass hmac t buffer = writingPass hmac s buffer := by
  have hheader : putHeader t buffer = putHeader s buffer := by
    simp only [putHeader, h.serializedSize]
    rw [h.fields]
    rfl
  have hattributes : ∀ o, putAttributes t o = putAttributes s o := by
    intro o
    simp only [putAttributes, funext h.putErrorCode]
    rw [h.fields]
    rfl
  have hintegrity : ∀ o, putMessageIntegrity hmac t o = putMessageIntegrity hmac s o := by
    intro o
    simp only [putMessageIntegrity, h.serializedSize]
    rw [h.fields]
    rfl
  simp only [Stun.writingPass, hheader, hattributes, hintegrity]

/-- The same bytes end up in the same buffer. -/
theorem serialize (h : SameFields s t) {hmac : Bytes → Bytes → Block 20} {buffer : Bytes}
    {out : Stun} (written : serialize hmac s buffer = .ok out) :
    ∃ out', Stun.serialize hmac t buffer = .ok out' ∧ out'.data = out.data ∧
      out'.size = out.size := by
  rw [serialize_eq] at written ⊢
  rw [h.writingPass, h.serializedSize]
  cases hpass : Stun.writingPass hmac s buffer with
  | error fault =>
    rw [hpass] at written
    cases written
  | ok r =>
    rw [hpass] at written
    cases written
    exact ⟨_, rfl, rfl, rfl⟩

end SameFields

theorem authenticate_unset (s : Stun) (password : Bytes) (fresh : s.password = []) :
    s.authenticate password =
      { s with password := if s.klass = .errorResponse then [] else password } := by
  simp only [authenticate]
  split_ifs
  · rw [← fresh]
  · rfl

theorem SameMessage.sameFields {p q : Stun} (h : SameMessage p q) (password : Bytes)
    (addresses : q.xorMappedAddress = p.xorMappedAddress) (hp : p.password = [])
    (hq : q.password = []) (small : p.errorCode.toNat < 25600) :
    SameFields (p.authenticate password) (q.authenticate password) := by
  rw [authenticate_unset p password hp, authenticate_unset q password hq]
  constructor
  · simp only [← h.klass, ← h.method, ← h.transactionId, ← h.username, ← h.priority,
      ← h.iceControlling, ← h.iceControlled, ← h.useCandidate, ← addresses]
  · intro hc
    have herror := h.errorCode
    have hsame : p.errorCode % 25600 = p.errorCode := by
      apply UInt16.toNat_inj.mp
      rw [UInt16.toNat_mod]
      exact Nat.mod_eq_of_lt small
    rw [if_pos hc, hsame] at herror
    exact herror

/-! ## Writing what was read -/

theorem ReadBack.sameMessage {s q : Stun} (h : ReadBack s q)
    (errorCode : q.errorCode = if s.klass = .errorResponse then s.errorCode % 25600 else 0) :
    SameMessage s q :=
  { klass := h.klass, method := h.method, transactionId := h.transactionId
    username := h.username, priority := h.priority, iceControlling := h.iceControlling
    iceControlled := h.iceControlled, useCandidate := h.useCandidate, errorCode := errorCode }

/-- An accepted message is written again, signed or not, as a message that is accepted and says
the same. -/
theorem written_again (hmac : Bytes → Bytes → Block 20) {data : Bytes} {p : Stun}
    (password : Bytes) {buffer : Bytes} (hlen : data.length ≤ 65535)
    (accepted : parse data = .ok (.packet p)) (short : p.username.length < 513)
    (room : (p.authenticate password).serializedSize ≤ buffer.length) :
    ∃ out q, serialize hmac (p.authenticate password) buffer = .ok out ∧
      (out.data.take out.size).length ≤ 65535 ∧
      parse (out.data.take out.size) = .ok (.packet q) ∧ SameMessage p q ∧
      ReadBack (p.authenticate password) q := by
  obtain ⟨attrs, hg, hd⟩ := parse_accepted hlen accepted
  obtain ⟨_, hpassword⟩ := parse_unset hlen accepted
  have hfirst := hd.typeField_first hg
  have hmethod := hd.method_lt
  have hauth := authenticate_unset p password hpassword
  rw [hauth] at room ⊢
  obtain ⟨out, rs, ms, fps, hout, hwritten⟩ := serialize_serialized hmac
    (s := { p with password := if p.klass = .errorResponse then [] else password })
    (show p.username.length ≤ 65532 by omega) room
  obtain ⟨q, hq, hdq, hback⟩ := hwritten.parsed_of_first (show p.username.length ≤ 512 by omega)
    hfirst hmethod
  have hsame : SameMessage p q :=
    { hback.sameMessage (hwritten.errorCode_read hdq) with }
  exact ⟨out, q, hout, hwritten.length_lt (show p.username.length ≤ 512 by omega), hq, hsame, hback⟩

/-- An accepted message is written again, with a password or the empty one, as a message that is
accepted and says the same, and it is written the same way from then on. -/
theorem reserialized (hmac : Bytes → Bytes → Block 20) (data : Bytes) (p : Stun)
    (password buffer : Bytes) (hlen : data.length ≤ 65535)
    (accepted : parse data = .ok (.packet p)) (short : p.username.length < 513)
    (room : (p.authenticate password).serializedSize ≤ buffer.length) :
    ∃ out q, serialize hmac (p.authenticate password) buffer = .ok out ∧
      parse (out.data.take out.size) = .ok (.packet q) ∧ SameMessage p q ∧
      q.hasFingerprint = true ∧
      (q.hasMessageIntegrity = true ↔ p.klass ≠ .errorResponse ∧ password ≠ []) ∧
      (p.errorCode.toNat < 25600 →
        ∃ out', serialize hmac (q.authenticate password) buffer = .ok out' ∧
          out'.data.take out'.size = out.data.take out.size) := by
  obtain ⟨out, q, hout, hsmall, hq, hsame, hback⟩ :=
    written_again hmac password hlen accepted short room
  obtain ⟨haddress, hpassword⟩ := parse_unset hlen accepted
  obtain ⟨haddress', hpassword'⟩ := parse_unset hsmall hq
  refine ⟨out, q, hout, hq, hsame, hback.fingerprint, ?_, ?_⟩
  · rw [hback.messageIntegrity, authenticate_unset p password hpassword]
    by_cases hc : p.klass = .errorResponse <;> simp [hc]
  · intro small
    have hfields := hsame.sameFields password (haddress'.trans haddress.symm) hpassword hpassword'
      small
    obtain ⟨out', hout', hdata, hsize⟩ := hfields.serialize hout
    exact ⟨out', hout', by rw [hdata, hsize]⟩

/-- A request with an attribute nobody knows and two usernames, the second of which counts. -/
def wordyRequest : Bytes :=
  [0x00, 0x01, 0x00, 0x18, 0x21, 0x12, 0xA4, 0x42, 1, 2, 3, 4, 5, 6, 7, 8, 9, 10, 11, 12,
    0xC0, 0x57, 0x00, 0x02, 0xAA, 0xBB, 0x00, 0x00, 0x00, 0x06, 0x00, 0x03, 0x61, 0x3A, 0x63, 0x00,
    0x00, 0x06, 0x00, 0x03, 0x61, 0x3A, 0x62, 0x00]

def wordyPacket : Stun :=
  { klass := .request, method := Method.binding, transactionId := bindingTransactionId
    data := wordyRequest, size := 44, username := [0x61, 0x3A, 0x62] }

theorem reserialized_wordyRequest :
    ∃ out q, serialize bindingResponseHmac (wordyPacket.authenticate []) (List.replicate 36 0) =
        .ok out ∧
      parse (out.data.take out.size) = .ok (.packet q) ∧ q.username = [0x61, 0x3A, 0x62] ∧
      q.hasMessageIntegrity ≠ true := by
  have hparse : parse wordyRequest = .ok (.packet wordyPacket) := by decide +kernel
  obtain ⟨out, q, hout, hq, hsame, _, hintegrity, _⟩ := reserialized bindingResponseHmac
    wordyRequest wordyPacket [] (List.replicate 36 0) (by decide) hparse (by decide) (by decide)
  refine ⟨out, q, hout, hq, hsame.username, fun h => ?_⟩
  exact (hintegrity.mp h).2 rfl

end Stun

end Sars
