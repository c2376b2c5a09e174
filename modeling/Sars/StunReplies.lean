import Sars.StunRoundTrip

/-!
# Replies to an accepted request

A reply takes over the method of its request and sets a class bit in the first
byte. The demultiplexing test wants that byte below 3, which leaves one more
method bit for a request than for its reply: from method 0x80 on the request is
still let through and what is written for its reply is not.
-/

namespace Sars

open ByteMemory NetworkOrder TlvFraming

namespace Stun

/-- An address and a password are given to the reply or not. -/
def withOptions (reply : Stun) (address : Option Sockaddr) (password : Option Bytes) : Stun :=
  let reply := match address with
    | some a => reply.setXorMappedAddress (some a)
    | none => reply
  match password with
  | some p => reply.authenticate p
  | none => reply

section

variable (hmac : Bytes → Bytes → Block 20)

/-- Serialized into the buffer, the message is accepted and decoded to this packet. -/
def ReadAs (s : Stun) (buffer : Bytes) (q : Stun) : Prop :=
  ∃ out, serialize hmac s buffer = .ok out ∧ parse (out.data.take out.size) = .ok (.packet q)

def SuccessAccepted (request : Stun) (address : Option Sockaddr) (password : Option Bytes)
    (buffer : Bytes) : Prop :=
  ∃ q, ReadAs hmac (request.createSuccessResponse.withOptions address password) buffer q ∧
    q.klass = .successResponse ∧ q.method = request.method ∧
    q.transactionId = request.transactionId

def ErrorAccepted (request : Stun) (errorCode : UInt16) (address : Option Sockaddr)
    (password : Option Bytes) (buffer : Bytes) : Prop :=
  ∃ q, ReadAs hmac ((request.createErrorResponse errorCode).withOptions address password)
      buffer q ∧
    q.klass = .errorResponse ∧ q.method = request.method ∧
    q.transactionId = request.transactionId ∧ q.errorCode = errorCode

end

theorem withOptions_eq (reply : Stun) (address : Option Sockaddr) (password : Option Bytes) :
    ∃ xorMappedAddress password', reply.withOptions address password =
      { reply with xorMappedAddress := xorMappedAddress, password := password' } := by
  have hset : ∀ (s : Stun) (p : Bytes), ∃ password', s.authenticate p =
      { s with password := password' } := by
    intro s p
    simp only [authenticate]
    split
    · exact ⟨s.password, rfl⟩
    · exact ⟨p, rfl⟩
  cases address with
  | none =>
    cases password with
    | none => exact ⟨reply.xorMappedAddress, reply.password, rfl⟩
    | some p =>
      obtain ⟨password', heq⟩ := hset reply p
      exact ⟨reply.xorMappedAddress, password', heq⟩
  | some a =>
    cases password with
    | none => exact ⟨some a, reply.password, rfl⟩
    | some p =>
      obtain ⟨password', heq⟩ := hset (reply.setXorMappedAddress (some a)) p
      exact ⟨some a, password', heq⟩

section

variable {hmac : Bytes → Bytes → Block 20} {s out : Stun} {rs ms fps : List (Record 4)}

/-- From method 0x80 on, the first byte of a response is 3 or more. -/
theorem typeField_response (hreply : s.klass = .successResponse ∨ s.klass = .errorResponse)
    (low : 0x80 ≤ s.method.toNat) (high : s.method.toNat < 0x1000) :
    3 ≤ (s.typeField >>> 8).toUInt8.toNat := by
  have hclass : s.klass.toUInt16.toNat / 2 % 2 = 1 := by
    rcases hreply with h | h <;> rw [h] <;> rfl
  have hbit : 1 ≤ s.method.toNat / 128 % 32 := by omega
  have htype : 768 ≤ s.typeField.toNat := by
    rw [typeField_toNat s, hclass]
    omega
  have hword : s.typeField.toNat < 65536 := s.typeField.toNat_lt
  simp [Nat.shiftRight_eq_div_pow]
  omega

theorem Serialized.rejected (h : Serialized hmac s out rs ms fps)
    (hreply : s.klass = .successResponse ∨ s.klass = .errorResponse)
    (small : s.username.length ≤ 512) (low : 0x80 ≤ s.method.toNat)
    (high : s.method.toNat < 0x1000) : parse (out.data.take out.size) = .ok .nullptr := by
  refine parse_outside (h.length_lt small) fun attrs hg => ?_
  obtain ⟨hbyte, -⟩ := h.header_fields (Nat.le_trans small (by decide))
  have hfirst := hg.first
  rw [hbyte] at hfirst
  have hlarge := typeField_response hreply low high
  exact absurd (show (s.typeField >>> 8).toUInt8.toNat < 3 from hfirst) (by omega)

/-- What is written for a response is read back below method 0x80 and not read from there on. -/
theorem readAs_response {buffer : Bytes}
    (hreply : s.klass = .successResponse ∨ s.klass = .errorResponse)
    (small : s.username.length ≤ 512) (high : s.method.toNat < 0x1000)
    (room : s.serializedSize ≤ buffer.length) :
    (s.method.toNat < 0x80 → ∃ q, ReadAs hmac s buffer q ∧ ReadBack s q) ∧
      ∀ q, ReadAs hmac s buffer q → s.method.toNat < 0x80 := by
  obtain ⟨out, rs, ms, fps, hout, hwritten⟩ :=
    serialize_serialized hmac (Nat.le_trans small (by decide)) room
  constructor
  · intro hmethod
    obtain ⟨q, hq, _, hback⟩ := hwritten.parsed small hmethod
    exact ⟨q, ⟨out, hout, hq⟩, hback⟩
  · rintro q ⟨out', hout', hq⟩
    by_contra hmethod
    rw [hout] at hout'
    cases hout'
    rw [hwritten.rejected hreply small (by omega) high] at hq
    cases hq

end

section

variable {hmac : Bytes → Bytes → Block 20} {request : Stun} {address : Option Sockaddr}
  {password : Option Bytes} {buffer : Bytes}

theorem successAccepted_iff (high : request.method.toNat < 0x1000)
    (room : (request.createSuccessResponse.withOptions address password).serializedSize ≤
      buffer.length) :
    SuccessAccepted hmac request address password buffer ↔ request.method.toNat < 0x80 := by
  obtain ⟨x, w, heq⟩ := withOptions_eq request.createSuccessResponse address password
  simp only [SuccessAccepted]
  rw [heq] at room ⊢
  obtain ⟨haccepted, hrejected⟩ := readAs_response
    (s := { request.createSuccessResponse with xorMappedAddress := x, password := w })
    (Or.inl rfl) (Nat.zero_le 512) high room
  constructor
  · rintro ⟨q, hq, -⟩
    exact hrejected q hq
  · intro hmethod
    obtain ⟨q, hq, hback⟩ := haccepted hmethod
    exact ⟨q, hq, hback.klass, hback.method, hback.transactionId⟩

theorem errorAccepted_iff (high : request.method.toNat < 0x1000) {errorCode : UInt16}
    (hcode : 300 ≤ errorCode.toNat ∧ errorCode.toNat ≤ 699)
    (room : ((request.createErrorResponse errorCode).withOptions address password).serializedSize ≤
      buffer.length) :
    ErrorAccepted hmac request errorCode address password buffer ↔
      request.method.toNat < 0x80 := by
  obtain ⟨x, w, heq⟩ := withOptions_eq (request.createErrorResponse errorCode) address password
  simp only [ErrorAccepted]
  rw [heq] at room ⊢
  obtain ⟨haccepted, hrejected⟩ := readAs_response
    (s := { request.createErrorResponse errorCode with xorMappedAddress := x, password := w })
    (Or.inr rfl) (Nat.zero_le 512) high room
  constructor
  · rintro ⟨q, hq, -⟩
    exact hrejected q hq
  · intro hmethod
    obtain ⟨q, hq, hback⟩ := haccepted hmethod
    exact ⟨q, hq, hback.klass, hback.method, hback.transactionId, hback.errorCode (Or.inr hcode)⟩

end

/-- A decoded method has twelve bits. -/
theorem Decodes.method_lt {data : Bytes} {attrs : List (Record 4)} {p : Stun}
    (hd : Decodes data attrs p) : p.method.toNat < 0x1000 := by
  have hbits := hd.method
  omega

/-- The method bit that a first byte below 3 leaves room for. -/
theorem method_lt_iff {data : Bytes} {attrs : List (Record 4)} {p : Stun}
    (hg : Grammar data attrs) (hd : Decodes data attrs p) :
    p.method.toNat < 0x80 ↔ data.getD 0 0 < 2 := by
  have hbits := hd.method
  have hfirst : (data.getD 0 0).toNat < 3 := hg.first
  have hsecond := (data.getD (0 + 1) 0).toNat_lt
  have hbyte : data.getD 0 0 < 2 ↔ (data.getD 0 0).toNat < 2 := UInt8.lt_iff_toNat_lt
  have hthree : (data.getD 0 0).toNat = 0 ∨ (data.getD 0 0).toNat = 1 ∨
      (data.getD 0 0).toNat = 2 := by omega
  rw [hbyte]
  simp only [word16At] at hbits
  rcases hthree with h | h | h <;> rw [h] at hbits ⊢ <;> omega

/-- The replies to an accepted message, such as a request, are accepted as such when its first
byte is below 2, that is, when its method is below 0x80, and never else. -/
theorem replies_accepted_iff (hmac : Bytes → Bytes → Block 20) (data : Bytes) (p : Stun)
    (address : Option Sockaddr) (password : Option Bytes) (buffer : Bytes)
    (hlen : data.length ≤ 65535) (accepted : parse data = .ok (.packet p)) :
    (p.method.toNat < 0x80 ↔ data.getD 0 0 < 2) ∧
    ((p.createSuccessResponse.withOptions address password).serializedSize ≤ buffer.length →
      (SuccessAccepted hmac p address password buffer ↔ data.getD 0 0 < 2)) ∧
    ∀ errorCode : UInt16, 300 ≤ errorCode.toNat → errorCode.toNat ≤ 699 →
      ((p.createErrorResponse errorCode).withOptions address password).serializedSize ≤
        buffer.length →
      (ErrorAccepted hmac p errorCode address password buffer ↔ data.getD 0 0 < 2) := by
  obtain ⟨attrs, hg, hd⟩ := parse_accepted hlen accepted
  have hmethod := method_lt_iff hg hd
  rw [← hmethod]
  refine ⟨Iff.rfl, ?_, ?_⟩
  · intro room
    exact successAccepted_iff hd.method_lt room
  · intro errorCode low high room
    exact errorAccepted_iff hd.method_lt ⟨low, high⟩ room

theorem replies_accepted_bindingRequest :
    SuccessAccepted bindingResponseHmac bindingPacket none none (List.replicate 28 0) ∧
      ErrorAccepted bindingResponseHmac bindingPacket 400 none none (List.replicate 36 0) := by
  have hparse : parse bindingRequest = .ok (.packet bindingPacket) := by decide +kernel
  obtain ⟨_, hsuccess, _⟩ := replies_accepted_iff bindingResponseHmac bindingRequest bindingPacket
    none none (List.replicate 28 0) (by decide) hparse
  obtain ⟨_, _, herror⟩ := replies_accepted_iff bindingResponseHmac bindingRequest bindingPacket
    none none (List.replicate 36 0) (by decide) hparse
  exact ⟨(hsuccess (by decide)).mpr (by decide),
    (herror 400 (by decide) (by decide) (by decide)).mpr (by decide)⟩

/-- A request with method 0x80 and no attribute. -/
def farRequest : Bytes :=
  [0x02, 0x00, 0x00, 0x00, 0x21, 0x12, 0xA4, 0x42, 1, 2, 3, 4, 5, 6, 7, 8, 9, 10, 11, 12]

def farPacket : Stun :=
  { klass := .request, method := 0x80, transactionId := bindingTransactionId
    data := farRequest, size := 20 }

theorem farRequest_unanswerable :
    parse farRequest = .ok (.packet farPacket) ∧ farPacket.klass = .request ∧
      ∀ hmac, ¬ SuccessAccepted hmac farPacket none none (List.replicate 28 0) ∧
        ¬ ErrorAccepted hmac farPacket 400 none none (List.replicate 36 0) := by
  refine ⟨by decide +kernel, rfl, fun hmac => ⟨?_, ?_⟩⟩
  · rw [successAccepted_iff (by decide) (by decide)]
    decide
  · rw [errorAccepted_iff (by decide) (by decide) (by decide)]
    decide

end Stun

end Sars
