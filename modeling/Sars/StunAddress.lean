import Sars.StunRoundTrip

/-!
# The address in a success response

What a client does with the answer to its BINDING REQUEST: it walks the
attributes, takes XOR-MAPPED-ADDRESS and undoes the XOR with the cookie and the
transaction id it finds in the header. The parser of the server skips this
attribute, so the reader is stated here on the bytes alone.
-/

namespace Sars

open ByteMemory NetworkOrder TlvFraming

namespace Stun

/-! ## The reader -/

def xored (bs mask : Bytes) : Bytes := List.zipWith (· ^^^ ·) bs mask

/-- The family decides how long the address is; the first byte is ignored. -/
def decodeXorAddress (tid value : Bytes) : Option Sockaddr :=
  let mask : Bytes := [0x21, 0x12, 0xA4, 0x42] ++ tid
  let port := xored ((value.drop 2).take 2) mask
  let addr := xored (value.drop 4) mask
  if hport : port.length = 2 then
    if hinet : value.getD 1 0 = 0x01 ∧ addr.length = 4 then
      some (.inet { sinPort := ⟨port, hport⟩, sinAddr := ⟨addr, hinet.2⟩ })
    else if hinet6 : value.getD 1 0 = 0x02 ∧ addr.length = 16 then
      some (.inet6 { sin6Port := ⟨port, hport⟩, sin6Addr := ⟨addr, hinet6.2⟩ })
    else none
  else none

/-- The values of one type among the attributes of a message. -/
def attributeValues (type : UInt16) (attrs : List (UInt16 × Bytes)) : List Bytes :=
  (attrs.filter fun a => a.1 = type).map Prod.snd

/-! ## Un-XOR -/

theorem xored_length {bs mask : Bytes} (h : bs.length ≤ mask.length) :
    (xored bs mask).length = bs.length := by
  rw [xored, List.length_zipWith, Nat.min_eq_left h]

/-- A second pass with the same mask, or a longer one, undoes the first. -/
theorem xored_xored {bs mask more : Bytes} (h : bs.length = mask.length) :
    xored (xored bs mask) (mask ++ more) = bs := by
  induction bs generalizing mask with
  | nil => rfl
  | cons b bs ih =>
    cases mask with
    | nil => cases h
    | cons m mask =>
      have hb : b ^^^ m ^^^ m = b := by rw [UInt8.xor_assoc, UInt8.xor_self, UInt8.xor_zero]
      have hlen : bs.length = mask.length := by simpa using h
      have hrec := ih hlen
      simpa only [xored, List.zipWith_cons_cons, List.cons_append, hb, List.cons.injEq,
        true_and] using hrec

theorem decodeXorAddress_parts (port addr : Bytes) (family : UInt8) (hport : port.length = 2) :
    ∀ value, value = [0, family] ++ (port ++ addr) →
      value.getD 1 0 = family ∧ (value.drop 2).take 2 = port ∧ value.drop 4 = addr := by
  rintro value rfl
  refine ⟨rfl, ?_, ?_⟩
  · exact List.take_left' hport
  · rw [← List.append_assoc]
    exact List.drop_left' (by simp [hport])

/-- Decoding undoes what `serialize` writes, for both families. -/
theorem decodeXorAddress_xorAddress (tid : Block 12) (address : Option Sockaddr)
    (mapped : (∃ a, address = some (.inet a)) ∨ ∃ a, address = some (.inet6 a)) :
    decodeXorAddress tid.val (xorAddress tid address) = address := by
  have hcookie : magicCookie.toList = [0x21, 0x12, 0xA4, 0x42] := rfl
  have hmask : ([0x21, 0x12, 0xA4, 0x42] : Bytes) ++ tid.val =
      portMask ++ ([0xA4, 0x42] ++ tid.val) := rfl
  rcases mapped with ⟨a, rfl⟩ | ⟨a, rfl⟩
  · have hport := a.sinPort.property
    have haddr := a.sinAddr.property
    obtain ⟨hfamily, hp, ha⟩ := decodeXorAddress_parts (xored a.sinPort.val portMask)
      (xored a.sinAddr.val magicCookie.toList) 0x01 (by rw [xored_length] <;> simp [hport])
      (xorAddress tid (some (.inet a))) rfl
    have hport' : xored (xored a.sinPort.val portMask) ([0x21, 0x12, 0xA4, 0x42] ++ tid.val) =
        a.sinPort.val := by
      rw [hmask]
      exact xored_xored (by simp [hport])
    have haddr' : xored (xored a.sinAddr.val magicCookie.toList)
        ([0x21, 0x12, 0xA4, 0x42] ++ tid.val) = a.sinAddr.val := by
      rw [← hcookie]
      exact xored_xored haddr
    simp only [decodeXorAddress, hfamily, hp, ha, hport', haddr', hport, haddr]
    rfl
  · have hport := a.sin6Port.property
    have haddr := a.sin6Addr.property
    have htid := tid.property
    obtain ⟨hfamily, hp, ha⟩ := decodeXorAddress_parts (xored a.sin6Port.val portMask)
      (xored a.sin6Addr.val (magicCookie.toList ++ tid.val)) 0x02
      (by rw [xored_length] <;> simp [hport]) (xorAddress tid (some (.inet6 a))) rfl
    have hport' : xored (xored a.sin6Port.val portMask) ([0x21, 0x12, 0xA4, 0x42] ++ tid.val) =
        a.sin6Port.val := by
      rw [hmask]
      exact xored_xored (by simp [hport])
    have haddr' : xored (xored a.sin6Addr.val (magicCookie.toList ++ tid.val))
        ([0x21, 0x12, 0xA4, 0x42] ++ tid.val) = a.sin6Addr.val := by
      have hlen : a.sin6Addr.val.length = (magicCookie.toList ++ tid.val).length := by
        simp [haddr, htid, hcookie]
      have hback : xored (xored a.sin6Addr.val (magicCookie.toList ++ tid.val))
          (magicCookie.toList ++ tid.val ++ []) = a.sin6Addr.val := xored_xored hlen
      rwa [List.append_nil, hcookie] at hback
    simp only [decodeXorAddress, hfamily, hp, ha, hport', haddr', hport, haddr]
    rfl

/-! ## The attribute among the others -/

def valuesOf (attr : Attribute) (as : List (Attribute × Bytes)) : List Bytes :=
  (as.filter fun a => a.1 = attr).map Prod.snd

theorem valuesOf_append (attr : Attribute) (as bs : List (Attribute × Bytes)) :
    valuesOf attr (as ++ bs) = valuesOf attr as ++ valuesOf attr bs := by
  simp [valuesOf]

theorem valuesOf_ite (attr : Attribute) {c : Prop} [Decidable c] (b : Attribute) (v : Bytes) :
    valuesOf attr (if c then [(b, v)] else []) = if b = attr ∧ c then [v] else [] := by
  by_cases hc : c <;> by_cases hb : b = attr <;> simp [valuesOf, hc, hb]

theorem Carries.attributeValues {rs : List (Record 4)} {as : List (Attribute × Bytes)}
    (h : Carries rs as) (attr : Attribute) :
    Stun.attributeValues attr.code (rs.map fun r => (r.type, r.value)) = valuesOf attr as := by
  have hcode : ∀ a ∈ as, decide (a.1.code = attr.code) = decide (a.1 = attr) :=
    fun _ _ => decide_eq_decide.mpr Attribute.code_injective.eq_iff
  rw [h, Stun.attributeValues, valuesOf, List.filter_map, List.map_map]
  simp only [Function.comp_def, List.filter_congr hcode]

theorem valuesOf_all (hmac : Bytes → Bytes → Block 20) (s : Stun) (body fingerprint : Bytes) :
    valuesOf .xorMappedAddress (allAttributes hmac s body fingerprint) =
      if s.addXorMappedAddress then [xorAddress s.transactionId s.xorMappedAddress] else [] := by
  have hfingerprint : valuesOf .xorMappedAddress [(Attribute.fingerprint, fingerprint)] = [] := rfl
  simp only [allAttributes, attributes, integrity, valuesOf_append, valuesOf_ite, hfingerprint,
    reduceCtorEq, false_and, if_false, true_and, List.append_nil, List.nil_append]

theorem addXorMappedAddress_iff (s : Stun) :
    s.addXorMappedAddress = true ↔
      s.klass = .successResponse ∧ s.method = Method.binding ∧
        ((∃ a, s.xorMappedAddress = some (.inet a)) ∨
          ∃ a, s.xorMappedAddress = some (.inet6 a)) := by
  cases haddr : s.xorMappedAddress with
  | none => simp [addXorMappedAddress, haddr]
  | some address =>
    cases address with
    | inet a => simp [addXorMappedAddress, haddr, and_comm]
    | inet6 a => simp [addXorMappedAddress, haddr, and_comm]
    | other saFamily => simp [addXorMappedAddress, haddr]

/-- A serialized message holds the address once and readable, or not at all. -/
theorem serialize_xorMappedAddress (hmac : Bytes → Bytes → Block 20) (s : Stun) (buffer : Bytes)
    (husername : s.username.length < 513) (room : s.serializedSize ≤ buffer.length) :
    ∃ out attrs, serialize hmac s buffer = .ok out ∧
      decode 4 ((out.data.take out.size).drop 20) = some attrs ∧
      (s.klass = .successResponse ∧ s.method = Method.binding ∧
          ((∃ a, s.xorMappedAddress = some (.inet a)) ∨
            ∃ a, s.xorMappedAddress = some (.inet6 a)) →
        ∃ value, attributeValues 0x0020 attrs = [value] ∧
          decodeXorAddress (((out.data.take out.size).drop 8).take 12) value =
            s.xorMappedAddress) ∧
      (¬ (s.klass = .successResponse ∧ s.method = Method.binding ∧
          ((∃ a, s.xorMappedAddress = some (.inet a)) ∨
            ∃ a, s.xorMappedAddress = some (.inet6 a))) →
        attributeValues 0x0020 attrs = []) := by
  obtain ⟨out, rs, ms, fps, hout, hwritten⟩ :=
    serialize_serialized hmac (show s.username.length ≤ 65532 by omega) room
  obtain ⟨v, hcarries⟩ := hwritten.carries
  obtain ⟨-, -, -, -, htid, hframed, -⟩ := hwritten.header_fields (by omega)
  have hvalues : attributeValues 0x0020 ((rs ++ (ms ++ fps)).map fun r => (r.type, r.value)) =
      if s.addXorMappedAddress then [xorAddress s.transactionId s.xorMappedAddress] else [] :=
    (hcarries.attributeValues .xorMappedAddress).trans (valuesOf_all hmac s _ _)
  refine ⟨out, (rs ++ (ms ++ fps)).map fun r => (r.type, r.value), hout, ?_, ?_, ?_⟩
  · rw [hframed]
    exact decode_encode _
  · intro added
    refine ⟨xorAddress s.transactionId s.xorMappedAddress, ?_, ?_⟩
    · rw [hvalues]
      exact if_pos ((addXorMappedAddress_iff s).mpr added)
    · rw [htid]
      exact decodeXorAddress_xorAddress s.transactionId s.xorMappedAddress added.2.2
  · intro absent
    rw [hvalues]
    exact if_neg (mt (addXorMappedAddress_iff s).mp absent)

/-- The same answer to an IPv6 client. -/
def bindingResponse6 : Stun :=
  { bindingResponse with
    xorMappedAddress := some (.inet6
      { sin6Port := ⟨[0x30, 0x39], rfl⟩
        sin6Addr := ⟨[0x20, 0x01, 0x0D, 0xB8, 0, 0, 0, 0, 0, 0, 0, 0, 0, 0, 0, 1], rfl⟩ }) }

theorem serialize_xorMappedAddress_bindingResponse6 :
    ∃ out attrs value,
      serialize bindingResponseHmac bindingResponse6 (List.replicate 100 0) = .ok out ∧
      decode 4 ((out.data.take out.size).drop 20) = some attrs ∧
      attributeValues 0x0020 attrs = [value] ∧
      decodeXorAddress (((out.data.take out.size).drop 8).take 12) value =
        bindingResponse6.xorMappedAddress := by
  obtain ⟨out, attrs, hout, hattrs, hpresent, _⟩ :=
    serialize_xorMappedAddress bindingResponseHmac bindingResponse6 (List.replicate 100 0)
      (by decide) (by decide)
  obtain ⟨value, hvalue, hdecoded⟩ := hpresent ⟨rfl, rfl, Or.inr ⟨_, rfl⟩⟩
  exact ⟨out, attrs, value, hout, hattrs, hvalue, hdecoded⟩

end Stun

end Sars
