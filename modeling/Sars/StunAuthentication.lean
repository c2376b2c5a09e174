import Sars.StunRoundTrip

/-!
# Message authentication

`CheckAuthentication` on an accepted packet. The code takes the end of
MESSAGE-INTEGRITY to be eight bytes in front of the end of a message with a
FINGERPRINT, and the end of the message otherwise. The order the parser enforces
makes that the end of the attribute, so what is hashed is the text in front of
it under a length field that ends with it.
-/

namespace Sars

open ByteMemory NetworkOrder TlvFraming

namespace Stun

inductive Authentication where
  | ok
  | unauthorized
  | badRequest
  deriving DecidableEq, Repr

section

variable (hmac : Bytes → Bytes → Block 20)

/-- The digests are compared under a length field that leaves out the FINGERPRINT, which is
restored behind the comparison. -/
def compareMessageIntegrity (s : Stun) (messageIntegrity : Nat) (localPassword : Bytes) :
    Mem (Authentication × Stun) := do
  let data ←
    if s.hasFingerprint then Byte.set2Bytes s.data 2 (UInt16.ofNat (s.size - 20 - 8))
    else pure s.data
  let text ← loadBytes data 0 (messageIntegrity - 4)
  let stored ← loadBytes data messageIntegrity 20
  let result : Authentication :=
    if stored = (hmac localPassword text).val then .ok else .unauthorized
  let data ←
    if s.hasFingerprint then Byte.set2Bytes data 2 (UInt16.ofNat (s.size - 20)) else pure data
  return (result, { s with data := data })

/-- `Stun::CheckAuthentication`. It writes to the packet's buffer, so the packet is part of
the result. -/
def checkAuthentication (s : Stun) (localUsername localPassword : Bytes) :
    Mem (Authentication × Stun) :=
  match s.klass with
  | .request | .indication =>
    match s.messageIntegrity with
    | none => return (.badRequest, s)
    | some messageIntegrity =>
      if s.username = [] then return (.badRequest, s)
      else if s.username.length ≤ localUsername.length ∨
          s.username[localUsername.length]? ≠ some 0x3A ∨
          s.username.take localUsername.length ≠ localUsername then
        return (.unauthorized, s)
      else compareMessageIntegrity hmac s messageIntegrity localPassword
  | .successResponse | .errorResponse => return (.badRequest, s)

end

/-- The last USERNAME of the message, or nothing. -/
def usernameIn (attrs : List (Record 4)) : Bytes :=
  (lastOf .username (placed 20 attrs)).elim [] (·.2.value)

/-- The bytes in front of the attribute at `pos`, under the length field of a message that
ends with an attribute of 24 bytes there. -/
def signedPart (data : Bytes) (pos : Nat) : Bytes :=
  data.take 2 ++ (be16 (UInt16.ofNat (pos + 24 - 20)) ++ (data.take pos).drop 4)

/-- A message whose sender cannot be checked at all. -/
def Uncheckable (klass : Class) (attrs : List (Record 4)) : Prop :=
  klass = .successResponse ∨ klass = .errorResponse ∨
    (∀ r ∈ attrs, r.type ≠ Attribute.messageIntegrity.code) ∨ usernameIn attrs = []

/-- The name begins with the local one and a colon, and the signature is the digest of what
it signs. -/
def Authentic (hmac : Bytes → Bytes → Block 20) (data : Bytes) (attrs : List (Record 4))
    (localUsername localPassword : Bytes) : Prop :=
  localUsername ++ [0x3A] <+: usernameIn attrs ∧
    ∃ q ∈ placed 20 attrs, q.2.type = Attribute.messageIntegrity.code ∧
      q.2.value = (hmac localPassword (signedPart data q.1)).val

/-! ## Where the signature ends -/

theorem placed_split {pos : Nat} {rs : List (Record 4)} {p : Nat × Record 4}
    (h : p ∈ placed pos rs) : ∃ as bs, rs = as ++ p.2 :: bs ∧ p.1 = pos + (encode as).length := by
  induction rs generalizing pos with
  | nil => cases h
  | cons r rs ih =>
    rcases List.mem_cons.mp h with rfl | htail
    · exact ⟨[], rs, rfl, by simp⟩
    · obtain ⟨as, bs, rfl, hpos⟩ := ih htail
      refine ⟨r :: as, bs, rfl, ?_⟩
      rw [hpos, encode_cons, List.length_append, Record.bytes_length, Nat.add_assoc]

theorem Grammar.integrity_once {data : Bytes} {attrs : List (Record 4)}
    (hg : Grammar data attrs) : attrs.Pairwise fun a b =>
      a.type = Attribute.messageIntegrity.code → b.type ≠ Attribute.messageIntegrity.code := by
  refine hg.after_integrity.imp fun hnext htype => ?_
  rw [hnext htype]
  decide

/-- Behind the signature there is nothing, or a FINGERPRINT when the message has one. -/
theorem integrity_split {data : Bytes} {attrs : List (Record 4)} {q : Nat × Record 4}
    (hg : Grammar data attrs) (hq : q ∈ placed 20 attrs)
    (hmi : q.2.type = Attribute.messageIntegrity.code) :
    ∃ as bs, attrs = as ++ q.2 :: bs ∧ q.1 = 20 + (encode as).length ∧ q.2.size = 24 ∧
      ((bs = [] ∧ ¬ ∃ r ∈ attrs, r.type = Attribute.fingerprint.code) ∨
        ((encode bs).length = 8 ∧ ∃ r ∈ attrs, r.type = Attribute.fingerprint.code)) := by
  obtain ⟨as, bs, hattrs, hpos⟩ := placed_split hq
  have hin : q.2 ∈ attrs := by simp [hattrs]
  have hlen : q.2.value.length = 20 := hg.lengths q.2 hin .messageIntegrity hmi
  have hintegrity := hg.after_integrity
  have hfingerprint := hg.after_fingerprint
  rw [hattrs] at hintegrity hfingerprint
  obtain ⟨_, htail, _⟩ := List.pairwise_append.mp hintegrity
  obtain ⟨_, htail', hacross⟩ := List.pairwise_append.mp hfingerprint
  refine ⟨as, bs, hattrs, hpos, by simp [Record.size, hlen, padding], ?_⟩
  cases bs with
  | nil =>
    refine Or.inl ⟨rfl, ?_⟩
    rintro ⟨r, hr, htype⟩
    rw [hattrs] at hr
    rcases List.mem_append.mp hr with hfront | hback
    · exact hacross r hfront q.2 List.mem_cons_self htype
    · rw [List.mem_singleton.mp hback, hmi] at htype
      exact absurd htype (by decide)
  | cons f bs =>
    have hf : f.type = Attribute.fingerprint.code :=
      (List.pairwise_cons.mp htail).1 f List.mem_cons_self hmi
    have hlast : bs = [] := by
      refine List.eq_nil_iff_forall_not_mem.mpr fun g hg' => ?_
      exact (List.pairwise_cons.mp (List.pairwise_cons.mp htail').2).1 g hg' hf
    have hfin : f ∈ attrs := by simp [hattrs]
    have hflen : f.value.length = 4 := hg.lengths f hfin .fingerprint hf
    exact Or.inr ⟨by simp [hlast, Record.size, hflen, padding], f, hfin, hf⟩

/-! ## The digest -/

/-- The message with its length field cut out. -/
theorem length_split {data : Bytes} {attrs : List (Record 4)} (hg : Grammar data attrs) :
    ∃ (t : UInt16) (mid : Bytes), mid.length = 16 ∧
      data = be16 t ++ (be16 (UInt16.ofNat (data.length - 20)) ++ (mid ++ encode attrs)) := by
  obtain ⟨msgType, msgLength, cookie, tid, rest, hdata, hcookie, htid⟩ := exists_header hg.long
  obtain ⟨_, _, _, hw2, _, hdrop, _⟩ := header_fields msgType msgLength rest hcookie htid hdata
  have hlength : msgLength = UInt16.ofNat (data.length - 20) := by
    rw [← hg.length_field, hw2, UInt16.ofNat_toNat]
  refine ⟨msgType, cookie ++ tid, by simp [hcookie, htid], ?_⟩
  rw [← hg.framed, hdrop, ← hlength]
  conv_lhs => rw [hdata]
  simp only [List.append_assoc]

/-- Under any length field, the part of the message in front of the signature and the
signature are where they were. -/
theorem signature_window {data : Bytes} {attrs as bs : List (Record 4)} {r : Record 4}
    {t length : UInt16} {mid : Bytes} (hmid : mid.length = 16) (hattrs : attrs = as ++ r :: bs)
    (hlen : r.value.length = 20)
    (hdata : data = be16 t ++ (be16 length ++ (mid ++ encode attrs))) (new : UInt16) :
    loadBytes (be16 t ++ (be16 new ++ (mid ++ encode attrs))) 0 (20 + (encode as).length) =
        .ok (data.take 2 ++ (be16 new ++ (data.take (20 + (encode as).length)).drop 4)) ∧
      loadBytes (be16 t ++ (be16 new ++ (mid ++ encode attrs)))
        (20 + (encode as).length + 4) 20 = .ok r.value := by
  have htake : data.take 2 = be16 t := by
    rw [hdata]
    rfl
  have hfront : (data.take (20 + (encode as).length)).drop 4 = mid ++ encode as := by
    have hcut : data = (be16 t ++ be16 length) ++ ((mid ++ encode as) ++ encode (r :: bs)) := by
      rw [hdata, hattrs, encode_append]
      simp only [List.append_assoc]
    have hhead : (be16 t ++ be16 length).length = 4 := rfl
    have hbody : (mid ++ encode as).length = 16 + (encode as).length := by simp [hmid]
    rw [hcut, List.drop_take, List.drop_left' hhead]
    exact List.take_left' (by omega)
  rw [htake, hfront]
  constructor
  · have hload := loadBytes_window [] (be16 t ++ (be16 new ++ (mid ++ encode as)))
      (encode (r :: bs)) (i := 0) (n := 20 + (encode as).length) rfl (by simp [hmid]; omega)
    rw [hattrs, encode_append]
    simpa only [List.append_assoc, List.nil_append] using hload
  · have hload := loadBytes_window (be16 t ++ (be16 new ++ (mid ++ (encode as ++
        (be16 r.type ++ be16 (UInt16.ofNat r.value.length)))))) r.value (r.pad ++ encode bs)
      (i := 20 + (encode as).length + 4) (n := 20) (by simp [hmid]; omega) hlen
    rw [hattrs, encode_append, encode_cons]
    simpa only [Record.bytes, List.append_assoc] using hload

/-- With the signature in place, the comparison is that of the two digests and the buffer is
as it was. -/
theorem compareMessageIntegrity_eq (hmac : Bytes → Bytes → Block 20) {data : Bytes}
    {attrs : List (Record 4)} {p : Stun} {q : Nat × Record 4} (hg : Grammar data attrs)
    (hd : Decodes data attrs p) (hq : q ∈ placed 20 attrs)
    (hmi : q.2.type = Attribute.messageIntegrity.code) (localPassword : Bytes) :
    compareMessageIntegrity hmac p (q.1 + 4) localPassword =
      .ok (if q.2.value = (hmac localPassword (signedPart data q.1)).val then .ok
        else .unauthorized, p) := by
  obtain ⟨as, bs, hattrs, hpos, hsize, hend⟩ := integrity_split hg hq hmi
  obtain ⟨t, mid, hmid, hdata⟩ := length_split hg
  have hlen : q.2.value.length = 20 :=
    hg.lengths q.2 (by simp [hattrs]) .messageIntegrity hmi
  have htotal : data.length = q.1 + 24 + (encode bs).length := by
    have hlength := congrArg List.length hdata
    simp only [hattrs, encode_append, encode_cons, List.length_append, be16_length, hmid,
      Record.bytes_length, hsize] at hlength
    omega
  have hsame : { p with data := data, size := data.length } = p := by
    rw [← hd.size, ← hd.bytes]
  obtain ⟨htext, hstored⟩ := signature_window hmid hattrs hlen hdata
    (UInt16.ofNat (q.1 + 24 - 20))
  rw [← hpos] at htext hstored
  rw [compareMessageIntegrity, hd.bytes, hd.size, Nat.add_sub_cancel]
  rcases hend with ⟨rfl, hnone⟩ | ⟨hbs, hsome⟩
  · have hflag : ¬ p.hasFingerprint = true := fun h => hnone (hd.fingerprint.mp h)
    have hfield : data.length - 20 = q.1 + 24 - 20 := by rw [htotal]; rfl
    rw [← hfield, ← hdata] at htext hstored
    simp only [if_neg hflag, pure_ok, ok_bind, htext, hstored, signedPart, hfield, hsame]
    rfl
  · have hflag : p.hasFingerprint = true := hd.fingerprint.mpr hsome
    have hfield : data.length - 20 - 8 = q.1 + 24 - 20 := by omega
    have hset : Byte.set2Bytes data 2 (UInt16.ofNat (data.length - 20 - 8)) =
        .ok (be16 t ++ (be16 (UInt16.ofNat (q.1 + 24 - 20)) ++ (mid ++ encode attrs))) := by
      rw [hfield]
      conv_lhs => rw [hdata]
      exact set2Bytes_length t _ _ _
    have hrestore : Byte.set2Bytes
        (be16 t ++ (be16 (UInt16.ofNat (q.1 + 24 - 20)) ++ (mid ++ encode attrs))) 2
        (UInt16.ofNat (data.length - 20)) = .ok data := by
      rw [set2Bytes_length, ← hdata]
    simp only [if_pos hflag, hset, ok_bind, htext, hstored, hrestore, pure_ok, signedPart, hsame]
    rfl

/-- The three comparisons of the prefix test. -/
theorem prefix_test (username localUsername : Bytes) :
    (username.length ≤ localUsername.length ∨ username[localUsername.length]? ≠ some 0x3A ∨
      username.take localUsername.length ≠ localUsername) ↔
    ¬ localUsername ++ [0x3A] <+: username := by
  constructor
  · rintro h ⟨rest, rfl⟩
    rcases h with h | h | h
    · simp only [List.length_append, List.length_singleton] at h
      omega
    · simp at h
    · simp at h
  · intro h
    by_contra hall
    simp only [not_or, not_le, not_not] at hall
    obtain ⟨hlen, hcolon, htake⟩ := hall
    apply h
    have hdrop := List.drop_eq_getElem_cons hlen
    have hget : username[localUsername.length] = 0x3A := by
      rw [List.getElem?_eq_getElem hlen] at hcolon
      exact Option.some.inj hcolon
    refine ⟨username.drop (localUsername.length + 1), ?_⟩
    conv_rhs => rw [← List.take_append_drop localUsername.length username, htake, hdrop, hget]
    simp

/-- The verdict on an accepted packet, which is left as it was. -/
theorem checkAuthentication_eq (hmac : Bytes → Bytes → Block 20) {data : Bytes}
    {attrs : List (Record 4)} {p : Stun} (hg : Grammar data attrs) (hd : Decodes data attrs p)
    (localUsername localPassword : Bytes) :
    ∃ result, checkAuthentication hmac p localUsername localPassword = .ok (result, p) ∧
      (result = .badRequest ↔ Uncheckable p.klass attrs) ∧
      (result = .ok ↔ ¬ Uncheckable p.klass attrs ∧
        Authentic hmac data attrs localUsername localPassword) := by
  have hname : p.username = usernameIn attrs := hd.username
  have hpresent := lastOf_isSome .messageIntegrity 20 attrs
  by_cases hreply : p.klass = .successResponse ∨ p.klass = .errorResponse
  · have hno : Uncheckable p.klass attrs := hreply.imp_right Or.inl
    refine ⟨.badRequest, ?_, iff_of_true rfl hno, iff_of_false (by simp) fun h => h.1 hno⟩
    rcases hreply with h | h <;> simp [checkAuthentication, h]
  have hask : p.klass = .request ∨ p.klass = .indication := by
    cases hk : p.klass <;> simp [hk] at hreply ⊢
  obtain ⟨hsuccess, herror⟩ := not_or.mp hreply
  cases hlast : lastOf .messageIntegrity (placed 20 attrs) with
  | none =>
    have hnone : p.messageIntegrity = none := by rw [hd.messageIntegrity, hlast]; rfl
    rw [hlast] at hpresent
    have hno : Uncheckable p.klass attrs :=
      Or.inr (Or.inr (Or.inl fun r hr htype => Bool.noConfusion (hpresent.mpr ⟨r, hr, htype⟩)))
    refine ⟨.badRequest, ?_, iff_of_true rfl hno, iff_of_false (by simp) fun h => h.1 hno⟩
    rcases hask with h | h <;> simp [checkAuthentication, h, hnone]
  | some q =>
    obtain ⟨hq, hmi⟩ := lastOf_mem hlast
    have hsome : p.messageIntegrity = some (q.1 + 4) := by rw [hd.messageIntegrity, hlast]; rfl
    by_cases hempty : usernameIn attrs = []
    · have hno : Uncheckable p.klass attrs := Or.inr (Or.inr (Or.inr hempty))
      refine ⟨.badRequest, ?_, iff_of_true rfl hno, iff_of_false (by simp) fun h => h.1 hno⟩
      rcases hask with h | h <;> simp [checkAuthentication, h, hsome, hname, hempty]
    have hyes : ¬ Uncheckable p.klass attrs := by
      rintro (h | h | h | h)
      · exact hsuccess h
      · exact herror h
      · exact h q.2 (mem_placed hq).1 hmi
      · exact hempty h
    by_cases htest : localUsername ++ [0x3A] <+: usernameIn attrs
    · have hpass := mt (prefix_test _ localUsername).mp (not_not_intro htest)
      have hsigned := compareMessageIntegrity_eq hmac hg hd hq hmi localPassword
      -- the signature is the only one, so it decides
      have hverdict : Authentic hmac data attrs localUsername localPassword ↔
          q.2.value = (hmac localPassword (signedPart data q.1)).val := by
        constructor
        · rintro ⟨_, q', hq', hmi', hvalue⟩
          have hsame := lastOf_once hg.integrity_once hq' hmi'
          rw [hlast] at hsame
          cases hsame
          exact hvalue
        · exact fun hvalue => ⟨htest, q, hq, hmi, hvalue⟩
      refine ⟨if q.2.value = (hmac localPassword (signedPart data q.1)).val then .ok
        else .unauthorized, ?_, iff_of_false ?_ hyes, ?_⟩
      · rcases hask with h | h <;>
          simp only [checkAuthentication, h, hsome, hname, if_neg hempty, if_neg hpass] <;>
          exact hsigned
      · split_ifs <;> simp
      · rw [hverdict]
        split_ifs with hvalue <;> simp [hyes, hvalue]
    · have hfail := (prefix_test _ localUsername).mpr htest
      refine ⟨.unauthorized, ?_, iff_of_false (by simp) hyes,
        iff_of_false (by simp) fun h => htest h.2.1⟩
      rcases hask with h | h <;>
        simp only [checkAuthentication, h, hsome, hname, if_neg hempty, if_pos hfail, pure_ok]

/-- Which of the three verdicts an accepted packet gets. -/
theorem checkAuthentication_verdict (hmac : Bytes → Bytes → Block 20) (data : Bytes) (p : Stun)
    (localUsername localPassword : Bytes) (hlen : data.length ≤ 65535)
    (accepted : parse data = .ok (.packet p)) :
    ∃ attrs result, Grammar data attrs ∧ Decodes data attrs p ∧
      checkAuthentication hmac p localUsername localPassword = .ok (result, p) ∧
      (result = .badRequest ↔ Uncheckable p.klass attrs) ∧
      (result = .ok ↔ ¬ Uncheckable p.klass attrs ∧
        Authentic hmac data attrs localUsername localPassword) ∧
      (result = .unauthorized ↔ ¬ Uncheckable p.klass attrs ∧
        ¬ Authentic hmac data attrs localUsername localPassword) := by
  obtain ⟨attrs, hg, hd⟩ := parse_accepted hlen accepted
  obtain ⟨result, hresult, hbad, hok⟩ :=
    checkAuthentication_eq hmac hg hd localUsername localPassword
  refine ⟨attrs, result, hg, hd, hresult, hbad, hok, ?_⟩
  have hthird : result = .unauthorized ↔ result ≠ .badRequest ∧ result ≠ .ok := by
    cases result <;> simp
  rw [hthird, ne_eq, ne_eq, hbad, hok]
  constructor
  · rintro ⟨hyes, hno⟩
    exact ⟨hyes, fun h => hno ⟨hyes, h⟩⟩
  · rintro ⟨hyes, hno⟩
    exact ⟨hyes, fun h => hno h.2⟩

/-- A signed BINDING REQUEST with a FINGERPRINT. -/
def signedRequest : Bytes :=
  [0x00, 0x01, 0x00, 0x28, 0x21, 0x12, 0xA4, 0x42, 1, 2, 3, 4, 5, 6, 7, 8, 9, 10, 11, 12,
    0x00, 0x06, 0x00, 0x03, 0x61, 0x3A, 0x62, 0x00, 0x00, 0x08, 0x00, 0x14, 0xF4, 0x32, 0x56, 0x66,
    0xEA, 0xE0, 0x5D, 0xAC, 0xA6, 0xA2, 0x79, 0x9A, 0xBE, 0x3C, 0xA9, 0x36, 0xBB, 0x0B, 0xF1, 0xBC,
    0x80, 0x28, 0x00, 0x04, 0x6D, 0x43, 0xD0, 0x7D]

def signedPacket : Stun :=
  { klass := .request, method := Method.binding
    transactionId := bindingTransactionId
    data := signedRequest, size := 60, username := [0x61, 0x3A, 0x62]
    messageIntegrity := some 32, hasFingerprint := true }

/-- HMAC-SHA1 at the one text that is signed in `signedRequest`. -/
def signedRequestHmac (_ _ : Bytes) : Block 20 :=
  ⟨[0xF4, 0x32, 0x56, 0x66, 0xEA, 0xE0, 0x5D, 0xAC, 0xA6, 0xA2, 0x79, 0x9A, 0xBE,
    0x3C, 0xA9, 0x36, 0xBB, 0x0B, 0xF1, 0xBC], rfl⟩

theorem checkAuthentication_signedRequest :
    ∃ attrs, Grammar signedRequest attrs ∧ ¬ Uncheckable .request attrs ∧
      Authentic signedRequestHmac signedRequest attrs [0x61] [0x70, 0x77] := by
  obtain ⟨attrs, result, hg, _, hresult, _, hok, _⟩ :=
    checkAuthentication_verdict signedRequestHmac signedRequest signedPacket [0x61] [0x70, 0x77]
      (by decide) (by decide +kernel)
  have hverdict : checkAuthentication signedRequestHmac signedPacket [0x61] [0x70, 0x77] =
      .ok (.ok, signedPacket) := by decide +kernel
  rw [hverdict] at hresult
  cases hresult
  obtain ⟨hyes, hauthentic⟩ := hok.mp rfl
  exact ⟨attrs, hg, hyes, hauthentic⟩

/-! ## The signer's own signature -/

section

variable {hmac : Bytes → Bytes → Block 20} {s out : Stun} {rs ms fps : List (Record 4)}

/-- The signer's running position and the length it announces are those of the attribute. -/
theorem Serialized.signedPart_eq (h : Serialized hmac s out rs ms fps)
    (short : s.username.length ≤ 65532) (hsign : s.addMessageIntegrity = true) :
    signedPart (out.data.take out.size) (20 + (encode rs).length) = s.signedText (encode rs) := by
  have hsize : s.serializedSize - 28 = 20 + (encode rs).length + 24 - 20 := by
    have hannounced := serializedSize_eq hmac short (encode rs)
    have hrs := h.attributes.encode_length
    rw [recordsSize_integrity, if_pos hsign] at hannounced
    omega
  have htype : (s.header ++ encode (rs ++ (ms ++ fps))).take 2 = be16 s.typeField := rfl
  rw [signedPart, h.bytes, header_take, htype, ← hsize, signedText]
  simp only [header, List.append_assoc]
  rfl

theorem Serialized.signed (h : Serialized hmac s out rs ms fps)
    (short : s.username.length ≤ 65532) (hsign : s.addMessageIntegrity = true) :
    ∃ q ∈ placed 20 (rs ++ (ms ++ fps)), q.2.type = Attribute.messageIntegrity.code ∧
      q.2.value = (hmac s.password (signedPart (out.data.take out.size) q.1)).val := by
  have hintegrity := h.integrity
  rw [Stun.integrity, if_pos hsign] at hintegrity
  obtain ⟨r, rfl, htype, hvalue⟩ := hintegrity.singleton
  refine ⟨(20 + (encode rs).length, r), ?_, htype, ?_⟩
  · rw [placed_append]
    exact List.mem_append_right _ List.mem_cons_self
  · rw [h.signedPart_eq short hsign]
    exact hvalue

/-- A signed message with the local name in front passes its own check. -/
theorem Serialized.checked (h : Serialized hmac s out rs ms fps)
    (hask : s.klass = .request ∨ s.klass = .indication) (hmethod : s.method.toNat < 0x80)
    {localUsername : Bytes} (hlocal : localUsername ++ [0x3A] <+: s.username)
    (small : s.username.length ≤ 512) (hpassword : s.password ≠ []) :
    ∃ p, parse (out.data.take out.size) = .ok (.packet p) ∧
      checkAuthentication hmac p localUsername s.password = .ok (.ok, p) := by
  obtain ⟨p, hp, hd, hback⟩ := h.parsed small hmethod
  have hsuccess : s.klass ≠ .successResponse := by
    rcases hask with hk | hk <;> simp [hk]
  have herror : s.klass ≠ .errorResponse := by
    rcases hask with hk | hk <;> simp [hk]
  obtain ⟨q, hq, hmi, hvalue⟩ := h.signed (Nat.le_trans small (by decide))
    (by simp [addMessageIntegrity, herror, hpassword])
  have hname : usernameIn (rs ++ (ms ++ fps)) = s.username :=
    hd.username.symm.trans hback.username
  have hyes : ¬ Uncheckable p.klass (rs ++ (ms ++ fps)) := by
    rw [hback.klass]
    rintro (hk | hk | hk | hk)
    · exact hsuccess hk
    · exact herror hk
    · exact hk q.2 (mem_placed hq).1 hmi
    · rw [← hname, hk] at hlocal
      simp at hlocal
  have hauthentic : Authentic hmac (out.data.take out.size) (rs ++ (ms ++ fps)) localUsername
      s.password := ⟨hname ▸ hlocal, q, hq, hmi, hvalue⟩
  obtain ⟨result, hresult, _, hok⟩ :=
    checkAuthentication_eq hmac (h.grammar small hmethod) hd localUsername s.password
  rw [hok.mpr ⟨hyes, hauthentic⟩] at hresult
  exact ⟨p, hp, hresult⟩

end

@[simp] theorem authenticate_klass (s : Stun) (password : Bytes) :
    (s.authenticate password).klass = s.klass := by
  simp only [authenticate]
  split <;> rfl

@[simp] theorem authenticate_method (s : Stun) (password : Bytes) :
    (s.authenticate password).method = s.method := by
  simp only [authenticate]
  split <;> rfl

@[simp] theorem authenticate_username (s : Stun) (password : Bytes) :
    (s.authenticate password).username = s.username := by
  simp only [authenticate]
  split <;> rfl

theorem authenticate_password {s : Stun} (h : s.klass ≠ .errorResponse) (password : Bytes) :
    (s.authenticate password).password = password := by
  rw [authenticate, if_neg h]

/-- What `serialize` signs, `checkAuthentication` accepts. -/
theorem checkAuthentication_serialize (hmac : Bytes → Bytes → Block 20) (s : Stun)
    (buffer localUsername rest password : Bytes)
    (hask : s.klass = .request ∨ s.klass = .indication) (hmethod : s.method.toNat < 0x80)
    (husername : s.username = localUsername ++ [0x3A] ++ rest) (hsmall : s.username.length < 513)
    (hpassword : password ≠ [])
    (room : (s.authenticate password).serializedSize ≤ buffer.length) :
    ∃ out p, serialize hmac (s.authenticate password) buffer = .ok out ∧
      parse (out.data.take out.size) = .ok (.packet p) ∧
      checkAuthentication hmac p localUsername password = .ok (.ok, p) := by
  have herror : s.klass ≠ .errorResponse := by
    rcases hask with h | h <;> simp [h]
  have hkey := authenticate_password herror password
  obtain ⟨out, rs, ms, fps, hout, hwritten⟩ :=
    serialize_serialized hmac (by rw [authenticate_username]; omega) room
  obtain ⟨p, hp, hresult⟩ := hwritten.checked (by rwa [authenticate_klass])
    (by rwa [authenticate_method])
    (by rw [authenticate_username, husername]; exact List.prefix_append _ rest)
    (by rw [authenticate_username]; omega) (by rwa [hkey])
  rw [hkey] at hresult
  exact ⟨out, p, hout, hp, hresult⟩

/-- A BINDING REQUEST with a name and a priority, before a password is set. -/
def namedBinding : Stun :=
  { klass := .request, method := Method.binding
    transactionId := bindingTransactionId
    data := [], size := 0, username := [0x61, 0x3A, 0x62], priority := 7 }

theorem checkAuthentication_namedBinding :
    ∃ out p, serialize signedRequestHmac (namedBinding.authenticate [0x70, 0x77])
        (List.replicate 68 0) = .ok out ∧
      parse (out.data.take out.size) = .ok (.packet p) ∧
      checkAuthentication signedRequestHmac p [0x61] [0x70, 0x77] = .ok (.ok, p) :=
  checkAuthentication_serialize signedRequestHmac namedBinding (List.replicate 68 0) [0x61] [0x62]
    [0x70, 0x77] (Or.inl rfl) (by decide) rfl (by decide) (by decide) (by decide)

end Stun

end Sars
