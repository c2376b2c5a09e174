import Sars.StunAuthentication

/-!
# What a signature vouches for

The text that is hashed holds the type field, the transaction id and every
attribute in front of the signature, and behind the signature the parser lets
nothing through but a FINGERPRINT. So two messages that say different things
never share their hashed text: whoever alters a signed message and still passes
`CheckAuthentication` has found a digest for a text of his own.
-/

namespace Sars

open ByteMemory NetworkOrder TlvFraming

namespace Stun

/-- The two packets say the same; their buffers and FINGERPRINTs may differ. -/
structure SaysSame (p q : Stun) : Prop where
  klass : p.klass = q.klass
  method : p.method = q.method
  transactionId : p.transactionId = q.transactionId
  username : p.username = q.username
  priority : p.priority = q.priority
  iceControlling : p.iceControlling = q.iceControlling
  iceControlled : p.iceControlled = q.iceControlled
  useCandidate : p.hasUseCandidate = q.hasUseCandidate
  errorCode : p.errorCode = q.errorCode

/-! ## Attributes without their places -/

def contents (rs : List (Record 4)) : List (UInt16 × Bytes) := rs.map fun r => (r.type, r.value)

/-- The value of the last attribute of a type. -/
def lastContent (attr : Attribute) (vs : List (UInt16 × Bytes)) : Option Bytes :=
  ((vs.filter fun v => v.1 = attr.code).getLast?).map Prod.snd

theorem placed_snd (pos : Nat) (rs : List (Record 4)) : (placed pos rs).map Prod.snd = rs := by
  induction rs generalizing pos with
  | nil => rfl
  | cons r rs ih => rw [placed, List.map_cons, ih]

theorem lastOf_content (attr : Attribute) (pos : Nat) (rs : List (Record 4)) :
    (lastOf attr (placed pos rs)).map (·.2.value) = lastContent attr (contents rs) := by
  have hfilter : (contents rs).filter (fun v => v.1 = attr.code) =
      ((placed pos rs).filter fun p => p.2.type = attr.code).map
        fun p => (p.2.type, p.2.value) := by
    conv_lhs => rw [← placed_snd pos rs, contents, List.map_map, List.filter_map]
    rfl
  rw [lastContent, hfilter, List.getLast?_map, Option.map_map, lastOf]
  rfl

theorem lastOf_elim {β : Type} (attr : Attribute) (pos : Nat) (rs : List (Record 4)) (none : β)
    (some : Bytes → β) :
    (lastOf attr (placed pos rs)).elim none (fun q => some q.2.value) =
      (lastContent attr (contents rs)).elim none some := by
  rw [← lastOf_content attr pos]
  cases lastOf attr (placed pos rs) <;> rfl

/-- Attributes of other types are not looked at. -/
theorem lastContent_append {attr : Attribute} {vs ws : List (UInt16 × Bytes)}
    (other : ∀ w ∈ ws, w.1 ≠ attr.code) : lastContent attr (vs ++ ws) = lastContent attr vs := by
  have hnone : ws.filter (fun v => v.1 = attr.code) = [] :=
    List.filter_eq_nil_iff.mpr fun w hw => by simpa using other w hw
  rw [lastContent, List.filter_append, hnone, List.append_nil, lastContent]

theorem toUInt16_injective : Function.Injective Class.toUInt16 := by
  intro a b h
  cases a <;> cases b <;> first | rfl | exact absurd h (by decide)

/-- Equal header fields and equal last values make equal messages. -/
theorem Decodes.saysSame {data data' : Bytes} {attrs attrs' : List (Record 4)} {p q : Stun}
    (hd : Decodes data attrs p) (hd' : Decodes data' attrs' q)
    (type : word16At data 0 = word16At data' 0)
    (tid : (data.drop 8).take 12 = (data'.drop 8).take 12)
    (last : ∀ attr, attr ≠ .messageIntegrity → attr ≠ .fingerprint →
      lastContent attr (contents attrs) = lastContent attr (contents attrs')) : SaysSame p q := by
  have elim : ∀ {β : Type} (attr : Attribute) (none : β) (some : Bytes → β),
      attr ≠ .messageIntegrity → attr ≠ .fingerprint →
      (lastOf attr (placed 20 attrs)).elim none (fun q => some q.2.value) =
        (lastOf attr (placed 20 attrs')).elim none (fun q => some q.2.value) := by
    intro β attr none some hmi hfp
    rw [lastOf_elim, lastOf_elim, last attr hmi hfp]
  refine
    { klass := ?_, method := ?_, transactionId := ?_, username := ?_, priority := ?_
      iceControlling := ?_, iceControlled := ?_, useCandidate := ?_, errorCode := ?_ }
  · have hclass : p.klass.toUInt16.toNat = q.klass.toUInt16.toNat := by
      rw [hd.klass, hd'.klass, type]
    exact toUInt16_injective (UInt16.toNat_inj.mp hclass)
  · rw [← UInt16.toNat_inj, hd.method, hd'.method, type]
  · exact Subtype.ext (hd.transactionId.trans (tid.trans hd'.transactionId.symm))
  · rw [hd.username, hd'.username]
    exact elim .username [] id (by decide) (by decide)
  · rw [hd.priority, hd'.priority]
    exact elim .priority 0 word32 (by decide) (by decide)
  · rw [hd.iceControlling, hd'.iceControlling]
    exact elim .iceControlling 0 word64 (by decide) (by decide)
  · rw [hd.iceControlled, hd'.iceControlled]
    exact elim .iceControlled 0 word64 (by decide) (by decide)
  · have candidate := elim .useCandidate false (fun _ => true) (by decide) (by decide)
    rw [Bool.eq_iff_iff, hd.useCandidate, hd'.useCandidate, ← lastOf_isSome .useCandidate 20,
      ← lastOf_isSome .useCandidate 20]
    cases h : lastOf .useCandidate (placed 20 attrs) <;>
      cases h' : lastOf .useCandidate (placed 20 attrs') <;> simp [h, h'] at candidate ⊢
  · rw [hd.errorCode, hd'.errorCode]
    exact elim .errorCode 0 errorCodeOf (by decide) (by decide)

/-! ## The hashed text -/

/-- The hashed text is the header under its own length field and the attributes in front of the
signature. -/
theorem signedPart_split {data : Bytes} {attrs as bs : List (Record 4)} {r : Record 4}
    (hg : Grammar data attrs) (hattrs : attrs = as ++ r :: bs) :
    ∃ (msgType : UInt16) (tid : Bytes), tid.length = 12 ∧ word16At data 0 = msgType.toNat ∧
      (data.drop 8).take 12 = tid ∧
      signedPart data (20 + (encode as).length) = be16 msgType ++
        (be16 (UInt16.ofNat (20 + (encode as).length + 24 - 20)) ++
          ([0x21, 0x12, 0xA4, 0x42] ++ (tid ++ encode as))) := by
  obtain ⟨msgType, msgLength, cookie, tid, rest, hdata, hcookie, htid⟩ := exists_header hg.long
  obtain ⟨_, hmagic, htype, _, hid, hrest, _⟩ :=
    header_fields msgType msgLength rest hcookie htid hdata
  rw [hg.cookie] at hmagic
  rw [hg.framed, hattrs, encode_append] at hrest
  refine ⟨msgType, tid, htid, htype, hid, ?_⟩
  have hcut : (data.take (20 + (encode as).length)).drop 4 = cookie ++ (tid ++ encode as) := by
    have hsplit : data = (be16 msgType ++ be16 msgLength) ++
        ((cookie ++ (tid ++ encode as)) ++ encode (r :: bs)) := by
      rw [hdata, ← hrest]
      simp only [List.append_assoc]
    have hfront : (be16 msgType ++ be16 msgLength).length = 4 := rfl
    have hlength : (cookie ++ (tid ++ encode as)).length = 20 + (encode as).length - 4 := by
      simp only [List.length_append, hcookie, htid]
      omega
    rw [hsplit, List.drop_take, List.drop_left' hfront, List.take_left' hlength]
  have htake : data.take 2 = be16 msgType := by
    rw [hdata]
    rfl
  rw [signedPart, htake, hcut, ← hmagic]

/-- Only what stands in front of the signature is read, trailers apart. -/
theorem signed_contents {data : Bytes} {attrs as bs : List (Record 4)} {r : Record 4}
    (hg : Grammar data attrs) (hattrs : attrs = as ++ r :: bs)
    (hmi : r.type = Attribute.messageIntegrity.code) {attr : Attribute}
    (hnot : attr ≠ .messageIntegrity) (hnot' : attr ≠ .fingerprint) :
    lastContent attr (contents (as ++ r :: bs)) = lastContent attr (contents as) := by
  have hintegrity := hg.after_integrity
  rw [hattrs] at hintegrity
  have hbehind := (List.pairwise_cons.mp (List.pairwise_append.mp hintegrity).2.1).1
  rw [contents, List.map_append]
  refine lastContent_append fun w hw => ?_
  obtain ⟨s, hs, rfl⟩ := List.mem_map.mp hw
  rcases List.mem_cons.mp hs with rfl | hbs
  · rw [hmi]
    exact code_ne hnot.symm
  · rw [hbehind s hbs hmi]
    exact code_ne hnot'.symm

/-- Messages with the same hashed text say the same. -/
theorem saysSame_of_signedPart {data data' : Bytes} {attrs attrs' : List (Record 4)} {p p' : Stun}
    {q q' : Nat × Record 4} (hg : Grammar data attrs) (hg' : Grammar data' attrs')
    (hd : Decodes data attrs p) (hd' : Decodes data' attrs' p') (hq : q ∈ placed 20 attrs)
    (hq' : q' ∈ placed 20 attrs') (hmi : q.2.type = Attribute.messageIntegrity.code)
    (hmi' : q'.2.type = Attribute.messageIntegrity.code)
    (same : signedPart data q.1 = signedPart data' q'.1) : SaysSame p p' := by
  obtain ⟨as, bs, hattrs, hpos⟩ := placed_split hq
  obtain ⟨as', bs', hattrs', hpos'⟩ := placed_split hq'
  obtain ⟨msgType, tid, hlength, htype, hid, htext⟩ := signedPart_split hg hattrs
  obtain ⟨msgType', tid', hlength', htype', hid', htext'⟩ := signedPart_split hg' hattrs'
  rw [hpos, hpos', htext, htext'] at same
  obtain ⟨hword, hrest⟩ := List.append_inj same rfl
  obtain ⟨_, hrest⟩ := List.append_inj hrest rfl
  obtain ⟨htid, hencode⟩ :=
    List.append_inj (List.append_cancel_left hrest) (hlength.trans hlength'.symm)
  have hcontents : contents as = contents as' := by
    have hdecode := decode_encode as
    rw [hencode, decode_encode] at hdecode
    exact (Option.some.inj hdecode).symm
  refine hd.saysSame hd' ?_ ?_ fun attr hnot hnot' => ?_
  · rw [htype, htype', be16_injective hword]
  · rw [hid, hid', htid]
  · rw [hattrs, hattrs', signed_contents hg hattrs hmi hnot hnot',
      signed_contents hg' hattrs' hmi' hnot hnot', hcontents]

/-! ## Altered messages -/

/-- A message that passes the check carries the digest of its hashed text. -/
theorem verified_digest (hmac : Bytes → Bytes → Block 20) {data : Bytes}
    {attrs : List (Record 4)} {p : Stun} {localUsername localPassword : Bytes}
    (hg : Grammar data attrs) (hd : Decodes data attrs p)
    (verified : ∃ s, checkAuthentication hmac p localUsername localPassword = .ok (.ok, s)) :
    ∃ q ∈ placed 20 attrs, q.2.type = Attribute.messageIntegrity.code ∧
      p.messageIntegrity = some (q.1 + 4) ∧
      loadBytes data (q.1 + 4) 20 = .ok (hmac localPassword (signedPart data q.1)).val := by
  obtain ⟨result, hresult, _, hok⟩ :=
    checkAuthentication_eq hmac hg hd localUsername localPassword
  obtain ⟨s, hs⟩ := verified
  rw [hresult] at hs
  cases hs
  obtain ⟨_, _, q, hq, hmi, hvalue⟩ := hok.mp rfl
  refine ⟨q, hq, hmi, ?_, ?_⟩
  · rw [hd.messageIntegrity, lastOf_once hg.integrity_once hq hmi]
    rfl
  · obtain ⟨as, bs, hattrs, hpos, _, _⟩ := integrity_split hg hq hmi
    obtain ⟨t, mid, hmid, hdata⟩ := length_split hg
    have hlen : q.2.value.length = 20 :=
      hg.lengths q.2 (mem_placed hq).1 .messageIntegrity hmi
    have hload := (signature_window hmid hattrs hlen hdata (UInt16.ofNat (data.length - 20))).2
    rw [← hdata, ← hpos, hvalue] at hload
    exact hload

/-- Who alters what a signed message says, and still passes the check, has signed another text. -/
theorem altered_needs_new_digest (hmac : Bytes → Bytes → Block 20) {data data' : Bytes}
    {p p' : Stun} {localUsername localUsername' localPassword localPassword' : Bytes}
    (fits : data.length ≤ 65535) (fits' : data'.length ≤ 65535)
    (accepted : parse data = .ok (.packet p)) (accepted' : parse data' = .ok (.packet p'))
    (verified : ∃ s, checkAuthentication hmac p localUsername localPassword = .ok (.ok, s))
    (verified' : ∃ s, checkAuthentication hmac p' localUsername' localPassword' = .ok (.ok, s))
    (altered : ¬ SaysSame p p') :
    ∃ i i', p.messageIntegrity = some (i + 4) ∧ p'.messageIntegrity = some (i' + 4) ∧
      loadBytes data (i + 4) 20 = .ok (hmac localPassword (signedPart data i)).val ∧
      loadBytes data' (i' + 4) 20 = .ok (hmac localPassword' (signedPart data' i')).val ∧
      signedPart data i ≠ signedPart data' i' := by
  obtain ⟨attrs, hg, hd⟩ := parse_accepted fits accepted
  obtain ⟨attrs', hg', hd'⟩ := parse_accepted fits' accepted'
  obtain ⟨q, hq, hmi, hat, hdigest⟩ := verified_digest hmac hg hd verified
  obtain ⟨q', hq', hmi', hat', hdigest'⟩ := verified_digest hmac hg' hd' verified'
  refine ⟨q.1, q'.1, hat, hat', hdigest, hdigest', fun same => altered ?_⟩
  exact saysSame_of_signedPart hg hg' hd hd' hq hq' hmi hmi' same

/-- `signedRequest` with a PRIORITY, signed anew and without a FINGERPRINT. -/
def urgentRequest : Bytes :=
  [0x00, 0x01, 0x00, 0x28, 0x21, 0x12, 0xA4, 0x42, 1, 2, 3, 4, 5, 6, 7, 8, 9, 10, 11, 12,
    0x00, 0x06, 0x00, 0x03, 0x61, 0x3A, 0x62, 0x00, 0x00, 0x24, 0x00, 0x04, 0x00, 0x00, 0x00, 0x07,
    0x00, 0x08, 0x00, 0x14, 0x35, 0x11, 0x11, 0x27, 0x89, 0x40, 0xA6, 0x9F, 0x38, 0x32, 0xBD, 0xDA,
    0x82, 0x93, 0xD9, 0xFD, 0x59, 0x14, 0x47, 0xAF]

def urgentPacket : Stun :=
  { klass := .request, method := Method.binding
    transactionId := bindingTransactionId
    data := urgentRequest, size := 60, username := [0x61, 0x3A, 0x62], priority := 7
    messageIntegrity := some 40 }

/-- HMAC-SHA1 at the two texts that are signed in these requests. -/
def requestsHmac (key text : Bytes) : Block 20 :=
  if text = signedPart urgentRequest 36 then
    ⟨[0x35, 0x11, 0x11, 0x27, 0x89, 0x40, 0xA6, 0x9F, 0x38, 0x32, 0xBD, 0xDA, 0x82, 0x93, 0xD9,
      0xFD, 0x59, 0x14, 0x47, 0xAF], rfl⟩
  else signedRequestHmac key text

theorem altered_needs_new_digest_urgentRequest :
    ∃ i i', signedPart signedRequest i ≠ signedPart urgentRequest i' := by
  have hverdict : checkAuthentication requestsHmac signedPacket [0x61] [0x70, 0x77] =
      .ok (.ok, signedPacket) := by decide +kernel
  have hverdict' : checkAuthentication requestsHmac urgentPacket [0x61] [0x70, 0x77] =
      .ok (.ok, urgentPacket) := by decide +kernel
  have hparse : parse signedRequest = .ok (.packet signedPacket) := by decide +kernel
  have hparse' : parse urgentRequest = .ok (.packet urgentPacket) := by decide +kernel
  have hfits : signedRequest.length ≤ 65535 := by decide
  have hfits' : urgentRequest.length ≤ 65535 := by decide
  obtain ⟨i, i', _, _, _, _, hne⟩ := altered_needs_new_digest requestsHmac hfits hfits' hparse
    hparse' ⟨_, hverdict⟩ ⟨_, hverdict'⟩ fun h => absurd h.priority (by decide)
  exact ⟨i, i', hne⟩

end Stun

end Sars
