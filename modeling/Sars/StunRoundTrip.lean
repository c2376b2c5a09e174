import Sars.StunAcceptance
import Sars.StunSerialized

/-!
# Serialize, then parse

The bytes of a serialized message are in the grammar of `parse`, and the last
occurrence of an attribute among their records is the one the object put there.
The bounds are those of the source: a username of at most 512 bytes, a method
whose bits fit the first two bytes, an error code the wire format can carry.
-/

namespace Sars

open ByteMemory NetworkOrder TlvFraming

namespace Stun

/-! ## The type field -/

theorem typeField_toNat (s : Stun) :
    s.typeField.toNat = s.method.toNat % 16 + 16 * (s.klass.toUInt16.toNat % 2) +
      32 * (s.method.toNat / 16 % 8) + 256 * (s.klass.toUInt16.toNat / 2 % 2) +
      512 * (s.method.toNat / 128 % 32) := by
  have h0 : (s.method &&& (0x000f : UInt16)).toNat = s.method.toNat % 16 := by
    rw [UInt16.toNat_and]
    exact Nat.and_two_pow_sub_one_eq_mod s.method.toNat 4
  have h1 : (s.method &&& (0x0070 : UInt16)).toNat = 16 * (s.method.toNat / 16 % 8) := by
    rw [UInt16.toNat_and]
    exact and_mask (k := 3) (s := 4) rfl rfl
  have h2 : (s.method &&& (0x0f80 : UInt16)).toNat = 128 * (s.method.toNat / 128 % 32) := by
    rw [UInt16.toNat_and]
    exact and_mask (k := 5) (s := 7) rfl rfl
  have h3 : (s.klass.toUInt16 &&& (0x01 : UInt16)).toNat = s.klass.toUInt16.toNat % 2 := by
    rw [UInt16.toNat_and]
    exact Nat.and_two_pow_sub_one_eq_mod s.klass.toUInt16.toNat 1
  have h4 : (s.klass.toUInt16 &&& (0x02 : UInt16)).toNat =
      2 * (s.klass.toUInt16.toNat / 2 % 2) := by
    rw [UInt16.toNat_and]
    exact and_mask (k := 1) (s := 1) rfl rfl
  have s1 : ((s.method &&& (0x0070 : UInt16)) <<< 1).toNat =
      2 ^ 5 * (s.method.toNat / 16 % 8) := by
    rw [UInt16.toNat_shiftLeft, h1, Nat.shiftLeft_eq]
    simp
    omega
  have s2 : ((s.method &&& (0x0f80 : UInt16)) <<< 2).toNat =
      2 ^ 9 * (s.method.toNat / 128 % 32) := by
    rw [UInt16.toNat_shiftLeft, h2, Nat.shiftLeft_eq]
    simp
    omega
  have s3 : ((s.klass.toUInt16 &&& (0x01 : UInt16)) <<< 4).toNat =
      2 ^ 4 * (s.klass.toUInt16.toNat % 2) := by
    rw [UInt16.toNat_shiftLeft, h3, Nat.shiftLeft_eq]
    simp
    omega
  have s4 : ((s.klass.toUInt16 &&& (0x02 : UInt16)) <<< 7).toNat =
      2 ^ 8 * (s.klass.toUInt16.toNat / 2 % 2) := by
    rw [UInt16.toNat_shiftLeft, h4, Nat.shiftLeft_eq]
    simp
    omega
  have reorder : ∀ a b c d e : Nat, a ||| b ||| c ||| d ||| e = c ||| e ||| b ||| d ||| a := by
    intros
    ac_rfl
  simp only [typeField, UInt16.toNat_or, h0, s1, s2, s3, s4]
  rw [reorder, or_eq_add (i := 4) (by omega), or_eq_add (i := 5) (by omega),
    or_eq_add (i := 8) (by omega), or_eq_add (i := 9) (by omega)]
  simp only [Nat.reducePow]

/-- The fields of a type can be read off again. -/
theorem type_fields {a b c d e : Nat} (ha : a < 16) (hb : b < 2) (hc : c < 8) (hd : d < 2)
    (he : e < 32) :
    (a + 16 * b + 32 * c + 256 * d + 512 * e) % 16 = a ∧
      (a + 16 * b + 32 * c + 256 * d + 512 * e) / 16 % 2 = b ∧
      (a + 16 * b + 32 * c + 256 * d + 512 * e) / 32 % 8 = c ∧
      (a + 16 * b + 32 * c + 256 * d + 512 * e) / 256 % 2 = d ∧
      (a + 16 * b + 32 * c + 256 * d + 512 * e) / 512 % 32 = e := by
  refine ⟨?_, ?_, ?_, ?_, ?_⟩ <;> omega

/-! ## The records of a serialized message -/

theorem attributes_ok {s : Stun} {a : Attribute × Bytes} (h : a ∈ s.attributes) :
    LengthOk a.1 a.2.length ∧ a.1 ≠ .messageIntegrity ∧ a.1 ≠ .fingerprint := by
  simp only [attributes, List.mem_append, List.mem_ite_nil_right, List.mem_singleton] at h
  rcases h with (((((⟨_, rfl⟩ | ⟨_, rfl⟩) | ⟨_, rfl⟩) | ⟨_, rfl⟩) | ⟨_, rfl⟩) | ⟨_, rfl⟩) | ⟨_, rfl⟩
  all_goals exact ⟨by simp [LengthOk], by simp, by simp⟩

/-- Every attribute of the message, trailers included, with the values it is given. -/
def allAttributes (hmac : Bytes → Bytes → Block 20) (s : Stun) (body : Bytes)
    (fingerprint : Bytes) : List (Attribute × Bytes) :=
  s.attributes ++ (s.integrity hmac body ++ [(.fingerprint, fingerprint)])

theorem Serialized.carries {hmac : Bytes → Bytes → Block 20} {s out : Stun}
    {rs ms fps : List (Record 4)} (h : Serialized hmac s out rs ms fps) :
    ∃ v : UInt32, Carries (rs ++ (ms ++ fps)) (allAttributes hmac s (encode rs) (be32 v)) :=
  ⟨_, h.attributes.append (h.integrity.append h.fingerprint)⟩

theorem Carries.mem {rs : List (Record 4)} {as : List (Attribute × Bytes)} (h : Carries rs as)
    {r : Record 4} (hr : r ∈ rs) : ∃ a ∈ as, r.type = a.1.code ∧ r.value = a.2 := by
  have hmem : (r.type, r.value) ∈ as.map (fun a => (a.1.code, a.2)) :=
    h ▸ List.mem_map_of_mem hr
  obtain ⟨a, ha, heq⟩ := List.mem_map.mp hmem
  exact ⟨a, ha, (congrArg Prod.fst heq).symm, (congrArg Prod.snd heq).symm⟩

theorem Carries.pairwise {rs : List (Record 4)} {as : List (Attribute × Bytes)} (h : Carries rs as)
    {R : UInt16 → UInt16 → Prop} (hR : as.Pairwise fun a b => R a.1.code b.1.code) :
    rs.Pairwise fun a b => R a.type b.type := by
  have hmap : rs.map Record.type = as.map (fun a => a.1.code) := by
    have hfst := congrArg (List.map Prod.fst) h
    simpa only [List.map_map, Function.comp_def] using hfst
  have htypes : (rs.map Record.type).Pairwise R := by
    rw [hmap]
    exact List.pairwise_map.mpr hR
  exact List.pairwise_map.mp htypes

theorem Carries.singleton {rs : List (Record 4)} {a : Attribute × Bytes} (h : Carries rs [a]) :
    ∃ r, rs = [r] ∧ r.type = a.1.code ∧ r.value = a.2 := by
  have hlen : rs.length = 1 := by simpa using congrArg List.length h
  obtain ⟨r, rfl⟩ := List.length_eq_one_iff.mp hlen
  have hpair := (List.cons.inj h).1
  exact ⟨r, rfl, congrArg Prod.fst hpair, congrArg Prod.snd hpair⟩

theorem code_ne {a b : Attribute} (h : a ≠ b) : a.code ≠ b.code :=
  fun hcode => h (Attribute.code_injective hcode)

section

variable {hmac : Bytes → Bytes → Block 20} {s out : Stun} {rs ms fps : List (Record 4)}

theorem allAttributes_ok {body : Bytes} {v : UInt32} {a : Attribute × Bytes}
    (h : a ∈ allAttributes hmac s body (be32 v)) : LengthOk a.1 a.2.length := by
  simp only [allAttributes, List.mem_append] at h
  rcases h with h | h | h
  · exact (attributes_ok h).1
  · obtain ⟨hattr, hlen⟩ := integrity_mem hmac h
    rw [hattr, hlen]
    rfl
  · rw [List.mem_singleton.mp h]
    rfl

/-- The two trailers are the last attributes and in this order. -/
theorem allAttributes_ordered (hmac : Bytes → Bytes → Block 20) (s : Stun)
    (body fingerprint : Bytes) :
    (allAttributes hmac s body fingerprint).Pairwise fun a b =>
      (a.1.code = Attribute.messageIntegrity.code → b.1.code = Attribute.fingerprint.code) ∧
        a.1.code ≠ Attribute.fingerprint.code := by
  have plain : ∀ a ∈ s.attributes, ∀ b : Attribute × Bytes,
      (a.1.code = Attribute.messageIntegrity.code → b.1.code = Attribute.fingerprint.code) ∧
        a.1.code ≠ Attribute.fingerprint.code := by
    intro a ha b
    obtain ⟨_, hmi, hfp⟩ := attributes_ok ha
    exact ⟨fun h => absurd h (code_ne hmi), code_ne hfp⟩
  refine List.pairwise_append.mpr ⟨?_, List.pairwise_append.mpr ⟨?_, ?_, ?_⟩, ?_⟩
  · exact List.pairwise_iff_forall_sublist.mpr fun {a b} hsub =>
      plain a (hsub.subset (by simp)) b
  · simp only [integrity]
    split_ifs <;> simp
  · simp
  · intro a ha b hb
    rw [List.mem_singleton.mp hb, (integrity_mem hmac ha).1]
    exact ⟨fun _ => rfl, by decide⟩
  · exact fun a ha b _ => plain a ha b

theorem serializedSize_lt (small : s.username.length ≤ 512) : s.serializedSize < 65536 := by
  have hname := usernamePaddedLen_toNat (s := s) (by omega)
  have hpad : padding 4 s.username.length < 4 := padding_lt (by omega) _
  have hbound := serializedSize_le s
  split_ifs at hbound <;> omega

theorem Serialized.records_length (h : Serialized hmac s out rs ms fps)
    (short : s.username.length ≤ 65532) :
    (encode (rs ++ (ms ++ fps))).length = s.serializedSize - 20 := by
  have hlength := serializedSize_eq hmac short (encode rs)
  have hrs := h.attributes.encode_length
  have hms := h.integrity.encode_length
  have hfps := h.fingerprint.fingerprint_length
  simp only [encode_append, List.length_append, hrs, hms, hfps]
  omega

/-- The header of the message, field by field. -/
theorem Serialized.header_fields (h : Serialized hmac s out rs ms fps)
    (short : s.username.length ≤ 65532) :
    (out.data.take out.size).getD 0 0 = (s.typeField >>> 8).toUInt8 ∧
      ((out.data.take out.size).drop 4).take 4 = magicCookie.toList ∧
      word16At (out.data.take out.size) 0 = s.typeField.toNat ∧
      word16At (out.data.take out.size) 2 = (UInt16.ofNat (s.serializedSize - 20)).toNat ∧
      ((out.data.take out.size).drop 8).take 12 = s.transactionId.val ∧
      (out.data.take out.size).drop 20 = encode (rs ++ (ms ++ fps)) ∧
      (out.data.take out.size).length = s.serializedSize := by
  have hsize := serializedSize_ge s
  have hcookie : magicCookie.toList.length = 4 := rfl
  have hdata : out.data.take out.size = be16 s.typeField ++
      (be16 (UInt16.ofNat (s.serializedSize - 20)) ++ (magicCookie.toList ++
        (s.transactionId.val ++ encode (rs ++ (ms ++ fps))))) := by
    rw [h.bytes]
    simp only [header, List.append_assoc]
  have hfields := Stun.header_fields s.typeField (UInt16.ofNat (s.serializedSize - 20))
    (encode (rs ++ (ms ++ fps))) hcookie s.transactionId.property hdata
  rw [h.records_length short] at hfields
  exact ⟨hfields.1, hfields.2.1, hfields.2.2.1, hfields.2.2.2.1, hfields.2.2.2.2.1,
    hfields.2.2.2.2.2.1, by omega⟩

/-- The only condition left is the one on the first byte. -/
theorem Serialized.grammar_of_first (h : Serialized hmac s out rs ms fps)
    (small : s.username.length ≤ 512) (hlow : (s.typeField >>> 8).toUInt8 < 3) :
    Grammar (out.data.take out.size) (rs ++ (ms ++ fps)) := by
  obtain ⟨v, hcarries⟩ := h.carries
  obtain ⟨fp, rfl, hfptype, hfpvalue⟩ := h.fingerprint.singleton
  have hsize := serializedSize_lt small
  have hrecords := h.records_length (by omega)
  have hword : (UInt16.ofNat (s.serializedSize - 20)).toNat = s.serializedSize - 20 :=
    UInt16.toNat_ofNat_of_lt' (show _ < 65536 by omega)
  obtain ⟨hfirst, hcookie, -, hdeclared, -, hframed, htotal⟩ := h.header_fields (by omega)
  have haligned := encode_aligned (by decide) rfl (rs ++ (ms ++ [fp]))
  have hge := serializedSize_ge s
  refine
    { long := by omega, first := ?_, cookie := hcookie, length_field := ?_, length_aligned := ?_,
      framed := hframed, lengths := ?_, after_integrity := ?_, after_fingerprint := ?_,
      checksum := ?_ }
  · rw [hfirst]
    exact hlow
  · rw [hdeclared, hword, htotal]
  · rw [hdeclared, hword, ← hrecords]
    exact haligned
  · intro r hr attr hattr
    obtain ⟨a, ha, htype, hvalue⟩ := hcarries.mem hr
    rw [hvalue, ← Attribute.code_injective (htype.symm.trans hattr)]
    exact allAttributes_ok ha
  · exact (hcarries.pairwise (R := fun a b =>
      (a = Attribute.messageIntegrity.code → b = Attribute.fingerprint.code) ∧
        a ≠ Attribute.fingerprint.code) (allAttributes_ordered hmac s _ _)).imp And.left
  · exact (hcarries.pairwise (R := fun a b =>
      (a = Attribute.messageIntegrity.code → b = Attribute.fingerprint.code) ∧
        a ≠ Attribute.fingerprint.code) (allAttributes_ordered hmac s _ _)).imp And.right
  · intro p hp htype
    have hcarried := h.attributes.append h.integrity
    rw [← List.append_assoc, placed_append] at hp
    rcases List.mem_append.mp hp with hp | hp
    · obtain ⟨a, ha, hatype, _⟩ := hcarried.mem (mem_placed hp).1
      exfalso
      rcases List.mem_append.mp ha with ha | ha
      · exact code_ne (attributes_ok ha).2.2 (hatype.symm.trans htype)
      · rw [(integrity_mem hmac ha).1] at hatype
        exact absurd (hatype.symm.trans htype) (by decide)
    · have htake := header_take s (rs ++ ms) [fp]
      rw [List.append_assoc] at htake
      rw [List.mem_singleton.mp hp, hfpvalue, h.bytes, htake]

theorem Serialized.grammar (h : Serialized hmac s out rs ms fps) (small : s.username.length ≤ 512)
    (hmethod : s.method.toNat < 0x80) :
    Grammar (out.data.take out.size) (rs ++ (ms ++ fps)) := by
  refine h.grammar_of_first small ?_
  have htype := typeField_toNat s
  have hlow : (s.typeField >>> 8).toUInt8.toNat < 3 := by
    simp [Nat.shiftRight_eq_div_pow]
    omega
  exact hlow

end

/-! ## The values read back -/

/-- The last value an attribute is given. -/
def lastValue (attr : Attribute) (as : List (Attribute × Bytes)) : Option Bytes :=
  ((as.filter fun a => a.1 = attr).getLast?).map Prod.snd

theorem lastValue_append (attr : Attribute) (as bs : List (Attribute × Bytes)) :
    lastValue attr (as ++ bs) = (lastValue attr bs).or (lastValue attr as) := by
  simp only [lastValue, List.filter_append, List.getLast?_append]
  cases (bs.filter fun a => a.1 = attr).getLast? <;> rfl

theorem lastValue_ite (attr : Attribute) {c : Prop} [Decidable c] (b : Attribute) (v : Bytes) :
    lastValue attr (if c then [(b, v)] else []) = if b = attr ∧ c then some v else none := by
  by_cases hc : c <;> by_cases hb : b = attr <;> simp [lastValue, hc, hb]

theorem lastValue_single (attr b : Attribute) (v : Bytes) :
    lastValue attr [(b, v)] = if b = attr then some v else none := by
  by_cases hb : b = attr <;> simp [lastValue, hb]

/-- Reading the last record of a type reads the last value the attribute was given. -/
theorem Carries.lastOf {rs : List (Record 4)} {as : List (Attribute × Bytes)} (h : Carries rs as)
    (attr : Attribute) (pos : Nat) :
    (lastOf attr (placed pos rs)).map (·.2.value) = lastValue attr as := by
  induction rs generalizing as pos with
  | nil =>
    cases as with
    | nil => rfl
    | cons a as => cases h
  | cons r rs ih =>
    cases as with
    | nil => cases h
    | cons a as =>
      obtain ⟨hhead, htail⟩ := List.cons.inj h
      have htype : r.type = a.1.code := congrArg Prod.fst hhead
      have hvalue : r.value = a.2 := congrArg Prod.snd hhead
      have hiff : r.type = attr.code ↔ a.1 = attr := by
        rw [htype, Attribute.code_injective.eq_iff]
      have hrec := ih htail (pos + r.size)
      have hsplit : lastValue attr (a :: as) =
          (lastValue attr as).or (if a.1 = attr then some a.2 else none) := by
        rw [← lastValue_single attr a.1 a.2, ← lastValue_append]
        rfl
      rw [placed, lastOf_cons, hsplit, ← hrec]
      cases Stun.lastOf attr (placed (pos + r.size) rs) with
      | some q => rfl
      | none =>
        by_cases hattr : a.1 = attr
        · simp [hiff.mpr hattr, hattr, hvalue]
        · simp [mt hiff.mp hattr, hattr]

theorem lastValue_all (hmac : Bytes → Bytes → Block 20) (s : Stun) (body fingerprint : Bytes)
    (attr : Attribute) : lastValue attr (allAttributes hmac s body fingerprint) =
      (if Attribute.fingerprint = attr then some fingerprint else none).or
      ((if Attribute.messageIntegrity = attr ∧ s.addMessageIntegrity = true then
        some (hmac s.password (s.signedText body)).val else none).or
      ((if Attribute.errorCode = attr ∧ s.addErrorCode = true then
        some (be16 0 ++ [codeClass s.errorCode, codeNumber s.errorCode]) else none).or
      ((if Attribute.xorMappedAddress = attr ∧ s.addXorMappedAddress = true then
        some (xorAddress s.transactionId s.xorMappedAddress) else none).or
      ((if Attribute.useCandidate = attr ∧ s.hasUseCandidate = true then some [] else none).or
      ((if Attribute.iceControlled = attr ∧ s.iceControlled ≠ 0 then
        some (be64 s.iceControlled) else none).or
      ((if Attribute.iceControlling = attr ∧ s.iceControlling ≠ 0 then
        some (be64 s.iceControlling) else none).or
      ((if Attribute.priority = attr ∧ s.priority ≠ 0 then some (be32 s.priority) else none).or
      (if Attribute.username = attr ∧ s.usernamePaddedLen ≠ 0 then
        some s.username else none)))))))) := by
  simp only [allAttributes, attributes, integrity, lastValue_append, lastValue_ite,
    lastValue_single, Option.or_assoc]

/-- The code that is read is the one written, up to what its class can hold in eight bits. -/
theorem errorCodeOf_codes (errorCode : UInt16) :
    errorCodeOf (be16 0 ++ [codeClass errorCode, codeNumber errorCode]) = errorCode % 25600 := by
  have hword := errorCode.toNat_lt
  have hclass : (codeClass errorCode).toNat = errorCode.toNat / 100 % 256 := by
    simp [codeClass]
  have hnumber : (codeNumber errorCode).toNat = errorCode.toNat % 100 := by
    simp [codeNumber, hclass, UInt8.toNat_sub]
    omega
  have hdiv : errorCode.toNat / 100 / 256 = errorCode.toNat / 25600 :=
    Nat.div_div_eq_div_mul errorCode.toNat 100 256
  apply UInt16.toNat_inj.mp
  simp [errorCodeOf, be16, hclass, hnumber]
  omega

theorem Carries.elim {rs : List (Record 4)} {as : List (Attribute × Bytes)} (h : Carries rs as)
    {β : Type} (attr : Attribute) (d : β) (g : Bytes → β) :
    (Stun.lastOf attr (placed 20 rs)).elim d (fun q => g q.2.value) =
      (lastValue attr as).elim d g := by
  rw [← h.lastOf attr 20]
  cases Stun.lastOf attr (placed 20 rs) <;> rfl

theorem Carries.isSome {rs : List (Record 4)} {as : List (Attribute × Bytes)}
    (h : Carries rs as) (attr : Attribute) :
    (Stun.lastOf attr (placed 20 rs)).isSome = (lastValue attr as).isSome := by
  rw [← h.lastOf attr 20]
  cases Stun.lastOf attr (placed 20 rs) <;> rfl

/-- The class and the method are read off the type field. -/
theorem Decodes.typeField {data : Bytes} {attrs : List (Record 4)} {s p : Stun}
    (hd : Decodes data attrs p) (htype : word16At data 0 = s.typeField.toNat) :
    p.klass = s.klass ∧ p.method.toNat = s.method.toNat % 4096 := by
  obtain ⟨hlow, hfirst, hmid, hsecond, hhigh⟩ := type_fields
    (a := s.method.toNat % 16) (b := s.klass.toUInt16.toNat % 2) (c := s.method.toNat / 16 % 8)
    (d := s.klass.toUInt16.toNat / 2 % 2) (e := s.method.toNat / 128 % 32)
    (by omega) (by omega) (by omega) (by omega) (by omega)
  constructor
  · have hfour : s.klass.toUInt16.toNat < 4 := by cases s.klass <;> decide
    have hbits := hd.klass
    rw [htype, typeField_toNat s, hfirst, hsecond] at hbits
    have hsame : p.klass.toUInt16 = s.klass.toUInt16 := by
      apply UInt16.toNat_inj.mp
      clear hlow hfirst hmid hsecond hhigh
      omega
    rw [← Class.ofUInt16_toUInt16 p.klass, hsame, Class.ofUInt16_toUInt16]
  · have hbits := hd.method
    rw [htype, typeField_toNat s, hlow, hmid, hhigh] at hbits
    clear hlow hfirst hmid hsecond hhigh
    omega

/-- The packet holds what was written: each field of the object, or the default where the
attribute does not belong to the class. -/
structure ReadBack (s p : Stun) : Prop where
  klass : p.klass = s.klass
  method : p.method = s.method
  transactionId : p.transactionId = s.transactionId
  username : p.username = s.username
  priority : p.priority = s.priority
  iceControlling : p.iceControlling = s.iceControlling
  iceControlled : p.iceControlled = s.iceControlled
  useCandidate : p.hasUseCandidate = s.hasUseCandidate
  errorCode : s.errorCode = 0 ∨ 300 ≤ s.errorCode.toNat ∧ s.errorCode.toNat ≤ 699 →
    p.errorCode = if s.klass = .errorResponse then s.errorCode else 0
  fingerprint : p.hasFingerprint = true
  messageIntegrity : p.hasMessageIntegrity = true ↔ s.klass ≠ .errorResponse ∧ s.password ≠ []

theorem Serialized.errorCode_read {hmac : Bytes → Bytes → Block 20} {s out p : Stun}
    {rs ms fps : List (Record 4)} (h : Serialized hmac s out rs ms fps)
    (hd : Decodes (out.data.take out.size) (rs ++ (ms ++ fps)) p) :
    p.errorCode = if s.klass = .errorResponse then s.errorCode % 25600 else 0 := by
  obtain ⟨v, hcarries⟩ := h.carries
  rw [hd.errorCode, hcarries.elim .errorCode 0 errorCodeOf,
    lastValue_all hmac s (encode rs) (be32 v)]
  by_cases hc : s.klass = .errorResponse
  · by_cases hzero : s.errorCode = 0
    · simp [addErrorCode, hzero]
    · simp [addErrorCode, hc, hzero, errorCodeOf_codes]
  · simp [addErrorCode, hc]

theorem Serialized.readBack {hmac : Bytes → Bytes → Block 20} {s out p : Stun}
    {rs ms fps : List (Record 4)} (h : Serialized hmac s out rs ms fps)
    (hd : Decodes (out.data.take out.size) (rs ++ (ms ++ fps)) p)
    (small : s.username.length ≤ 512) (hmethod : s.method.toNat < 0x1000) : ReadBack s p := by
  obtain ⟨v, hcarries⟩ := h.carries
  obtain ⟨-, -, htype, -, htid, -, -⟩ := h.header_fields (by omega)
  obtain ⟨hklass, hmethod'⟩ := hd.typeField htype
  have hvalues := lastValue_all hmac s (encode rs) (be32 v)
  have hhasname : s.usernamePaddedLen ≠ 0 ↔ s.username ≠ [] :=
    usernamePaddedLen_ne_zero (by omega)
  refine
    { klass := hklass, method := UInt16.toNat_inj.mp (by omega)
      transactionId := Subtype.ext (hd.transactionId.trans htid)
      username := ?_, priority := ?_, iceControlling := ?_, iceControlled := ?_
      useCandidate := ?_, errorCode := ?_, fingerprint := ?_, messageIntegrity := ?_ }
  · rw [hd.username]
    refine (hcarries.elim .username [] id).trans ?_
    rw [hvalues]
    by_cases hname : s.username = []
    · simp [hname, hhasname]
    · simp [hname, hhasname]
  · rw [hd.priority, hcarries.elim .priority 0 word32, hvalues]
    by_cases hp : s.priority = 0 <;> simp [hp, word32_be32]
  · rw [hd.iceControlling, hcarries.elim .iceControlling 0 word64, hvalues]
    by_cases hp : s.iceControlling = 0 <;> simp [hp, word64_be64]
  · rw [hd.iceControlled, hcarries.elim .iceControlled 0 word64, hvalues]
    by_cases hp : s.iceControlled = 0 <;> simp [hp, word64_be64]
  · have hflag := hd.useCandidate
    rw [← lastOf_isSome .useCandidate 20, hcarries.isSome, hvalues] at hflag
    rw [Bool.eq_iff_iff, hflag]
    cases s.hasUseCandidate <;> simp
  · intro herror
    rw [h.errorCode_read hd]
    split_ifs
    · apply UInt16.toNat_inj.mp
      rcases herror with hzero | ⟨_, hhi⟩
      · rw [hzero]
        rfl
      · rw [UInt16.toNat_mod]
        exact Nat.mod_eq_of_lt (Nat.lt_of_le_of_lt hhi (by decide))
    · rfl
  · rw [hd.fingerprint, ← lastOf_isSome .fingerprint 20, hcarries.isSome, hvalues]
    rfl
  · have hflag : p.hasMessageIntegrity =
        (Stun.lastOf .messageIntegrity (placed 20 (rs ++ (ms ++ fps)))).isSome := by
      rw [hasMessageIntegrity, hd.messageIntegrity]
      cases Stun.lastOf .messageIntegrity (placed 20 (rs ++ (ms ++ fps))) <;> rfl
    rw [hflag, hcarries.isSome, hvalues]
    by_cases hc : s.klass = .errorResponse <;> by_cases hp : s.password = [] <;>
      simp [addMessageIntegrity, hc, hp]

theorem Serialized.length_lt {hmac : Bytes → Bytes → Block 20} {s out : Stun}
    {rs ms fps : List (Record 4)} (h : Serialized hmac s out rs ms fps)
    (small : s.username.length ≤ 512) : (out.data.take out.size).length ≤ 65535 := by
  have hsize := serializedSize_lt small
  obtain ⟨-, -, -, -, -, -, hlength⟩ := h.header_fields (by omega)
  omega

/-- `parse` accepts a serialized message and gives its fields back. -/
theorem Serialized.parsed_of_first {hmac : Bytes → Bytes → Block 20} {s out : Stun}
    {rs ms fps : List (Record 4)} (h : Serialized hmac s out rs ms fps)
    (small : s.username.length ≤ 512) (hlow : (s.typeField >>> 8).toUInt8 < 3)
    (hmethod : s.method.toNat < 0x1000) :
    ∃ p, parse (out.data.take out.size) = .ok (.packet p) ∧
      Decodes (out.data.take out.size) (rs ++ (ms ++ fps)) p ∧ ReadBack s p := by
  obtain ⟨p, hp, hd⟩ := parse_grammar (h.grammar_of_first small hlow) (h.length_lt small)
  exact ⟨p, hp, hd, h.readBack hd small hmethod⟩

theorem Serialized.parsed {hmac : Bytes → Bytes → Block 20} {s out : Stun}
    {rs ms fps : List (Record 4)} (h : Serialized hmac s out rs ms fps)
    (small : s.username.length ≤ 512) (hmethod : s.method.toNat < 0x80) :
    ∃ p, parse (out.data.take out.size) = .ok (.packet p) ∧
      Decodes (out.data.take out.size) (rs ++ (ms ++ fps)) p ∧ ReadBack s p := by
  obtain ⟨p, hp, hd⟩ := parse_grammar (h.grammar small hmethod) (h.length_lt small)
  exact ⟨p, hp, hd, h.readBack hd small (by omega)⟩

/-- `serialize` and then `parse` gives the message back. -/
theorem parse_serialize (hmac : Bytes → Bytes → Block 20) (s : Stun) (buffer : Bytes)
    (hmethod : s.method.toNat < 0x80) (husername : s.username.length < 513)
    (herror : s.errorCode = 0 ∨ 300 ≤ s.errorCode.toNat ∧ s.errorCode.toNat ≤ 699)
    (room : s.serializedSize ≤ buffer.length) :
    ∃ out p, serialize hmac s buffer = .ok out ∧
      parse (out.data.take out.size) = .ok (.packet p) ∧
      p.klass = s.klass ∧ p.method = s.method ∧ p.transactionId = s.transactionId ∧
      p.username = s.username ∧ p.priority = s.priority ∧
      p.iceControlling = s.iceControlling ∧ p.iceControlled = s.iceControlled ∧
      p.hasUseCandidate = s.hasUseCandidate ∧
      p.errorCode = (if s.klass = .errorResponse then s.errorCode else 0) ∧
      p.hasFingerprint = true ∧
      (p.hasMessageIntegrity = true ↔ s.klass ≠ .errorResponse ∧ s.password ≠ []) := by
  obtain ⟨out, rs, ms, fps, hout, hwritten⟩ :=
    serialize_serialized hmac (show s.username.length ≤ 65532 by omega) room
  obtain ⟨p, hp, _, hback⟩ := hwritten.parsed (by omega) hmethod
  exact ⟨out, p, hout, hp, hback.klass, hback.method, hback.transactionId, hback.username,
    hback.priority, hback.iceControlling, hback.iceControlled, hback.useCandidate,
    hback.errorCode herror, hback.fingerprint, hback.messageIntegrity⟩

/-- A signed answer to a BINDING REQUEST, with the client's address. -/
def bindingResponse : Stun :=
  { klass := .successResponse, method := Method.binding
    transactionId := bindingTransactionId
    data := [], size := 0, username := [0x61, 0x3A, 0x62], priority := 7
    xorMappedAddress := some (.inet
      { sinPort := ⟨[0x12, 0x34], rfl⟩, sinAddr := ⟨[0xC0, 0x00, 0x02, 0x01], rfl⟩ })
    password := [0x70, 0x77] }

/-- HMAC-SHA1 at the one text that is signed for `bindingResponse`. -/
def bindingResponseHmac (_ _ : Bytes) : Block 20 :=
  ⟨[0xFC, 0x7D, 0x7F, 0xBB, 0x51, 0x95, 0xA8, 0x45, 0x9D, 0xCD, 0xA7, 0x1B, 0x42,
    0xA5, 0xDA, 0xB5, 0x79, 0x58, 0xB4, 0x3C], rfl⟩

theorem parse_serialize_bindingResponse :
    ∃ out p, serialize bindingResponseHmac bindingResponse (List.replicate 80 0) = .ok out ∧
      parse (out.data.take out.size) = .ok (.packet p) ∧ p.username = [0x61, 0x3A, 0x62] ∧
      p.priority = 7 ∧ p.hasMessageIntegrity = true := by
  obtain ⟨out, p, hout, hp, _, _, _, husername, hpriority, _, _, _, _, _, hintegrity⟩ :=
    parse_serialize bindingResponseHmac bindingResponse (List.replicate 80 0) (by decide)
      (by decide) (Or.inl rfl) (by decide)
  exact ⟨out, p, hout, hp, husername, hpriority, hintegrity.mpr (by decide)⟩

end Stun

end Sars
