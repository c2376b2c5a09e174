import Sars.StunGrammar

/-!
# Acceptance and decoding

The order flags of the loop are turned into order conditions on the list of
records, the checks in front of the loop and after it into conditions on the
bytes. Together: on messages of at most 65535 bytes `parse` accepts exactly the
grammar, decodes what it accepts and answers everything else with null.
-/

namespace Sars

open ByteMemory NetworkOrder TlvFraming

namespace Stun

/-- What the loop demands of the records still to come, given its two flags. -/
structure Acceptable (st : ParseState) (rs : List (Record 4)) : Prop where
  lengths : ∀ r ∈ rs, RecordOk r
  after_integrity : rs.Pairwise fun a b =>
    a.type = Attribute.messageIntegrity.code → b.type = Attribute.fingerprint.code
  after_fingerprint : rs.Pairwise fun a _ => a.type ≠ Attribute.fingerprint.code
  integrity_seen : st.hasMessageIntegrity = true →
    ∀ r ∈ rs, r.type = Attribute.fingerprint.code
  fingerprint_seen : st.hasFingerprint = true → rs = []

theorem stepRecord_eq_some {st next : ParseState} {r : Record 4} :
    stepRecord st r = some next ↔
      st.hasFingerprint = false ∧
      (st.hasMessageIntegrity = true → r.type = Attribute.fingerprint.code) ∧
      RecordOk r ∧ next = absorbNext st r := by
  simp only [stepRecord]
  constructor
  · intro h
    split_ifs at h with hf hm hok
    refine ⟨by simpa using hf, ?_, hok, (Option.some.inj h).symm⟩
    intro hmi
    by_contra hne
    exact hm ⟨hmi, hne⟩
  · rintro ⟨hf, hm, hok, rfl⟩
    rw [if_neg (by simp [hf]), if_neg (fun hc => hc.2 (hm hc.1)), if_pos hok]
    rfl

theorem absorbNext_flags (st : ParseState) (r : Record 4) :
    ((absorbNext st r).hasMessageIntegrity = true ↔
      r.type = Attribute.messageIntegrity.code ∨ st.hasMessageIntegrity = true) ∧
    ((absorbNext st r).hasFingerprint = true ↔
      r.type = Attribute.fingerprint.code ∨ st.hasFingerprint = true) := by
  simp only [absorbNext, absorb_eq]
  constructor
  · by_cases h : r.type = Attribute.messageIntegrity.code <;> simp [h]
  · by_cases h : r.type = Attribute.fingerprint.code <;> simp [h]

theorem acceptable_cons {st : ParseState} {r : Record 4} {rs : List (Record 4)} :
    Acceptable st (r :: rs) ↔
      (st.hasFingerprint = false ∧
        (st.hasMessageIntegrity = true → r.type = Attribute.fingerprint.code) ∧ RecordOk r) ∧
      Acceptable (absorbNext st r) rs := by
  obtain ⟨hmi, hfp⟩ := absorbNext_flags st r
  constructor
  · intro h
    have hmid := List.pairwise_cons.mp h.after_integrity
    have hfpd := List.pairwise_cons.mp h.after_fingerprint
    have hclear : st.hasFingerprint = false := by
      cases hf : st.hasFingerprint with
      | false => rfl
      | true => cases h.fingerprint_seen hf
    refine ⟨⟨hclear, fun hm => h.integrity_seen hm r List.mem_cons_self,
        h.lengths r List.mem_cons_self⟩,
      ⟨fun s hs => h.lengths s (List.mem_cons_of_mem r hs), hmid.2, hfpd.2, ?_, ?_⟩⟩
    · intro hnext s hs
      rcases hmi.mp hnext with htype | hseen
      · exact hmid.1 s hs htype
      · exact h.integrity_seen hseen s (List.mem_cons_of_mem r hs)
    · intro hnext
      rcases hfp.mp hnext with htype | hseen
      · exact List.eq_nil_iff_forall_not_mem.mpr fun s hs => hfpd.1 s hs htype
      · rw [hclear] at hseen
        cases hseen
  · rintro ⟨⟨hclear, hseen, hok⟩, h⟩
    refine ⟨?_, ?_, ?_, ?_, ?_⟩
    · intro s hs
      rcases List.mem_cons.mp hs with rfl | hs
      · exact hok
      · exact h.lengths s hs
    · exact List.pairwise_cons.mpr
        ⟨fun s hs htype => h.integrity_seen (hmi.mpr (Or.inl htype)) s hs, h.after_integrity⟩
    · refine List.pairwise_cons.mpr ⟨fun s hs htype => ?_, h.after_fingerprint⟩
      rw [h.fingerprint_seen (hfp.mpr (Or.inl htype))] at hs
      cases hs
    · intro hm s hs
      rcases List.mem_cons.mp hs with rfl | hs
      · exact hseen hm
      · exact h.integrity_seen (hmi.mpr (Or.inr hm)) s hs
    · intro hf
      rw [hclear] at hf
      cases hf

/-- The loop runs through exactly the acceptable record lists. -/
theorem foldlM_stepRecord {st last : ParseState} {rs : List (Record 4)} :
    rs.foldlM stepRecord st = some last ↔
      Acceptable st rs ∧ last = rs.foldl absorbNext st := by
  induction rs generalizing st with
  | nil =>
    have hnil : Acceptable st [] :=
      ⟨by simp, .nil, .nil, fun _ => by simp, fun _ => rfl⟩
    simp [hnil, eq_comm]
  | cons r rs ih =>
    rw [acceptable_cons, List.foldl_cons, List.foldlM_cons]
    cases hstep : stepRecord st r with
    | none =>
      constructor
      · intro h
        cases h
      · rintro ⟨⟨hhead, _⟩, _⟩
        rw [stepRecord_eq_some.mpr ⟨hhead.1, hhead.2.1, hhead.2.2, rfl⟩] at hstep
        cases hstep
    | some next =>
      obtain ⟨hf, hm, hok, rfl⟩ := stepRecord_eq_some.mp hstep
      exact ih.trans ⟨fun h => ⟨⟨⟨hf, hm, hok⟩, h.1⟩, h.2⟩, fun h => ⟨h.1.2, h.2⟩⟩

theorem foldl_absorbNext_pos (rs : List (Record 4)) (st : ParseState) :
    (rs.foldl absorbNext st).pos = st.pos + (encode rs).length := by
  induction rs generalizing st with
  | nil => rfl
  | cons r rs ih =>
    rw [List.foldl_cons, ih]
    simp only [absorbNext, encode_cons, List.length_append, Record.bytes_length, Nat.add_assoc]

/-- A field that no attribute sets keeps its value. -/
theorem foldl_same {β : Type} (g : ParseState → β) (step : ∀ st r, g (absorbNext st r) = g st)
    (rs : List (Record 4)) (st : ParseState) : g (rs.foldl absorbNext st) = g st := by
  induction rs generalizing st with
  | nil => rfl
  | cons r rs ih => rw [List.foldl_cons, ih, step]

/-! ## The header -/

theorem msgClass_toNat (data0 data1 : UInt8) :
    (msgClass data0 data1).toNat = 2 * (data0.toNat % 2) + data1.toNat / 16 % 2 := by
  have h0 : (data0.toUInt16 &&& (0x01 : UInt16)).toNat = data0.toNat % 2 := by
    rw [UInt16.toNat_and]
    exact Nat.and_two_pow_sub_one_eq_mod data0.toNat 1
  have h1 : (data1.toUInt16 &&& (0x10 : UInt16)).toNat = 16 * (data1.toNat / 16 % 2) := by
    rw [UInt16.toNat_and]
    exact and_mask (k := 1) (s := 4) rfl rfl
  have hl : ((data0.toUInt16 &&& (0x01 : UInt16)) <<< 1).toNat = 2 ^ 1 * (data0.toNat % 2) := by
    rw [UInt16.toNat_shiftLeft, h0, Nat.shiftLeft_eq]
    simp
    omega
  have hr : ((data1.toUInt16 &&& (0x10 : UInt16)) >>> 4).toNat = data1.toNat / 16 % 2 := by
    rw [UInt16.toNat_shiftRight, h1]
    simp [Nat.shiftRight_eq_div_pow]
  rw [msgClass, UInt16.toNat_or, hl, hr, Nat.or_comm, or_eq_add (by omega)]
  omega

theorem class_toNat {v : UInt16} (h : v.toNat < 4) :
    (Class.ofUInt16 v).toUInt16.toNat = v.toNat := by
  have hv : v = UInt16.ofNat v.toNat := UInt16.ofNat_toNat.symm
  have cases : v.toNat = 0 ∨ v.toNat = 1 ∨ v.toNat = 2 ∨ v.toNat = 3 := by omega
  rcases cases with h | h | h | h <;> rw [hv, h] <;> rfl

theorem msgMethod_toNat (t : UInt16) :
    (msgMethod t).toNat =
      t.toNat % 16 + 16 * (t.toNat / 32 % 8) + 128 * (t.toNat / 512 % 32) := by
  have h0 : (t &&& (0x000f : UInt16)).toNat = t.toNat % 16 := by
    rw [UInt16.toNat_and]
    exact Nat.and_two_pow_sub_one_eq_mod t.toNat 4
  have h1 : (t &&& (0x00e0 : UInt16)).toNat = 32 * (t.toNat / 32 % 8) := by
    rw [UInt16.toNat_and]
    exact and_mask (k := 3) (s := 5) rfl rfl
  have h2 : (t &&& (0x3E00 : UInt16)).toNat = 512 * (t.toNat / 512 % 32) := by
    rw [UInt16.toNat_and]
    exact and_mask (k := 5) (s := 9) rfl rfl
  have s1 : ((t &&& (0x00e0 : UInt16)) >>> 1).toNat = 2 ^ 4 * (t.toNat / 32 % 8) := by
    rw [UInt16.toNat_shiftRight, h1]
    simp [Nat.shiftRight_eq_div_pow]
    omega
  have s2 : ((t &&& (0x3E00 : UInt16)) >>> 2).toNat = 2 ^ 7 * (t.toNat / 512 % 32) := by
    rw [UInt16.toNat_shiftRight, h2]
    simp [Nat.shiftRight_eq_div_pow]
    omega
  rw [msgMethod, UInt16.toNat_or, UInt16.toNat_or, h0, s1, s2,
    or_eq_add (show t.toNat % 16 < 2 ^ 4 by omega), or_eq_add (by omega)]
  omega

/-- The header's fields in the bytes of the message. -/
theorem word16At_window (pre post : Bytes) (v : UInt16) {i : Nat} (hi : pre.length = i) :
    word16At (pre ++ (be16 v ++ post)) i = v.toNat := by
  have hb := congrArg UInt16.toNat (ofBe16_be16 v)
  have hlo : ((v >>> 8).toUInt8.toUInt16 <<< 8).toNat = 2 ^ 8 * (v >>> 8).toUInt8.toNat := by
    have := (v >>> 8).toUInt8.toNat_lt
    rw [UInt16.toNat_shiftLeft, Nat.shiftLeft_eq]
    simp
    omega
  have hor := or_eq_add (a := (v >>> 8).toUInt8.toNat) (b := v.toUInt8.toNat) (i := 8)
    v.toUInt8.toNat_lt
  rw [ofBe16, UInt16.toNat_or, hlo, UInt8.toNat_toUInt16, hor] at hb
  subst hi
  have hfirst : (pre ++ (be16 v ++ post)).getD pre.length 0 = (v >>> 8).toUInt8 := by
    simp [be16, List.getD_eq_getElem?_getD]
  have hsecond : (pre ++ (be16 v ++ post)).getD (pre.length + 1) 0 = v.toUInt8 := by
    simp [be16, List.getD_eq_getElem?_getD]
  rw [word16At, hfirst, hsecond]
  omega

/-- The locals with which the attribute loop is entered. -/
def enterLoop (data : Bytes) (msgType : UInt16) (tid : Block 12) : ParseState :=
  { pos := 20
    packet :=
      { klass := Class.ofUInt16 (msgClass (msgType >>> 8).toUInt8 msgType.toUInt8)
        method := msgMethod msgType, transactionId := tid, data := data, size := data.length } }

theorem enterLoop_aligned (data : Bytes) (msgType : UInt16) (tid : Block 12) :
    (enterLoop data msgType tid).pos % 4 = 0 := by
  simp [enterLoop]

/-- Everything in front of the loop, on a message with a full header. -/
theorem parseWith_header (fuel : Nat) (msgType msgLength : UInt16) (cookie : Bytes)
    (tid : Block 12) (rest : Bytes) (hcookie : cookie.length = 4) {data : Bytes}
    (hdata : data = be16 msgType ++ (be16 msgLength ++ (cookie ++ (tid.val ++ rest)))) :
    parseWith fuel data =
      if ((msgType >>> 8).toUInt8 < 3 ∧ cookie = magicCookie.toList) ∧
          msgLength.toNat = rest.length ∧ msgLength.toNat % 4 = 0 then
        attrLoop data fuel (enterLoop data msgType tid)
      else .ok .nullptr := by
  have hlen : data.length = rest.length + 20 := by
    rw [hdata]
    simp [hcookie, tid.property]
    omega
  have htype : Byte.get2Bytes data 0 = .ok msgType := by
    rw [hdata]
    exact Byte.get2Bytes_window [] _ msgType rfl
  have hlength : Byte.get2Bytes data 2 = .ok msgLength := by
    rw [hdata]
    exact Byte.get2Bytes_window (be16 msgType) _ msgLength rfl
  have hload0 : load data 0 = .ok (msgType >>> 8).toUInt8 := by
    rw [hdata]
    rfl
  have hload1 : load data 1 = .ok msgType.toUInt8 := by
    rw [hdata]
    rfl
  have hblock : loadBlock data 8 12 = .ok tid := by
    have h := loadBlock_window (be16 msgType ++ (be16 msgLength ++ cookie)) rest tid
      (i := 8) (by simp [hcookie])
    rw [hdata]
    simpa only [List.append_assoc] using h
  have hstun := isStun_header msgType msgLength rest hcookie tid.property
  rw [← hdata] at hstun
  have hmask : msgLength &&& 0x03 ≠ 0 ↔ ¬ msgLength.toNat % 4 = 0 := by
    rw [← Byte.masked_low]
    exact not_congr ⟨fun h => by rw [h]; rfl, fun h => UInt16.toNat_inj.mp h⟩
  have hsub : data.length - 20 = rest.length := by omega
  simp only [parseWith, hstun, ok_bind, htype, hlength, hload0, hload1, hblock, pure_ok,
    hmask, hsub, enterLoop, decide_eq_true_eq]
  split_ifs with h1 h2 h3 h3 <;> first | rfl | (exfalso; tauto)

/-! ## Acceptance -/

/-- The grammar's header conditions are conditions on the cut-out fields. -/
theorem header_fields (msgType msgLength : UInt16) {cookie tid : Bytes} (rest : Bytes)
    (hcookie : cookie.length = 4) (htid : tid.length = 12) {data : Bytes}
    (hdata : data = be16 msgType ++ (be16 msgLength ++ (cookie ++ (tid ++ rest)))) :
    data.getD 0 0 = (msgType >>> 8).toUInt8 ∧ (data.drop 4).take 4 = cookie ∧
      word16At data 0 = msgType.toNat ∧ word16At data 2 = msgLength.toNat ∧
      (data.drop 8).take 12 = tid ∧ data.drop 20 = rest ∧ data.length = rest.length + 20 := by
  subst hdata
  refine ⟨rfl, ?_, word16At_window [] _ msgType rfl, word16At_window (be16 msgType) _ msgLength rfl,
    ?_, ?_, ?_⟩
  · simp only [be16, List.cons_append, List.nil_append, List.drop_succ_cons, List.drop_zero]
    exact List.take_left' hcookie
  · simp [be16, hcookie, ← htid]
  · simp [be16, List.drop_append, hcookie, htid]
  · simp [hcookie, htid]
    omega

/-- A message is its 20-byte header and what follows it. -/
theorem header_split (msgType msgLength : UInt16) {cookie tid : Bytes} (rest : Bytes)
    (hcookie : cookie.length = 4) (htid : tid.length = 12) {data : Bytes}
    (hdata : data = be16 msgType ++ (be16 msgLength ++ (cookie ++ (tid ++ rest)))) :
    (be16 msgType ++ (be16 msgLength ++ (cookie ++ tid))).length = 20 ∧
      data = (be16 msgType ++ (be16 msgLength ++ (cookie ++ tid))) ++ rest := by
  constructor
  · simp [hcookie, htid]
  · rw [hdata]
    simp only [List.append_assoc]

theorem mem_placed {pos : Nat} {rs : List (Record 4)} {p : Nat × Record 4}
    (h : p ∈ placed pos rs) : p.2 ∈ rs ∧ p.1 ≤ pos + (encode rs).length := by
  induction rs generalizing pos with
  | nil => cases h
  | cons r rs ih =>
    simp only [encode_cons, List.length_append, Record.bytes_length]
    rcases List.mem_cons.mp h with rfl | h
    · exact ⟨List.mem_cons_self, by simp⟩
    · obtain ⟨hmem, hle⟩ := ih h
      exact ⟨List.mem_cons_of_mem r hmem, by omega⟩

theorem lastOf_mem {attr : Attribute} {ps : List (Nat × Record 4)} {p : Nat × Record 4}
    (h : lastOf attr ps = some p) : p ∈ ps ∧ p.2.type = attr.code := by
  simpa using List.mem_filter.mp (List.mem_of_getLast? h)

/-- Where a type does not come twice, a record of the type is the last one. -/
theorem lastOf_once {attr : Attribute} {pos : Nat} {rs : List (Record 4)} {p : Nat × Record 4}
    (once : rs.Pairwise fun a b => a.type = attr.code → b.type ≠ attr.code)
    (h : p ∈ placed pos rs) (htype : p.2.type = attr.code) :
    lastOf attr (placed pos rs) = some p := by
  induction rs generalizing pos with
  | nil => cases h
  | cons r rs ih =>
    obtain ⟨hhead, htail⟩ := List.pairwise_cons.mp once
    rw [placed, lastOf_cons]
    rcases List.mem_cons.mp h with rfl | h
    · have hr : r.type = attr.code := htype
      have hnone : lastOf attr (placed (pos + r.size) rs) = none := by
        refine Option.eq_none_iff_forall_not_mem.mpr fun q hq => ?_
        obtain ⟨hmem, hqtype⟩ := lastOf_mem hq
        exact hhead q.2 (mem_placed hmem).1 hr hqtype
      rw [hnone, if_pos hr]
      rfl
    · rw [ih htail h]
      rfl

/-- The check after the loop compares the one FINGERPRINT with the checksum. -/
theorem afterLoop_records {pre data : Bytes} {attrs : List (Record 4)} {msgType : UInt16}
    {tid : Block 12} (hpre : pre.length = 20) (hdata : data = pre ++ encode attrs)
    (ok : Acceptable (enterLoop data msgType tid) attrs) :
    afterLoop data (attrs.foldl absorbNext (enterLoop data msgType tid)) =
      if ∀ p ∈ placed 20 attrs, p.2.type = Attribute.fingerprint.code →
          p.2.value = be32 (Crypto.crc32 (data.take p.1) ^^^ 0x5354554e) then
        .ok (.packet (attrs.foldl absorbNext (enterLoop data msgType tid)).packet)
      else .ok .nullptr := by
  have hlen : data.length = 20 + (encode attrs).length := by rw [hdata, List.length_append, hpre]
  have hpos := foldl_absorbNext_pos attrs (enterLoop data msgType tid)
  have hflag := foldl_last .fingerprint (·.hasFingerprint) (fun _ => true)
    (fun st r => by simp only [absorbNext, absorb_eq]) attrs (enterLoop data msgType tid)
  have hattrPos := foldl_last .fingerprint (·.fingerprintAttrPos) (fun p => some p.1)
    (fun st r => by simp only [absorbNext, absorb_eq]) attrs (enterLoop data msgType tid)
  have hvalue := foldl_last .fingerprint (·.fingerprint) (fun p => some (word32 p.2.value))
    (fun st r => by simp only [absorbNext, absorb_eq]) attrs (enterLoop data msgType tid)
  have hstart : (enterLoop data msgType tid).pos = 20 := rfl
  rw [hstart] at hpos hflag hattrPos hvalue
  have hend : ¬ (attrs.foldl absorbNext (enterLoop data msgType tid)).pos ≠ data.length := by
    rw [hpos, hlen]
    simp
  have once : attrs.Pairwise fun a b =>
      a.type = Attribute.fingerprint.code → b.type ≠ Attribute.fingerprint.code :=
    ok.after_fingerprint.imp fun hne htype => absurd htype hne
  cases hlast : lastOf .fingerprint (placed 20 attrs) with
  | none =>
    rw [hlast] at hflag
    have hclear :
        ¬ (attrs.foldl absorbNext (enterLoop data msgType tid)).hasFingerprint = true := by
      rw [hflag]
      simp [enterLoop]
    rw [if_pos]
    · simp only [afterLoop, if_neg hend, if_pos hclear, pure_ok]
    · intro p hp htype
      rw [lastOf_once once hp htype] at hlast
      cases hlast
  | some q =>
    obtain ⟨hmem, htype⟩ := lastOf_mem hlast
    obtain ⟨hrec, hle⟩ := mem_placed hmem
    have hfour : q.2.value.length = 4 := ok.lengths q.2 hrec .fingerprint htype
    obtain ⟨v, hv⟩ := exists_be32 hfour
    have hcrc : Crypto.getCRC32 data q.1 = .ok (Crypto.crc32 (data.take q.1)) :=
      Crypto.getCRC32_eq (by omega)
    rw [hlast] at hflag hattrPos hvalue
    have hset :
        ¬ ¬ (attrs.foldl absorbNext (enterLoop data msgType tid)).hasFingerprint = true := by
      rw [hflag]
      simp
    have hiff : (∀ p ∈ placed 20 attrs, p.2.type = Attribute.fingerprint.code →
        p.2.value = be32 (Crypto.crc32 (data.take p.1) ^^^ 0x5354554e)) ↔
        v = Crypto.crc32 (data.take q.1) ^^^ 0x5354554e := by
      constructor
      · intro h
        exact be32_injective (hv.symm.trans (h q hmem htype))
      · intro h p hp hptype
        have hsame := lastOf_once once hp hptype
        rw [hlast] at hsame
        cases hsame
        rw [hv, h]
    simp only [afterLoop, if_neg hend, if_neg hset, hattrPos, hvalue, Option.elim_some,
      assigned_some, hcrc, ok_bind, pure_ok, hv, word32_be32]
    by_cases hsum : v = Crypto.crc32 (data.take q.1) ^^^ 0x5354554e
    · rw [if_neg (not_not_intro hsum), if_pos (hiff.mpr hsum)]
    · rw [if_pos hsum, if_neg (fun h => hsum (hiff.mp h))]

/-- The state that has absorbed all attributes decodes the message. -/
theorem decodes_absorbed (data : Bytes) (attrs : List (Record 4)) {msgType : UInt16}
    (tid : Block 12) (typeField : word16At data 0 = msgType.toNat)
    (tidField : (data.drop 8).take 12 = tid.val) :
    Decodes data attrs (attrs.foldl absorbNext (enterLoop data msgType tid)).packet := by
  have field : ∀ {β : Type} (attr : Attribute) (g : ParseState → β) (v : Nat × Record 4 → β),
      (∀ st r, g (absorbNext st r) = if r.type = attr.code then v (st.pos, r) else g st) →
      g (attrs.foldl absorbNext (enterLoop data msgType tid)) =
        (lastOf attr (placed 20 attrs)).elim (g (enterLoop data msgType tid)) v :=
    fun attr g v step => foldl_last attr g v step attrs _
  have same : ∀ {β : Type} (g : ParseState → β), (∀ st r, g (absorbNext st r) = g st) →
      g (attrs.foldl absorbNext (enterLoop data msgType tid)) = g (enterLoop data msgType tid) :=
    fun g step => foldl_same g step attrs _
  have present : ∀ attr : Attribute,
      (lastOf attr (placed 20 attrs)).elim false (fun _ => true) = true ↔
        ∃ r ∈ attrs, r.type = attr.code := by
    intro attr
    rw [← lastOf_isSome attr 20 attrs]
    cases lastOf attr (placed 20 attrs) <;> simp
  have hbytes : (msgType >>> 8).toUInt8.toNat = msgType.toNat / 256 ∧
      msgType.toUInt8.toNat = msgType.toNat % 256 := by
    have := msgType.toNat_lt
    constructor
    · simp [Nat.shiftRight_eq_div_pow]
      omega
    · simp
  refine
    { klass := ?_, method := ?_, transactionId := ?_, bytes := ?_, size := ?_, username := ?_,
      priority := ?_, iceControlling := ?_, iceControlled := ?_, errorCode := ?_,
      useCandidate := ?_, messageIntegrity := ?_, fingerprint := ?_ }
  · rw [same (·.packet.klass) (fun st r => by simp only [absorbNext, absorb_eq]), typeField]
    have hc := msgClass_toNat (msgType >>> 8).toUInt8 msgType.toUInt8
    simp only [enterLoop]
    rw [class_toNat (by omega), hc, hbytes.1, hbytes.2]
    omega
  · rw [same (·.packet.method) (fun st r => by simp only [absorbNext, absorb_eq]), typeField]
    exact msgMethod_toNat msgType
  · rw [same (·.packet.transactionId) (fun st r => by simp only [absorbNext, absorb_eq]), tidField]
    rfl
  · exact same (·.packet.data) (fun st r => by simp only [absorbNext, absorb_eq])
  · exact same (·.packet.size) (fun st r => by simp only [absorbNext, absorb_eq])
  · exact field .username (·.packet.username) (·.2.value)
      (fun st r => by simp only [absorbNext, absorb_eq])
  · exact field .priority (·.packet.priority) (word32 ·.2.value)
      (fun st r => by simp only [absorbNext, absorb_eq])
  · exact field .iceControlling (·.packet.iceControlling) (word64 ·.2.value)
      (fun st r => by simp only [absorbNext, absorb_eq])
  · exact field .iceControlled (·.packet.iceControlled) (word64 ·.2.value)
      (fun st r => by simp only [absorbNext, absorb_eq])
  · exact field .errorCode (·.packet.errorCode) (errorCodeOf ·.2.value)
      (fun st r => by simp only [absorbNext, absorb_eq])
  · rw [field .useCandidate (·.packet.hasUseCandidate) (fun _ => true)
      (fun st r => by simp only [absorbNext, absorb_eq])]
    exact present .useCandidate
  · rw [field .messageIntegrity (·.packet.messageIntegrity) (fun p => some (p.1 + 4))
      (fun st r => by simp only [absorbNext, absorb_eq])]
    cases lastOf .messageIntegrity (placed 20 attrs) <;> rfl
  · rw [field .fingerprint (·.packet.hasFingerprint) (fun _ => true)
      (fun st r => by simp only [absorbNext, absorb_eq])]
    exact present .fingerprint

/-- A message in the grammar is accepted, and its attributes are absorbed in their order. -/
theorem parse_absorbed {data : Bytes} {attrs : List (Record 4)} (hg : Grammar data attrs)
    (hlen : data.length ≤ 65535) :
    ∃ msgType tid, parse data =
        .ok (.packet (attrs.foldl absorbNext (enterLoop data msgType tid)).packet) ∧
      word16At data 0 = msgType.toNat ∧ (data.drop 8).take 12 = tid.val := by
  obtain ⟨msgType, msgLength, cookie, tid, rest, hdata, hcookie, htid⟩ := exists_header hg.long
  obtain ⟨hfirst, hck, hw0, hw2, htake, hdrop, htotal⟩ :=
    header_fields msgType msgLength rest hcookie htid hdata
  have hframed : rest = encode attrs := hdrop.symm.trans hg.framed
  have hlength := hg.length_field
  have haligned := hg.length_aligned
  rw [hw2] at hlength haligned
  have hparse := parseWith_header data.length msgType msgLength cookie ⟨tid, htid⟩ rest hcookie
    hdata
  rw [if_pos ⟨⟨hfirst ▸ hg.first, hck.symm.trans hg.cookie⟩, by omega, haligned⟩] at hparse
  obtain ⟨hpre, hsplit⟩ := header_split msgType msgLength rest hcookie htid hdata
  rw [hframed] at hsplit
  have hacc : Acceptable (enterLoop data msgType ⟨tid, htid⟩) attrs :=
    { lengths := hg.lengths, after_integrity := hg.after_integrity,
      after_fingerprint := hg.after_fingerprint,
      integrity_seen := by simp [enterLoop], fingerprint_seen := by simp [enterLoop] }
  have hrecords := records_le_encode attrs
  have hloop := attrLoop_encode attrs (be16 msgType ++ (be16 msgLength ++ (cookie ++ tid)))
    (enterLoop data msgType ⟨tid, htid⟩) data.length hpre (enterLoop_aligned data msgType _)
    (by rw [← hsplit]; omega) (by rw [hframed] at htotal; omega)
  rw [← hsplit, foldlM_stepRecord.mpr ⟨hacc, rfl⟩] at hloop
  have hafter := afterLoop_records hpre hsplit hacc
  rw [if_pos hg.checksum] at hafter
  exact ⟨msgType, ⟨tid, htid⟩, hparse.trans (hloop.trans hafter), hw0, htake⟩

/-- A message in the grammar is accepted and decoded. -/
theorem parse_grammar {data : Bytes} {attrs : List (Record 4)} (hg : Grammar data attrs)
    (hlen : data.length ≤ 65535) : ∃ p, parse data = .ok (.packet p) ∧ Decodes data attrs p := by
  obtain ⟨msgType, tid, hparse, htype, htid⟩ := parse_absorbed hg hlen
  exact ⟨_, hparse, decodes_absorbed data attrs tid htype htid⟩

/-- A message outside the grammar is answered with the null pointer. -/
theorem parse_outside {data : Bytes} (hlen : data.length ≤ 65535)
    (outside : ∀ attrs, ¬ Grammar data attrs) : parse data = .ok .nullptr := by
  by_cases long : 20 ≤ data.length
  · obtain ⟨msgType, msgLength, cookie, tid, rest, hdata, hcookie, htid⟩ := exists_header long
    obtain ⟨hfirst, hck, hw0, hw2, htake, hdrop, htotal⟩ :=
      header_fields msgType msgLength rest hcookie htid hdata
    have hparse := parseWith_header data.length msgType msgLength cookie ⟨tid, htid⟩ rest hcookie
      hdata
    rw [parse, hparse]
    split_ifs with hhead
    · obtain ⟨⟨hlow, hmagic⟩, hlength, haligned⟩ := hhead
      obtain ⟨hpre, hsplit⟩ := header_split msgType msgLength rest hcookie htid hdata
      by_cases framed : ∃ attrs : List (Record 4), rest = encode attrs
      · obtain ⟨attrs, rfl⟩ := framed
        have hrecords := records_le_encode attrs
        have hloop := attrLoop_encode attrs (be16 msgType ++ (be16 msgLength ++ (cookie ++ tid)))
          (enterLoop data msgType ⟨tid, htid⟩) data.length hpre (enterLoop_aligned data msgType _)
          (by rw [← hsplit]; omega) (by omega)
        rw [← hsplit] at hloop
        rw [hloop]
        cases hfold : attrs.foldlM stepRecord (enterLoop data msgType ⟨tid, htid⟩) with
        | none => rfl
        | some last =>
          obtain ⟨hacc, rfl⟩ := foldlM_stepRecord.mp hfold
          have hafter := afterLoop_records hpre hsplit hacc
          refine hafter.trans (if_neg fun hsum => outside attrs ?_)
          exact
            { long := long, first := hfirst ▸ hlow, cookie := hck.trans hmagic,
              length_field := by rw [hw2]; omega, length_aligned := by rw [hw2]; exact haligned,
              framed := hdrop, lengths := hacc.lengths, after_integrity := hacc.after_integrity,
              after_fingerprint := hacc.after_fingerprint, checksum := hsum }
      · have hloop := attrLoop_unframed rest (be16 msgType ++ (be16 msgLength ++ (cookie ++ tid)))
          (enterLoop data msgType ⟨tid, htid⟩) data.length
          (fun rs hrs => framed ⟨rs, hrs⟩) hpre (enterLoop_aligned data msgType _) (by omega)
          (by rw [← hsplit]; omega) (by omega)
        rwa [← hsplit] at hloop
    · rfl
  · simp only [parse, parseWith, isStun_short (show data.length < 20 by omega), ok_bind]
    rfl

/-- A packet comes from a message in the grammar. -/
theorem parse_accepted {data : Bytes} {p : Stun} (hlen : data.length ≤ 65535)
    (accepted : parse data = .ok (.packet p)) :
    ∃ attrs, Grammar data attrs ∧ Decodes data attrs p := by
  by_cases inside : ∃ attrs, Grammar data attrs
  · obtain ⟨attrs, hg⟩ := inside
    obtain ⟨q, hq, hdec⟩ := parse_grammar hg hlen
    rw [accepted] at hq
    cases hq
    exact ⟨attrs, hg, hdec⟩
  · rw [parse_outside hlen (fun attrs hg => inside ⟨attrs, hg⟩)] at accepted
    cases accepted

/-- `parse` accepts exactly the grammar and decodes what it accepts. -/
theorem parse_accepts_grammar (data : Bytes) (hlen : data.length ≤ 65535) :
    ((∃ p, parse data = .ok (.packet p)) ↔ ∃ attrs, Grammar data attrs) ∧
    ((¬ ∃ attrs, Grammar data attrs) → parse data = .ok .nullptr) ∧
    ∀ p attrs, parse data = .ok (.packet p) → Grammar data attrs → Decodes data attrs p := by
  refine ⟨⟨?_, ?_⟩, ?_, ?_⟩
  · rintro ⟨p, hp⟩
    obtain ⟨attrs, hg, _⟩ := parse_accepted hlen hp
    exact ⟨attrs, hg⟩
  · rintro ⟨attrs, hg⟩
    obtain ⟨p, hp, _⟩ := parse_grammar hg hlen
    exact ⟨p, hp⟩
  · intro outside
    exact parse_outside hlen (fun attrs hg => outside ⟨attrs, hg⟩)
  · intro p attrs hp hg
    obtain ⟨q, hq, hdec⟩ := parse_grammar hg hlen
    rw [hq] at hp
    cases hp
    exact hdec

/-- A BINDING REQUEST with a padded USERNAME and a FINGERPRINT. -/
def bindingRequest : Bytes :=
  [0x00, 0x01, 0x00, 0x10, 0x21, 0x12, 0xA4, 0x42, 1, 2, 3, 4, 5, 6, 7, 8, 9, 10, 11, 12,
    0x00, 0x06, 0x00, 0x03, 0x61, 0x3A, 0x62, 0x00, 0x80, 0x28, 0x00, 0x04, 0xAA, 0x61, 0xB7, 0xBA]

def bindingTransactionId : Block 12 := ⟨[1, 2, 3, 4, 5, 6, 7, 8, 9, 10, 11, 12], rfl⟩

def bindingPacket : Stun :=
  { klass := .request, method := Method.binding
    transactionId := bindingTransactionId
    data := bindingRequest, size := 36, username := [0x61, 0x3A, 0x62], hasFingerprint := true }

theorem parse_accepts_bindingRequest :
    ∃ attrs, Grammar bindingRequest attrs ∧ Decodes bindingRequest attrs bindingPacket := by
  obtain ⟨⟨hgrammar, _⟩, _, hdecodes⟩ := parse_accepts_grammar bindingRequest (by decide)
  have hp : parse bindingRequest = .ok (.packet bindingPacket) := by decide +kernel
  obtain ⟨attrs, hg⟩ := hgrammar ⟨_, hp⟩
  exact ⟨attrs, hg, hdecodes _ attrs hp hg⟩

end Stun

end Sars
