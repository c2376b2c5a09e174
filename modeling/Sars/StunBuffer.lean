import Sars.StunAcceptance
import Sars.StunSerialized

/-!
# The buffer of a serialized message

Two questions about the memory `serialize` writes to. The announced size is
where the writing pass ends unless the username is too long for its padded
length in sixteen bits. Every announced byte is overwritten but the padding of
USERNAME, which keeps what the buffer held before.
-/

namespace Sars

open ByteMemory NetworkOrder TlvFraming

namespace Stun

section

variable (hmac : Bytes → Bytes → Block 20)

/-- The writing pass stays inside the announced size and ends at its end. -/
def ExactSize (s : Stun) : Prop :=
  ∀ buffer : Bytes, s.serializedSize ≤ buffer.length →
    ∃ o messageIntegrity, writingPass hmac s buffer = .ok (o, messageIntegrity) ∧
      o.pos = s.serializedSize ∧
      o.buffer.drop s.serializedSize = buffer.drop s.serializedSize

/-- The announced bytes do not depend on the buffer. -/
def SameBytes (s : Stun) : Prop :=
  ∀ buffer buffer' : Bytes, s.serializedSize ≤ buffer.length →
    s.serializedSize ≤ buffer'.length →
    ∃ out out', serialize hmac s buffer = .ok out ∧ serialize hmac s buffer' = .ok out' ∧
      out.data.take out.size = out'.data.take out'.size

/-! ## The announced size -/

/-- Where the writing pass ends when it writes no USERNAME or a short one. -/
theorem writingPass_pos {s : Stun}
    (named : s.usernamePaddedLen ≠ 0 → s.username.length ≤ 65532) {buffer : Bytes}
    (room : s.serializedSize ≤ buffer.length) :
    ∃ o messageIntegrity, writingPass hmac s buffer = .ok (o, messageIntegrity) ∧
      s.serializedSize = o.pos + (if s.username ≠ [] ∧ s.usernamePaddedLen = 0 then 4 else 0) ∧
      o.buffer.drop o.pos = buffer.drop o.pos := by
  have hsize := serializedSize_attributes hmac named []
  obtain ⟨rs, hrs, hattributes⟩ := appends_attributes named s.header (buffer.drop 20)
    (header_headed s) (by rw [List.length_drop]; omega)
  rw [header_length] at hattributes
  have hlen := hrs.encode_length
  have hbody := serializedSize_attributes hmac named (encode rs)
  obtain ⟨ms, fps, hms, hfps, hpass⟩ := writingPass_eq hmac hattributes (by omega)
  have hmlen := hms.encode_length
  have hflen := hfps.fingerprint_length
  refine ⟨_, _, hpass, ?_, List.drop_left⟩
  simp only [encode_append, List.length_append, header_length]
  omega

theorem usernamePaddedLen_mod {s : Stun} (h : s.username ≠ []) :
    s.usernamePaddedLen.toNat =
      (s.username.length % 65536 + padding 4 (s.username.length % 65536)) % 65536 := by
  rw [usernamePaddedLen, if_pos h, Byte.padTo4Bytes_mod, UInt16.toNat_ofNat']

/-- A username of more than 65535 bytes does not fit behind its own length field. -/
theorem serializedSize_lt_username {s : Stun} (long : 65536 ≤ s.username.length) :
    s.serializedSize < 24 + s.username.length := by
  have hne : s.username ≠ [] := List.length_pos_iff.mp (by omega)
  have hpad := usernamePaddedLen_mod hne
  have hlt := padding_lt (show 0 < 4 by omega) (s.username.length % 65536)
  have hmod := Nat.mod_add_div s.username.length 65536
  have hbound := serializedSize_le s
  rw [if_pos hne] at hbound
  omega

/-- The copy of a username that does not fit leaves the buffer. -/
theorem putUsername_fault {s : Stun} (w rest : Bytes) (hpad : s.usernamePaddedLen ≠ 0)
    (header : 4 ≤ rest.length) (long : rest.length < 4 + s.username.length) :
    ∃ fault, putUsername s { buffer := w ++ rest, pos := w.length } = .error fault := by
  have htype : Byte.set2Bytes (w ++ rest) w.length Attribute.username.code =
      .ok ((w ++ be16 Attribute.username.code) ++ rest.drop 2) := by
    rw [Byte.set2Bytes_eq (by rw [List.length_append]; omega)]
    exact storeBytes_behind w rest _ rfl (by rw [be16_length]; omega)
  have hdeclared : Byte.set2Bytes ((w ++ be16 Attribute.username.code) ++ rest.drop 2)
      (w.length + 2) (UInt16.ofNat s.username.length) =
      .ok ((w ++ be16 Attribute.username.code ++ be16 (UInt16.ofNat s.username.length)) ++
        (rest.drop 2).drop 2) := by
    rw [Byte.set2Bytes_eq (by simp; omega)]
    exact storeBytes_behind _ (rest.drop 2) _ (by simp) (by simp; omega)
  have hcopy : ¬ w.length + 4 + s.username.length ≤
      ((w ++ be16 Attribute.username.code ++ be16 (UInt16.ofNat s.username.length)) ++
        (rest.drop 2).drop 2).length := by
    simp only [List.length_append, be16_length, List.length_drop]
    omega
  refine ⟨.write (w.length + 4 + s.username.length - 1), ?_⟩
  simp only [putUsername, if_pos hpad, putAttribute, htype, hdeclared, ok_bind, storeBytes,
    if_neg hcopy, error_bind]

theorem short_of_exactSize {s : Stun} (h : ExactSize hmac s) : s.username.length ≤ 65532 := by
  by_contra hlong
  have hne : s.username ≠ [] := List.length_pos_iff.mp (by omega)
  have hge := serializedSize_ge s
  let buffer : Bytes := List.replicate s.serializedSize 0
  have hbuffer : buffer.length = s.serializedSize := List.length_replicate
  obtain ⟨o, messageIntegrity, hpass, hpos, _⟩ := h buffer (by omega)
  by_cases hpad : s.usernamePaddedLen = 0
  · -- the padded length has wrapped: four bytes are announced and not written
    obtain ⟨o', messageIntegrity', hpass', hpos', _⟩ :=
      writingPass_pos hmac (fun h => absurd hpad h) (show s.serializedSize ≤ buffer.length by omega)
    rw [hpass] at hpass'
    cases hpass'
    rw [if_pos ⟨hne, hpad⟩] at hpos'
    omega
  · have hlarge : 65536 ≤ s.username.length := by
      by_contra hsmall
      apply hpad
      apply UInt16.toNat_inj.mp
      have hlow : s.username.length % 65536 = s.username.length := Nat.mod_eq_of_lt (by omega)
      rw [usernamePaddedLen_mod hne, hlow]
      simp only [padding, UInt16.toNat_zero]
      omega
    have hroom := serializedSize_lt_username hlarge
    obtain ⟨fault, hfault⟩ := putUsername_fault s.header (buffer.drop 20) hpad
      (by rw [List.length_drop]; omega) (by rw [List.length_drop]; omega)
    rw [header_length] at hfault
    rw [writingPass, putHeader_eq s (by omega), ok_bind, putAttributes_eq] at hpass
    simp only [hfault, error_bind] at hpass
    cases hpass

/-- The announced size is exact for every username whose padded length has sixteen bits. -/
theorem exactSize_iff (s : Stun) : ExactSize hmac s ↔ s.username.length ≤ 65532 := by
  constructor
  · exact short_of_exactSize hmac
  · intro short buffer room
    obtain ⟨o, messageIntegrity, hpass, hpos, hrest⟩ := writingPass_pos hmac (fun _ => short) room
    have hnone : ¬ (s.username ≠ [] ∧ s.usernamePaddedLen = 0) := fun h =>
      (usernamePaddedLen_ne_zero short).mpr h.1 h.2
    rw [if_neg hnone, Nat.add_zero] at hpos
    rw [← hpos] at hrest
    exact ⟨o, messageIntegrity, hpass, hpos.symm, hrest⟩

/-! ## The old contents -/

/-- Where nothing is padded, the attributes decide the records. -/
theorem Carries.unique {rs ss : List (Record 4)} {attrs : List (Attribute × Bytes)}
    (aligned : ∀ a ∈ attrs, padding 4 a.2.length = 0) (hr : Carries rs attrs)
    (hs : Carries ss attrs) : rs = ss := by
  induction attrs generalizing rs ss with
  | nil =>
    rw [List.map_eq_nil_iff.mp hr, List.map_eq_nil_iff.mp hs]
  | cons a attrs ih =>
    obtain ⟨r, rs, rfl, hr, hrs⟩ := List.map_eq_cons_iff.mp hr
    obtain ⟨s, ss, rfl, hs, hss⟩ := List.map_eq_cons_iff.mp hs
    have htail : rs = ss := ih (fun b hb => aligned b (List.mem_cons_of_mem a hb)) hrs hss
    have hpad : ∀ q : Record 4, q.value = a.2 → q.pad = [] := by
      intro q hq
      have hlen := q.pad_length
      rw [hq, aligned a List.mem_cons_self] at hlen
      exact List.eq_nil_of_length_eq_zero hlen
    obtain ⟨hrtype, hrvalue⟩ := Prod.mk.inj hr
    obtain ⟨hstype, hsvalue⟩ := Prod.mk.inj hs
    have hhead : r = s := Record.ext (hrtype.trans hstype.symm) (hrvalue.trans hsvalue.symm)
      ((hpad r hrvalue).trans (hpad s hsvalue).symm)
    rw [hhead, htail]

/-- Every other attribute ends on a multiple of four. -/
theorem attributes_aligned {s : Stun} (aligned : padding 4 s.username.length = 0) :
    ∀ a ∈ s.attributes, padding 4 a.2.length = 0 := by
  intro a ha
  simp only [attributes, List.mem_append, List.mem_ite_nil_right, List.mem_singleton] at ha
  rcases ha with (((((⟨hc, rfl⟩ | ⟨hc, rfl⟩) | ⟨hc, rfl⟩) | ⟨hc, rfl⟩) | ⟨hc, rfl⟩) | ⟨hc, rfl⟩) |
    ⟨hc, rfl⟩
  · exact aligned
  · simp [padding]
  · simp [padding]
  · simp [padding]
  · rfl
  · obtain ⟨hlen, hpadded⟩ := xorMappedAddress_length s.transactionId hc
    simp only
    omega
  · simp [padding]

/-- The bytes behind a username are the ones the buffer held there. -/
theorem serialize_stale {s : Stun} (buffer : Bytes) (short : s.username.length ≤ 65532)
    (named : s.username ≠ []) (room : s.serializedSize ≤ buffer.length) :
    ∃ (out : Stun) (r : Record 4) (tail : Bytes), serialize hmac s buffer = .ok out ∧
      out.data.take out.size = s.header ++ (r.bytes ++ tail) ∧
      r.value = s.username ∧
      r.pad = (buffer.drop (24 + s.username.length)).take (padding 4 s.username.length) := by
  have hpad := (usernamePaddedLen_ne_zero short).mpr named
  have hsize := serializedSize_eq hmac short []
  have hattrs : s.attributes = (.username, s.username) :: s.laterAttributes := by
    rw [attributes_eq, if_pos hpad, List.singleton_append]
  have hsplit : recordsSize s.attributes =
      4 + s.usernamePaddedLen.toNat + recordsSize s.laterAttributes := by
    rw [hattrs, usernamePaddedLen_toNat short]
    rfl
  obtain ⟨r, ⟨htype, hvalue⟩, hstale, hput⟩ :=
    putAttribute_record .username (writes_storeBytes s.username)
      (UInt16.toNat_ofNat_of_lt' (show _ < 65536 by omega)) (usernamePaddedLen_toNat short)
      (buffer.drop 20) (header_headed s) (by rw [List.length_drop]; omega)
  have hrsize : r.size = 4 + s.usernamePaddedLen.toNat := by
    rw [Record.size, hvalue, usernamePaddedLen_toNat short]
  obtain ⟨rs, hrs, hlater⟩ := appends_laterAttributes s (s.header ++ r.bytes)
    ((buffer.drop 20).drop r.size) ((header_headed s).append _)
    (by simp only [List.length_drop]; omega)
  have hattributes : putAttributes s { buffer := s.header ++ buffer.drop 20, pos := 20 } =
      .ok { buffer := (s.header ++ encode (r :: rs)) ++
              (buffer.drop 20).drop (encode (r :: rs)).length
            pos := (s.header ++ encode (r :: rs)).length } := by
    rw [header_length] at hput
    simp only [putAttributes_eq, putUsername, if_pos hpad, hput, ok_bind, hlater]
    simp only [encode_cons, List.append_assoc, List.drop_drop, List.length_append,
      Record.bytes_length, Nat.add_assoc]
  have hcarries : Carries (r :: rs) s.attributes := by
    rw [hattrs]
    simp only [Carries, List.map_cons, htype, hvalue]
    rw [hrs]
  obtain ⟨out, ms, fps, hout, hser⟩ := serialize_of_attributes hmac short room hcarries hattributes
  refine ⟨out, r, encode (rs ++ (ms ++ fps)), hout, ?_, hvalue, ?_⟩
  · rw [hser.bytes, List.cons_append, encode_cons]
  · rw [hstale, List.drop_drop]
    congr 2
    omega

theorem aligned_of_sameBytes {s : Stun} (short : s.username.length ≤ 65532)
    (h : SameBytes hmac s) : s.username.length % 4 = 0 := by
  by_cases named : s.username = []
  · simp [named]
  obtain ⟨out, r, tail, hout, hbytes, hvalue, hpad⟩ :=
    serialize_stale hmac (List.replicate s.serializedSize 0) short named (by simp)
  obtain ⟨out', r', tail', hout', hbytes', hvalue', hpad'⟩ :=
    serialize_stale hmac (List.replicate s.serializedSize 1) short named (by simp)
  obtain ⟨_, _, hrun, hrun', hsame⟩ := h (List.replicate s.serializedSize 0)
    (List.replicate s.serializedSize 1) (by simp) (by simp)
  rw [hout] at hrun
  rw [hout'] at hrun'
  cases hrun
  cases hrun'
  rw [hbytes, hbytes'] at hsame
  have hlen : r.bytes.length = r'.bytes.length := by
    simp only [Record.bytes_length, Record.size, hvalue, hvalue']
  have hrecord : r.bytes = r'.bytes := List.append_inj_left (List.append_cancel_left hsame) hlen
  have hpads : r.pad = r'.pad := by
    simp only [Record.bytes, hvalue, hvalue'] at hrecord
    have hrest := (List.append_inj hrecord (by simp)).2
    exact List.append_cancel_left (List.append_cancel_left hrest)
  have hzero : padding 4 s.username.length = 0 := by
    by_contra hne
    have hmem : ∀ x ∈ r.pad, x = 0 ∧ x = 1 := by
      intro x hx
      have hone : x ∈ r'.pad := hpads ▸ hx
      rw [hpad] at hx
      rw [hpad'] at hone
      exact ⟨List.eq_of_mem_replicate (List.mem_of_mem_drop (List.mem_of_mem_take hx)),
        List.eq_of_mem_replicate (List.mem_of_mem_drop (List.mem_of_mem_take hone))⟩
    have hpos : r.pad ≠ [] := by
      intro hnil
      have hlength := r.pad_length
      rw [hnil, hvalue] at hlength
      exact hne hlength.symm
    obtain ⟨x, hx⟩ := List.exists_mem_of_ne_nil _ hpos
    obtain ⟨rfl, hfalse⟩ := hmem x hx
    exact absurd hfalse (by decide)
  simp only [padding] at hzero
  omega

/-- Stale memory reaches the wire exactly when the username has to be padded. -/
theorem sameBytes_iff (s : Stun) (short : s.username.length < 513) :
    SameBytes hmac s ↔ s.username.length % 4 = 0 := by
  constructor
  · exact aligned_of_sameBytes hmac (by omega)
  · intro hmod buffer buffer' room room'
    have aligned : padding 4 s.username.length = 0 := by simp [padding, hmod]
    obtain ⟨out, rs, ms, fps, hout, hser⟩ :=
      serialize_serialized hmac (show s.username.length ≤ 65532 by omega) room
    obtain ⟨out', rs', ms', fps', hout', hser'⟩ :=
      serialize_serialized hmac (show s.username.length ≤ 65532 by omega) room'
    refine ⟨out, out', hout, hout', ?_⟩
    have hrs : rs = rs' := hser.attributes.unique (attributes_aligned aligned) hser'.attributes
    subst hrs
    have hdigest : ∀ a ∈ s.integrity hmac (encode rs), padding 4 a.2.length = 0 := by
      intro a ha
      rw [(integrity_mem hmac ha).2]
      rfl
    have hms : ms = ms' := hser.integrity.unique hdigest hser'.integrity
    subst hms
    have hfps : fps = fps' := hser.fingerprint.unique (by simp [padding]) hser'.fingerprint
    subst hfps
    rw [hser.bytes, hser'.bytes]

end

/-! ### Two usernames -/

/-- A request with a username of this length and nothing else. -/
def namedRequest (n : Nat) : Stun :=
  { klass := .request, method := Method.binding, transactionId := bindingTransactionId
    data := [], size := 0, username := List.replicate n 0x61 }

/-- With 65533 bytes the padded length is zero and the USERNAME is announced only. -/
theorem long_username_announced :
    ¬ ∀ (hmac : Bytes → Bytes → Block 20) (s : Stun), ExactSize hmac s := by
  intro h
  have hshort := short_of_exactSize _
    (h (fun _ _ => ⟨List.replicate 20 0, rfl⟩) (namedRequest 65533))
  have hlen : (namedRequest 65533).username.length = 65533 := List.length_replicate
  omega

theorem sameBytes_iff_four :
    SameBytes (fun _ _ => ⟨List.replicate 20 0, rfl⟩) (namedRequest 4) :=
  (sameBytes_iff _ (namedRequest 4) (by decide)).mpr (by decide)

/-- A username of one byte is followed by three old ones. -/
theorem stale_padding :
    ¬ ∀ (hmac : Bytes → Bytes → Block 20) (s : Stun), s.username.length < 513 →
      SameBytes hmac s := by
  intro h
  have hmod := aligned_of_sameBytes _ (show (namedRequest 1).username.length ≤ 65532 by decide)
    (h (fun _ _ => ⟨List.replicate 20 0, rfl⟩) (namedRequest 1) (by decide))
  exact absurd hmod (by decide)

end Stun

end Sars
