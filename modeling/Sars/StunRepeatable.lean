import Sars.StunAuthentication

/-!
# Checking a packet again

`CheckAuthentication` writes to the packet it checks and restores the length
field from the object, not from the bytes it overwrote. That is the identity
as long as the field holds the size of the object. Parsing and serializing both
leave it so, with the signature inside the buffer, and a check keeps it.
-/

namespace Sars

open ByteMemory NetworkOrder TlvFraming

namespace Stun

/-- The length field announces the object's size and the signature lies in the buffer. -/
structure Restorable (s : Stun) : Prop where
  length_field : ∃ t rest, s.data = be16 t ++ (be16 (UInt16.ofNat (s.size - 20)) ++ rest)
  integrity : ∀ i, s.messageIntegrity = some i → i + 20 ≤ s.data.length

section

variable (hmac : Bytes → Bytes → Block 20)

theorem Restorable.compare {s : Stun} (hs : Restorable s) {i : Nat}
    (hi : s.messageIntegrity = some i) (localPassword : Bytes) :
    ∃ result, compareMessageIntegrity hmac s i localPassword = .ok (result, s) := by
  obtain ⟨t, rest, hdata⟩ := hs.length_field
  have hin := hs.integrity i hi
  have loads : ∀ data : Bytes, data.length = s.data.length →
      ∃ text stored, loadBytes data 0 (i - 4) = .ok text ∧ loadBytes data i 20 = .ok stored :=
    fun data hlen => ⟨_, _, if_pos (by omega), if_pos (by omega)⟩
  by_cases hflag : s.hasFingerprint = true
  · have hset : Byte.set2Bytes s.data 2 (UInt16.ofNat (s.size - 20 - 8)) =
        .ok (be16 t ++ (be16 (UInt16.ofNat (s.size - 20 - 8)) ++ rest)) := by
      rw [hdata]
      exact set2Bytes_length t _ _ rest
    have hrestore : Byte.set2Bytes
        (be16 t ++ (be16 (UInt16.ofNat (s.size - 20 - 8)) ++ rest)) 2
        (UInt16.ofNat (s.size - 20)) = .ok s.data := by
      rw [set2Bytes_length, ← hdata]
    obtain ⟨text, stored, htext, hstored⟩ :=
      loads (be16 t ++ (be16 (UInt16.ofNat (s.size - 20 - 8)) ++ rest)) (by rw [hdata]; simp)
    simp only [compareMessageIntegrity, if_pos hflag, hset, ok_bind, htext, hstored, hrestore,
      pure_ok]
    exact ⟨_, rfl⟩
  · obtain ⟨text, stored, htext, hstored⟩ := loads s.data rfl
    simp only [compareMessageIntegrity, if_neg hflag, pure_ok, ok_bind, htext, hstored]
    exact ⟨_, rfl⟩

/-- One check leaves the packet alone, whatever it is asked with. -/
theorem Restorable.check {s : Stun} (hs : Restorable s) (localUsername localPassword : Bytes) :
    ∃ result, checkAuthentication hmac s localUsername localPassword = .ok (result, s) := by
  have asked : s.klass = .request ∨ s.klass = .indication →
      ∃ result, checkAuthentication hmac s localUsername localPassword = .ok (result, s) := by
    intro hask
    cases hi : s.messageIntegrity with
    | none =>
      refine ⟨.badRequest, ?_⟩
      rcases hask with h | h <;> simp [checkAuthentication, h, hi]
    | some i =>
      obtain ⟨result, hcompare⟩ := hs.compare hmac hi localPassword
      by_cases hempty : s.username = []
      · refine ⟨.badRequest, ?_⟩
        rcases hask with h | h <;> simp [checkAuthentication, h, hi, hempty]
      by_cases hname : s.username.length ≤ localUsername.length ∨
          s.username[localUsername.length]? ≠ some 0x3A ∨
          s.username.take localUsername.length ≠ localUsername
      · refine ⟨.unauthorized, ?_⟩
        rcases hask with h | h <;>
          simp only [checkAuthentication, h, hi, if_neg hempty, if_pos hname, pure_ok]
      · refine ⟨result, ?_⟩
        rcases hask with h | h <;>
          simp only [checkAuthentication, h, hi, if_neg hempty, if_neg hname, hcompare]
  cases hk : s.klass with
  | request => exact asked (Or.inl hk)
  | indication => exact asked (Or.inr hk)
  | successResponse => exact ⟨.badRequest, by simp [checkAuthentication, hk]⟩
  | errorResponse => exact ⟨.badRequest, by simp [checkAuthentication, hk]⟩

/-- Calls one after the other on the same object: the answer of each, and the object behind
it. -/
def checkAll (s : Stun) : List (Bytes × Bytes) → Mem (List (Authentication × Stun))
  | [] => return []
  | (localUsername, localPassword) :: calls => do
    let (result, s) ← checkAuthentication hmac s localUsername localPassword
    let results ← checkAll s calls
    return (result, s) :: results

theorem checkAll_same {s : Stun} {verdict : Bytes → Bytes → Authentication}
    (first : ∀ u p, checkAuthentication hmac s u p = .ok (verdict u p, s))
    (calls : List (Bytes × Bytes)) :
    checkAll hmac s calls = .ok (calls.map fun call => (verdict call.1 call.2, s)) := by
  induction calls with
  | nil => rfl
  | cons call calls ih =>
    simp only [checkAll, first, ok_bind, ih, pure_ok, List.map_cons]

theorem Restorable.repeatable {s : Stun} (hs : Restorable s) :
    ∃ verdict : Bytes → Bytes → Authentication,
      (∀ u p, checkAuthentication hmac s u p = .ok (verdict u p, s)) ∧
      ∀ calls, checkAll hmac s calls = .ok (calls.map fun call => (verdict call.1 call.2, s)) := by
  choose verdict first using fun u p => hs.check hmac u p
  exact ⟨verdict, first, checkAll_same hmac first⟩

end

/-! ## The two producers -/

theorem Decodes.restorable {data : Bytes} {attrs : List (Record 4)} {p : Stun}
    (hg : Grammar data attrs) (hd : Decodes data attrs p) : Restorable p := by
  obtain ⟨t, mid, hmid, hdata⟩ := length_split hg
  constructor
  · rw [hd.bytes, hd.size]
    exact ⟨t, mid ++ encode attrs, hdata⟩
  · intro i hi
    rw [hd.messageIntegrity] at hi
    obtain ⟨q, hlast, rfl⟩ := Option.map_eq_some_iff.mp hi
    obtain ⟨hq, hmi⟩ := lastOf_mem hlast
    obtain ⟨as, bs, hattrs, hpos, hsize, -⟩ := integrity_split hg hq hmi
    have hlength := congrArg List.length hdata
    simp only [hattrs, encode_append, encode_cons, List.length_append, be16_length, hmid,
      Record.bytes_length, hsize] at hlength
    rw [hd.bytes]
    omega

theorem Serialized.restorable {hmac : Bytes → Bytes → Block 20} {s out : Stun}
    {rs ms fps : List (Record 4)} (h : Serialized hmac s out rs ms fps) : Restorable out := by
  have hsize : out.size = s.serializedSize := by rw [h.object]
  have hdata : out.data =
      s.header ++ (encode (rs ++ (ms ++ fps)) ++ out.data.drop out.size) := by
    rw [← List.append_assoc, ← h.bytes, List.take_append_drop]
  constructor
  · refine ⟨s.typeField, magicCookie.toList ++ (s.transactionId.val ++
      (encode (rs ++ (ms ++ fps)) ++ out.data.drop out.size)), ?_⟩
    rw [hsize]
    conv_lhs => rw [hdata, hsize]
    simp only [header, List.append_assoc]
  · intro i hi
    rw [h.object] at hi
    have hms := h.integrity.encode_length
    rw [recordsSize_integrity] at hms
    by_cases hsign : s.addMessageIntegrity = true
    · rw [if_pos hsign] at hms
      simp only [if_pos hsign, Option.some.injEq] at hi
      rw [hdata]
      simp only [List.length_append, header_length, encode_append, hms]
      omega
    · simp [if_neg hsign] at hi

/-- Checking a packet that was parsed or just written leaves it as it was, and every call
answers as it would have answered first. -/
theorem checkAuthentication_repeatable (hmac : Bytes → Bytes → Block 20) (s : Stun)
    (produced : (∃ data, data.length ≤ 65535 ∧ parse data = .ok (.packet s)) ∨
      ∃ t buffer, t.username.length < 513 ∧ t.serializedSize ≤ buffer.length ∧
        serialize hmac t buffer = .ok s) :
    ∃ verdict : Bytes → Bytes → Authentication,
      (∀ u p, checkAuthentication hmac s u p = .ok (verdict u p, s)) ∧
      ∀ calls, checkAll hmac s calls =
        .ok (calls.map fun call => (verdict call.1 call.2, s)) := by
  apply Restorable.repeatable
  rcases produced with ⟨data, hlen, accepted⟩ | ⟨t, buffer, husername, room, hout⟩
  · obtain ⟨attrs, hg, hd⟩ := parse_accepted hlen accepted
    exact hd.restorable hg
  · obtain ⟨out, rs, ms, fps, hserialize, hwritten⟩ :=
      serialize_serialized hmac (show t.username.length ≤ 65532 by omega) room
    rw [hout] at hserialize
    cases hserialize
    exact hwritten.restorable

theorem checkAuthentication_repeatable_signedPacket :
    ∃ verdict : Bytes → Bytes → Authentication,
      (∀ u p, checkAuthentication signedRequestHmac signedPacket u p =
        .ok (verdict u p, signedPacket)) ∧
      ∀ calls, checkAll signedRequestHmac signedPacket calls =
        .ok (calls.map fun call => (verdict call.1 call.2, signedPacket)) :=
  checkAuthentication_repeatable signedRequestHmac signedPacket
    (Or.inl ⟨signedRequest, by decide, by decide +kernel⟩)

end Stun

end Sars
