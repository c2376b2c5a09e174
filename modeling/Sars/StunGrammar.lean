import Sars.StunRecords

/-!
# The accepted message grammar

The grammar is stated on the bytes and on the list of records they split into,
without the loop: header conditions, one length for each named type, two order
conditions and the checksum of a FINGERPRINT. `parse` returns a packet on
exactly these messages, and the packet holds the last value of each attribute.
-/

namespace Sars

open ByteMemory NetworkOrder TlvFraming

namespace Stun

/-- The big-endian number in two bytes of a message. -/
def word16At (data : Bytes) (i : Nat) : Nat :=
  256 * (data.getD i 0).toNat + (data.getD (i + 1) 0).toNat

/-- Records with the offset at which each begins. -/
def placed : Nat → List (Record 4) → List (Nat × Record 4)
  | _, [] => []
  | pos, r :: rs => (pos, r) :: placed (pos + r.size) rs

/-- The last record of a type. -/
def lastOf (attr : Attribute) (ps : List (Nat × Record 4)) : Option (Nat × Record 4) :=
  (ps.filter (fun p => p.2.type = attr.code)).getLast?

structure Grammar (data : Bytes) (attrs : List (Record 4)) : Prop where
  long : 20 ≤ data.length
  first : data.getD 0 0 < 3
  cookie : (data.drop 4).take 4 = [0x21, 0x12, 0xA4, 0x42]
  length_field : word16At data 2 = data.length - 20
  length_aligned : word16At data 2 % 4 = 0
  framed : data.drop 20 = encode attrs
  lengths : ∀ r ∈ attrs, RecordOk r
  after_integrity : attrs.Pairwise fun a b =>
    a.type = Attribute.messageIntegrity.code → b.type = Attribute.fingerprint.code
  after_fingerprint : attrs.Pairwise fun a _ => a.type ≠ Attribute.fingerprint.code
  checksum : ∀ p ∈ placed 20 attrs, p.2.type = Attribute.fingerprint.code →
    p.2.value = be32 (Crypto.crc32 (data.take p.1) ^^^ 0x5354554e)

/-- The packet says what the message says: the class and method bits of the type
field, and for each attribute its last occurrence or the default. -/
structure Decodes (data : Bytes) (attrs : List (Record 4)) (p : Stun) : Prop where
  klass : p.klass.toUInt16.toNat =
    2 * (word16At data 0 / 256 % 2) + word16At data 0 / 16 % 2
  method : p.method.toNat = word16At data 0 % 16 + 16 * (word16At data 0 / 32 % 8) +
    128 * (word16At data 0 / 512 % 32)
  transactionId : p.transactionId.val = (data.drop 8).take 12
  bytes : p.data = data
  size : p.size = data.length
  username : p.username = (lastOf .username (placed 20 attrs)).elim [] (·.2.value)
  priority : p.priority = (lastOf .priority (placed 20 attrs)).elim 0 (word32 ·.2.value)
  iceControlling : p.iceControlling =
    (lastOf .iceControlling (placed 20 attrs)).elim 0 (word64 ·.2.value)
  iceControlled : p.iceControlled =
    (lastOf .iceControlled (placed 20 attrs)).elim 0 (word64 ·.2.value)
  errorCode : p.errorCode = (lastOf .errorCode (placed 20 attrs)).elim 0 (errorCodeOf ·.2.value)
  useCandidate : p.hasUseCandidate = true ↔ ∃ r ∈ attrs, r.type = Attribute.useCandidate.code
  messageIntegrity : p.messageIntegrity =
    (lastOf .messageIntegrity (placed 20 attrs)).map (·.1 + 4)
  fingerprint : p.hasFingerprint = true ↔ ∃ r ∈ attrs, r.type = Attribute.fingerprint.code

/-! ## The last occurrence of an attribute -/

theorem lastOf_cons (attr : Attribute) (p : Nat × Record 4) (ps : List (Nat × Record 4)) :
    lastOf attr (p :: ps) =
      (lastOf attr ps).or (if p.2.type = attr.code then some p else none) := by
  simp only [lastOf]
  by_cases h : p.2.type = attr.code
  · rw [List.filter_cons_of_pos (by simpa using h), List.getLast?_cons, if_pos h]
    cases (ps.filter (fun p => p.2.type = attr.code)).getLast? <;> rfl
  · rw [List.filter_cons_of_neg (by simpa using h), if_neg h]
    cases (ps.filter (fun p => p.2.type = attr.code)).getLast? <;> rfl

theorem lastOf_isSome (attr : Attribute) (pos : Nat) (rs : List (Record 4)) :
    (lastOf attr (placed pos rs)).isSome = true ↔ ∃ r ∈ rs, r.type = attr.code := by
  induction rs generalizing pos with
  | nil => simp [placed, lastOf]
  | cons r rs ih =>
    rw [placed, lastOf_cons]
    by_cases h : r.type = attr.code
    · simp [h]
    · simp [h, ih]

theorem placed_append (pos : Nat) (rs ss : List (Record 4)) :
    placed pos (rs ++ ss) = placed pos rs ++ placed (pos + (encode rs).length) ss := by
  induction rs generalizing pos with
  | nil => simp [placed]
  | cons r rs ih =>
    simp only [List.cons_append, placed, ih, encode_cons, List.length_append,
      Record.bytes_length, Nat.add_assoc]

/-- What one accepted iteration does to the locals, position included. -/
def absorbNext (st : ParseState) (r : Record 4) : ParseState :=
  { absorb st r with pos := st.pos + r.size }

/-- Every field on its own: an attribute sets its field and leaves the others. -/
theorem absorb_eq (st : ParseState) (r : Record 4) :
    absorb st r =
      { pos := st.pos
        packet := { st.packet with
          username := if r.type = Attribute.username.code then r.value else st.packet.username
          priority :=
            if r.type = Attribute.priority.code then word32 r.value else st.packet.priority
          iceControlling :=
            if r.type = Attribute.iceControlling.code then word64 r.value
            else st.packet.iceControlling
          iceControlled :=
            if r.type = Attribute.iceControlled.code then word64 r.value
            else st.packet.iceControlled
          hasUseCandidate :=
            if r.type = Attribute.useCandidate.code then true else st.packet.hasUseCandidate
          messageIntegrity :=
            if r.type = Attribute.messageIntegrity.code then some (st.pos + 4)
            else st.packet.messageIntegrity
          hasFingerprint :=
            if r.type = Attribute.fingerprint.code then true else st.packet.hasFingerprint
          errorCode :=
            if r.type = Attribute.errorCode.code then errorCodeOf r.value
            else st.packet.errorCode }
        hasMessageIntegrity :=
          if r.type = Attribute.messageIntegrity.code then true else st.hasMessageIntegrity
        hasFingerprint :=
          if r.type = Attribute.fingerprint.code then true else st.hasFingerprint
        fingerprintAttrPos :=
          if r.type = Attribute.fingerprint.code then some st.pos else st.fingerprintAttrPos
        fingerprint :=
          if r.type = Attribute.fingerprint.code then some (word32 r.value)
          else st.fingerprint } := by
  have other : ∀ attr : Attribute, Attribute.ofUInt16 r.type ≠ some attr → r.type ≠ attr.code :=
    fun attr h hcode => h (Attribute.ofUInt16_iff.mpr hcode)
  cases h : Attribute.ofUInt16 r.type with
  | none =>
    simp only [h, ne_eq, reduceCtorEq, not_false_eq_true, forall_const] at other
    simp only [absorb, h, other, if_false]
  | some attr =>
    have hcode := Attribute.ofUInt16_iff.mp h
    have distinct : ∀ b : Attribute, r.type = b.code ↔ attr = b := fun b => by
      rw [hcode]
      exact Attribute.code_injective.eq_iff
    simp only [absorb, h, distinct]
    cases attr <;> rfl

/-- A field that one attribute sets from its record holds the last such record. -/
theorem foldl_last {β : Type} (attr : Attribute) (g : ParseState → β) (v : Nat × Record 4 → β)
    (step : ∀ st r, g (absorbNext st r) = if r.type = attr.code then v (st.pos, r) else g st)
    (rs : List (Record 4)) (st : ParseState) :
    g (rs.foldl absorbNext st) = (lastOf attr (placed st.pos rs)).elim (g st) v := by
  induction rs generalizing st with
  | nil => rfl
  | cons r rs ih =>
    have hpos : (absorbNext st r).pos = st.pos + r.size := rfl
    rw [List.foldl_cons, ih, hpos, placed, lastOf_cons, step]
    by_cases h : r.type = attr.code
    · cases lastOf attr (placed (st.pos + r.size) rs) <;> simp [h]
    · cases lastOf attr (placed (st.pos + r.size) rs) <;> simp [h]

end Stun

end Sars
