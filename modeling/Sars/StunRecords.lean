import Sars.StunParse

/-!
# The attribute loop on framed records

One iteration at the start of a record is a function of the record and the
locals, and the loop on a whole list of records is the iteration of that
function. A text that does not split into records is rejected.
-/

namespace Sars

open ByteMemory NetworkOrder TlvFraming

namespace Stun

/-- The 32-bit word in a four-byte value. -/
def word32 : Bytes → UInt32
  | [a, b, c, d] => ofBe32 a b c d
  | _ => 0

def word64 : Bytes → UInt64
  | [a, b, c, d, e, f, g, h] => ofBe64 (ofBe32 a b c d) (ofBe32 e f g h)
  | _ => 0

def errorCodeOf : Bytes → UInt16
  | _ :: _ :: errorClass :: errorNumber :: _ => errorClass.toUInt16 * 100 + errorNumber.toUInt16
  | _ => 0

theorem word32_be32 (v : UInt32) : word32 (be32 v) = v := ofBe32_be32 v

theorem word64_be64 (v : UInt64) : word64 (be64 v) = v := by
  rw [be64_halves]
  exact (congrArg₂ ofBe64 (ofBe32_be32 _) (ofBe32_be32 _)).trans (ofBe64_split v)

/-- The length a named attribute must have. -/
def LengthOk (attr : Attribute) (n : Nat) : Prop :=
  match attr with
  | .priority => n = 4
  | .fingerprint => n = 4
  | .iceControlling => n = 8
  | .iceControlled => n = 8
  | .useCandidate => n = 0
  | .messageIntegrity => n = 20
  | .errorCode => 4 ≤ n
  | _ => True

instance (attr : Attribute) (n : Nat) : Decidable (LengthOk attr n) := by
  cases attr <;> unfold LengthOk <;> infer_instance

/-- A record of the right length for its type. -/
def RecordOk (r : Record 4) : Prop := ∀ attr, r.type = attr.code → LengthOk attr r.value.length

/-- What a well-formed record leaves in the loop's locals. -/
def absorb (st : ParseState) (r : Record 4) : ParseState :=
  match Attribute.ofUInt16 r.type with
  | some .username => { st with packet := st.packet.setUsername r.value }
  | some .priority => { st with packet := st.packet.setPriority (word32 r.value) }
  | some .iceControlling => { st with packet := st.packet.setIceControlling (word64 r.value) }
  | some .iceControlled => { st with packet := st.packet.setIceControlled (word64 r.value) }
  | some .useCandidate => { st with packet := st.packet.setUseCandidate }
  | some .messageIntegrity =>
    { st with hasMessageIntegrity := true, packet := st.packet.setMessageIntegrity (st.pos + 4) }
  | some .fingerprint =>
    { st with hasFingerprint := true, fingerprintAttrPos := some st.pos,
              fingerprint := some (word32 r.value), packet := st.packet.setFingerprint }
  | some .errorCode => { st with packet := st.packet.setErrorCode (errorCodeOf r.value) }
  | _ => st

theorem ofNat_eq_iff {n k : Nat} (hn : n < 65536) (hk : k < 65536) :
    UInt16.ofNat n = UInt16.ofNat k ↔ n = k := by
  constructor
  · intro h
    have hnat := congrArg UInt16.toNat h
    rwa [UInt16.toNat_ofNat_of_lt' hn, UInt16.toNat_ofNat_of_lt' hk] at hnat
  · exact congrArg UInt16.ofNat

theorem recordOk_of_named {r : Record 4} {attr : Attribute}
    (h : Attribute.ofUInt16 r.type = some attr) : RecordOk r ↔ LengthOk attr r.value.length := by
  have hcode := Attribute.ofUInt16_iff.mp h
  constructor
  · exact fun ok => ok attr hcode
  · intro ok other hother
    rw [← Attribute.code_injective (hcode.symm.trans hother)]
    exact ok

theorem recordOk_of_unnamed {r : Record 4} (h : Attribute.ofUInt16 r.type = none) :
    RecordOk r := by
  intro attr hattr
  rw [hattr, Attribute.ofUInt16_code] at h
  cases h

instance (r : Record 4) : Decidable (RecordOk r) :=
  match h : Attribute.ofUInt16 r.type with
  | some attr => decidable_of_iff (LengthOk attr r.value.length) (recordOk_of_named h).symm
  | none => .isTrue (recordOk_of_unnamed h)

theorem length_ne_iff {r : Record 4} {k : Nat} (hk : k < 65536) :
    UInt16.ofNat r.value.length ≠ UInt16.ofNat k ↔ ¬ r.value.length = k :=
  not_congr (ofNat_eq_iff r.value_lt hk)

/-- A value is read behind the four bytes of its header. -/
theorem value_window (pre tail : Bytes) (r : Record 4) {i : Nat} (hi : pre.length = i) :
    ∃ front : Bytes, front.length = i + 4 ∧
      pre ++ (r.bytes ++ tail) = front ++ (r.value ++ (r.pad ++ tail)) := by
  refine ⟨pre ++ (be16 r.type ++ be16 (UInt16.ofNat r.value.length)), ?_, ?_⟩
  · simp [hi]
  · simp [Record.bytes]

/-- The shape of every checked case of the `switch`. -/
theorem guarded {c p : Prop} [Decidable c] [Decidable p] {next : Mem (Option ParseState)}
    {out : ParseState} (guard : c ↔ ¬ p) (hnext : p → next = .ok (some out)) :
    (if c then return none else next) = .ok (if p then some out else none) := by
  by_cases hp : p
  · rw [if_neg (fun hc => guard.mp hc hp), if_pos hp]
    exact hnext hp
  · rw [if_pos (guard.mpr hp), if_neg hp]
    rfl

theorem attrSwitch_record {pre tail : Bytes} {r : Record 4} {st : ParseState}
    (hpos : pre.length = st.pos) :
    attrSwitch (pre ++ (r.bytes ++ tail)) st r.type (UInt16.ofNat r.value.length) =
      .ok (if RecordOk r then some (absorb st r) else none) := by
  obtain ⟨front, hfront, hdata⟩ := value_window pre tail r hpos
  rw [hdata]
  cases h : Attribute.ofUInt16 r.type with
  | none =>
    simp only [attrSwitch, absorb, h, recordOk_of_unnamed h, if_true, pure_ok]
  | some attr =>
    have ok := recordOk_of_named h
    have word : ∀ v, r.value = be32 v →
        Byte.get4Bytes (front ++ (r.value ++ (r.pad ++ tail))) (st.pos + 4) =
          .ok (word32 r.value) := by
      intro v hv
      rw [hv, word32_be32]
      exact Byte.get4Bytes_window front _ v hfront
    have long : ∀ v, r.value = be64 v →
        Byte.get8Bytes (front ++ (r.value ++ (r.pad ++ tail))) (st.pos + 4) =
          .ok (word64 r.value) := by
      intro v hv
      rw [hv, word64_be64]
      exact Byte.get8Bytes_window front _ v hfront
    cases attr with
    | username =>
      have hload := loadBytes_window front r.value (r.pad ++ tail) hfront rfl
      have hlen : (UInt16.ofNat r.value.length).toNat = r.value.length :=
        UInt16.toNat_ofNat_of_lt' r.value_lt
      have hok : RecordOk r := ok.mpr trivial
      simp only [attrSwitch, absorb, h, hlen, hload, ok_bind, pure_ok, if_pos hok]
    | priority =>
      simp only [attrSwitch, absorb, h]
      refine guarded ((length_ne_iff (by decide)).trans (not_congr ok).symm) (fun hok => ?_)
      obtain ⟨v, hv⟩ := exists_be32 (ok.mp hok)
      rw [word v hv]
      rfl
    | iceControlling =>
      simp only [attrSwitch, absorb, h]
      refine guarded ((length_ne_iff (by decide)).trans (not_congr ok).symm) (fun hok => ?_)
      obtain ⟨v, hv⟩ := exists_be64 (ok.mp hok)
      rw [long v hv]
      rfl
    | iceControlled =>
      simp only [attrSwitch, absorb, h]
      refine guarded ((length_ne_iff (by decide)).trans (not_congr ok).symm) (fun hok => ?_)
      obtain ⟨v, hv⟩ := exists_be64 (ok.mp hok)
      rw [long v hv]
      rfl
    | useCandidate =>
      simp only [attrSwitch, absorb, h]
      exact guarded ((length_ne_iff (by decide)).trans (not_congr ok).symm) (fun _ => rfl)
    | messageIntegrity =>
      simp only [attrSwitch, absorb, h]
      exact guarded ((length_ne_iff (by decide)).trans (not_congr ok).symm) (fun _ => rfl)
    | fingerprint =>
      simp only [attrSwitch, absorb, h]
      refine guarded ((length_ne_iff (by decide)).trans (not_congr ok).symm) (fun hok => ?_)
      obtain ⟨v, hv⟩ := exists_be32 (ok.mp hok)
      rw [word v hv]
      rfl
    | errorCode =>
      have hlt : UInt16.ofNat r.value.length < 4 ↔ ¬ RecordOk r := by
        rw [UInt16.lt_iff_toNat_lt, UInt16.toNat_ofNat_of_lt' r.value_lt, ok]
        exact Nat.not_le.symm
      simp only [attrSwitch, absorb, h]
      refine guarded hlt (fun hok => ?_)
      match hv : r.value, ok.mp hok with
      | a :: b :: c :: d :: rest, _ =>
        have hclass := Byte.get1Byte_window (front ++ [a, b]) (d :: (rest ++ (r.pad ++ tail))) c
          (i := st.pos + 4 + 2) (by simp [hfront])
        have hnumber := Byte.get1Byte_window (front ++ [a, b, c]) (rest ++ (r.pad ++ tail)) d
          (i := st.pos + 4 + 3) (by simp [hfront])
        simp only [List.append_assoc, List.cons_append, List.nil_append] at hclass hnumber
        simp only [List.cons_append, hclass, hnumber, ok_bind, pure_ok, errorCodeOf]
    | _ =>
      have hok : RecordOk r := ok.mpr trivial
      simp only [attrSwitch, absorb, h, if_pos hok, pure_ok]

/-- The order tests and the `switch` of one iteration, on a record. -/
def stepRecord (st : ParseState) (r : Record 4) : Option ParseState :=
  if st.hasFingerprint then none
  else if st.hasMessageIntegrity ∧ r.type ≠ Attribute.fingerprint.code then none
  else if RecordOk r then some { absorb st r with pos := st.pos + r.size }
  else none

/-- The advance is made in 16 bits. -/
theorem next_pos {pos : Nat} {r : Record 4} (aligned : pos % 4 = 0) :
    (Byte.padTo4Bytes (UInt16.ofNat (pos + 4 + r.value.length))).toNat =
      (pos + r.size) % 65536 := by
  simp only [Record.size]
  rw [Byte.padTo4Bytes_mod, UInt16.toNat_ofNat']
  simp only [padding]
  omega

theorem attrStep_wrapped {pre : Bytes} (tail : Bytes) {r : Record 4} {st : ParseState}
    (hpos : pre.length = st.pos) (aligned : st.pos % 4 = 0) :
    attrStep (pre ++ (r.bytes ++ tail)) st =
      .ok ((stepRecord st r).map fun next => { next with pos := (st.pos + r.size) % 65536 }) := by
  have hlen : (UInt16.ofNat r.value.length).toNat = r.value.length :=
    UInt16.toNat_ofNat_of_lt' r.value_lt
  have htype : Byte.get2Bytes (pre ++ (r.bytes ++ tail)) st.pos = .ok r.type := by
    simp only [Record.bytes, List.append_assoc]
    exact Byte.get2Bytes_window pre _ r.type hpos
  have hlength : Byte.get2Bytes (pre ++ (r.bytes ++ tail)) (st.pos + 2) =
      .ok (UInt16.ofNat r.value.length) := by
    have h := Byte.get2Bytes_window (pre ++ be16 r.type) (r.value ++ (r.pad ++ tail))
      (UInt16.ofNat r.value.length) (i := st.pos + 2) (by simp [hpos])
    simpa only [Record.bytes, List.append_assoc] using h
  have hfits : ¬ st.pos + 4 + r.value.length > (pre ++ (r.bytes ++ tail)).length := by
    simp only [List.length_append, Record.bytes_length, Record.size, hpos]
    omega
  simp only [attrStep, htype, hlength, ok_bind, hlen, if_neg hfits, pure_ok,
    attrSwitch_record hpos, next_pos aligned, stepRecord]
  split_ifs <;> rfl

/-- Below the last multiple of four nothing wraps. -/
theorem attrStep_record {pre : Bytes} (tail : Bytes) {r : Record 4} {st : ParseState}
    (hpos : pre.length = st.pos) (aligned : st.pos % 4 = 0) (short : st.pos + r.size ≤ 65532) :
    attrStep (pre ++ (r.bytes ++ tail)) st = .ok (stepRecord st r) := by
  rw [attrStep_wrapped tail hpos aligned, Nat.mod_eq_of_lt (show st.pos + r.size < 65536 by omega)]
  simp only [stepRecord]
  split_ifs <;> rfl

/-- A header whose declared length runs past the end is rejected. -/
theorem attrStep_overrun {pre rest : Bytes} {t l : UInt16} {st : ParseState}
    (hpos : pre.length = st.pos) (long : rest.length < l.toNat) :
    attrStep (pre ++ (be16 t ++ (be16 l ++ rest))) st = .ok none := by
  have htype := Byte.get2Bytes_window pre (be16 l ++ rest) t hpos
  have hlength := Byte.get2Bytes_window (pre ++ be16 t) rest l (i := st.pos + 2)
    (by simp [hpos])
  simp only [List.append_assoc] at hlength
  have hover : st.pos + 4 + l.toNat > (pre ++ (be16 t ++ (be16 l ++ rest))).length := by
    simp only [List.length_append, be16_length, hpos]
    omega
  simp only [attrStep, htype, hlength, ok_bind, if_pos hover, pure_ok]

/-- What is left of an aligned message starts with a record, runs over or is empty. -/
theorem tail_cases {tail : Bytes} (aligned : tail.length % 4 = 0) :
    tail = [] ∨ (∃ (r : Record 4) (rest : Bytes), tail = r.bytes ++ rest) ∨
      ∃ (t l : UInt16) (rest : Bytes), tail = be16 t ++ (be16 l ++ rest) ∧
        rest.length < l.toNat := by
  by_cases empty : tail = []
  · exact Or.inl empty
  · have hpos : 0 < tail.length := List.length_pos_iff.mpr empty
    obtain ⟨t, ht⟩ := exists_be16 (b := tail.take 2) (by rw [List.length_take]; omega)
    obtain ⟨l, hl⟩ := exists_be16 (b := (tail.drop 2).take 2)
      (by rw [List.length_take, List.length_drop]; omega)
    have hsplit : tail = be16 t ++ (be16 l ++ tail.drop 4) := by
      have h1 := List.take_append_drop 2 (tail.drop 2)
      rw [List.drop_drop] at h1
      rw [← ht, ← hl, h1, List.take_append_drop]
    have hdrop : (tail.drop 4).length = tail.length - 4 := List.length_drop
    by_cases fits : l.toNat ≤ (tail.drop 4).length
    · -- the rest is aligned, so the padding fits as soon as the value does
      have hpad : l.toNat + padding 4 l.toNat ≤ (tail.drop 4).length := by
        simp only [padding]
        omega
      obtain ⟨r, rest, hr, _⟩ := exists_record hpad
      exact Or.inr (Or.inl ⟨r, rest, hsplit.trans hr⟩)
    · exact Or.inr (Or.inr ⟨t, l, tail.drop 4, hsplit, by omega⟩)

theorem stepRecord_pos {st next : ParseState} {r : Record 4} (h : stepRecord st r = some next) :
    next.pos = st.pos + r.size := by
  simp only [stepRecord] at h
  split_ifs at h
  cases h
  rfl

/-- On framed attributes the loop is the iteration of `stepRecord`. -/
theorem attrLoop_encode (rs : List (Record 4)) (pre : Bytes) (st : ParseState) (fuel : Nat)
    (hpos : pre.length = st.pos) (aligned : st.pos % 4 = 0)
    (short : (pre ++ encode rs).length ≤ 65532) (enough : rs.length ≤ fuel) :
    attrLoop (pre ++ encode rs) fuel st =
      match rs.foldlM stepRecord st with
      | none => .ok .nullptr
      | some last => afterLoop (pre ++ encode rs) last := by
  induction rs generalizing pre st fuel with
  | nil =>
    have hend : ¬ st.pos + 4 ≤ (pre ++ encode ([] : List (Record 4))).length := by
      simp [hpos]
    cases fuel with
    | zero => simp only [attrLoop, if_neg hend]; rfl
    | succ fuel => simp only [attrLoop, if_neg hend]; rfl
  | cons r rs ih =>
    have hsize := r.size_pos
    simp only [encode_cons, List.length_append, Record.bytes_length] at short
    obtain ⟨fuel, rfl⟩ : ∃ n, fuel = n + 1 := ⟨fuel - 1, by simp at enough; omega⟩
    have hgo : st.pos + 4 ≤ (pre ++ encode (r :: rs)).length := by
      simp only [encode_cons, List.length_append, Record.bytes_length]
      omega
    have hstep := attrStep_record (encode rs) hpos aligned (r := r) (by omega)
    simp only [attrLoop, if_pos hgo]
    rw [encode_cons, hstep, ok_bind]
    cases hnext : stepRecord st r with
    | none => simp [List.foldlM_cons, hnext]
    | some next =>
      have hp := stepRecord_pos hnext
      have hrec := ih (pre ++ r.bytes) next fuel
        (by simp [hpos, hp]) (by unfold Record.size padding at hp; omega)
        (by simp; omega) (by simp at enough; omega)
      simp only [List.append_assoc] at hrec
      simp only [List.foldlM_cons, hnext]
      exact hrec

/-- A text that does not split into records is rejected, whatever came before it. -/
theorem attrLoop_unframed (tail pre : Bytes) (st : ParseState) (fuel : Nat)
    (unframed : ∀ rs : List (Record 4), tail ≠ encode rs) (hpos : pre.length = st.pos)
    (aligned : st.pos % 4 = 0) (htail : tail.length % 4 = 0)
    (short : (pre ++ tail).length ≤ 65532) (enough : tail.length ≤ fuel) :
    attrLoop (pre ++ tail) fuel st = .ok .nullptr := by
  induction fuel generalizing tail pre st with
  | zero =>
    have empty : tail = [] := List.eq_nil_of_length_eq_zero (by omega)
    exact absurd empty (unframed [])
  | succ fuel ih =>
    rcases tail_cases htail with empty | ⟨r, rest, rfl⟩ | ⟨t, l, rest, rfl, long⟩
    · exact absurd empty (unframed [])
    · have hsize := r.size_pos
      simp only [List.length_append, Record.bytes_length] at short htail enough
      have hgo : st.pos + 4 ≤ (pre ++ (r.bytes ++ rest)).length := by
        simp only [List.length_append, Record.bytes_length]
        omega
      have hstep := attrStep_record rest hpos aligned (r := r) (by omega)
      simp only [attrLoop, if_pos hgo]
      rw [hstep, ok_bind]
      cases hnext : stepRecord st r with
      | none => rfl
      | some next =>
        have hp := stepRecord_pos hnext
        have hmod : r.size % 4 = 0 := r.size_aligned (by decide) rfl
        have hrec := ih rest (pre ++ r.bytes) next
          (fun rs hrs => unframed (r :: rs) (by rw [encode_cons, hrs]))
          (by simp [hpos, hp]) (by omega) (by omega) (by simp; omega) (by omega)
        simp only [List.append_assoc] at hrec
        exact hrec
    · have hgo : st.pos + 4 ≤ (pre ++ (be16 t ++ (be16 l ++ rest))).length := by
        simp [hpos]
        omega
      simp only [attrLoop, if_pos hgo]
      rw [attrStep_overrun hpos long]
      rfl

end Stun

end Sars
