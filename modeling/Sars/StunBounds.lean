import Sars.StunAcceptance

/-!
# Reads of the parser

Accesses are checked, so a parse that faults for no amount of fuel has read
nothing outside the datagram in any iteration, positions that have wrapped
around 65536 included. The loop stays on multiples of four, and there the bytes
from the current position on are a record or run over the end.
-/

namespace Sars

open ByteMemory NetworkOrder TlvFraming

namespace Stun

/-- The loop is at a multiple of four, and the locals of FINGERPRINT are assigned once its
flag is set. -/
structure Located (data : Bytes) (st : ParseState) : Prop where
  aligned : st.pos % 4 = 0
  assigned : st.hasFingerprint = true → ∃ pos fingerprint,
    st.fingerprintAttrPos = some pos ∧ pos ≤ data.length ∧ st.fingerprint = some fingerprint

/-- One iteration at any position the loop can be at. -/
theorem attrStep_cases {data : Bytes} {st : ParseState} (aligned : data.length % 4 = 0)
    (hpos : st.pos % 4 = 0) (room : st.pos + 4 ≤ data.length) :
    (∃ r : Record 4, word16At data st.pos = r.type.toNat ∧
      word16At data (st.pos + 2) = r.value.length ∧ st.pos + r.size ≤ data.length ∧
      attrStep data st =
        .ok ((stepRecord st r).map fun next => { next with pos := (st.pos + r.size) % 65536 })) ∨
    (data.length < st.pos + 4 + word16At data (st.pos + 2) ∧ attrStep data st = .ok none) := by
  have hfront : (data.take st.pos).length = st.pos := by
    rw [List.length_take]
    omega
  have hdata : data.take st.pos ++ data.drop st.pos = data := List.take_append_drop _ _
  have htotal := congrArg List.length hdata
  have fields : ∀ (t l : UInt16) (rest : Bytes), data.drop st.pos = be16 t ++ (be16 l ++ rest) →
      word16At data st.pos = t.toNat ∧ word16At data (st.pos + 2) = l.toNat := by
    intro t l rest htail
    have htype := word16At_window (data.take st.pos) (be16 l ++ rest) t hfront
    have hlength := word16At_window (data.take st.pos ++ be16 t) rest l (i := st.pos + 2)
      (by rw [List.length_append, hfront, be16_length])
    rw [List.append_assoc] at hlength
    rw [← htail, hdata] at htype hlength
    exact ⟨htype, hlength⟩
  have haligned : (data.drop st.pos).length % 4 = 0 := by
    rw [List.length_drop]
    omega
  rcases tail_cases haligned with
    empty | ⟨r, rest, htail⟩ | ⟨t, l, rest, htail, long⟩
  · rw [empty, List.append_nil, hfront] at htotal
    omega
  · obtain ⟨htype, hlength⟩ := fields r.type (UInt16.ofNat r.value.length)
      (r.value ++ r.pad ++ rest) (by simp only [htail, Record.bytes, List.append_assoc])
    rw [UInt16.toNat_ofNat_of_lt' r.value_lt] at hlength
    rw [htail] at htotal
    simp only [List.length_append, hfront, Record.bytes_length] at htotal
    have hstep := attrStep_wrapped rest hfront hpos (r := r)
    rw [← htail, hdata] at hstep
    exact Or.inl ⟨r, htype, hlength, by omega, hstep⟩
  · obtain ⟨_, hlength⟩ := fields t l rest htail
    rw [htail] at htotal
    simp only [List.length_append, hfront, be16_length] at htotal
    have hstep := attrStep_overrun (t := t) hfront long
    rw [← htail, hdata] at hstep
    exact Or.inr ⟨by omega, hstep⟩

theorem stepRecord_located {data : Bytes} {st next : ParseState} {r : Record 4}
    (h : Located data st) (room : st.pos ≤ data.length) (hstep : stepRecord st r = some next) :
    Located data { next with pos := (st.pos + r.size) % 65536 } := by
  have hsize : r.size % 4 = 0 := r.size_aligned (by decide) rfl
  have haligned := h.aligned
  refine { aligned := show (st.pos + r.size) % 65536 % 4 = 0 by omega, assigned := ?_ }
  intro hflag
  simp only [stepRecord] at hstep
  split_ifs at hstep with hlast
  cases hstep
  rw [absorb_eq] at hflag ⊢
  by_cases htype : r.type = Attribute.fingerprint.code
  · exact ⟨st.pos, word32 r.value, if_pos htype, room, if_pos htype⟩
  · simp only [if_neg htype] at hflag
    exact absurd hflag hlast

theorem attrStep_total {data : Bytes} {st : ParseState} (aligned : data.length % 4 = 0)
    (h : Located data st) (room : st.pos + 4 ≤ data.length) :
    attrStep data st = .ok none ∨
      ∃ next, attrStep data st = .ok (some next) ∧ Located data next := by
  rcases attrStep_cases aligned h.aligned room with ⟨r, _, _, _, hstep⟩ | ⟨_, hstep⟩
  · cases hnext : stepRecord st r with
    | none =>
      rw [hnext] at hstep
      exact Or.inl hstep
    | some next =>
      rw [hnext] at hstep
      exact Or.inr ⟨_, hstep, stepRecord_located h (by omega) hnext⟩
  · exact Or.inl hstep

theorem afterLoop_total {data : Bytes} {st : ParseState} (h : Located data st) :
    ∃ r, afterLoop data st = .ok r := by
  simp only [afterLoop]
  by_cases hend : st.pos ≠ data.length
  · exact ⟨.nullptr, by rw [if_pos hend]; rfl⟩
  · rw [if_neg hend]
    by_cases hflag : st.hasFingerprint = true
    · obtain ⟨pos, fingerprint, hpos, hle, hvalue⟩ := h.assigned hflag
      rw [if_neg (not_not_intro hflag), hpos, hvalue]
      simp only [assigned_some, ok_bind, Crypto.getCRC32_eq hle]
      split_ifs <;> exact ⟨_, rfl⟩
    · exact ⟨.packet st.packet, by rw [if_pos hflag]; rfl⟩

theorem attrLoop_total {data : Bytes} (aligned : data.length % 4 = 0) (fuel : Nat)
    {st : ParseState} (h : Located data st) : ∃ r, attrLoop data fuel st = .ok r := by
  induction fuel generalizing st with
  | zero =>
    simp only [attrLoop]
    split_ifs
    · exact ⟨.running, rfl⟩
    · exact afterLoop_total h
  | succ fuel ih =>
    simp only [attrLoop]
    split_ifs with room
    · rcases attrStep_total aligned h room with hstep | ⟨next, hstep, hnext⟩
      · exact ⟨.nullptr, by rw [hstep]; rfl⟩
      · rw [hstep]
        exact ih hnext
    · exact afterLoop_total h

theorem enterLoop_located (data : Bytes) (msgType : UInt16) (tid : Block 12) :
    Located data (enterLoop data msgType tid) :=
  { aligned := enterLoop_aligned data msgType tid, assigned := fun h => nomatch h }

theorem parseWith_total (fuel : Nat) (data : Bytes) : ∃ r, parseWith fuel data = .ok r := by
  by_cases long : 20 ≤ data.length
  · obtain ⟨msgType, msgLength, cookie, tid, rest, hdata, hcookie, htid⟩ := exists_header long
    have hlen : data.length = rest.length + 20 :=
      (header_fields msgType msgLength rest hcookie htid hdata).2.2.2.2.2.2
    rw [parseWith_header fuel msgType msgLength cookie ⟨tid, htid⟩ rest hcookie hdata]
    split_ifs with hhead
    · exact attrLoop_total (by omega) fuel (enterLoop_located data msgType _)
    · exact ⟨.nullptr, rfl⟩
  · exact ⟨.nullptr, by rw [parseWith, isStun_short (by omega)]; rfl⟩

/-- Neither the test for STUN nor any iteration of the parser reads outside the datagram or
reads a local before it has a value. -/
theorem parse_in_bounds (fuel : Nat) (data : Bytes) :
    (∃ b, isStun data = .ok b) ∧ ∃ r, parseWith fuel data = .ok r :=
  ⟨isStun_total data, parseWith_total fuel data⟩

end Stun

end Sars
