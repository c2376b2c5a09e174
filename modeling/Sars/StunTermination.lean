import Sars.FuelLoop
import Sars.StunBounds

/-!
# Termination of the parser

Messages of up to 65535 bytes end the loop. The length field admits up to 65552
bytes; there the 16-bit advance never gets past the end, so the loop ends only
by rejecting an attribute, and it goes on for ever when the attributes it comes
to, wrapped around into the header, give it no reason to.
-/

namespace Sars

open ByteMemory NetworkOrder TlvFraming FuelLoop

namespace Stun

/-- Some number of iterations gives a packet or null. -/
def Terminates (data : Bytes) : Prop :=
  ∃ fuel, (∃ p, parseWith fuel data = .ok (.packet p)) ∨ parseWith fuel data = .ok .nullptr

/-- A message that is too long for 16-bit positions and passes the tests in front of the loop. -/
structure LongHeader (data : Bytes) : Prop where
  long : 65536 ≤ data.length
  first : data.getD 0 0 < 3
  cookie : (data.drop 4).take 4 = [0x21, 0x12, 0xA4, 0x42]
  length_field : word16At data 2 = data.length - 20
  length_aligned : word16At data 2 % 4 = 0

/-- Where the attribute behind the one at `pos` begins. -/
def nextPos (data : Bytes) (pos : Nat) : Nat :=
  (pos + (4 + (word16At data (pos + 2) + padding 4 (word16At data (pos + 2))))) % 65536

/-- The attribute at `pos` runs over the end, has the wrong length for its type or is one of
the two trailers. -/
def Final (data : Bytes) (pos : Nat) : Prop :=
  data.length < pos + 4 + word16At data (pos + 2) ∨
    (∃ attr : Attribute, word16At data pos = attr.code.toNat ∧
      ¬ LengthOk attr (word16At data (pos + 2))) ∨
    word16At data pos = Attribute.messageIntegrity.code.toNat ∨
    word16At data pos = Attribute.fingerprint.code.toNat

/-! ## The loop on a long message -/

section

variable {data : Bytes} {st : ParseState}

theorem attrLoop_step (room : st.pos + 4 ≤ data.length) (fuel : Nat) :
    attrLoop data (fuel + 1) st = (attrStep data st >>= fun
      | none => return .nullptr
      | some next => attrLoop data fuel next) := by
  rw [attrLoop]
  exact if_pos room

theorem ends_of_none (room : st.pos + 4 ≤ data.length) (hstep : attrStep data st = .ok none) :
    Ends (attrLoop data) (.ok .running) st := by
  refine ⟨1, ?_⟩
  rw [attrLoop_step room, hstep]
  simp

theorem advances_of_some {next : ParseState} (room : st.pos + 4 ≤ data.length)
    (hstep : attrStep data st = .ok (some next)) : Advances (attrLoop data) st next := by
  intro fuel
  rw [attrLoop_step room, hstep]
  rfl

/-- A position the loop can be at on a long message; there is always room for a header. -/
structure Inside (data : Bytes) (st : ParseState) : Prop where
  long : 65536 ≤ data.length
  whole : data.length % 4 = 0
  aligned : st.pos % 4 = 0
  low : st.pos < 65536

theorem Inside.room (h : Inside data st) : st.pos + 4 ≤ data.length := by
  have haligned := h.aligned
  have hlow := h.low
  have hlong := h.long
  omega

/-- One iteration from such a position ends the loop or gets to another one. -/
theorem Inside.step (h : Inside data st) :
    (data.length < st.pos + 4 + word16At data (st.pos + 2) ∧ attrStep data st = .ok none) ∨
    ∃ r : Record 4, word16At data st.pos = r.type.toNat ∧
      word16At data (st.pos + 2) = r.value.length ∧ st.pos + r.size ≤ data.length ∧
      ((stepRecord st r = none ∧ attrStep data st = .ok none) ∨
        ∃ next, next = { absorb st r with pos := nextPos data st.pos } ∧
          stepRecord st r ≠ none ∧ attrStep data st = .ok (some next) ∧ Inside data next) := by
  rcases attrStep_cases h.whole h.aligned h.room with ⟨r, htype, hlength, hend, hstep⟩ | hover
  · refine Or.inr ⟨r, htype, hlength, hend, ?_⟩
    cases hnext : stepRecord st r with
    | none =>
      rw [hnext] at hstep
      exact Or.inl ⟨rfl, hstep⟩
    | some next =>
      rw [hnext] at hstep
      have hpos : (st.pos + r.size) % 65536 = nextPos data st.pos := by
        rw [nextPos, hlength, Record.size]
      have hsize : r.size % 4 = 0 := r.size_aligned (by decide) rfl
      have haligned := h.aligned
      simp only [stepRecord] at hnext
      split_ifs at hnext
      cases hnext
      rw [Option.map_some, hpos] at hstep
      refine Or.inr ⟨_, rfl, by simp, hstep, ?_⟩
      refine { long := h.long, whole := h.whole, aligned := ?_, low := ?_ }
      · show nextPos data st.pos % 4 = 0
        rw [← hpos]
        omega
      · show nextPos data st.pos < 65536
        rw [← hpos]
        exact Nat.mod_lt _ (by omega)
  · exact Or.inl hover

/-- Nothing may follow a FINGERPRINT. -/
theorem Inside.ends_behind_fingerprint (h : Inside data st) (hflag : st.hasFingerprint = true) :
    Ends (attrLoop data) (.ok .running) st := by
  rcases h.step with ⟨_, hstep⟩ | ⟨r, _, _, _, ⟨_, hstep⟩ | ⟨next, _, hsome, _⟩⟩
  · exact ends_of_none h.room hstep
  · exact ends_of_none h.room hstep
  · exact absurd (by simp [stepRecord, hflag]) hsome

/-- Behind a MESSAGE-INTEGRITY only a FINGERPRINT may follow. -/
theorem Inside.ends_behind_integrity (h : Inside data st)
    (hflag : st.hasMessageIntegrity = true) : Ends (attrLoop data) (.ok .running) st := by
  rcases h.step with ⟨_, hstep⟩ | ⟨r, _, _, _, ⟨_, hstep⟩ | ⟨next, hnext, hsome, hstep, hin⟩⟩
  · exact ends_of_none h.room hstep
  · exact ends_of_none h.room hstep
  · refine (advances_of_some h.room hstep).ends (hin.ends_behind_fingerprint ?_)
    have htype : r.type = Attribute.fingerprint.code := by
      by_contra hother
      exact hsome (by simp [stepRecord, hflag, hother])
    rw [hnext, absorb_eq]
    exact if_pos htype

theorem Inside.ends_of_final (h : Inside data st) (final : Final data st.pos) :
    Ends (attrLoop data) (.ok .running) st := by
  rcases h.step with ⟨_, hstep⟩ |
    ⟨r, htype, hlength, hend, ⟨_, hstep⟩ | ⟨next, hnext, hsome, hstep, hin⟩⟩
  · exact ends_of_none h.room hstep
  · exact ends_of_none h.room hstep
  · refine (advances_of_some h.room hstep).ends ?_
    simp only [Final] at final
    rw [htype, hlength] at final
    rcases final with hover | ⟨attr, hcode, hbad⟩ | hintegrity | hfingerprint
    · simp only [Record.size] at hend
      omega
    · have hok : RecordOk r := by
        by_contra hnot
        exact hsome (by simp [stepRecord, hnot])
      exact absurd (hok attr (UInt16.toNat_inj.mp hcode)) hbad
    · refine hin.ends_behind_integrity ?_
      rw [hnext, absorb_eq]
      exact if_pos (UInt16.toNat_inj.mp hintegrity)
    · refine hin.ends_behind_fingerprint ?_
      rw [hnext, absorb_eq]
      exact if_pos (UInt16.toNat_inj.mp hfingerprint)

/-- An attribute that gives no reason to stop leaves the flags as they are. -/
theorem Inside.goes_on (h : Inside data st) (signed : st.hasMessageIntegrity = false)
    (checked : st.hasFingerprint = false) (goes : ¬ Final data st.pos) :
    ∃ next, Advances (attrLoop data) st next ∧ Inside data next ∧
      next.pos = nextPos data st.pos ∧ next.hasMessageIntegrity = false ∧
      next.hasFingerprint = false := by
  rcases h.step with ⟨hover, _⟩ |
    ⟨r, htype, hlength, _, ⟨hnone, _⟩ | ⟨next, hnext, _, hstep, hin⟩⟩
  · exact absurd (Or.inl hover) goes
  · have hok : RecordOk r := by
      intro attr hattr
      by_contra hbad
      exact goes (Or.inr (Or.inl ⟨attr, by rw [htype, hattr], by rwa [hlength]⟩))
    simp [stepRecord, signed, checked, hok] at hnone
  · have hplain : r.type ≠ Attribute.messageIntegrity.code ∧
        r.type ≠ Attribute.fingerprint.code := by
      constructor <;> intro hcode <;> apply goes
      · exact Or.inr (Or.inr (Or.inl (by rw [htype, hcode])))
      · exact Or.inr (Or.inr (Or.inr (by rw [htype, hcode])))
    refine ⟨next, advances_of_some h.room hstep, hin, by rw [hnext], ?_, ?_⟩
    · rw [hnext, absorb_eq]
      exact (if_neg hplain.1).trans signed
    · rw [hnext, absorb_eq]
      exact (if_neg hplain.2).trans checked

theorem Inside.ends_iff (h : Inside data st) (signed : st.hasMessageIntegrity = false)
    (checked : st.hasFingerprint = false) :
    Ends (attrLoop data) (.ok .running) st ↔ ∃ n, Final data ((nextPos data)^[n] st.pos) := by
  constructor
  · intro hends
    by_contra hnone
    refine absurd hends (not_ends_of_progress
      (I := fun st => Inside data st ∧ st.hasMessageIntegrity = false ∧
        st.hasFingerprint = false ∧ ∀ n, ¬ Final data ((nextPos data)^[n] st.pos)) ?_ ?_
      ⟨h, signed, checked, fun n hfinal => hnone ⟨n, hfinal⟩⟩)
    · rintro st ⟨hin, _⟩
      rw [attrLoop, if_pos hin.room]
      rfl
    · rintro st ⟨hin, hsigned, hchecked, hgoes⟩
      obtain ⟨next, hadvance, hnext, hpos, hsigned', hchecked'⟩ :=
        hin.goes_on hsigned hchecked (hgoes 0)
      refine ⟨next, hadvance, hnext, hsigned', hchecked', fun n => ?_⟩
      rw [hpos]
      exact hgoes (n + 1)
  · rintro ⟨n, hfinal⟩
    induction n generalizing st with
    | zero => exact h.ends_of_final hfinal
    | succ n ih =>
      by_cases hnow : Final data st.pos
      · exact h.ends_of_final hnow
      · obtain ⟨next, hadvance, hnext, hpos, hsigned, hchecked⟩ := h.goes_on signed checked hnow
        refine hadvance.ends (ih hnext hsigned hchecked ?_)
        rw [hpos]
        exact hfinal

end

/-! ## All messages -/

/-- Nothing else can come out of the parser, since it never faults. -/
theorem terminates_iff {data : Bytes} :
    Terminates data ↔ ∃ fuel, parseWith fuel data ≠ .ok .running := by
  refine exists_congr fun fuel => ?_
  obtain ⟨r, hr⟩ := parseWith_total fuel data
  rw [hr]
  cases r <;> simp

theorem terminates_short {data : Bytes} (hlen : data.length ≤ 65535) : Terminates data := by
  refine ⟨data.length, ?_⟩
  by_cases hg : ∃ attrs, Grammar data attrs
  · obtain ⟨attrs, hg⟩ := hg
    obtain ⟨p, hp, _⟩ := parse_grammar hg hlen
    exact Or.inl ⟨p, hp⟩
  · exact Or.inr (parse_outside hlen fun attrs h => hg ⟨attrs, h⟩)

/-- A long message is rejected in front of the loop or enters it. -/
theorem long_cases {data : Bytes} (hlen : 65536 ≤ data.length) :
    (¬ LongHeader data ∧ Terminates data) ∨
    (LongHeader data ∧ ∃ st, Inside data st ∧ st.pos = 20 ∧ st.hasMessageIntegrity = false ∧
      st.hasFingerprint = false ∧ ∀ fuel, parseWith fuel data = attrLoop data fuel st) := by
  obtain ⟨msgType, msgLength, cookie, tid, rest, hdata, hcookie, htid⟩ :=
    exists_header (show 20 ≤ data.length by omega)
  obtain ⟨hfirst, hck, _, hw2, _, _, htotal⟩ :=
    header_fields msgType msgLength rest hcookie htid hdata
  have hparse := fun fuel =>
    parseWith_header fuel msgType msgLength cookie ⟨tid, htid⟩ rest hcookie hdata
  by_cases hhead : ((msgType >>> 8).toUInt8 < 3 ∧ cookie = magicCookie.toList) ∧
      msgLength.toNat = rest.length ∧ msgLength.toNat % 4 = 0
  · refine Or.inr ⟨?_, enterLoop data msgType ⟨tid, htid⟩, ?_, rfl, rfl, rfl, fun fuel => ?_⟩
    · exact { long := hlen, first := hfirst ▸ hhead.1.1, cookie := hck.trans hhead.1.2
              length_field := by rw [hw2]; omega, length_aligned := by rw [hw2]; exact hhead.2.2 }
    · exact { long := hlen, whole := by omega, aligned := enterLoop_aligned data msgType _
              low := show 20 < 65536 by omega }
    · rw [hparse, if_pos hhead]
  · refine Or.inl ⟨fun h => hhead ?_, 0, Or.inr (by rw [hparse, if_neg hhead])⟩
    have hfield := h.length_field
    have haligned := h.length_aligned
    rw [hw2] at hfield haligned
    exact ⟨⟨hfirst ▸ h.first, hck.symm.trans h.cookie⟩, by omega, haligned⟩

theorem terminates_long {data : Bytes} (h : LongHeader data) :
    Terminates data ↔ ∃ n, Final data ((nextPos data)^[n] 20) := by
  rcases long_cases h.long with ⟨hnot, _⟩ | ⟨_, st, hin, hpos, hsigned, hchecked, hparse⟩
  · exact absurd h hnot
  · have hloop : Terminates data ↔ Ends (attrLoop data) (.ok .running) st := by
      rw [terminates_iff]
      simp only [Ends, hparse]
    rw [hloop, hin.ends_iff hsigned hchecked, hpos]

/-- The parser ends on every message but the long ones on which no attribute stops it. -/
theorem parse_terminates_iff (data : Bytes) :
    Terminates data ↔ (LongHeader data → ∃ n, Final data ((nextPos data)^[n] 20)) := by
  by_cases hlen : data.length ≤ 65535
  · exact iff_of_true (terminates_short hlen) fun h => absurd h.long (by omega)
  · rcases long_cases (show 65536 ≤ data.length by omega) with ⟨hnot, hends⟩ | ⟨h, _⟩
    · exact iff_of_true hends fun h => absurd h hnot
    · rw [terminates_long h]
      exact ⟨fun hfinal _ => hfinal, fun hfinal => hfinal h⟩

/-! ### A message of 65552 bytes -/

/-- One attribute up to byte 65536, from which the loop comes to the header and stays there:
the type and length fields of the message are an attribute that ends at 65536 again. -/
def loopingMessage : Bytes :=
  be16 1 ++ (be16 65532 ++ (magicCookie.toList ++ (bindingTransactionId.val ++
    (be16 0x8022 ++ (be16 65512 ++ List.replicate 65528 0)))))

theorem loopingMessage_header :
    word16At loopingMessage 0 = 1 ∧ word16At loopingMessage 2 = 65532 ∧
      loopingMessage.length = 65552 := by
  have hcookie : magicCookie.toList.length = 4 := rfl
  obtain ⟨_, _, htype, hlength, _, _, htotal⟩ := header_fields 1 65532
    (be16 0x8022 ++ (be16 65512 ++ List.replicate 65528 0)) hcookie bindingTransactionId.property
    (show loopingMessage = _ from rfl)
  refine ⟨htype, hlength, htotal.trans ?_⟩
  rw [List.length_append, List.length_append, List.length_replicate, be16_length, be16_length]

theorem loopingMessage_attribute :
    word16At loopingMessage 20 = 0x8022 ∧ word16At loopingMessage 22 = 65512 := by
  have hattr : loopingMessage = (be16 1 ++ be16 65532 ++ magicCookie.toList ++
      bindingTransactionId.val) ++ (be16 0x8022 ++ (be16 65512 ++ List.replicate 65528 0)) := by
    simp only [loopingMessage, List.append_assoc]
  have hlength : loopingMessage = (be16 1 ++ be16 65532 ++ magicCookie.toList ++
      bindingTransactionId.val ++ be16 0x8022) ++ (be16 65512 ++ List.replicate 65528 0) := by
    simp only [loopingMessage, List.append_assoc]
  constructor
  · rw [hattr]
    exact word16At_window _ _ 0x8022 rfl
  · rw [hlength]
    exact word16At_window _ _ 65512 rfl

theorem loopingMessage_positions (n : Nat) :
    (nextPos loopingMessage)^[n] 20 = 20 ∨ (nextPos loopingMessage)^[n] 20 = 0 := by
  obtain ⟨_, hlength⟩ := loopingMessage_attribute
  obtain ⟨_, hmessage, _⟩ := loopingMessage_header
  induction n with
  | zero => exact Or.inl rfl
  | succ n ih =>
    rw [Function.iterate_succ_apply']
    rcases ih with h | h
    · rw [h, nextPos, hlength]
      exact Or.inr rfl
    · rw [h, nextPos, hmessage]
      exact Or.inr rfl

theorem loopingMessage_goes (n : Nat) :
    ¬ Final loopingMessage ((nextPos loopingMessage)^[n] 20) := by
  obtain ⟨htype, hlength⟩ := loopingMessage_attribute
  obtain ⟨hmessageType, hmessage, htotal⟩ := loopingMessage_header
  intro hfinal
  simp only [Final] at hfinal
  rw [htotal] at hfinal
  rcases loopingMessage_positions n with h | h <;> rw [h] at hfinal
  · rw [htype, hlength] at hfinal
    rcases hfinal with hover | ⟨attr, hcode, hbad⟩ | hcode | hcode
    · omega
    · cases attr <;> first | exact hbad trivial | exact absurd hcode (by decide)
    · exact absurd hcode (by decide)
    · exact absurd hcode (by decide)
  · rw [hmessageType, hmessage] at hfinal
    rcases hfinal with hover | ⟨attr, hcode, hbad⟩ | hcode | hcode
    · omega
    · cases attr <;> first | exact hbad trivial | exact absurd hcode (by decide)
    · exact absurd hcode (by decide)
    · exact absurd hcode (by decide)

theorem loopingMessage_runs : ¬ ∀ data, Terminates data := by
  intro h
  obtain ⟨_, hmessage, htotal⟩ := loopingMessage_header
  have hlong : LongHeader loopingMessage :=
    { long := by rw [htotal]; omega
      first := by decide
      cookie := rfl
      length_field := by rw [hmessage, htotal]
      length_aligned := by rw [hmessage] }
  obtain ⟨n, hfinal⟩ := (terminates_long hlong).mp (h loopingMessage)
  exact loopingMessage_goes n hfinal

end Stun

end Sars
