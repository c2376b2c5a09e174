import Sars.Checksum
import Sars.StunAuthentication

/-!
# The FINGERPRINT and short bursts

An accepted message with a FINGERPRINT is a body followed by eight bytes that
the body determines: type, length, and the checksum under its mask. A burst of
four bytes cannot reach both the body and the stored checksum, so it either
leaves the body alone, and then the message, or changes the checksum that the
untouched value is compared with.
-/

namespace Sars

open ByteMemory NetworkOrder TlvFraming ReflectedCrc

namespace Stun

/-- A message that ends with the FINGERPRINT of what is in front of it. -/
def fingerprinted (body : Bytes) : Bytes :=
  body ++ (be16 Attribute.fingerprint.code ++
    (be16 4 ++ be32 (Crypto.crc32 body ^^^ 0x5354554e)))

/-- The order condition leaves nothing behind a FINGERPRINT. -/
theorem Grammar.fingerprint_last {data : Bytes} {attrs : List (Record 4)} (hg : Grammar data attrs)
    (present : ∃ r ∈ attrs, r.type = Attribute.fingerprint.code) :
    ∃ body, data = fingerprinted body := by
  obtain ⟨p, hlast⟩ := Option.isSome_iff_exists.mp
    ((lastOf_isSome .fingerprint 20 attrs).mpr present)
  obtain ⟨hp, htype⟩ := lastOf_mem hlast
  obtain ⟨as, bs, hattrs, hpos⟩ := placed_split hp
  have hin : p.2 ∈ attrs := by simp [hattrs]
  have hnil : bs = [] := by
    have horder := hg.after_fingerprint
    rw [hattrs] at horder
    refine List.eq_nil_iff_forall_not_mem.mpr fun b hb => ?_
    exact (List.pairwise_cons.mp (List.pairwise_append.mp horder).2.1).1 b hb htype
  have hvalue := hg.checksum p hp htype
  have hlen : p.2.value.length = 4 := hg.lengths p.2 hin .fingerprint htype
  have hpad : p.2.pad = [] := by
    apply List.length_eq_zero_iff.mp
    rw [p.2.pad_length, hlen]
    rfl
  have hbytes : p.2.bytes = be16 Attribute.fingerprint.code ++ (be16 4 ++ p.2.value) := by
    rw [Record.bytes, htype, hlen, hpad, List.append_nil]
    rfl
  have hsplit : data = (data.take 20 ++ encode as) ++ p.2.bytes := by
    calc data = data.take 20 ++ data.drop 20 := (List.take_append_drop 20 data).symm
      _ = data.take 20 ++ encode (as ++ [p.2]) := by rw [hg.framed, hattrs, hnil]
      _ = (data.take 20 ++ encode as) ++ p.2.bytes := by simp
  have hbody : data.take p.1 = data.take 20 ++ encode as := by
    have hfront : (data.take 20 ++ encode as).length = p.1 := by
      have := hg.long
      rw [List.length_append, List.length_take, hpos]
      omega
    calc data.take p.1 = ((data.take 20 ++ encode as) ++ p.2.bytes).take p.1 := by rw [← hsplit]
      _ = data.take 20 ++ encode as := List.take_left' hfront
  refine ⟨data.take p.1, ?_⟩
  rw [fingerprinted, ← hvalue, ← hbytes, hbody]
  exact hsplit

theorem parse_fingerprinted {data : Bytes} {p : Stun} (hlen : data.length ≤ 65535)
    (accepted : parse data = .ok (.packet p)) (verified : p.hasFingerprint = true) :
    ∃ body, data = fingerprinted body := by
  obtain ⟨attrs, hg, hdec⟩ := parse_accepted hlen accepted
  exact hg.fingerprint_last (hdec.fingerprint.mp verified)

theorem fingerprinted_length (body : Bytes) : (fingerprinted body).length = body.length + 8 := by
  simp [fingerprinted]

/-- The body of a message with a FINGERPRINT and the checksum stored behind it. -/
theorem fingerprinted_parts (body : Bytes) :
    (fingerprinted body).take body.length = body ∧
      (fingerprinted body).drop (body.length + 4) =
        be32 (Crypto.crc32 body ^^^ 0x5354554e) := by
  constructor
  · exact List.take_left
  · rw [fingerprinted, ← List.append_assoc, ← List.append_assoc]
    exact List.drop_left' (by simp)

/-- Between messages that carry their own checksum there is no short burst. -/
theorem fingerprinted_burst {body body' : Bytes}
    (burst : Burst 4 (fingerprinted body) (fingerprinted body')) : body = body' := by
  have hlen : body.length = body'.length := by
    have := burst.len
    rw [fingerprinted_length, fingerprinted_length] at this
    omega
  obtain ⟨htake, hdrop⟩ := fingerprinted_parts body
  obtain ⟨htake', hdrop'⟩ := fingerprinted_parts body'
  rw [← hlen] at htake' hdrop'
  obtain ⟨i, window⟩ := burst.window
  rcases Nat.lt_or_ge i body.length with hinside | hbehind
  · -- the window ends in front of the stored checksum
    have hstored : (fingerprinted body).drop (body.length + 4) =
        (fingerprinted body').drop (body.length + 4) := by
      apply drop_agree
      intro j hj
      have := window j hj
      omega
    rw [hdrop, hdrop'] at hstored
    have hsum := (UInt32.xor_left_inj _).mp (be32_injective hstored)
    have hburst := burst.take body.length
    rw [htake, htake'] at hburst
    exact Crypto.crc32_burst hburst hsum
  · -- the window begins behind the body
    have hbody : (fingerprinted body).take body.length =
        (fingerprinted body').take body.length := by
      apply take_agree
      intro j hj
      exact hbehind.trans (window j hj).1
    rwa [htake, htake'] at hbody

/-- A message whose FINGERPRINT was verified is not taken for verified again after a burst of
four bytes. -/
theorem parse_burst {data data' : Bytes} {p : Stun} (hlen : data.length ≤ 65535)
    (accepted : parse data = .ok (.packet p)) (verified : p.hasFingerprint = true)
    (burst : Burst 4 data data') (differ : data ≠ data') :
    parse data' = .ok .nullptr ∨
      ∃ q, parse data' = .ok (.packet q) ∧ q.hasFingerprint = false := by
  have hlen' : data'.length ≤ 65535 := burst.len ▸ hlen
  by_cases inside : ∃ attrs, Grammar data' attrs
  · obtain ⟨attrs, hg⟩ := inside
    obtain ⟨q, hq, _⟩ := parse_grammar hg hlen'
    refine Or.inr ⟨q, hq, ?_⟩
    by_contra hverified
    obtain ⟨body, rfl⟩ := parse_fingerprinted hlen accepted verified
    obtain ⟨body', rfl⟩ := parse_fingerprinted hlen' hq (by simpa using hverified)
    exact differ (congrArg fingerprinted (fingerprinted_burst burst))
  · exact Or.inl (parse_outside hlen' fun attrs hg => inside ⟨attrs, hg⟩)

/-- The BINDING REQUEST with two bytes of its USERNAME changed. -/
def corruptedRequest : Bytes :=
  [0x00, 0x01, 0x00, 0x10, 0x21, 0x12, 0xA4, 0x42, 1, 2, 3, 4, 5, 6, 7, 8, 9, 10, 11, 12,
    0x00, 0x06, 0x00, 0x03, 0x62, 0x3A, 0x63, 0x00, 0x80, 0x28, 0x00, 0x04, 0xAA, 0x61, 0xB7, 0xBA]

theorem parse_burst_bindingRequest :
    parse corruptedRequest = .ok .nullptr ∨
      ∃ q, parse corruptedRequest = .ok (.packet q) ∧ q.hasFingerprint = false := by
  have hp : parse bindingRequest = .ok (.packet bindingPacket) := by decide +kernel
  refine parse_burst (by decide) hp rfl ⟨rfl, 24, ?_⟩ (by decide)
  intro j hj
  by_contra hout
  apply hj
  by_cases hfar : j < 36
  · have hall : ∀ k < 36, ¬ (24 ≤ k ∧ k < 24 + 4) → bindingRequest[k]? = corruptedRequest[k]? := by
      decide
    exact hall j hfar hout
  · rw [List.getElem?_eq_none (show bindingRequest.length ≤ j from Nat.le_of_not_lt hfar),
      List.getElem?_eq_none (show corruptedRequest.length ≤ j from Nat.le_of_not_lt hfar)]

end Stun

end Sars
