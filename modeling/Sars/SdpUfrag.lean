import Sars.RtcServer

/-!
# The ufrag in an SDP

The helper finds `ice-ufrag` anywhere in the text, skips one character and reads
to the end of the line. The word contains no line break, so the first line that
mentions it decides, whether or not it is the attribute. What the helper reads
there is compared with the attribute that was negotiated.
-/

namespace Sars

open ByteMemory GrowingMap

/-! ## Lines -/

/-- The lines of a text, each with its terminator. -/
def sdpText (lines : List Bytes) : Bytes := lines.flatMap (· ++ crlf)

def Unbroken (line : Bytes) : Prop := 0x0D ∉ line ∧ 0x0A ∉ line

instance (line : Bytes) : Decidable (Unbroken line) :=
  inferInstanceAs (Decidable (0x0D ∉ line ∧ 0x0A ∉ line))

/-- The bytes of `a=ice-ufrag:`. -/
def ufragAttribute : Bytes := [0x61, 0x3D] ++ iceUfrag ++ [0x3A]

theorem iceUfrag_unbroken : Unbroken iceUfrag := by decide

/-- The rest of the first line that is the attribute. -/
def negotiated (lines : List Bytes) : Option Bytes :=
  (lines.find? fun line => ufragAttribute.isPrefixOf line).map (·.drop ufragAttribute.length)

@[simp] theorem sdpText_cons (line : Bytes) (lines : List Bytes) :
    sdpText (line :: lines) = line ++ (crlf ++ sdpText lines) := by
  simp [sdpText]

theorem negotiated_cons_attribute {line : Bytes} (h : ufragAttribute <+: line)
    (lines : List Bytes) :
    negotiated (line :: lines) = some (line.drop ufragAttribute.length) := by
  rw [negotiated, List.find?_cons_of_pos (List.isPrefixOf_iff_prefix.mpr h)]
  rfl

theorem negotiated_cons_other {line : Bytes} (h : ¬ ufragAttribute <+: line)
    (lines : List Bytes) : negotiated (line :: lines) = negotiated lines := by
  rw [negotiated, List.find?_cons_of_neg (mt List.isPrefixOf_iff_prefix.mp h)]
  rfl

theorem negotiated_unbroken {lines : List Bytes} {v : Bytes}
    (hlines : ∀ line ∈ lines, Unbroken line) (h : negotiated lines = some v) : Unbroken v := by
  obtain ⟨line, hfind, rfl⟩ := Option.map_eq_some_iff.mp h
  obtain ⟨hcr, hlf⟩ := hlines line (List.mem_of_find?_eq_some hfind)
  exact ⟨fun hin => hcr (List.mem_of_mem_drop hin), fun hin => hlf (List.mem_of_mem_drop hin)⟩

/-! ## Searching line by line -/

theorem searchFrom_shift (pat s : Bytes) (i : Nat) :
    searchFrom pat s i = (searchFrom pat s 0).map (i + ·) := by
  induction s generalizing i with
  | nil =>
    simp only [searchFrom]
    split_ifs <;> simp
  | cons c s ih =>
    simp only [searchFrom]
    split_ifs
    · simp
    · rw [ih (i + 1), ih (0 + 1), Option.map_map]
      congr 1
      funext j
      simp only [Function.comp_apply]
      omega

/-- The text has the pattern where it is found. -/
theorem searchFrom_found {pat s : Bytes} {j : Nat} (h : searchFrom pat s 0 = some j) :
    s = s.take j ++ (pat ++ s.drop (j + pat.length)) ∧ j ≤ s.length := by
  induction s generalizing j with
  | nil =>
    simp only [searchFrom] at h
    split_ifs at h with hpat
    cases h
    rw [List.eq_nil_of_prefix_nil (List.isPrefixOf_iff_prefix.mp hpat)]
    exact ⟨rfl, Nat.le_refl _⟩
  | cons c s ih =>
    simp only [searchFrom] at h
    split_ifs at h with hpat
    · cases h
      obtain ⟨rest, hrest⟩ := List.isPrefixOf_iff_prefix.mp hpat
      rw [← hrest]
      exact ⟨by simp, Nat.zero_le _⟩
    · rw [searchFrom_shift] at h
      obtain ⟨i, hi, rfl⟩ := Option.map_eq_some_iff.mp h
      obtain ⟨hsplit, hle⟩ := ih hi
      refine ⟨?_, by rw [List.length_cons]; omega⟩
      have hone : 0 + 1 + i = i + 1 := by omega
      have hback : 0 + 1 + i + pat.length = i + pat.length + 1 := by omega
      rw [hback, hone, List.take_succ_cons, List.drop_succ_cons, List.cons_append, ← hsplit]

/-- A pattern without `d` is not found across the first `d`. -/
theorem prefix_append_cons {pat : Bytes} {d : UInt8} (hd : d ∉ pat) (s rest : Bytes) :
    pat <+: s ++ d :: rest ↔ pat <+: s := by
  constructor
  · intro h
    rcases Nat.lt_or_ge s.length pat.length with hlong | hshort
    · exfalso
      obtain ⟨tail, htail⟩ := h
      have hget : (pat ++ tail)[s.length]? = some d := by
        rw [htail]
        simp
      rw [List.getElem?_append_left hlong] at hget
      exact hd (List.mem_of_getElem? hget)
    · exact List.prefix_of_prefix_length_le h (List.prefix_append s _) hshort
  · exact fun h => h.trans (List.prefix_append s _)

theorem searchFrom_append {pat : Bytes} {d : UInt8} (hd : d ∉ pat) (s rest : Bytes) :
    searchFrom pat (s ++ d :: rest) 0 =
      (searchFrom pat s 0).or ((searchFrom pat (d :: rest) 0).map (s.length + ·)) := by
  induction s with
  | nil =>
    cases pat with
    | nil => rfl
    | cons p pat => simp [searchFrom.eq_1]
  | cons c s ih =>
    have hiff : pat.isPrefixOf (c :: (s ++ d :: rest)) = pat.isPrefixOf (c :: s) := by
      rw [Bool.eq_iff_iff, List.isPrefixOf_iff_prefix, List.isPrefixOf_iff_prefix]
      exact prefix_append_cons hd (c :: s) rest
    rw [List.cons_append, searchFrom, searchFrom, hiff]
    split_ifs
    · rfl
    · rw [searchFrom_shift, ih, searchFrom_shift pat s (0 + 1)]
      cases searchFrom pat s 0 with
      | some j => rfl
      | none =>
        simp only [Option.map_none, Option.none_or, Option.map_map]
        congr 1
        funext j
        simp only [Function.comp_apply, List.length_cons]
        omega

/-- The helper on its positions: the word, and the line break behind the character that
follows it. -/
theorem getUfrag_eq (sdp : Bytes) :
    getUfragFromSdp sdp = (searchFrom iceUfrag sdp 0).bind fun spos =>
      (searchFrom crlf (sdp.drop (spos + 10)) 0).map ((sdp.drop (spos + 10)).take ·) := by
  have hword : find sdp iceUfrag 0 = searchFrom iceUfrag sdp 0 := by
    simp [find]
  simp only [getUfragFromSdp]
  rw [hword]
  cases searchFrom iceUfrag sdp 0 with
  | none => rfl
  | some spos =>
    simp only [Option.bind_some, find]
    by_cases hle : spos + 10 ≤ sdp.length
    · rw [if_pos hle, searchFrom_shift]
      cases searchFrom crlf (sdp.drop (spos + 10)) 0 with
      | none => rfl
      | some n =>
        have hcount : spos + 10 + n - spos - 10 = n := by omega
        simp only [Option.map_some, hcount, substr]
    · rw [if_neg hle, List.drop_eq_nil_of_le (by omega)]
      rfl

/-- Neither call of `substr` nor the subtraction goes wrong. -/
theorem getUfrag_safe {sdp : Bytes} {spos epos : Nat}
    (h : find sdp crlf (spos + 10) = some epos) :
    spos + 10 ≤ epos ∧ epos ≤ sdp.length := by
  simp only [find] at h
  split_ifs at h with hle
  rw [searchFrom_shift] at h
  obtain ⟨n, hn, rfl⟩ := Option.map_eq_some_iff.mp h
  have hbound := (searchFrom_found hn).2
  rw [List.length_drop] at hbound
  omega

/-! ## One line -/

/-- A line without the word is passed over. -/
theorem getUfrag_skip {line : Bytes} (h : searchFrom iceUfrag line 0 = none) (text : Bytes) :
    getUfragFromSdp (line ++ (crlf ++ text)) = getUfragFromSdp text := by
  have hbreak : searchFrom iceUfrag (crlf ++ text) 0 =
      (searchFrom iceUfrag text 0).map (2 + ·) := searchFrom_shift iceUfrag text 2
  have hfind : searchFrom iceUfrag (line ++ (crlf ++ text)) 0 =
      (searchFrom iceUfrag text 0).map (line.length + 2 + ·) := by
    have happend := searchFrom_append iceUfrag_unbroken.1 line (0x0A :: text)
    rw [h, Option.none_or] at happend
    refine happend.trans ?_
    rw [show (0x0D :: 0x0A :: text : Bytes) = crlf ++ text from rfl, hbreak, Option.map_map]
    congr 1
    funext j
    simp only [Function.comp_apply]
    omega
  have hdrop : ∀ j, (line ++ (crlf ++ text)).drop (line.length + 2 + j + 10) =
      text.drop (j + 10) := by
    intro j
    rw [← List.append_assoc, show line.length + 2 + j + 10 = (line ++ crlf).length + (j + 10) by
      rw [List.length_append, show crlf.length = 2 from rfl]
      omega]
    exact List.drop_length_add_append _
  rw [getUfrag_eq, getUfrag_eq, hfind]
  cases searchFrom iceUfrag text 0 with
  | none => rfl
  | some j => simp only [Option.map_some, Option.bind_some, hdrop]

/-- What follows the first mention of the word in a line. -/
def behind (line : Bytes) (spos : Nat) : Bytes := line.drop (spos + iceUfrag.length)

/-- The line that mentions the word decides. -/
theorem getUfrag_line {line : Bytes} {spos : Nat} (h : searchFrom iceUfrag line 0 = some spos)
    (text : Bytes) :
    getUfragFromSdp (line ++ (crlf ++ text)) =
      (searchFrom crlf ((behind line spos ++ (crlf ++ text)).drop 1) 0).map
        (((behind line spos ++ (crlf ++ text)).drop 1).take ·) := by
  have hfind : searchFrom iceUfrag (line ++ (crlf ++ text)) 0 = some spos := by
    have happend := searchFrom_append iceUfrag_unbroken.1 line (0x0A :: text)
    rw [h, Option.some_or] at happend
    exact happend
  have hsplit := (searchFrom_found h).1
  have hlen : spos + iceUfrag.length ≤ line.length := by
    have hbound := (searchFrom_found h).2
    have hlength := congrArg List.length hsplit
    simp only [List.length_append, List.length_take, List.length_drop] at hlength
    have hword : iceUfrag.length = 9 := rfl
    omega
  have hdrop : (line ++ (crlf ++ text)).drop (spos + 10) =
      (behind line spos ++ (crlf ++ text)).drop 1 := by
    rw [behind, ← List.drop_append_of_le_length hlen, List.drop_drop]
    rfl
  rw [getUfrag_eq, hfind, Option.bind_some, hdrop]

/-- The end of a line is where it is looked for. -/
theorem searchFrom_crlf {v : Bytes} (h : 0x0D ∉ v) (text : Bytes) :
    searchFrom crlf (v ++ (crlf ++ text)) 0 = some v.length := by
  induction v with
  | nil => rfl
  | cons c v ih =>
    obtain ⟨hc, hv⟩ := not_or.mp (mt List.mem_cons.mpr h)
    have hne : ¬ crlf <+: c :: (v ++ (crlf ++ text)) := by
      intro hstart
      exact hc (List.cons_prefix_cons.mp hstart).1
    rw [List.cons_append, searchFrom, if_neg (mt List.isPrefixOf_iff_prefix.mp hne),
      searchFrom_shift, ih hv, Option.map_some, List.length_cons]
    congr 1
    omega

theorem getUfrag_rest {v : Bytes} (h : 0x0D ∉ v) (text : Bytes) :
    (searchFrom crlf (v ++ (crlf ++ text)) 0).map ((v ++ (crlf ++ text)).take ·) = some v := by
  rw [searchFrom_crlf h, Option.map_some, List.take_left]

/-! ## When the attribute is read -/

/-- The first line with the word is the attribute; or it is the last line and ends with the
word; or what follows the word there happens to be what was negotiated. -/
def UfragRead : List Bytes → Prop
  | [] => True
  | line :: lines =>
    match searchFrom iceUfrag line 0 with
    | none => UfragRead lines
    | some spos =>
      ufragAttribute <+: line ∨
        match behind line spos with
        | [] => lines = []
        | _ :: v => negotiated lines = some v

theorem attribute_line (v : Bytes) :
    searchFrom iceUfrag (ufragAttribute ++ v) 0 = some 2 ∧
      behind (ufragAttribute ++ v) 2 = 0x3A :: v := by
  constructor
  · have hword : iceUfrag.isPrefixOf (iceUfrag ++ 0x3A :: v) = true :=
      List.isPrefixOf_iff_prefix.mpr (List.prefix_append _ _)
    have hskip : searchFrom iceUfrag (ufragAttribute ++ v) 0 =
        searchFrom iceUfrag (iceUfrag ++ 0x3A :: v) 2 := rfl
    rw [hskip]
    exact if_pos hword
  · rfl

theorem ufragRead_iff {lines : List Bytes} (hlines : ∀ line ∈ lines, Unbroken line) :
    getUfragFromSdp (sdpText lines) = negotiated lines ↔ UfragRead lines := by
  induction lines with
  | nil => exact iff_of_true rfl trivial
  | cons line lines ih =>
    obtain ⟨hline, hrest⟩ := List.forall_mem_cons.mp hlines
    rw [sdpText_cons]
    cases hword : searchFrom iceUfrag line 0 with
    | none =>
      have hnot : ¬ ufragAttribute <+: line := by
        rintro ⟨v, rfl⟩
        rw [(attribute_line v).1] at hword
        cases hword
      rw [getUfrag_skip hword, negotiated_cons_other hnot, ih hrest]
      simp only [UfragRead, hword]
    | some spos =>
      rw [getUfrag_line hword]
      simp only [UfragRead, hword]
      by_cases hattribute : ufragAttribute <+: line
      · rw [negotiated_cons_attribute hattribute]
        obtain ⟨v, rfl⟩ := hattribute
        obtain ⟨hfound, hbehind⟩ := attribute_line v
        rw [hfound] at hword
        cases hword
        have hv : 0x0D ∉ v := fun hin => hline.1 (List.mem_append_right _ hin)
        rw [hbehind, List.cons_append, List.drop_one, List.tail_cons, getUfrag_rest hv,
          List.drop_left]
        simp
      · rw [negotiated_cons_other hattribute]
        simp only [hattribute, false_or]
        have hin : ∀ c ∈ behind line spos, c ∈ line := fun c hc => List.mem_of_mem_drop hc
        cases hbehind : behind line spos with
        | nil =>
          cases lines with
          | nil => exact iff_of_true rfl rfl
          | cons next lines =>
            -- the read starts inside the line break and returns its second half
            have hnext : 0x0D ∉ (0x0A :: next : Bytes) := by
              simp [(hrest next List.mem_cons_self).1]
            have hcode := getUfrag_rest hnext (sdpText lines)
            rw [sdpText_cons]
            refine iff_of_false (fun hsame => ?_) (by simp)
            have hvalue := negotiated_unbroken hrest (hsame.symm.trans hcode)
            exact hvalue.2 List.mem_cons_self
        | cons c v =>
          have hv : 0x0D ∉ v := fun hcr =>
            hline.1 (hin _ (by rw [hbehind]; exact List.mem_cons_of_mem _ hcr))
          rw [List.cons_append, List.drop_one, List.tail_cons, getUfrag_rest hv]
          exact eq_comm

/-- The key of a peer, from what the two endpoints negotiated. -/
def negotiatedKey (offer answer : List Bytes) : Option Bytes :=
  (negotiated offer).bind fun ufrag => (negotiated answer).map fun lufrag => lufrag ++ 58 :: ufrag

theorem createRtcPeer_key {offer answer : List Bytes} (hoffer : UfragRead offer)
    (hanswer : UfragRead answer) (hofferLines : ∀ line ∈ offer, Unbroken line)
    (hanswerLines : ∀ line ∈ answer, Unbroken line) (srv : RTCServer) (peer : Nat)
    (engine : Engine) (hasLocal : Bool) (connects : engine.connects = true)
    (hengine : engine.answer = sdpText answer) :
    (srv.createRtcPeer peer (sdpText offer) engine hasLocal).1.sarsPeersUfragMaps =
      (negotiatedKey offer answer).elim srv.sarsPeersUfragMaps
        (emplace srv.sarsPeersUfragMaps · peer) := by
  have hread := (ufragRead_iff hofferLines).mpr hoffer
  have hread' := (ufragRead_iff hanswerLines).mpr hanswer
  simp only [RTCServer.createRtcPeer, negotiatedKey]
  rw [hengine, hread, hread']
  cases negotiated offer with
  | none => cases hasLocal <;> simp [connects, RTCServer.updatePeer]
  | some ufrag =>
    cases negotiated answer with
    | none => cases hasLocal <;> simp [connects, RTCServer.updatePeer]
    | some lufrag => cases hasLocal <;> simp [connects, RTCServer.updatePeer]

/-- The helper returns the negotiated ufrag exactly under this condition, never leaves the text,
and then the key of a new peer is made of the two ufrags. -/
theorem getUfragFromSdp_negotiated (lines : List Bytes) (hlines : ∀ line ∈ lines, Unbroken line) :
    (getUfragFromSdp (sdpText lines) = negotiated lines ↔ UfragRead lines) ∧
    (∀ spos epos, find (sdpText lines) crlf (spos + 10) = some epos →
      spos + 10 ≤ epos ∧ epos ≤ (sdpText lines).length) ∧
    (UfragRead lines → ∀ answer, (∀ line ∈ answer, Unbroken line) → UfragRead answer →
      ∀ (srv : RTCServer) (peer : Nat) (engine : Engine) (hasLocal : Bool),
      engine.connects = true → engine.answer = sdpText answer →
      (srv.createRtcPeer peer (sdpText lines) engine hasLocal).1.sarsPeersUfragMaps =
        (negotiatedKey lines answer).elim srv.sarsPeersUfragMaps
          (emplace srv.sarsPeersUfragMaps · peer)) := by
  refine ⟨ufragRead_iff hlines, fun spos epos h => getUfrag_safe h, ?_⟩
  intro hread answer hanswerLines hanswer srv peer engine hasLocal connects hengine
  exact createRtcPeer_key hread hanswer hlines hanswerLines srv peer engine hasLocal connects
    hengine

/-- An SDP with one attribute, "a=ice-ufrag:b". -/
theorem getUfragFromSdp_negotiated_single :
    getUfragFromSdp (sdpText [ufragAttribute ++ [0x62]]) = some [0x62] :=
  (getUfragFromSdp_negotiated [ufragAttribute ++ [0x62]] (by decide)).1.mpr
    (Or.inl ⟨[0x62], rfl⟩)

/-- A session name that mentions the word, "s=ice-ufrag x", hides the attribute behind it. -/
theorem session_name_read :
    ¬ ∀ lines : List Bytes, (∀ line ∈ lines, Unbroken line) →
      getUfragFromSdp (sdpText lines) = negotiated lines := by
  intro h
  have hvalue := h [[0x73, 0x3D] ++ iceUfrag ++ [0x20, 0x78], ufragAttribute ++ [0x62]]
    (by decide)
  exact absurd hvalue (by decide)

end Sars
