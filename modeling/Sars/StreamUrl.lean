import Mathlib.Data.List.DropRight
import Mathlib.Data.List.TakeDrop
import Mathlib.Data.List.TakeWhile
import Mathlib.Data.UInt
import Sars.SignallingText

/-!
# The stream id in a stream url

The helper looks for the first question mark and for the last slash not behind
it. One position is past the end and the other inclusive, both are 64-bit words,
and the length between them is narrowed to 32 bits and back. What the helper
returns is worked out once for a url and the last slash it finds; when the result is the
last segment of the path is read off that.
-/

namespace Sars

open ByteMemory

/-- The text in front of the first question mark. -/
def path (streamUrl : Bytes) : Bytes := streamUrl.takeWhile (· ≠ 0x3F)

/-- A slash is followed by a stream id. A url that begins with a question mark is searched
as if it had none. -/
def Named (streamUrl : Bytes) : Prop :=
  if path streamUrl = [] ∨ path streamUrl = streamUrl then
    0x2F ∈ streamUrl ∧ streamUrl.getLast? ≠ some 0x2F
  else 0x2F ∈ path streamUrl

instance (streamUrl : Bytes) : Decidable (Named streamUrl) := by
  unfold Named
  infer_instance

/-- What follows the last slash. -/
def segment (base : Bytes) : Bytes := base.rtakeWhile (· ≠ 0x2F)

/-- The stream id as it is meant: the last segment, if there is one. -/
def lastSegment (base : Bytes) : Option Bytes :=
  if 0x2F ∈ base ∧ segment base ≠ [] then some (segment base) else none

/-! ## The last segment -/

theorem exists_segment {base : Bytes} (h : 0x2F ∈ base) :
    ∃ front seg, base = front ++ 0x2F :: seg ∧ 0x2F ∉ seg := by
  induction base with
  | nil => cases h
  | cons c base ih =>
    by_cases hlater : 0x2F ∈ base
    · obtain ⟨front, seg, rfl, hseg⟩ := ih hlater
      exact ⟨c :: front, seg, rfl, hseg⟩
    · rcases List.mem_cons.mp h with rfl | hin
      · exact ⟨[], base, rfl, hlater⟩
      · exact absurd hin hlater

theorem split_length (front seg : Bytes) :
    (front ++ 0x2F :: seg).length = front.length + 1 + seg.length := by
  rw [List.length_append, List.length_cons]
  omega

theorem split_drop (front seg : Bytes) :
    (front ++ 0x2F :: seg).drop (front.length + 1) = seg :=
  List.drop_length_add_append 1

theorem segment_split {front seg : Bytes} (hseg : 0x2F ∉ seg) :
    segment (front ++ 0x2F :: seg) = seg := by
  have hrev : (front ++ 0x2F :: seg).reverse = seg.reverse ++ 0x2F :: front.reverse := by simp
  have hall : ∀ c ∈ seg.reverse, decide (c ≠ 0x2F) = true := by
    intro c hc
    have hne : c ≠ 0x2F := fun heq => hseg (heq ▸ List.mem_reverse.mp hc)
    exact decide_eq_true hne
  rw [segment, List.rtakeWhile, hrev, List.takeWhile_append_of_pos hall,
    List.takeWhile_cons_of_neg (by simp), List.append_nil, List.reverse_reverse]

theorem lastSegment_split {front seg : Bytes} (hseg : 0x2F ∉ seg) :
    lastSegment (front ++ 0x2F :: seg) = if seg = [] then none else some seg := by
  rw [lastSegment, segment_split hseg]
  by_cases hempty : seg = []
  · simp [hempty]
  · simp [hempty]

theorem lastSegment_none {base : Bytes} (h : 0x2F ∉ base) : lastSegment base = none :=
  if_neg fun hand => h hand.1

/-- A stream id is not empty and holds no separator. -/
theorem lastSegment_clean {streamUrl id : Bytes} (h : lastSegment (path streamUrl) = some id) :
    id ≠ [] ∧ 0x2F ∉ id ∧ 0x3F ∉ id := by
  by_cases hslash : 0x2F ∈ path streamUrl
  · obtain ⟨front, seg, hpath, hseg⟩ := exists_segment hslash
    rw [hpath, lastSegment_split hseg] at h
    split_ifs at h with hempty
    cases h
    refine ⟨hempty, hseg, fun hquestion => ?_⟩
    have hin : 0x3F ∈ path streamUrl := by
      rw [hpath]
      exact List.mem_append_right _ (List.mem_cons_of_mem _ hquestion)
    have hne := List.mem_takeWhile_imp hin
    simp at hne
  · rw [lastSegment_none hslash] at h
    cases h

/-! ## The searches -/

theorem searchFrom_singleton (c : UInt8) (s : Bytes) (i : Nat) :
    searchFrom [c] s i =
      if c ∈ s then some (i + (s.takeWhile (· ≠ c)).length) else none := by
  induction s generalizing i with
  | nil => rfl
  | cons d s ih =>
    by_cases hd : d = c
    · subst hd
      simp [searchFrom]
    · have hd' : ¬ c = d := fun h => hd h.symm
      simp only [searchFrom, List.isPrefixOf, ih, beq_eq_false_iff_ne.mpr hd', Bool.false_and,
        Bool.false_eq_true, if_false, List.mem_cons, hd', false_or]
      rw [List.takeWhile_cons_of_pos (by simpa using hd), List.length_cons]
      split_ifs
      · congr 1
        omega
      · rfl

theorem find_question (streamUrl : Bytes) :
    find streamUrl [0x3F] 0 =
      if path streamUrl = streamUrl then none else some (path streamUrl).length := by
  have hiff : (0x3F : UInt8) ∈ streamUrl ↔ path streamUrl ≠ streamUrl := by
    rw [path, Ne, List.takeWhile_eq_self_iff]
    simp
  simp only [find, Nat.zero_le, if_true, List.drop_zero, searchFrom_singleton, Nat.zero_add]
  by_cases hq : (0x3F : UInt8) ∈ streamUrl
  · rw [if_pos hq, if_neg (hiff.mp hq)]
    rfl
  · rw [if_neg hq, if_pos (not_not.mp (mt hiff.mpr hq))]

theorem findLastOf_none {s : Bytes} {c : UInt8} {pos : Nat} (h : c ∉ s.take (pos + 1)) :
    findLastOf s c pos = none := by
  rw [findLastOf, List.getLast?_eq_none_iff, List.filter_eq_nil_iff]
  intro j _ hfound
  obtain ⟨hle, hget⟩ : j ≤ pos ∧ s[j]? = some c := by simpa using hfound
  apply h
  apply List.mem_of_getElem? (i := j)
  rw [List.getElem?_take_of_lt (by omega), hget]

/-- The last occurrence in what is searched is the one found. -/
theorem findLastOf_split {s front seg : Bytes} {c : UInt8} {pos : Nat}
    (hsplit : s.take (pos + 1) = front ++ c :: seg) (hseg : c ∉ seg) :
    findLastOf s c pos = some front.length := by
  have hget : ∀ j, j ≤ pos → s[j]? = (front ++ c :: seg)[j]? := by
    intro j hj
    rw [← hsplit, List.getElem?_take_of_lt (by omega)]
  have hlen : front.length < (s.take (pos + 1)).length := by
    rw [hsplit]
    simp
  rw [List.length_take] at hlen
  have hlast : ∀ j, front.length < j → j ≤ pos → s[j]? ≠ some c := by
    intro j hj hle hc
    rw [hget j hle, List.getElem?_append_right (by omega)] at hc
    obtain ⟨i, hi⟩ : ∃ i, j - front.length = i + 1 := ⟨j - front.length - 1, by omega⟩
    rw [hi, List.getElem?_cons_succ] at hc
    exact hseg (List.mem_of_getElem? hc)
  have hrange : List.range s.length =
      List.range (front.length + 1) ++
        (List.range (s.length - (front.length + 1))).map (front.length + 1 + ·) := by
    rw [← List.range_add]
    congr 1
    omega
  have hbehind : ((List.range (s.length - (front.length + 1))).map
      (front.length + 1 + ·)).filter (fun i => decide (i ≤ pos) && s[i]? == some c) = [] := by
    rw [List.filter_eq_nil_iff]
    intro j hj hfound
    obtain ⟨i, -, rfl⟩ := List.mem_map.mp hj
    obtain ⟨hle, hc⟩ : front.length + 1 + i ≤ pos ∧ s[front.length + 1 + i]? = some c := by
      simpa using hfound
    exact hlast _ (by omega) hle hc
  have hhere : s[front.length]? = some c := by
    rw [hget _ (by omega)]
    simp
  have hle : front.length ≤ pos := by omega
  rw [findLastOf, hrange, List.filter_append, hbehind, List.append_nil, List.range_succ,
    List.filter_append, List.filter_cons_of_pos (by simp [hhere, hle]), List.filter_nil]
  exact List.getLast?_concat

/-! ## The helper -/

/-- `findpos_endpos`. -/
def slashLimit (streamUrl : Bytes) : UInt64 :=
  (find streamUrl [0x3F] 0).elim (UInt64.ofNat streamUrl.length) (UInt64.ofNat · - 1)

/-- A difference of positions as the count that reaches `substr`. -/
def narrowed (count : UInt64) : Nat := count.toUInt32.toInt32.toInt64.toUInt64.toNat

/-- Where the last slash is looked for. -/
def searched (streamUrl : Bytes) : Bytes :=
  if path streamUrl = [] then streamUrl else path streamUrl

theorem narrowed_eq (count : UInt64) :
    narrowed count = count.toNat % 2 ^ 32 +
      if 2 ^ 31 ≤ count.toNat % 2 ^ 32 then 2 ^ 64 - 2 ^ 32 else 0 := by
  have hbits : narrowed count =
      ((count.toUInt32.toBitVec).signExtend 64).toNat := rfl
  have hmsb : count.toUInt32.toBitVec.msb = decide (2 ^ 31 ≤ count.toNat % 2 ^ 32) := by
    rw [BitVec.msb_eq_decide]
    rfl
  rw [hbits, BitVec.toNat_signExtend, hmsb, BitVec.toNat_setWidth]
  have hlow : count.toUInt32.toBitVec.toNat = count.toNat % 2 ^ 32 := rfl
  rw [hlow, Nat.mod_eq_of_lt (show count.toNat % 2 ^ 32 < 2 ^ 64 by omega)]
  simp

theorem path_take (streamUrl : Bytes) :
    streamUrl.take (path streamUrl).length = path streamUrl :=
  (List.prefix_iff_eq_take.mp (List.takeWhile_prefix _)).symm

theorem path_length_lt {streamUrl : Bytes} (query : path streamUrl ≠ streamUrl) :
    (path streamUrl).length < streamUrl.length := by
  have htake := path_take streamUrl
  by_contra hle
  rw [List.take_of_length_le (by omega)] at htake
  exact query htake.symm

theorem slashLimit_whole {streamUrl : Bytes} (whole : path streamUrl = streamUrl)
    (fits : streamUrl.length < 2 ^ 64) :
    (slashLimit streamUrl).toNat = streamUrl.length := by
  rw [slashLimit, find_question, if_pos whole, Option.elim_none, UInt64.toNat_ofNat',
    Nat.mod_eq_of_lt fits]

/-- Subtracting one from position zero wraps. -/
theorem slashLimit_first {streamUrl : Bytes} (query : path streamUrl ≠ streamUrl)
    (first : path streamUrl = []) : (slashLimit streamUrl).toNat = 2 ^ 64 - 1 := by
  rw [slashLimit, find_question, if_neg query, first]
  rfl

theorem slashLimit_query {streamUrl : Bytes} (query : path streamUrl ≠ streamUrl)
    (named : path streamUrl ≠ []) (fits : streamUrl.length < 2 ^ 64) :
    (slashLimit streamUrl).toNat + 1 = (path streamUrl).length := by
  have hpos : 0 < (path streamUrl).length := List.length_pos_iff.mpr named
  have hlt := path_length_lt query
  rw [slashLimit, find_question, if_neg query, Option.elim_some, UInt64.toNat_sub_of_le]
  · simp only [UInt64.toNat_ofNat', UInt64.toNat_one]
    omega
  · rw [UInt64.le_iff_toNat_le, UInt64.toNat_ofNat', UInt64.toNat_one]
    omega

theorem searched_all {streamUrl : Bytes} (all : path streamUrl = [] ∨ path streamUrl = streamUrl) :
    searched streamUrl = streamUrl := by
  rcases all with first | whole
  · exact if_pos first
  · rw [searched, whole]
    split_ifs <;> rfl

theorem searched_query {streamUrl : Bytes} (named : path streamUrl ≠ []) :
    searched streamUrl = path streamUrl := if_neg named

theorem searched_take {streamUrl : Bytes} (fits : streamUrl.length < 2 ^ 64) :
    streamUrl.take ((slashLimit streamUrl).toNat + 1) = searched streamUrl := by
  by_cases query : path streamUrl = streamUrl
  · rw [slashLimit_whole query fits, List.take_of_length_le (by omega),
      searched_all (Or.inr query)]
  · by_cases first : path streamUrl = []
    · rw [slashLimit_first query first, List.take_of_length_le (by omega),
        searched_all (Or.inl first)]
    · rw [slashLimit_query query first fits, path_take, searched_query first]

theorem getStreamId_noSlash {streamUrl : Bytes} (fits : streamUrl.length < 2 ^ 64)
    (h : 0x2F ∉ searched streamUrl) : getStreamIdFromStreamUrl streamUrl = none := by
  rw [← searched_take fits] at h
  have hfind := findLastOf_none h
  simp only [slashLimit] at hfind
  simp only [getStreamIdFromStreamUrl]
  cases hquestion : find streamUrl [0x3F] 0 with
  | none =>
    rw [hquestion, Option.elim_none] at hfind
    simp only [hfind]
  | some i =>
    rw [hquestion, Option.elim_some] at hfind
    simp only [hfind]

theorem getStreamId_slash {streamUrl front seg : Bytes} (fits : streamUrl.length < 2 ^ 64)
    (hsplit : searched streamUrl = front ++ 0x2F :: seg) (hseg : 0x2F ∉ seg) :
    getStreamIdFromStreamUrl streamUrl =
      if front.length + 1 ≥ streamUrl.length then none
      else some ((streamUrl.drop (front.length + 1)).take
        (narrowed (slashLimit streamUrl - UInt64.ofNat (front.length + 1) + 1))) := by
  rw [← searched_take fits] at hsplit
  have hfind := findLastOf_split hsplit hseg
  simp only [slashLimit] at hfind ⊢
  simp only [getStreamIdFromStreamUrl]
  cases hquestion : find streamUrl [0x3F] 0 with
  | none =>
    rw [hquestion, Option.elim_none] at hfind
    simp only [hfind]
    rfl
  | some i =>
    rw [hquestion, Option.elim_some] at hfind
    simp only [hfind]
    rfl

/-- Only what follows the last slash of a text without a query can be missing. -/
theorem segment_end {streamUrl front seg : Bytes} (hseg : 0x2F ∉ seg)
    (hsplit : streamUrl = front ++ 0x2F :: seg) :
    (front.length + 1 ≥ streamUrl.length ↔ seg = []) ∧
      (streamUrl.getLast? = some 0x2F ↔ seg = []) ∧ streamUrl.drop (front.length + 1) = seg := by
  subst hsplit
  have hlen := split_length front seg
  refine ⟨?_, ?_, split_drop front seg⟩
  · rw [← List.length_eq_zero_iff]
    omega
  · cases hlast : seg.getLast? with
    | none =>
      have hempty := List.getLast?_eq_none_iff.mp hlast
      simp [hempty]
    | some c =>
      have hc : c ≠ 0x2F := fun heq => hseg (heq ▸ List.mem_of_getLast? hlast)
      have hne : seg ≠ [] := by
        rintro rfl
        cases hlast
      have hwhole : (front ++ 0x2F :: seg).getLast? = some c := by
        rw [List.getLast?_append, List.getLast?_cons, hlast]
        rfl
      simp [hwhole, hc, hne]

theorem named_all {streamUrl : Bytes} (all : path streamUrl = [] ∨ path streamUrl = streamUrl) :
    Named streamUrl ↔ 0x2F ∈ streamUrl ∧ streamUrl.getLast? ≠ some 0x2F := by
  rw [Named, if_pos all]

theorem named_query {streamUrl : Bytes}
    (query : ¬ (path streamUrl = [] ∨ path streamUrl = streamUrl)) :
    Named streamUrl ↔ 0x2F ∈ path streamUrl := by
  rw [Named, if_neg query]

theorem getStreamIdFromStreamUrl_eq_none {streamUrl : Bytes} (fits : streamUrl.length < 2 ^ 64) :
    getStreamIdFromStreamUrl streamUrl = none ↔ ¬ Named streamUrl := by
  by_cases hall : path streamUrl = [] ∨ path streamUrl = streamUrl
  · have hsearched := searched_all hall
    rw [named_all hall]
    by_cases hslash : 0x2F ∈ streamUrl
    · obtain ⟨front, seg, hsplit, hseg⟩ := exists_segment hslash
      obtain ⟨hend, hlast, -⟩ := segment_end hseg hsplit
      rw [getStreamId_slash fits (hsearched.trans hsplit) hseg]
      by_cases hempty : seg = []
      · simp [hend.mpr hempty, hlast.mpr hempty]
      · simp [mt hend.mp hempty, mt hlast.mp hempty, hslash]
    · rw [getStreamId_noSlash fits (by rwa [hsearched])]
      simp [hslash]
  · obtain ⟨hfirst, hquery⟩ := not_or.mp hall
    have hsearched := searched_query hfirst
    rw [named_query hall]
    by_cases hslash : 0x2F ∈ path streamUrl
    · obtain ⟨front, seg, hsplit, hseg⟩ := exists_segment hslash
      have hlt := path_length_lt hquery
      have hinside : ¬ front.length + 1 ≥ streamUrl.length := by
        rw [hsplit, split_length] at hlt
        omega
      rw [getStreamId_slash fits (hsearched.trans hsplit) hseg]
      simp [if_neg hinside, hslash]
    · rw [getStreamId_noSlash fits (by rwa [hsearched])]
      simp [hslash]

/-! ## When the last segment is read -/

/-- Without a question mark the count is one too large, which is harmless unless it is cut
short. With one in front there must be no slash, or one at the end. Behind a path the count
is exact: the segment must not be empty and its length must survive the narrowing. -/
def SegmentRead (streamUrl : Bytes) : Prop :=
  if path streamUrl = streamUrl then
    0x2F ∉ streamUrl ∨ (segment streamUrl).length + 1 < 2 ^ 32 ∨
      2 ^ 31 ≤ ((segment streamUrl).length + 1) % 2 ^ 32
  else if path streamUrl = [] then 0x2F ∉ streamUrl ∨ streamUrl.getLast? = some 0x2F
  else 0x2F ∉ path streamUrl ∨
    (0 < (segment (path streamUrl)).length ∧ ((segment (path streamUrl)).length < 2 ^ 31 ∨
      2 ^ 64 - 2 ^ 31 ≤ (segment (path streamUrl)).length))

instance (streamUrl : Bytes) : Decidable (SegmentRead streamUrl) := by
  unfold SegmentRead
  infer_instance

theorem whole_iff {streamUrl : Bytes} (fits : streamUrl.length < 2 ^ 64)
    (whole : path streamUrl = streamUrl) :
    getStreamIdFromStreamUrl streamUrl = lastSegment streamUrl ↔
      0x2F ∉ streamUrl ∨ (segment streamUrl).length + 1 < 2 ^ 32 ∨
        2 ^ 31 ≤ ((segment streamUrl).length + 1) % 2 ^ 32 := by
  have hsearched := searched_all (Or.inr whole)
  by_cases hslash : 0x2F ∈ streamUrl
  · obtain ⟨front, seg, hsplit, hseg⟩ := exists_segment hslash
    obtain ⟨hend, -, hdrop⟩ := segment_end hseg hsplit
    have hsegment : segment streamUrl = seg := by rw [hsplit, segment_split hseg]
    have hlen : streamUrl.length = front.length + 1 + seg.length := by
      rw [hsplit, split_length]
    have hcount : (slashLimit streamUrl - UInt64.ofNat (front.length + 1) + 1).toNat =
        seg.length + 1 := by
      rw [UInt64.toNat_add, UInt64.toNat_sub, slashLimit_whole whole fits, UInt64.toNat_ofNat',
        UInt64.toNat_one]
      omega
    rw [getStreamId_slash fits (hsearched.trans hsplit) hseg, hdrop, hsegment,
      narrowed_eq, hcount]
    conv_lhs => rhs; rw [hsplit, lastSegment_split hseg]
    by_cases hempty : seg = []
    · simp [hend.mpr hempty, hempty]
    · rw [if_neg (mt hend.mp hempty), if_neg hempty, Option.some.injEq, List.take_eq_self_iff]
      simp only [hslash, not_true_eq_false, false_or]
      split_ifs <;> omega
  · rw [getStreamId_noSlash fits (by rwa [hsearched]), lastSegment_none hslash]
    simp [hslash]

theorem first_iff {streamUrl : Bytes} (fits : streamUrl.length < 2 ^ 64)
    (first : path streamUrl = []) :
    getStreamIdFromStreamUrl streamUrl = lastSegment [] ↔
      0x2F ∉ streamUrl ∨ streamUrl.getLast? = some 0x2F := by
  rw [lastSegment_none List.not_mem_nil, getStreamIdFromStreamUrl_eq_none fits, Named,
    if_pos (Or.inl first), not_and_or, not_not]

theorem query_iff {streamUrl : Bytes} (fits : streamUrl.length < 2 ^ 64)
    (query : path streamUrl ≠ streamUrl) (named : path streamUrl ≠ []) :
    getStreamIdFromStreamUrl streamUrl = lastSegment (path streamUrl) ↔
      0x2F ∉ path streamUrl ∨
        (0 < (segment (path streamUrl)).length ∧ ((segment (path streamUrl)).length < 2 ^ 31 ∨
          2 ^ 64 - 2 ^ 31 ≤ (segment (path streamUrl)).length)) := by
  have hsearched := searched_query named
  by_cases hslash : 0x2F ∈ path streamUrl
  · obtain ⟨front, seg, hsplit, hseg⟩ := exists_segment hslash
    have hlt := path_length_lt query
    have hlimit := slashLimit_query query named fits
    have hsegment : segment (path streamUrl) = seg := by rw [hsplit, segment_split hseg]
    have hlen : (path streamUrl).length = front.length + 1 + seg.length := by
      rw [hsplit, split_length]
    have hinside : ¬ front.length + 1 ≥ streamUrl.length := by omega
    have hcount : (slashLimit streamUrl - UInt64.ofNat (front.length + 1) + 1).toNat =
        seg.length := by
      rw [UInt64.toNat_add, UInt64.toNat_sub, UInt64.toNat_ofNat', UInt64.toNat_one]
      omega
    -- behind the segment the query follows, so a count that is too large is wrong as well
    have htake : ∀ n, (streamUrl.drop (front.length + 1)).take n = seg ↔ n = seg.length := by
      intro n
      have hfull : (streamUrl.drop (front.length + 1)).take seg.length = seg := by
        have hpath := path_take streamUrl
        rw [hlen] at hpath
        rw [List.take_drop, hpath, hsplit, split_drop]
      constructor
      · intro hn
        have hlength := congrArg List.length hn
        rw [List.length_take, List.length_drop] at hlength
        omega
      · rintro rfl
        exact hfull
    rw [getStreamId_slash fits (hsearched.trans hsplit) hseg, if_neg hinside, hsegment,
      narrowed_eq, hcount]
    conv_lhs => rhs; rw [hsplit, lastSegment_split hseg]
    by_cases hempty : seg = []
    · simp [hempty, hslash]
    · have hpos := List.length_pos_iff.mpr hempty
      rw [if_neg hempty, Option.some.injEq, htake]
      simp only [hslash, not_true_eq_false, false_or]
      split_ifs <;> omega
  · rw [getStreamId_noSlash fits (by rwa [hsearched]), lastSegment_none hslash]
    simp [hslash]

theorem segmentRead_iff {streamUrl : Bytes} (fits : streamUrl.length < 2 ^ 64) :
    getStreamIdFromStreamUrl streamUrl = lastSegment (path streamUrl) ↔ SegmentRead streamUrl := by
  simp only [SegmentRead]
  split_ifs with whole first
  · rw [whole]
    exact whole_iff fits whole
  · rw [first]
    exact first_iff fits first
  · exact query_iff fits whole first

/-- The stream id is the last segment of the path exactly under this condition; then it is
clean and does not depend on the query. -/
theorem getStreamIdFromStreamUrl_lastSegment (streamUrl : Bytes)
    (fits : streamUrl.length < 2 ^ 64) :
    (getStreamIdFromStreamUrl streamUrl = lastSegment (path streamUrl) ↔
      SegmentRead streamUrl) ∧
    (SegmentRead streamUrl → ∀ id, getStreamIdFromStreamUrl streamUrl = some id →
      id ≠ [] ∧ 0x2F ∉ id ∧ 0x3F ∉ id) ∧
    (SegmentRead streamUrl → ∀ streamUrl', streamUrl'.length < 2 ^ 64 →
      path streamUrl' = path streamUrl → SegmentRead streamUrl' →
      getStreamIdFromStreamUrl streamUrl' = getStreamIdFromStreamUrl streamUrl) := by
  have hread := segmentRead_iff fits
  refine ⟨hread, ?_, ?_⟩
  · intro holds id hid
    rw [hread.mpr holds] at hid
    exact lastSegment_clean hid
  · intro holds streamUrl' fits' same holds'
    rw [(segmentRead_iff fits').mpr holds', hread.mpr holds, same]

/-- A publisher's url with a token. -/
theorem getStreamIdFromStreamUrl_token :
    getStreamIdFromStreamUrl [0x61, 0x2F, 0x73, 0x3F, 0x74] = some [0x73] :=
  ((getStreamIdFromStreamUrl_lastSegment [0x61, 0x2F, 0x73, 0x3F, 0x74] (by decide)).1.mpr
    (by decide)).trans (by decide)

/-- A slash in front of the query gives an empty stream id: "a/?x". -/
theorem empty_segment_accepted :
    ¬ ∀ streamUrl : Bytes, streamUrl.length < 2 ^ 64 →
      getStreamIdFromStreamUrl streamUrl = lastSegment (path streamUrl) := by
  intro h
  have hvalue := h [0x61, 0x2F, 0x3F, 0x78] (by decide)
  have hcode : getStreamIdFromStreamUrl [0x61, 0x2F, 0x3F, 0x78] = some [] := by decide
  rw [hcode] at hvalue
  exact absurd hvalue (by decide)

end Sars
