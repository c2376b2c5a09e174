import Sars.NetworkOrder
import Mathlib.Data.List.Basic

/-!
# Numbers and addresses as decimal text

Decimal numerals in bytes, dotted quads of such numerals and texts of the form
`left:number`. Each is read back by its inverse, so none of them confuses two
values.
-/

namespace DecimalText

open ByteMemory

/-- The decimal numeral, as `std::to_string` writes it. -/
def decimal (n : Nat) : Bytes := (Nat.toDigits 10 n).map fun c => UInt8.ofNat c.toNat

def ofDecimal (t : Bytes) : Nat := t.foldl (fun n b => 10 * n + (b.toNat - 48)) 0

def isDigit (b : UInt8) : Bool := decide (48 ≤ b.toNat ∧ b.toNat ≤ 57)

theorem digit_byte {c : Char} (h : c.isDigit = true) :
    (UInt8.ofNat c.toNat).toNat = c.toNat ∧ 48 ≤ c.toNat ∧ c.toNat ≤ 57 := by
  have hrange : 48 ≤ c.toNat ∧ c.toNat ≤ 57 := by
    simpa [Char.isDigit, UInt32.le_iff_toNat_le] using h
  refine ⟨?_, hrange⟩
  rw [UInt8.toNat_ofNat_of_lt' (show _ < 256 by omega)]

theorem ofDecimal_map (cs : List Char) (h : ∀ c ∈ cs, c.isDigit = true) (n : Nat) :
    (cs.map fun c => UInt8.ofNat c.toNat).foldl (fun n b => 10 * n + (b.toNat - 48)) n =
      Nat.ofDigitChars 10 cs n := by
  induction cs generalizing n with
  | nil => simp
  | cons c cs ih =>
    have hc := (digit_byte (h c List.mem_cons_self)).1
    rw [List.map_cons, List.foldl_cons, hc, ih (fun d hd => h d (List.mem_cons_of_mem c hd)),
      Nat.ofDigitChars_cons]
    rfl

theorem ofDecimal_decimal (n : Nat) : ofDecimal (decimal n) = n := by
  have hdigits : ∀ c ∈ Nat.toDigits 10 n, c.isDigit = true :=
    fun c hc => Nat.isDigit_of_mem_toDigits (by omega) (by omega) hc
  rw [ofDecimal, decimal, ofDecimal_map _ hdigits]
  exact Nat.ofDigitChars_toDigits (by omega) (by omega)

theorem decimal_injective : Function.Injective decimal :=
  Function.LeftInverse.injective ofDecimal_decimal

theorem isDigit_of_mem_decimal {n : Nat} {b : UInt8} (h : b ∈ decimal n) : isDigit b = true := by
  obtain ⟨c, hc, rfl⟩ := List.mem_map.mp h
  obtain ⟨hval, hrange⟩ := digit_byte (Nat.isDigit_of_mem_toDigits (by omega) (by omega) hc)
  rw [isDigit, hval]
  exact decide_eq_true hrange

/-! ## Dotted quads -/

def dotted (bs : Bytes) : Bytes := [46].intercalate (bs.map fun b => decimal b.toNat)

/-- A numeral below 256 without a sign, a blank or a leading zero. -/
def octet (t : Bytes) : Option UInt8 :=
  if ofDecimal t < 256 ∧ decimal (ofDecimal t) = t then some (UInt8.ofNat (ofDecimal t)) else none

def ofDotted (t : Bytes) : Option Bytes := (t.splitOn 46).mapM octet

theorem octet_decimal (b : UInt8) : octet (decimal b.toNat) = some b := by
  have hb := b.toNat_lt
  have hguard : b.toNat < 256 ∧ decimal b.toNat = decimal b.toNat := ⟨hb, rfl⟩
  rw [octet, ofDecimal_decimal, if_pos hguard, UInt8.ofNat_toNat]

theorem mapM_octet (bs : Bytes) : (bs.map fun b => decimal b.toNat).mapM octet = some bs := by
  induction bs with
  | nil => rfl
  | cons b bs ih =>
    rw [List.map_cons, List.mapM_cons, octet_decimal, ih]
    rfl

theorem ofDotted_dotted {bs : Bytes} (h : bs ≠ []) : ofDotted (dotted bs) = some bs := by
  have nodot : ∀ t ∈ bs.map (fun b => decimal b.toNat), (46 : UInt8) ∉ t := by
    intro t ht hdot
    obtain ⟨b, _, rfl⟩ := List.mem_map.mp ht
    have hdigit := isDigit_of_mem_decimal hdot
    simp [isDigit] at hdigit
  rw [ofDotted, dotted, List.splitOn_intercalate _ nodot (by simpa using h), mapM_octet]

theorem mem_intercalate {s b : UInt8} {ts : List Bytes} (h : b ∈ [s].intercalate ts) :
    b = s ∨ ∃ t ∈ ts, b ∈ t := by
  induction ts with
  | nil => simp [List.intercalate] at h
  | cons t ts ih =>
    cases ts with
    | nil => exact Or.inr ⟨t, List.mem_cons_self, by simpa [List.intercalate] using h⟩
    | cons u us =>
      have hsplit : b ∈ t ∨ b = s ∨ b ∈ [s].intercalate (u :: us) := by
        simpa [List.intercalate] using h
      rcases hsplit with ht | hs | hrest
      · exact Or.inr ⟨t, List.mem_cons_self, ht⟩
      · exact Or.inl hs
      · rcases ih hrest with hs | ⟨v, hv, hb⟩
        · exact Or.inl hs
        · exact Or.inr ⟨v, List.mem_cons_of_mem t hv, hb⟩

/-- Only digits and dots occur. -/
theorem mem_dotted {bs : Bytes} {b : UInt8} (h : b ∈ dotted bs) : isDigit b = true ∨ b = 46 := by
  rcases mem_intercalate h with hdot | ⟨t, ht, hb⟩
  · exact Or.inr hdot
  · obtain ⟨d, _, rfl⟩ := List.mem_map.mp ht
    exact Or.inl (isDigit_of_mem_decimal hb)

/-! ## Text before a colon -/

def colon (left : Bytes) (n : Nat) : Bytes := left ++ 58 :: decimal n

theorem colon_injective {l l' : Bytes} {n n' : Nat} (hl : (58 : UInt8) ∉ l)
    (h : colon l n = colon l' n') : l = l' ∧ n = n' := by
  have nocolon : ∀ m : Nat, (58 : UInt8) ∉ decimal m := by
    intro m hm
    have hdigit := isDigit_of_mem_decimal hm
    simp [isDigit] at hdigit
  obtain ⟨hleft, _, hright⟩ := (List.append_cons_inj_of_notMem hl (nocolon n)).mp h
  exact ⟨hleft, decimal_injective hright⟩

/-- The text before the first colon. -/
theorem before_colon {l r : Bytes} (h : (58 : UInt8) ∉ l) :
    (l ++ 58 :: r).takeWhile (fun b => b != 58) = l := by
  have hplain : ∀ b ∈ l, (b != 58) = true := by
    intro b hb
    have hne : b ≠ 58 := fun heq => h (heq ▸ hb)
    simpa using hne
  rw [List.takeWhile_append_of_pos hplain]
  simp

end DecimalText
