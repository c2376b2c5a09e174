import Sars.NetworkOrder

/-!
# Type-length-value framing

A record is a 16-bit type, a 16-bit length, a value of that length and enough
padding to end on a multiple of `align`. Padding bytes are arbitrary but part of
the record, so a framed text is exactly the concatenation of its records.
-/

namespace TlvFraming

open ByteMemory NetworkOrder

/-- How many bytes are missing from `n` to a multiple of `align`. -/
def padding (align n : Nat) : Nat := (align - n % align) % align

theorem padding_lt {align : Nat} (pos : 0 < align) (n : Nat) : padding align n < align :=
  Nat.mod_lt _ pos

theorem padded_mod {align : Nat} (pos : 0 < align) (n : Nat) :
    (n + padding align n) % align = 0 := by
  have hn : n % align < align := Nat.mod_lt n pos
  by_cases h : n % align = 0
  · simp [padding, h]
  · have hp : padding align n = align - n % align := Nat.mod_eq_of_lt (by omega)
    have hd := Nat.mod_add_div n align
    rw [hp]
    calc (n + (align - n % align)) % align
        = (align * (n / align + 1)) % align := by
          congr 1
          rw [Nat.mul_add, Nat.mul_one]
          omega
      _ = 0 := Nat.mul_mod_right _ _

@[ext] structure Record (align : Nat) where
  type : UInt16
  value : Bytes
  pad : Bytes
  value_lt : value.length < 65536
  pad_length : pad.length = padding align value.length

variable {align : Nat}

def Record.bytes (r : Record align) : Bytes :=
  be16 r.type ++ (be16 (UInt16.ofNat r.value.length) ++ (r.value ++ r.pad))

/-- The length of a record, header and padding included. -/
def Record.size (r : Record align) : Nat := 4 + (r.value.length + padding align r.value.length)

@[simp] theorem Record.bytes_length (r : Record align) : r.bytes.length = r.size := by
  simp only [bytes, size, List.length_append, be16_length, r.pad_length]
  omega

theorem Record.size_pos (r : Record align) : 4 ≤ r.size := by
  simp [size]

/-- A record of an aligned framing ends aligned when its header does. -/
theorem Record.size_aligned (pos : 0 < align) (header : 4 % align = 0) (r : Record align) :
    r.size % align = 0 := by
  rw [size, Nat.add_mod, header, padded_mod pos]
  simp

def encode (rs : List (Record align)) : Bytes := rs.flatMap Record.bytes

@[simp] theorem encode_nil : encode ([] : List (Record align)) = [] := rfl

@[simp] theorem encode_cons (r : Record align) (rs : List (Record align)) :
    encode (r :: rs) = r.bytes ++ encode rs := by
  simp [encode]

@[simp] theorem encode_append (rs ss : List (Record align)) :
    encode (rs ++ ss) = encode rs ++ encode ss := by
  simp [encode]

theorem records_le_encode (rs : List (Record align)) : 4 * rs.length ≤ (encode rs).length := by
  induction rs with
  | nil => simp
  | cons r rs ih =>
    have := r.size_pos
    simp only [List.length_cons, encode_cons, List.length_append, Record.bytes_length]
    omega

theorem encode_aligned (pos : 0 < align) (header : 4 % align = 0) (rs : List (Record align)) :
    (encode rs).length % align = 0 := by
  induction rs with
  | nil => simp
  | cons r rs ih =>
    rw [encode_cons, List.length_append, Record.bytes_length, Nat.add_mod, ih,
      r.size_aligned pos header]
    simp

/-- The declared length of a text that starts with a record's header decides the record. -/
theorem exists_record {t l : UInt16} {rest : Bytes}
    (fits : l.toNat + padding align l.toNat ≤ rest.length) :
    ∃ (r : Record align) (tail : Bytes), be16 t ++ (be16 l ++ rest) = r.bytes ++ tail ∧
      r.type = t ∧ r.value = rest.take l.toNat ∧ r.value.length = l.toNat := by
  have hv : (rest.take l.toNat).length = l.toNat := by
    rw [List.length_take]
    omega
  refine ⟨⟨t, rest.take l.toNat, (rest.drop l.toNat).take (padding align l.toNat), ?_, ?_⟩,
    (rest.drop l.toNat).drop (padding align l.toNat), ?_, rfl, rfl, hv⟩
  · rw [hv]
    exact l.toNat_lt
  · rw [hv, List.length_take, List.length_drop]
    omega
  · simp only [Record.bytes, hv, UInt16.ofNat_toNat, List.append_assoc, List.take_append_drop]

/-! ## Walking a framed text -/

/-- Type and value of each record, provided that whole records follow to the end. Every record
costs one unit of fuel. -/
def walk (align : Nat) : Nat → Bytes → Option (List (UInt16 × Bytes))
  | _, [] => some []
  | fuel + 1, t₀ :: t₁ :: l₀ :: l₁ :: rest =>
    let len := (ofBe16 l₀ l₁).toNat
    if len + padding align len ≤ rest.length then
      (walk align fuel (rest.drop (len + padding align len))).map
        ((ofBe16 t₀ t₁, rest.take len) :: ·)
    else none
  | _, _ => none

def decode (align : Nat) (text : Bytes) : Option (List (UInt16 × Bytes)) :=
  walk align text.length text

theorem walk_record (r : Record align) (tail : Bytes) (fuel : Nat) :
    walk align (fuel + 1) (r.bytes ++ tail) =
      (walk align fuel tail).map ((r.type, r.value) :: ·) := by
  have hlen : (UInt16.ofNat r.value.length).toNat = r.value.length :=
    UInt16.toNat_ofNat_of_lt' r.value_lt
  have htype : ofBe16 (r.type >>> 8).toUInt8 r.type.toUInt8 = r.type := ofBe16_be16 r.type
  have hdeclared : ofBe16 (UInt16.ofNat r.value.length >>> 8).toUInt8
      (UInt16.ofNat r.value.length).toUInt8 = UInt16.ofNat r.value.length := ofBe16_be16 _
  have hroom : r.value.length + padding align r.value.length ≤
      (r.value ++ (r.pad ++ tail)).length := by
    simp only [List.length_append, r.pad_length]
    omega
  have hvalue : (r.value ++ (r.pad ++ tail)).take r.value.length = r.value := List.take_left
  have hrest : (r.value ++ (r.pad ++ tail)).drop
      (r.value.length + padding align r.value.length) = tail := by
    rw [← List.append_assoc]
    exact List.drop_left' (by rw [List.length_append, r.pad_length])
  simp only [Record.bytes, be16, List.append_assoc, List.cons_append, List.nil_append, walk, htype,
    hdeclared, hlen, if_pos hroom, hvalue, hrest]

theorem walk_encode (rs : List (Record align)) {fuel : Nat} (enough : rs.length ≤ fuel) :
    walk align fuel (encode rs) = some (rs.map fun r => (r.type, r.value)) := by
  induction rs generalizing fuel with
  | nil => cases fuel <;> rfl
  | cons r rs ih =>
    cases fuel with
    | zero => cases enough
    | succ fuel =>
      rw [encode_cons, walk_record, ih (Nat.le_of_succ_le_succ enough)]
      rfl

/-- Walking the concatenation of records finds each of them, with its padding left out. -/
theorem decode_encode (rs : List (Record align)) :
    decode align (encode rs) = some (rs.map fun r => (r.type, r.value)) := by
  have hrecords := records_le_encode rs
  exact walk_encode rs (by omega)

end TlvFraming
