import Sars.TlvFraming

/-!
# Byte, padding and checksum helpers

`Utils::Byte` reads words in host order from network order bytes and writes them
back one byte at a time, lowest byte first. `Utils::Crypto` holds the table
driven CRC; its HMAC-SHA1 comes from OpenSSL and is a parameter of whoever
needs it.
-/

namespace Sars

open ByteMemory NetworkOrder TlvFraming

namespace Byte

def get1Byte (data : Bytes) (i : Nat) : Mem UInt8 := load data i

def get2Bytes (data : Bytes) (i : Nat) : Mem UInt16 := do
  let lo ← load data (i + 1)
  let hi ← load data i
  return ofBe16 hi lo

def get4Bytes (data : Bytes) (i : Nat) : Mem UInt32 := do
  let b3 ← load data (i + 3)
  let b2 ← load data (i + 2)
  let b1 ← load data (i + 1)
  let b0 ← load data i
  return ofBe32 b0 b1 b2 b3

def get8Bytes (data : Bytes) (i : Nat) : Mem UInt64 := do
  let hi ← get4Bytes data i
  let lo ← get4Bytes data (i + 4)
  return ofBe64 hi lo

def set1Byte (data : Bytes) (i : Nat) (value : UInt8) : Mem Bytes := store data i value

def set2Bytes (data : Bytes) (i : Nat) (value : UInt16) : Mem Bytes := do
  let data ← store data (i + 1) value.toUInt8
  store data i (value >>> 8).toUInt8

def set4Bytes (data : Bytes) (i : Nat) (value : UInt32) : Mem Bytes := do
  let data ← store data (i + 3) value.toUInt8
  let data ← store data (i + 2) (value >>> 8).toUInt8
  let data ← store data (i + 1) (value >>> 16).toUInt8
  store data i (value >>> 24).toUInt8

def set8Bytes (data : Bytes) (i : Nat) (value : UInt64) : Mem Bytes := do
  let data ← store data (i + 7) value.toUInt8
  let data ← store data (i + 6) (value >>> 8).toUInt8
  let data ← store data (i + 5) (value >>> 16).toUInt8
  let data ← store data (i + 4) (value >>> 24).toUInt8
  let data ← store data (i + 3) (value >>> 32).toUInt8
  let data ← store data (i + 2) (value >>> 40).toUInt8
  let data ← store data (i + 1) (value >>> 48).toUInt8
  store data i (value >>> 56).toUInt8

/-- The 16-bit overload: sizes above 65532 wrap to zero. -/
def padTo4Bytes (size : UInt16) : UInt16 :=
  if size &&& 0x03 ≠ 0 then (size &&& 0xFFFC) + 4 else size

theorem get1Byte_window (pre post : Bytes) (v : UInt8) {i : Nat} (hi : pre.length = i) :
    get1Byte (pre ++ v :: post) i = .ok v :=
  load_window pre post v hi

theorem get2Bytes_window (pre post : Bytes) (v : UInt16) {i : Nat} (hi : pre.length = i) :
    get2Bytes (pre ++ (be16 v ++ post)) i = .ok v := by
  have lo := load_window (pre ++ [(v >>> 8).toUInt8]) post v.toUInt8 (i := i + 1)
    (by simp [hi])
  have hb := load_window pre (v.toUInt8 :: post) (v >>> 8).toUInt8 hi
  simp only [List.append_assoc, List.cons_append, List.nil_append] at lo
  simp only [get2Bytes, be16, List.cons_append, List.nil_append, lo, hb, ok_bind, pure_ok,
    ofBe16_be16]

theorem get4Bytes_window (pre post : Bytes) (v : UInt32) {i : Nat} (hi : pre.length = i) :
    get4Bytes (pre ++ (be32 v ++ post)) i = .ok v := by
  have h3 := load_window (pre ++ [(v >>> 24).toUInt8, (v >>> 16).toUInt8, (v >>> 8).toUInt8])
    post v.toUInt8 (i := i + 3) (by simp [hi])
  have h2 := load_window (pre ++ [(v >>> 24).toUInt8, (v >>> 16).toUInt8])
    (v.toUInt8 :: post) (v >>> 8).toUInt8 (i := i + 2) (by simp [hi])
  have h1 := load_window (pre ++ [(v >>> 24).toUInt8])
    ((v >>> 8).toUInt8 :: v.toUInt8 :: post) (v >>> 16).toUInt8 (i := i + 1) (by simp [hi])
  have h0 := load_window pre ((v >>> 16).toUInt8 :: (v >>> 8).toUInt8 :: v.toUInt8 :: post)
    (v >>> 24).toUInt8 hi
  simp only [List.append_assoc, List.cons_append, List.nil_append] at h3 h2 h1
  simp only [get4Bytes, be32, List.cons_append, List.nil_append, h3, h2, h1, h0, ok_bind,
    pure_ok, ofBe32_be32]

theorem get8Bytes_window (pre post : Bytes) (v : UInt64) {i : Nat} (hi : pre.length = i) :
    get8Bytes (pre ++ (be64 v ++ post)) i = .ok v := by
  have hh := get4Bytes_window pre (be32 v.toUInt32 ++ post) (v >>> 32).toUInt32 hi
  have hl := get4Bytes_window (pre ++ be32 (v >>> 32).toUInt32) post v.toUInt32
    (i := i + 4) (by simp [hi])
  simp only [List.append_assoc] at hl
  simp only [get8Bytes, be64_halves, List.append_assoc, hh, hl, ok_bind, pure_ok, ofBe64_split]

theorem set1Byte_eq {m : Bytes} {i : Nat} (h : i + 1 ≤ m.length) (v : UInt8) :
    set1Byte m i v = storeBytes m i [v] := by
  obtain ⟨pre, mid, post, rfl, hi, hm⟩ := exists_window m h
  match mid, hm with
  | [a], _ => rw [storeBytes_window pre [a] post [v] hi rfl]; exact store_window pre post a v hi

/-- The two single stores are one copy of the big-endian bytes. -/
theorem set2Bytes_eq {m : Bytes} {i : Nat} (h : i + 2 ≤ m.length) (v : UInt16) :
    set2Bytes m i v = storeBytes m i (be16 v) := by
  obtain ⟨pre, mid, post, rfl, hi, hm⟩ := exists_window m h
  match mid, hm with
  | [a, b], _ =>
    rw [storeBytes_window pre [a, b] post (be16 v) hi rfl]
    have h1 := store_window (pre ++ [a]) post b v.toUInt8 (i := i + 1) (by simp [hi])
    simp only [List.append_assoc, List.cons_append, List.nil_append] at h1
    simp only [set2Bytes, List.cons_append, List.nil_append, h1, ok_bind,
      store_window pre _ a _ hi, be16]

theorem set4Bytes_eq {m : Bytes} {i : Nat} (h : i + 4 ≤ m.length) (v : UInt32) :
    set4Bytes m i v = storeBytes m i (be32 v) := by
  obtain ⟨pre, mid, post, rfl, hi, hm⟩ := exists_window m h
  match mid, hm with
  | [a, b, c, d], _ =>
    rw [storeBytes_window pre [a, b, c, d] post (be32 v) hi rfl]
    have h3 := fun x => store_window (pre ++ [a, b, c]) post d x (i := i + 3) (by simp [hi])
    have h2 := fun x t => store_window (pre ++ [a, b]) t c x (i := i + 2) (by simp [hi])
    have h1 := fun x t => store_window (pre ++ [a]) t b x (i := i + 1) (by simp [hi])
    have h0 := fun x t => store_window pre t a x hi
    simp only [List.append_assoc, List.cons_append, List.nil_append] at h3 h2 h1
    simp only [set4Bytes, List.cons_append, List.nil_append, h3, h2, h1, h0, ok_bind, be32]

theorem set8Bytes_eq {m : Bytes} {i : Nat} (h : i + 8 ≤ m.length) (v : UInt64) :
    set8Bytes m i v = storeBytes m i (be64 v) := by
  obtain ⟨pre, mid, post, rfl, hi, hm⟩ := exists_window m h
  match mid, hm with
  | [a, b, c, d, e, f, g, k], _ =>
    rw [storeBytes_window pre [a, b, c, d, e, f, g, k] post (be64 v) hi rfl]
    have h7 := fun x => store_window (pre ++ [a, b, c, d, e, f, g]) post k x (i := i + 7)
      (by simp [hi])
    have h6 := fun x t => store_window (pre ++ [a, b, c, d, e, f]) t g x (i := i + 6)
      (by simp [hi])
    have h5 := fun x t => store_window (pre ++ [a, b, c, d, e]) t f x (i := i + 5) (by simp [hi])
    have h4 := fun x t => store_window (pre ++ [a, b, c, d]) t e x (i := i + 4) (by simp [hi])
    have h3 := fun x t => store_window (pre ++ [a, b, c]) t d x (i := i + 3) (by simp [hi])
    have h2 := fun x t => store_window (pre ++ [a, b]) t c x (i := i + 2) (by simp [hi])
    have h1 := fun x t => store_window (pre ++ [a]) t b x (i := i + 1) (by simp [hi])
    have h0 := fun x t => store_window pre t a x hi
    simp only [List.append_assoc, List.cons_append, List.nil_append] at h7 h6 h5 h4 h3 h2 h1
    simp only [set8Bytes, List.cons_append, List.nil_append, h7, h6, h5, h4, h3, h2, h1, h0,
      ok_bind, be64]

theorem masked_low (size : UInt16) : (size &&& 0x03).toNat = size.toNat % 4 := by
  rw [UInt16.toNat_and]
  exact Nat.and_two_pow_sub_one_eq_mod size.toNat 2

theorem masked_high (size : UInt16) : (size &&& 0xFFFC).toNat = 4 * (size.toNat / 4 % 16384) := by
  rw [UInt16.toNat_and]
  exact and_mask (k := 14) (s := 2) rfl rfl

/-- The helper rounds up in sixteen bits: behind the last multiple of four it gives zero. -/
theorem padTo4Bytes_mod (size : UInt16) :
    (padTo4Bytes size).toNat = (size.toNat + padding 4 size.toNat) % 65536 := by
  have hlow := masked_low size
  have hhigh := masked_high size
  have hlt := size.toNat_lt
  simp only [padTo4Bytes, padding]
  split
  · rename_i hne
    have hmod : size.toNat % 4 ≠ 0 := by
      intro h0
      exact hne (UInt16.toNat_inj.mp (by simpa [h0] using hlow))
    rw [UInt16.toNat_add, hhigh]
    simp
    omega
  · rename_i heq
    have hzero : size &&& 0x03 = 0 := by simpa using heq
    have hmod : size.toNat % 4 = 0 := by simpa [hzero] using hlow.symm
    simp [hmod]

theorem padTo4Bytes_toNat {size : UInt16} (h : size.toNat ≤ 65532) :
    (padTo4Bytes size).toNat = size.toNat + padding 4 size.toNat := by
  have hround : size.toNat + padding 4 size.toNat ≤ 65532 := by
    simp only [padding]
    omega
  rw [padTo4Bytes_mod, Nat.mod_eq_of_lt (by omega)]

end Byte

namespace Crypto

set_option maxRecDepth 4000 in
def crc32Table : Vector UInt32 256 :=
  #v[
    0x00000000, 0x77073096, 0xee0e612c, 0x990951ba, 0x076dc419, 0x706af48f, 0xe963a535, 0x9e6495a3,
    0x0edb8832, 0x79dcb8a4, 0xe0d5e91e, 0x97d2d988, 0x09b64c2b, 0x7eb17cbd, 0xe7b82d07, 0x90bf1d91,
    0x1db71064, 0x6ab020f2, 0xf3b97148, 0x84be41de, 0x1adad47d, 0x6ddde4eb, 0xf4d4b551, 0x83d385c7,
    0x136c9856, 0x646ba8c0, 0xfd62f97a, 0x8a65c9ec, 0x14015c4f, 0x63066cd9, 0xfa0f3d63, 0x8d080df5,
    0x3b6e20c8, 0x4c69105e, 0xd56041e4, 0xa2677172, 0x3c03e4d1, 0x4b04d447, 0xd20d85fd, 0xa50ab56b,
    0x35b5a8fa, 0x42b2986c, 0xdbbbc9d6, 0xacbcf940, 0x32d86ce3, 0x45df5c75, 0xdcd60dcf, 0xabd13d59,
    0x26d930ac, 0x51de003a, 0xc8d75180, 0xbfd06116, 0x21b4f4b5, 0x56b3c423, 0xcfba9599, 0xb8bda50f,
    0x2802b89e, 0x5f058808, 0xc60cd9b2, 0xb10be924, 0x2f6f7c87, 0x58684c11, 0xc1611dab, 0xb6662d3d,
    0x76dc4190, 0x01db7106, 0x98d220bc, 0xefd5102a, 0x71b18589, 0x06b6b51f, 0x9fbfe4a5, 0xe8b8d433,
    0x7807c9a2, 0x0f00f934, 0x9609a88e, 0xe10e9818, 0x7f6a0dbb, 0x086d3d2d, 0x91646c97, 0xe6635c01,
    0x6b6b51f4, 0x1c6c6162, 0x856530d8, 0xf262004e, 0x6c0695ed, 0x1b01a57b, 0x8208f4c1, 0xf50fc457,
    0x65b0d9c6, 0x12b7e950, 0x8bbeb8ea, 0xfcb9887c, 0x62dd1ddf, 0x15da2d49, 0x8cd37cf3, 0xfbd44c65,
    0x4db26158, 0x3ab551ce, 0xa3bc0074, 0xd4bb30e2, 0x4adfa541, 0x3dd895d7, 0xa4d1c46d, 0xd3d6f4fb,
    0x4369e96a, 0x346ed9fc, 0xad678846, 0xda60b8d0, 0x44042d73, 0x33031de5, 0xaa0a4c5f, 0xdd0d7cc9,
    0x5005713c, 0x270241aa, 0xbe0b1010, 0xc90c2086, 0x5768b525, 0x206f85b3, 0xb966d409, 0xce61e49f,
    0x5edef90e, 0x29d9c998, 0xb0d09822, 0xc7d7a8b4, 0x59b33d17, 0x2eb40d81, 0xb7bd5c3b, 0xc0ba6cad,
    0xedb88320, 0x9abfb3b6, 0x03b6e20c, 0x74b1d29a, 0xead54739, 0x9dd277af, 0x04db2615, 0x73dc1683,
    0xe3630b12, 0x94643b84, 0x0d6d6a3e, 0x7a6a5aa8, 0xe40ecf0b, 0x9309ff9d, 0x0a00ae27, 0x7d079eb1,
    0xf00f9344, 0x8708a3d2, 0x1e01f268, 0x6906c2fe, 0xf762575d, 0x806567cb, 0x196c3671, 0x6e6b06e7,
    0xfed41b76, 0x89d32be0, 0x10da7a5a, 0x67dd4acc, 0xf9b9df6f, 0x8ebeeff9, 0x17b7be43, 0x60b08ed5,
    0xd6d6a3e8, 0xa1d1937e, 0x38d8c2c4, 0x4fdff252, 0xd1bb67f1, 0xa6bc5767, 0x3fb506dd, 0x48b2364b,
    0xd80d2bda, 0xaf0a1b4c, 0x36034af6, 0x41047a60, 0xdf60efc3, 0xa867df55, 0x316e8eef, 0x4669be79,
    0xcb61b38c, 0xbc66831a, 0x256fd2a0, 0x5268e236, 0xcc0c7795, 0xbb0b4703, 0x220216b9, 0x5505262f,
    0xc5ba3bbe, 0xb2bd0b28, 0x2bb45a92, 0x5cb36a04, 0xc2d7ffa7, 0xb5d0cf31, 0x2cd99e8b, 0x5bdeae1d,
    0x9b64c2b0, 0xec63f226, 0x756aa39c, 0x026d930a, 0x9c0906a9, 0xeb0e363f, 0x72076785, 0x05005713,
    0x95bf4a82, 0xe2b87a14, 0x7bb12bae, 0x0cb61b38, 0x92d28e9b, 0xe5d5be0d, 0x7cdcefb7, 0x0bdbdf21,
    0x86d3d2d4, 0xf1d4e242, 0x68ddb3f8, 0x1fda836e, 0x81be16cd, 0xf6b9265b, 0x6fb077e1, 0x18b74777,
    0x88085ae6, 0xff0f6a70, 0x66063bca, 0x11010b5c, 0x8f659eff, 0xf862ae69, 0x616bffd3, 0x166ccf45,
    0xa00ae278, 0xd70dd2ee, 0x4e048354, 0x3903b3c2, 0xa7672661, 0xd06016f7, 0x4969474d, 0x3e6e77db,
    0xaed16a4a, 0xd9d65adc, 0x40df0b66, 0x37d83bf0, 0xa9bcae53, 0xdebb9ec5, 0x47b2cf7f, 0x30b5ffe9,
    0xbdbdf21c, 0xcabac28a, 0x53b39330, 0x24b4a3a6, 0xbad03605, 0xcdd70693, 0x54de5729, 0x23d967bf,
    0xb3667a2e, 0xc4614ab8, 0x5d681b02, 0x2a6f2b94, 0xb40bbe37, 0xc30c8ea1, 0x5a05df1b, 0x2d02ef8d]

/-- The table index is the low byte of a 32-bit word. -/
def lowByte (x : UInt32) : Fin 256 :=
  ⟨(x &&& 0xFF).toNat, by
    rw [UInt32.toNat_and]
    exact Nat.and_lt_two_pow _ (show (0xFF : UInt32).toNat < 2 ^ 8 by decide)⟩

def crc32Update (crc : UInt32) (byte : UInt8) : UInt32 :=
  crc32Table.get (lowByte (crc ^^^ byte.toUInt32)) ^^^ (crc >>> 8)

/-- The `while (size--)` loop with its read pointer. -/
def crc32Loop (data : Bytes) : (p size : Nat) → (crc : UInt32) → Mem UInt32
  | _, 0, crc => .ok crc
  | p, size + 1, crc => do
    let byte ← load data p
    crc32Loop data (p + 1) size (crc32Update crc byte)

def getCRC32 (data : Bytes) (size : Nat) : Mem UInt32 := do
  let crc ← crc32Loop data 0 size 0xFFFFFFFF
  return crc ^^^ ~~~0

/-- The checksum of a whole byte string. -/
def crc32 (bs : Bytes) : UInt32 := bs.foldl crc32Update 0xFFFFFFFF ^^^ ~~~0

theorem crc32Loop_eq (pre bs post : Bytes) (crc : UInt32) {p size : Nat}
    (hp : pre.length = p) (hs : bs.length = size) :
    crc32Loop (pre ++ (bs ++ post)) p size crc = .ok (bs.foldl crc32Update crc) := by
  induction bs generalizing pre crc p size with
  | nil =>
    subst hs
    rfl
  | cons b bs ih =>
    subst hs
    have hb : load (pre ++ (b :: bs ++ post)) p = .ok b := load_window pre (bs ++ post) b hp
    have hrest := ih (pre ++ [b]) (crc32Update crc b) (p := p + 1) (by simp [hp]) rfl
    simp only [List.append_assoc, List.cons_append, List.nil_append] at hb hrest
    simp only [List.length_cons, crc32Loop, List.cons_append, hb, ok_bind, hrest,
      List.foldl_cons]

/-- The loop reads exactly the first `size` bytes. -/
theorem getCRC32_eq {data : Bytes} {size : Nat} (h : size ≤ data.length) :
    getCRC32 data size = .ok (crc32 (data.take size)) := by
  have hlen : (data.take size).length = size := by
    rw [List.length_take]
    omega
  have hloop := crc32Loop_eq [] (data.take size) (data.drop size) 0xFFFFFFFF (p := 0) rfl hlen
  rw [List.take_append_drop, List.nil_append] at hloop
  simp only [getCRC32, hloop, ok_bind, pure_ok, crc32]

end Crypto

end Sars
