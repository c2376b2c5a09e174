import Sars.StunSerialize

/-!
# What a serialized message consists of

Every writer of an attribute extends the bytes already written by one record and
leaves the rest of the buffer alone. Chained together, `serialize` writes the
header, a record for each attribute the object has, the signature and the
checksum. The only bytes taken from the old buffer are the padding of USERNAME.
-/

namespace Sars

open ByteMemory NetworkOrder TlvFraming

namespace Stun

/-! ## Writers -/

/-- The value of the XOR-MAPPED-ADDRESS attribute. -/
def xorAddress (tid : Block 12) : Option Sockaddr → Bytes
  | some (.inet a) => ([0, 0x01] : Bytes) ++
      (List.zipWith (· ^^^ ·) a.sinPort.val portMask ++
        List.zipWith (· ^^^ ·) a.sinAddr.val magicCookie.toList)
  | some (.inet6 a) => ([0, 0x02] : Bytes) ++
      (List.zipWith (· ^^^ ·) a.sin6Port.val portMask ++
        List.zipWith (· ^^^ ·) a.sin6Addr.val (magicCookie.toList ++ tid.val))
  | _ => []

/-- The transaction id lies where the header has it. -/
def Headed (tid : Block 12) (w : Bytes) : Prop :=
  ∃ front back, w = front ++ (tid.val ++ back) ∧ front.length = 8

theorem Headed.append {tid : Block 12} {w : Bytes} (h : Headed tid w) (v : Bytes) :
    Headed tid (w ++ v) := by
  obtain ⟨front, back, rfl, hfront⟩ := h
  exact ⟨front, back ++ v, by simp, hfront⟩

/-- `write` puts `value` behind a text with this transaction id. -/
def Writes (tid : Block 12) (write : Bytes → Nat → Mem Bytes) (value : Bytes) : Prop :=
  ∀ w rest i, Headed tid w → w.length = i → value.length ≤ rest.length →
    write (w ++ rest) i = .ok ((w ++ value) ++ rest.drop value.length)

variable {tid : Block 12}

theorem writes_storeBytes (value : Bytes) : Writes tid (fun b i => storeBytes b i value) value :=
  fun w rest _ _ hi room => storeBytes_behind w rest value hi room

theorem writes_of_eq {write : Bytes → Nat → Mem Bytes} {value : Bytes}
    (h : ∀ b i, i + value.length ≤ b.length → write b i = storeBytes b i value) :
    Writes tid write value := by
  intro w rest i _ hi room
  rw [h (w ++ rest) i (by rw [List.length_append]; omega)]
  exact storeBytes_behind w rest value hi room

theorem writes_store (v : UInt8) : Writes tid (fun b i => store b i v) [v] :=
  writes_of_eq fun _ _ h => Byte.set1Byte_eq h v

theorem writes_nothing : Writes tid (fun b _ => return b) [] := by
  intro w rest i _ _ _
  simp

theorem Writes.seq {f g : Bytes → Nat → Mem Bytes} {v u : Bytes} {n : Nat} (hf : Writes tid f v)
    (hg : Writes tid g u) (hn : v.length = n) :
    Writes tid (fun b i => f b i >>= fun b => g b (i + n)) (v ++ u) := by
  intro w rest i headed hi room
  rw [List.length_append] at room
  have hfirst := hf w rest i headed hi (by omega)
  have hsecond := hg (w ++ v) (rest.drop v.length) (i + n) (headed.append v)
    (by rw [List.length_append, hi, hn]) (by rw [List.length_drop]; omega)
  simp only [hfirst, ok_bind]
  rw [hsecond]
  simp only [List.append_assoc, List.drop_drop, List.length_append]

/-! ## The XOR-ed address -/

theorem xorBytes_window (mask pre mid post : Bytes) {i : Nat} (hi : pre.length = i)
    (hn : mid.length = mask.length) :
    xorBytes (pre ++ (mid ++ post)) i mask =
      .ok (pre ++ (List.zipWith (· ^^^ ·) mid mask ++ post)) := by
  induction mask generalizing pre mid i with
  | nil =>
    have hmid : mid = [] := List.eq_nil_of_length_eq_zero hn
    subst hmid
    rfl
  | cons m mask ih =>
    match mid, hn with
    | x :: mid, hn =>
      have hload := load_window pre (mid ++ post) x hi
      have hstore := store_window pre (mid ++ post) x (x ^^^ m) hi
      have hrec := ih (pre ++ [x ^^^ m]) mid (i := i + 1) (by simp [hi]) (by simpa using hn)
      simp only [List.append_assoc, List.cons_append, List.nil_append] at hrec
      simp only [xorBytes, List.cons_append, hload, ok_bind, hstore, hrec, List.zipWith_cons_cons]

theorem xorWithin_window (mask pre mid dst post : Bytes) {i j n : Nat} (hj : pre.length = j)
    (hn : mask.length = n) (hi : j + n + mid.length = i) (hdst : dst.length = n) :
    xorWithin (pre ++ (mask ++ (mid ++ (dst ++ post)))) i j n =
      .ok (pre ++ (mask ++ (mid ++ (List.zipWith (· ^^^ ·) dst mask ++ post)))) := by
  induction mask generalizing pre mid dst i j n with
  | nil =>
    subst hn
    have hempty : dst = [] := List.eq_nil_of_length_eq_zero hdst
    subst hempty
    rfl
  | cons m mask ih =>
    subst hn
    match dst, hdst with
    | x :: dst, hdst =>
      have hload := load_window (pre ++ (m :: mask ++ mid)) (dst ++ post) x (i := i)
        (by simp [← hi]; omega)
      have hmask := load_window pre (mask ++ (mid ++ (x :: dst ++ post))) m hj
      have hstore := store_window (pre ++ (m :: mask ++ mid)) (dst ++ post) x (x ^^^ m) (i := i)
        (by simp [← hi]; omega)
      have hrec := ih (pre ++ [m]) (mid ++ [x ^^^ m]) dst (i := i + 1) (j := j + 1)
        (by simp [hj]) rfl (by simp [← hi]; omega) (by simpa using hdst)
      simp only [List.append_assoc, List.cons_append, List.nil_append] at hload hmask hstore hrec
      simp only [List.length_cons, xorWithin, List.cons_append, hload, hmask, ok_bind, hstore,
        hrec, List.zipWith_cons_cons]

/-- Copy, then XOR in place. -/
theorem writes_xored (value mask : Bytes) (hn : value.length = mask.length) :
    Writes tid (fun b i => storeBytes b i value >>= fun b => xorBytes b i mask)
      (List.zipWith (· ^^^ ·) value mask) := by
  intro w rest i headed hi room
  have hlen : (List.zipWith (· ^^^ ·) value mask).length = value.length := by simp [hn]
  rw [hlen] at room
  have hcopy := storeBytes_behind w rest value hi room
  have hxor := xorBytes_window mask w value (rest.drop value.length) hi hn
  simp only [hcopy, ok_bind, List.append_assoc, hxor, hlen]

/-- The sixteen address bytes are XOR-ed with the cookie and then with the
transaction id in the header. -/
theorem writes_xored6 (addr : Block 16) :
    Writes tid
      (fun b i => storeBytes b i addr.val >>= fun b =>
        xorBytes b i magicCookie.toList >>= fun b => xorWithin b (i + 4) 8 12)
      (List.zipWith (· ^^^ ·) addr.val (magicCookie.toList ++ tid.val)) := by
  rintro w rest i ⟨front, back, rfl, hfront⟩ hi room
  have htid := tid.property
  have haddr := addr.property
  have hcookie : magicCookie.toList.length = 4 := rfl
  have hlen : (List.zipWith (· ^^^ ·) addr.val (magicCookie.toList ++ tid.val)).length = 16 := by
    simp [haddr, htid]
  have hhead : (addr.val.take 4).length = 4 := by simp [haddr]
  have hcopy := storeBytes_behind (front ++ (tid.val ++ back)) rest addr.val hi
    (by rw [hlen] at room; omega)
  have hsplit : addr.val = addr.val.take 4 ++ addr.val.drop 4 := (List.take_append_drop 4 _).symm
  have hcut : List.zipWith (· ^^^ ·) addr.val (magicCookie.toList ++ tid.val) =
      List.zipWith (· ^^^ ·) (addr.val.take 4) magicCookie.toList ++
        List.zipWith (· ^^^ ·) (addr.val.drop 4) tid.val := by
    conv_lhs => rw [hsplit]
    exact List.zipWith_append (by rw [hhead, hcookie])
  have hxor := xorBytes_window magicCookie.toList (front ++ (tid.val ++ back)) (addr.val.take 4)
    (addr.val.drop 4 ++ rest.drop 16) hi (by rw [hhead, hcookie])
  have hwithin := xorWithin_window tid.val front
    (back ++ List.zipWith (· ^^^ ·) (addr.val.take 4) magicCookie.toList) (addr.val.drop 4)
    (rest.drop 16) (i := i + 4) hfront htid
    (by simp [← hi, hfront, htid, hcookie, haddr]; omega) (by simp [haddr])
  rw [haddr] at hcopy
  conv at hcopy => rhs; rw [hsplit]
  rw [hlen, hcut]
  simp only [List.append_assoc] at hcopy hxor hwithin ⊢
  simp only [hcopy, ok_bind, hxor, hwithin]

theorem writes_xorMappedAddress (address : Option Sockaddr) :
    Writes tid (writeXorMappedAddress address) (xorAddress tid address) := by
  have family : ∀ v : UInt8, Writes tid (fun b i => store b i 0 >>= fun b => store b (i + 1) v)
      [0, v] := fun v => (writes_store 0).seq (writes_store v) rfl
  match address with
  | none => exact writes_nothing
  | some (.other _) => exact writes_nothing
  | some (.inet a) =>
    have port : Writes tid _ _ := writes_xored a.sinPort.val portMask
      a.sinPort.property
    have addr : Writes tid _ _ := writes_xored a.sinAddr.val magicCookie.toList a.sinAddr.property
    have all := (family 0x01).seq (n := 2)
      (port.seq addr (n := 2) (by simp [a.sinPort.property])) rfl
    simp only [bind_assoc, Nat.add_assoc, Nat.reduceAdd] at all
    exact all
  | some (.inet6 a) =>
    have port : Writes tid _ _ := writes_xored a.sin6Port.val portMask
      a.sin6Port.property
    have addr : Writes tid _ _ := writes_xored6 a.sin6Addr
    have all := (family 0x02).seq (n := 2)
      (port.seq addr (n := 2) (by simp [a.sin6Port.property])) rfl
    simp only [bind_assoc, Nat.add_assoc, Nat.reduceAdd] at all
    exact all

theorem writes_errorCode (errorCode : UInt16) :
    Writes tid (writeErrorCode errorCode)
      (be16 0 ++ [codeClass errorCode, codeNumber errorCode]) := by
  have reserved : Writes tid (fun b i => Byte.set2Bytes b i 0) (be16 0) :=
    writes_of_eq fun _ _ h => Byte.set2Bytes_eq h 0
  have byte : ∀ v : UInt8, Writes tid (fun b i => Byte.set1Byte b i v) [v] := writes_store
  exact reserved.seq ((byte (codeClass errorCode)).seq (byte (codeNumber errorCode)) rfl) rfl

/-! ## Records -/

/-- The records carry these attributes in this order. -/
def Carries (rs : List (Record 4)) (attrs : List (Attribute × Bytes)) : Prop :=
  rs.map (fun r => (r.type, r.value)) = attrs.map (fun a => (a.1.code, a.2))

def recordsSize (attrs : List (Attribute × Bytes)) : Nat :=
  (attrs.map fun a => 4 + (a.2.length + padding 4 a.2.length)).sum

theorem recordsSize_append (as bs : List (Attribute × Bytes)) :
    recordsSize (as ++ bs) = recordsSize as + recordsSize bs := by
  simp [recordsSize]

theorem recordsSize_ite {c : Prop} [Decidable c] (attr : Attribute) (value : Bytes) :
    recordsSize (if c then [(attr, value)] else []) =
      if c then 4 + (value.length + padding 4 value.length) else 0 := by
  by_cases h : c <;> simp [h, recordsSize]

theorem Carries.nil : Carries [] [] := rfl

theorem Carries.append {rs ss : List (Record 4)} {as bs : List (Attribute × Bytes)}
    (h : Carries rs as) (h' : Carries ss bs) : Carries (rs ++ ss) (as ++ bs) := by
  simp only [Carries, List.map_append]
  rw [h, h']

theorem Carries.encode_length {rs : List (Record 4)} {as : List (Attribute × Bytes)}
    (h : Carries rs as) : (encode rs).length = recordsSize as := by
  induction rs generalizing as with
  | nil =>
    cases as with
    | nil => rfl
    | cons a as => cases h
  | cons r rs ih =>
    cases as with
    | nil => cases h
    | cons a as =>
      obtain ⟨hhead, htail⟩ := List.cons.inj h
      have hvalue : r.value = a.2 := congrArg Prod.snd hhead
      have hrec := ih htail
      simp only [encode_cons, List.length_append, Record.bytes_length, Record.size, hvalue, hrec,
        recordsSize, List.map_cons, List.sum_cons]

/-- `f` writes records for these attributes behind what is there. -/
def Appends (tid : Block 12) (f : Output → Mem Output) (attrs : List (Attribute × Bytes)) : Prop :=
  ∀ w rest, Headed tid w → recordsSize attrs ≤ rest.length →
    ∃ rs, Carries rs attrs ∧
      f { buffer := w ++ rest, pos := w.length } =
        .ok { buffer := (w ++ encode rs) ++ rest.drop (encode rs).length
              pos := (w ++ encode rs).length }

theorem Appends.bind {f g : Output → Mem Output} {as bs : List (Attribute × Bytes)}
    (hf : Appends tid f as) (hg : Appends tid g bs) :
    Appends tid (fun o => f o >>= g) (as ++ bs) := by
  intro w rest headed room
  rw [recordsSize_append] at room
  obtain ⟨rs, hrs, hfirst⟩ := hf w rest headed (by omega)
  have hlen := hrs.encode_length
  obtain ⟨ss, hss, hsecond⟩ := hg (w ++ encode rs) (rest.drop (encode rs).length)
    (headed.append _) (by rw [List.length_drop]; omega)
  refine ⟨rs ++ ss, hrs.append hss, ?_⟩
  simp only [hfirst, ok_bind]
  rw [hsecond]
  simp only [encode_append, List.append_assoc, List.drop_drop, List.length_append]

theorem appends_ite {c : Prop} [Decidable c] {f : Output → Mem Output}
    {as : List (Attribute × Bytes)} (hf : c → Appends tid f as) :
    Appends tid (fun o => if c then f o else return o) (if c then as else []) := by
  by_cases h : c
  · simpa only [if_pos h] using hf h
  · intro w rest _ _
    refine ⟨[], by simpa only [if_neg h] using Carries.nil, ?_⟩
    simp [if_neg h]

/-- One attribute becomes one record, padded with what lies behind its value. -/
theorem putAttribute_record (attr : Attribute) {length : UInt16} {value : Bytes}
    {write : Bytes → Nat → Mem Bytes} {paddedLen : Nat} (hw : Writes tid write value)
    (hlen : length.toNat = value.length) (hpad : paddedLen = value.length + padding 4 value.length)
    {w : Bytes} (rest : Bytes) (headed : Headed tid w) (room : 4 + paddedLen ≤ rest.length) :
    ∃ r : Record 4, (r.type = attr.code ∧ r.value = value) ∧
      r.pad = (rest.drop (4 + value.length)).take (padding 4 value.length) ∧
      putAttribute attr length write paddedLen { buffer := w ++ rest, pos := w.length } =
        .ok { buffer := (w ++ r.bytes) ++ rest.drop r.size, pos := (w ++ r.bytes).length } := by
  have hlength : length = UInt16.ofNat value.length := by rw [← hlen, UInt16.ofNat_toNat]
  have htype : Byte.set2Bytes (w ++ rest) w.length attr.code =
      .ok ((w ++ be16 attr.code) ++ rest.drop 2) := by
    rw [Byte.set2Bytes_eq (by rw [List.length_append]; omega)]
    exact storeBytes_behind w rest (be16 attr.code) rfl (by rw [be16_length]; omega)
  have hdeclared : Byte.set2Bytes ((w ++ be16 attr.code) ++ rest.drop 2) (w.length + 2) length =
      .ok ((w ++ be16 attr.code ++ be16 length) ++ rest.drop 4) := by
    rw [Byte.set2Bytes_eq (by simp; omega),
      storeBytes_behind (w ++ be16 attr.code) (rest.drop 2) (be16 length) (by simp)
        (by simp; omega), List.drop_drop, be16_length]
  have hvalue := hw (w ++ be16 attr.code ++ be16 length) (rest.drop 4) (w.length + 4)
    ((headed.append _).append _) (by simp) (by rw [List.length_drop]; omega)
  let r : Record 4 :=
    { type := attr.code, value := value
      pad := (rest.drop (4 + value.length)).take (padding 4 value.length)
      value_lt := by rw [← hlen]; exact length.toNat_lt
      pad_length := by rw [List.length_take, List.length_drop]; omega }
  have hsplit : rest.drop (4 + value.length) = r.pad ++ rest.drop r.size := by
    have hcut := List.take_append_drop (padding 4 value.length) (rest.drop (4 + value.length))
    rw [List.drop_drop] at hcut
    simpa only [r, Record.size, Nat.add_assoc] using hcut.symm
  refine ⟨r, ⟨rfl, rfl⟩, rfl, ?_⟩
  simp only [putAttribute, htype, ok_bind, hdeclared, hvalue, pure_ok, List.drop_drop, hsplit,
    Record.bytes_length, List.length_append]
  simp only [Record.bytes, Record.size, List.append_assoc, hlength, hpad, r]

theorem appends_attribute {attr : Attribute} {length : UInt16} {value : Bytes}
    {write : Bytes → Nat → Mem Bytes} {paddedLen : Nat} (hw : Writes tid write value)
    (hlen : length.toNat = value.length)
    (hpad : paddedLen = value.length + padding 4 value.length) :
    Appends tid (putAttribute attr length write paddedLen) [(attr, value)] := by
  intro w rest headed room
  obtain ⟨r, ⟨htype, hvalue⟩, _, hput⟩ := putAttribute_record attr hw hlen hpad rest headed
    (by simpa [recordsSize, hpad] using room)
  refine ⟨[r], by simp [Carries, htype, hvalue], ?_⟩
  simpa using hput

/-- The attributes in front of the trailers, in the order of the source. -/
def attributes (s : Stun) : List (Attribute × Bytes) :=
  (if s.usernamePaddedLen ≠ 0 then [(.username, s.username)] else []) ++
    (if s.priority ≠ 0 then [(.priority, be32 s.priority)] else []) ++
    (if s.iceControlling ≠ 0 then [(.iceControlling, be64 s.iceControlling)] else []) ++
    (if s.iceControlled ≠ 0 then [(.iceControlled, be64 s.iceControlled)] else []) ++
    (if s.hasUseCandidate then [(.useCandidate, [])] else []) ++
    (if s.addXorMappedAddress then
      [(.xorMappedAddress, xorAddress s.transactionId s.xorMappedAddress)] else []) ++
    (if s.addErrorCode then
      [(.errorCode, be16 0 ++ [codeClass s.errorCode, codeNumber s.errorCode])] else [])

/-- A username that still has a padded length in sixteen bits. -/
theorem usernamePaddedLen_toNat {s : Stun} (short : s.username.length ≤ 65532) :
    s.usernamePaddedLen.toNat = s.username.length + padding 4 s.username.length := by
  simp only [usernamePaddedLen]
  have hlen : (UInt16.ofNat s.username.length).toNat = s.username.length :=
    UInt16.toNat_ofNat_of_lt' (show _ < 65536 by omega)
  by_cases h : s.username = []
  · simp [h, padding]
  · rw [if_pos h, Byte.padTo4Bytes_toNat (by omega), hlen]

theorem usernamePaddedLen_ne_zero {s : Stun} (short : s.username.length ≤ 65532) :
    s.usernamePaddedLen ≠ 0 ↔ s.username ≠ [] := by
  have hlen := usernamePaddedLen_toNat short
  constructor
  · intro h hempty
    apply h
    apply UInt16.toNat_inj.mp
    rw [hlen, hempty]
    rfl
  · intro h hzero
    have hpos := List.length_pos_iff.mpr h
    rw [hzero] at hlen
    simp at hlen
    omega

theorem xorMappedAddress_length {s : Stun} (tid : Block 12) (h : s.addXorMappedAddress = true) :
    s.xorMappedAddressPaddedLen.toNat = (xorAddress tid s.xorMappedAddress).length ∧
      s.xorMappedAddressPaddedLen.toNat = (xorAddress tid s.xorMappedAddress).length +
        padding 4 (xorAddress tid s.xorMappedAddress).length := by
  have hcookie : magicCookie.toList.length = 4 := rfl
  match haddr : s.xorMappedAddress with
  | none => simp [addXorMappedAddress, haddr] at h
  | some (.other _) => simp [addXorMappedAddress, haddr] at h
  | some (.inet a) =>
    simp [xorMappedAddressPaddedLen, h, haddr, xorAddress, padding, a.sinPort.property,
      a.sinAddr.property, hcookie]
  | some (.inet6 a) =>
    simp [xorMappedAddressPaddedLen, h, haddr, xorAddress, padding, a.sin6Port.property,
      a.sin6Addr.property, hcookie, tid.property]

/-- The attributes behind USERNAME, and their writers. -/
def laterAttributes (s : Stun) : List (Attribute × Bytes) :=
  (if s.priority ≠ 0 then [(.priority, be32 s.priority)] else []) ++
    (if s.iceControlling ≠ 0 then [(.iceControlling, be64 s.iceControlling)] else []) ++
    (if s.iceControlled ≠ 0 then [(.iceControlled, be64 s.iceControlled)] else []) ++
    (if s.hasUseCandidate then [(.useCandidate, [])] else []) ++
    (if s.addXorMappedAddress then
      [(.xorMappedAddress, xorAddress s.transactionId s.xorMappedAddress)] else []) ++
    (if s.addErrorCode then
      [(.errorCode, be16 0 ++ [codeClass s.errorCode, codeNumber s.errorCode])] else [])

def putLaterAttributes (s : Stun) (o : Output) : Mem Output :=
  putPriority s o >>= putIceControlling s >>= putIceControlled s >>= putUseCandidate s >>=
    putXorMappedAddress s >>= putErrorCode s

theorem attributes_eq (s : Stun) :
    s.attributes =
      (if s.usernamePaddedLen ≠ 0 then [(.username, s.username)] else []) ++
        s.laterAttributes := by
  simp only [attributes, laterAttributes, List.append_assoc]

theorem putAttributes_eq (s : Stun) :
    putAttributes s = fun o => putUsername s o >>= putLaterAttributes s := by
  funext o
  have hlater : putLaterAttributes s = fun o => putLaterAttributes s o := rfl
  rw [hlater]
  simp only [putAttributes, putLaterAttributes, bind_assoc]

theorem appends_laterAttributes (s : Stun) :
    Appends s.transactionId (putLaterAttributes s) s.laterAttributes := by
  have priority : Appends s.transactionId (putPriority s) _ :=
    appends_ite fun _ => appends_attribute
      (writes_of_eq fun _ _ h => Byte.set4Bytes_eq h s.priority) rfl (by simp [padding])
  have iceControlling : Appends s.transactionId (putIceControlling s) _ :=
    appends_ite fun _ => appends_attribute
      (writes_of_eq fun _ _ h => Byte.set8Bytes_eq h s.iceControlling) rfl (by simp [padding])
  have iceControlled : Appends s.transactionId (putIceControlled s) _ :=
    appends_ite fun _ => appends_attribute
      (writes_of_eq fun _ _ h => Byte.set8Bytes_eq h s.iceControlled) rfl (by simp [padding])
  have useCandidate : Appends s.transactionId (putUseCandidate s) _ :=
    appends_ite fun _ => appends_attribute writes_nothing rfl (by simp [padding])
  have xorMappedAddress : Appends s.transactionId (putXorMappedAddress s) _ :=
    appends_ite fun h => appends_attribute (writes_xorMappedAddress s.xorMappedAddress)
      (xorMappedAddress_length s.transactionId h).1 (xorMappedAddress_length s.transactionId h).2
  have errorCode : Appends s.transactionId (putErrorCode s) _ :=
    appends_ite fun _ => appends_attribute (writes_errorCode s.errorCode) rfl
      (by simp [padding])
  exact ((((priority.bind iceControlling).bind iceControlled).bind useCandidate).bind
    xorMappedAddress).bind errorCode

/-- A username that is left out may be of any length. -/
theorem appends_attributes {s : Stun}
    (named : s.usernamePaddedLen ≠ 0 → s.username.length ≤ 65532) :
    Appends s.transactionId (putAttributes s) s.attributes := by
  have username : Appends s.transactionId (putUsername s) _ :=
    appends_ite fun h => appends_attribute (writes_storeBytes s.username)
      (UInt16.toNat_ofNat_of_lt' (show _ < 65536 by have := named h; omega))
      (usernamePaddedLen_toNat (named h))
  rw [attributes_eq, putAttributes_eq]
  exact username.bind (appends_laterAttributes s)

/-! ## The whole message -/

theorem lengthField {n : Nat} (h : 20 ≤ n) : UInt16.ofNat n - 20 = UInt16.ofNat (n - 20) := by
  rw [UInt16.ofNat_sub h]
  rfl

def header (s : Stun) : Bytes :=
  be16 s.typeField ++ (be16 (UInt16.ofNat (s.serializedSize - 20)) ++
    (magicCookie.toList ++ s.transactionId.val))

theorem header_length (s : Stun) : s.header.length = 20 := by
  have hcookie : magicCookie.toList.length = 4 := rfl
  simp [header, s.transactionId.property, hcookie]

theorem header_take (s : Stun) (rs ss : List (Record 4)) :
    (s.header ++ encode (rs ++ ss)).take (20 + (encode rs).length) = s.header ++ encode rs := by
  rw [encode_append, ← List.append_assoc]
  exact List.take_left' (by rw [List.length_append, header_length s])

theorem header_headed (s : Stun) : Headed s.transactionId s.header :=
  ⟨be16 s.typeField ++ (be16 (UInt16.ofNat (s.serializedSize - 20)) ++ magicCookie.toList), [],
    by simp [header], rfl⟩

theorem serializedSize_ge (s : Stun) : 28 ≤ s.serializedSize := by
  simp only [serializedSize]
  omega

/-- Everything but the username has a small bound. -/
theorem serializedSize_le (s : Stun) :
    s.serializedSize ≤ 120 + if s.username ≠ [] then 4 + s.usernamePaddedLen.toNat else 0 := by
  have haddress : (if s.addXorMappedAddress then 4 + s.xorMappedAddressPaddedLen.toNat else 0) ≤
      24 := by
    unfold xorMappedAddressPaddedLen
    split_ifs
    · split <;> simp
    · omega
  have hterm : ∀ (c : Prop) [Decidable c] (n : Nat), (if c then n else 0) ≤ n := by
    intro c _ n
    split_ifs <;> omega
  have hpriority := hterm (s.priority ≠ 0) (4 + 4)
  have hcontrolling := hterm (s.iceControlling ≠ 0) (4 + 8)
  have hcontrolled := hterm (s.iceControlled ≠ 0) (4 + 8)
  have hcandidate := hterm (s.hasUseCandidate = true) 4
  have herror := hterm (s.addErrorCode = true) (4 + 4)
  have hintegrity := hterm (s.addMessageIntegrity = true) (4 + 20)
  unfold serializedSize
  omega

theorem putHeader_eq (s : Stun) {buffer : Bytes} (room : 20 ≤ buffer.length) :
    putHeader s buffer = .ok { buffer := s.header ++ buffer.drop 20, pos := 20 } := by
  have hsize := serializedSize_ge s
  have htid := s.transactionId.property
  have hcookie : magicCookie.toList.length = 4 := rfl
  have htype : Byte.set2Bytes buffer 0 s.typeField = .ok (be16 s.typeField ++ buffer.drop 2) := by
    rw [Byte.set2Bytes_eq (by omega)]
    exact storeBytes_behind [] buffer (be16 s.typeField) rfl (by rw [be16_length]; omega)
  have hlength := Byte.set2Bytes_eq (m := be16 s.typeField ++ buffer.drop 2) (i := 2)
    (by simp; omega) (UInt16.ofNat (s.serializedSize - 20))
  rw [storeBytes_behind (be16 s.typeField) (buffer.drop 2) _ (i := 2) rfl (by simp; omega),
    List.drop_drop] at hlength
  have hmagic := storeBytes_behind
    (be16 s.typeField ++ be16 (UInt16.ofNat (s.serializedSize - 20))) (buffer.drop 4)
    magicCookie.toList (i := 4) rfl (by simp [hcookie]; omega)
  have hlast := storeBytes_behind
    (be16 s.typeField ++ be16 (UInt16.ofNat (s.serializedSize - 20)) ++ magicCookie.toList)
    (buffer.drop 8) s.transactionId.val (i := 8) rfl (by rw [htid, List.length_drop]; omega)
  simp only [be16_length, hcookie, htid, List.drop_drop, Nat.reduceAdd] at hlength hmagic hlast
  simp only [putHeader, htype, ok_bind, lengthField (show 20 ≤ s.serializedSize by omega), hlength,
    hmagic, hlast, pure_ok]
  simp only [header, List.append_assoc]

/-- What is signed: everything in front of the signature, under a length field
that ends right behind it. -/
def signedText (s : Stun) (body : Bytes) : Bytes :=
  be16 s.typeField ++ (be16 (UInt16.ofNat (s.serializedSize - 28)) ++
    (magicCookie.toList ++ s.transactionId.val)) ++ body

variable (hmac : Bytes → Bytes → Block 20)

def integrity (s : Stun) (body : Bytes) : List (Attribute × Bytes) :=
  if s.addMessageIntegrity then
    [(.messageIntegrity, (hmac s.password (s.signedText body)).val)] else []

theorem integrity_mem {s : Stun} {body : Bytes} {a : Attribute × Bytes}
    (h : a ∈ s.integrity hmac body) : a.1 = .messageIntegrity ∧ a.2.length = 20 := by
  unfold integrity at h
  split_ifs at h with hc
  · rw [List.mem_singleton.mp h]
    exact ⟨rfl, (hmac s.password (s.signedText body)).property⟩
  · cases h

theorem recordsSize_integrity (s : Stun) (body : Bytes) :
    recordsSize (s.integrity hmac body) = if s.addMessageIntegrity then 4 + 20 else 0 := by
  rw [integrity, recordsSize_ite, (hmac s.password (s.signedText body)).property]
  simp [padding]

/-- Rewriting the length field in front of whatever follows it. -/
theorem set2Bytes_length (t old new : UInt16) (rest : Bytes) :
    Byte.set2Bytes (be16 t ++ (be16 old ++ rest)) 2 new = .ok (be16 t ++ (be16 new ++ rest)) := by
  rw [Byte.set2Bytes_eq (by simp; omega)]
  exact storeBytes_window (be16 t) (be16 old) rest (be16 new) rfl rfl

theorem putMessageIntegrity_eq (s : Stun) (body rest : Bytes)
    (room : recordsSize (s.integrity hmac body) ≤ rest.length) :
    ∃ ms, Carries ms (s.integrity hmac body) ∧
      putMessageIntegrity hmac s
          { buffer := (s.header ++ body) ++ rest, pos := (s.header ++ body).length } =
        .ok ({ buffer := (s.header ++ body ++ encode ms) ++ rest.drop (encode ms).length
               pos := (s.header ++ body ++ encode ms).length },
          if s.addMessageIntegrity then some (20 + body.length + 4) else none) := by
  unfold integrity at room ⊢
  by_cases h : s.addMessageIntegrity = true
  · rw [if_pos h] at room
    have hsigned : Byte.set2Bytes ((s.header ++ body) ++ rest) 2
        (UInt16.ofNat (s.serializedSize - 20 - 8)) = .ok (s.signedText body ++ rest) := by
      have hset := set2Bytes_length s.typeField (UInt16.ofNat (s.serializedSize - 20))
        (UInt16.ofNat (s.serializedSize - 20 - 8))
        (magicCookie.toList ++ (s.transactionId.val ++ (body ++ rest)))
      simpa only [header, signedText, List.append_assoc, Nat.sub_sub, Nat.reduceAdd] using hset
    have hlen : (s.header ++ body).length = (s.signedText body).length := by
      simp [header, signedText]
    have htext : loadBytes (s.signedText body ++ rest) 0 (s.signedText body).length =
        .ok (s.signedText body) := loadBytes_window [] (s.signedText body) rest rfl rfl
    have headed : Headed s.transactionId (s.signedText body) :=
      ⟨be16 s.typeField ++ (be16 (UInt16.ofNat (s.serializedSize - 28)) ++ magicCookie.toList),
        body, by simp [signedText], rfl⟩
    have happends : Appends s.transactionId
        (putAttribute .messageIntegrity 20
          (fun b i => storeBytes b i (hmac s.password (s.signedText body)).val) 20)
        [(.messageIntegrity, (hmac s.password (s.signedText body)).val)] :=
      appends_attribute (writes_storeBytes _) (hmac s.password (s.signedText body)).property.symm
        (by simp [(hmac s.password (s.signedText body)).property, padding])
    obtain ⟨ms, hms, hput⟩ := happends (s.signedText body) rest headed room
    have hrestored : Byte.set2Bytes
        ((s.signedText body ++ encode ms) ++ rest.drop (encode ms).length) 2
        (UInt16.ofNat (s.serializedSize - 20)) =
        .ok ((s.header ++ body ++ encode ms) ++ rest.drop (encode ms).length) := by
      have hset := set2Bytes_length s.typeField (UInt16.ofNat (s.serializedSize - 28))
        (UInt16.ofNat (s.serializedSize - 20))
        (magicCookie.toList ++ (s.transactionId.val ++
          (body ++ (encode ms ++ rest.drop (encode ms).length))))
      simpa only [header, signedText, List.append_assoc] using hset
    refine ⟨ms, by rw [if_pos h]; exact hms, ?_⟩
    have hpos : (s.signedText body).length = 20 + body.length := by
      rw [← hlen, List.length_append, header_length]
    simp only [putMessageIntegrity, if_pos h, hlen, hsigned, ok_bind, htext, hput, hrestored,
      pure_ok]
    simp only [List.length_append, header_length, hpos]
  · refine ⟨[], by simpa only [if_neg h] using Carries.nil, ?_⟩
    simp [putMessageIntegrity, if_neg h]

theorem Carries.fingerprint_length {fps : List (Record 4)} {v : UInt32}
    (h : Carries fps [(.fingerprint, be32 v)]) : (encode fps).length = 8 := by
  rw [h.encode_length]
  simp [recordsSize, padding]

theorem putFingerprint_eq (w rest : Bytes) (headed : Headed tid w) (room : 8 ≤ rest.length) :
    ∃ fps, Carries fps [(.fingerprint, be32 (Crypto.crc32 w ^^^ 0x5354554e))] ∧
      putFingerprint { buffer := w ++ rest, pos := w.length } =
        .ok { buffer := (w ++ encode fps) ++ rest.drop (encode fps).length
              pos := (w ++ encode fps).length } := by
  have hcrc : Crypto.getCRC32 (w ++ rest) w.length = .ok (Crypto.crc32 w) := by
    rw [Crypto.getCRC32_eq (by simp), List.take_left]
  have happends : Appends tid
      (putAttribute .fingerprint 4
        (fun b i => Byte.set4Bytes b i (Crypto.crc32 w ^^^ 0x5354554e)) 4)
      [(.fingerprint, be32 (Crypto.crc32 w ^^^ 0x5354554e))] :=
    appends_attribute (writes_of_eq fun _ _ h => Byte.set4Bytes_eq h _) rfl (by simp [padding])
  obtain ⟨fps, hfps, hput⟩ :=
    happends w rest headed (by simpa [recordsSize, padding] using room)
  exact ⟨fps, hfps, by simp only [putFingerprint, hcrc, ok_bind, hput]⟩

/-- The announced size is the sum of what is written, but for a USERNAME that is announced
and left out. -/
theorem serializedSize_attributes {s : Stun}
    (named : s.usernamePaddedLen ≠ 0 → s.username.length ≤ 65532) (body : Bytes) :
    s.serializedSize =
      20 + recordsSize s.attributes + recordsSize (s.integrity hmac body) + 8 +
        if s.username ≠ [] ∧ s.usernamePaddedLen = 0 then 4 else 0 := by
  have hused : (if s.username ≠ [] then 4 + s.usernamePaddedLen.toNat else 0) =
      (if s.usernamePaddedLen ≠ 0 then 4 + (s.username.length + padding 4 s.username.length)
      else 0) + if s.username ≠ [] ∧ s.usernamePaddedLen = 0 then 4 else 0 := by
    by_cases hpad : s.usernamePaddedLen = 0
    · by_cases hname : s.username = [] <;> simp [hpad, hname]
    · have hname := (usernamePaddedLen_ne_zero (named hpad)).mp hpad
      simp [hpad, hname, usernamePaddedLen_toNat (named hpad)]
  have haddress : (if s.addXorMappedAddress then 4 + s.xorMappedAddressPaddedLen.toNat else 0) =
      if s.addXorMappedAddress then
        4 + ((xorAddress s.transactionId s.xorMappedAddress).length +
          padding 4 (xorAddress s.transactionId s.xorMappedAddress).length)
      else 0 := by
    by_cases h : s.addXorMappedAddress = true
    · rw [if_pos h, if_pos h, ← (xorMappedAddress_length s.transactionId h).2]
    · rw [if_neg h, if_neg h]
  simp only [serializedSize, hused, haddress, attributes, recordsSize_integrity,
    recordsSize_append, recordsSize_ite, be32_length, be64_length, be16_length,
    List.length_append, List.length_cons, List.length_nil, padding]
  simp only [Nat.reduceAdd, Nat.reduceMod, Nat.reduceSub]
  omega

theorem serializedSize_eq {s : Stun} (short : s.username.length ≤ 65532) (body : Bytes) :
    s.serializedSize =
      20 + recordsSize s.attributes + recordsSize (s.integrity hmac body) + 8 := by
  have hnone : ¬ (s.username ≠ [] ∧ s.usernamePaddedLen = 0) := fun h =>
    (usernamePaddedLen_ne_zero short).mpr h.1 h.2
  rw [serializedSize_attributes hmac (fun _ => short) body, if_neg hnone, Nat.add_zero]

/-- The message a serialized object points to, split into records. -/
structure Serialized (s out : Stun) (rs ms fps : List (Record 4)) : Prop where
  bytes : out.data.take out.size = s.header ++ encode (rs ++ (ms ++ fps))
  attributes : Carries rs s.attributes
  integrity : Carries ms (s.integrity hmac (encode rs))
  fingerprint : Carries fps
    [(.fingerprint, be32 (Crypto.crc32 (s.header ++ encode (rs ++ ms)) ^^^ 0x5354554e))]
  object : out = { s with
    data := out.data, size := s.serializedSize
    messageIntegrity := if s.addMessageIntegrity then some (20 + (encode rs).length + 4) else none
    hasFingerprint := true }

/-- What the writing pass leaves behind: the message, the rest of the buffer and the end
of the message as its last position. -/
theorem writingPass_eq {s : Stun} {buffer : Bytes} {rs : List (Record 4)}
    (hattributes : putAttributes s { buffer := s.header ++ buffer.drop 20, pos := 20 } =
      .ok { buffer := (s.header ++ encode rs) ++ (buffer.drop 20).drop (encode rs).length
            pos := (s.header ++ encode rs).length })
    (room : 20 + (encode rs).length + recordsSize (s.integrity hmac (encode rs)) + 8 ≤
      buffer.length) :
    ∃ ms fps, Carries ms (s.integrity hmac (encode rs)) ∧
      Carries fps
        [(.fingerprint, be32 (Crypto.crc32 (s.header ++ encode (rs ++ ms)) ^^^ 0x5354554e))] ∧
      writingPass hmac s buffer =
        .ok ({ buffer := (s.header ++ encode (rs ++ (ms ++ fps))) ++
                 buffer.drop (s.header ++ encode (rs ++ (ms ++ fps))).length
               pos := (s.header ++ encode (rs ++ (ms ++ fps))).length },
          if s.addMessageIntegrity then some (20 + (encode rs).length + 4) else none) := by
  have hheader := header_length s
  have hput : putHeader s buffer = .ok { buffer := s.header ++ buffer.drop 20, pos := 20 } :=
    putHeader_eq s (by omega)
  obtain ⟨ms, hms, hintegrity⟩ := putMessageIntegrity_eq hmac s (encode rs)
    ((buffer.drop 20).drop (encode rs).length) (by simp only [List.length_drop]; omega)
  have hmlen := hms.encode_length
  obtain ⟨fps, hfps, hfingerprint⟩ := putFingerprint_eq (s.header ++ encode rs ++ encode ms)
    (((buffer.drop 20).drop (encode rs).length).drop (encode ms).length)
    (((header_headed s).append _).append _) (by simp only [List.length_drop]; omega)
  refine ⟨ms, fps, hms, by simpa only [encode_append, List.append_assoc] using hfps, ?_⟩
  simp only [writingPass, hput, ok_bind, hattributes, hintegrity, hfingerprint, pure_ok]
  simp only [encode_append, List.append_assoc, List.drop_drop, List.length_append, hheader,
    Nat.add_assoc]

/-- `serialize` succeeds on a large enough buffer and writes this message. -/
theorem serialize_of_attributes {s : Stun} {buffer : Bytes} {rs : List (Record 4)}
    (short : s.username.length ≤ 65532) (room : s.serializedSize ≤ buffer.length)
    (hrs : Carries rs s.attributes)
    (hattributes : putAttributes s { buffer := s.header ++ buffer.drop 20, pos := 20 } =
      .ok { buffer := (s.header ++ encode rs) ++ (buffer.drop 20).drop (encode rs).length
            pos := (s.header ++ encode rs).length }) :
    ∃ out ms fps, serialize hmac s buffer = .ok out ∧ Serialized hmac s out rs ms fps := by
  have hlen := hrs.encode_length
  have hsize := serializedSize_eq hmac short (encode rs)
  obtain ⟨ms, fps, hms, hfps, hpass⟩ := writingPass_eq hmac hattributes (by omega)
  have htotal : s.serializedSize = (s.header ++ encode (rs ++ (ms ++ fps))).length := by
    have hmlen := hms.encode_length
    have hflen := hfps.fingerprint_length
    simp only [encode_append, List.length_append, header_length]
    omega
  refine ⟨_, ms, fps, by rw [serialize_eq, hpass]; rfl, ?_⟩
  refine { bytes := ?_, attributes := hrs, integrity := hms, fingerprint := hfps, object := rfl }
  simp only [htotal, List.take_left]

theorem serialize_serialized {s : Stun} {buffer : Bytes} (short : s.username.length ≤ 65532)
    (room : s.serializedSize ≤ buffer.length) :
    ∃ out rs ms fps, serialize hmac s buffer = .ok out ∧ Serialized hmac s out rs ms fps := by
  have hheader := header_length s
  have hsize := serializedSize_eq hmac short []
  obtain ⟨rs, hrs, hattributes⟩ := appends_attributes (fun _ => short) s.header (buffer.drop 20)
    (header_headed s) (by rw [List.length_drop]; omega)
  rw [hheader] at hattributes
  obtain ⟨out, ms, fps, hout, hser⟩ := serialize_of_attributes hmac short room hrs hattributes
  exact ⟨out, rs, ms, fps, hout, hser⟩

end Stun

end Sars
