import Sars.StunRecords

/-!
# Serializing a STUN message

`Stun::Serialize` in the order of the source: the size pass, the header, the
attributes and the two trailers. The key function of the signature is a
parameter. An attribute is one call of `putAttribute`; what it writes behind the
bytes already there is a record of the framing, padded with whatever the buffer
held before.
-/

namespace Sars

open ByteMemory NetworkOrder TlvFraming

namespace Stun

/-! ## The size pass -/

def usernamePaddedLen (s : Stun) : UInt16 :=
  if s.username ≠ [] then Byte.padTo4Bytes (UInt16.ofNat s.username.length) else 0

/-- An address of another family than the two falls to `default` and is not added. -/
def addXorMappedAddress (s : Stun) : Bool :=
  match s.xorMappedAddress with
  | none => false
  | some (.other _) => false
  | some _ => decide (s.method = Method.binding ∧ s.klass = .successResponse)

def xorMappedAddressPaddedLen (s : Stun) : UInt16 :=
  if s.addXorMappedAddress then
    match s.xorMappedAddress with
    | some (.inet _) => 8
    | some (.inet6 _) => 20
    | _ => 0
  else 0

def addErrorCode (s : Stun) : Bool := decide (s.errorCode ≠ 0 ∧ s.klass = .errorResponse)

def addMessageIntegrity (s : Stun) : Bool :=
  decide (s.klass ≠ .errorResponse ∧ s.password ≠ [])

/-- The required size of the entire packet; the FINGERPRINT is always added. -/
def serializedSize (s : Stun) : Nat :=
  20 + (if s.username ≠ [] then 4 + s.usernamePaddedLen.toNat else 0) +
    (if s.priority ≠ 0 then 4 + 4 else 0) + (if s.iceControlling ≠ 0 then 4 + 8 else 0) +
    (if s.iceControlled ≠ 0 then 4 + 8 else 0) + (if s.hasUseCandidate then 4 else 0) +
    (if s.addXorMappedAddress then 4 + s.xorMappedAddressPaddedLen.toNat else 0) +
    (if s.addErrorCode then 4 + 4 else 0) + (if s.addMessageIntegrity then 4 + 20 else 0) +
    (4 + 4)

def typeField (s : Stun) : UInt16 :=
  ((s.method &&& (0x0f80 : UInt16)) <<< 2) ||| ((s.method &&& (0x0070 : UInt16)) <<< 1) |||
    (s.method &&& (0x000f : UInt16)) ||| ((s.klass.toUInt16 &&& (0x02 : UInt16)) <<< 7) |||
    ((s.klass.toUInt16 &&& (0x01 : UInt16)) <<< 4)

/-! ## The writing pass -/

structure Output where
  buffer : Bytes
  pos : Nat

def putHeader (s : Stun) (buffer : Bytes) : Mem Output := do
  let b ← Byte.set2Bytes buffer 0 s.typeField
  let b ← Byte.set2Bytes b 2 (UInt16.ofNat s.serializedSize - 20)
  let b ← storeBytes b 4 magicCookie.toList
  let b ← storeBytes b 8 s.transactionId.val
  return { buffer := b, pos := 20 }

/-- Type, length, value and the step over the padded value. -/
def putAttribute (attr : Attribute) (length : UInt16) (write : Bytes → Nat → Mem Bytes)
    (paddedLen : Nat) (o : Output) : Mem Output := do
  let b ← Byte.set2Bytes o.buffer o.pos attr.code
  let b ← Byte.set2Bytes b (o.pos + 2) length
  let b ← write b (o.pos + 4)
  return { buffer := b, pos := o.pos + (4 + paddedLen) }

def putUsername (s : Stun) (o : Output) : Mem Output :=
  if s.usernamePaddedLen ≠ 0 then
    putAttribute .username (UInt16.ofNat s.username.length)
      (fun b i => storeBytes b i s.username) s.usernamePaddedLen.toNat o
  else return o

def putPriority (s : Stun) (o : Output) : Mem Output :=
  if s.priority ≠ 0 then
    putAttribute .priority 4 (fun b i => Byte.set4Bytes b i s.priority) 4 o
  else return o

def putIceControlling (s : Stun) (o : Output) : Mem Output :=
  if s.iceControlling ≠ 0 then
    putAttribute .iceControlling 8 (fun b i => Byte.set8Bytes b i s.iceControlling) 8 o
  else return o

def putIceControlled (s : Stun) (o : Output) : Mem Output :=
  if s.iceControlled ≠ 0 then
    putAttribute .iceControlled 8 (fun b i => Byte.set8Bytes b i s.iceControlled) 8 o
  else return o

def putUseCandidate (s : Stun) (o : Output) : Mem Output :=
  if s.hasUseCandidate then putAttribute .useCandidate 0 (fun b _ => return b) 0 o
  else return o

/-- XOR the bytes from `i` on with the bytes given. -/
def xorBytes (b : Bytes) (i : Nat) : Bytes → Mem Bytes
  | [] => return b
  | m :: mask => do
    let x ← load b i
    let b ← store b i (x ^^^ m)
    xorBytes b (i + 1) mask

/-- XOR `n` bytes from `i` on with those from `j` on of the same buffer. -/
def xorWithin (b : Bytes) (i j : Nat) : Nat → Mem Bytes
  | 0 => return b
  | n + 1 => do
    let x ← load b i
    let m ← load b j
    let b ← store b i (x ^^^ m)
    xorWithin b (i + 1) (j + 1) n

/-- The value of the attribute. The transaction id is read from the header. -/
def writeXorMappedAddress (address : Option Sockaddr) (b : Bytes) (attrValue : Nat) : Mem Bytes :=
  match address with
  | some (.inet a) => do
    let b ← store b attrValue 0
    let b ← store b (attrValue + 1) 0x01
    let b ← storeBytes b (attrValue + 2) a.sinPort.val
    let b ← xorBytes b (attrValue + 2) portMask
    let b ← storeBytes b (attrValue + 4) a.sinAddr.val
    xorBytes b (attrValue + 4) magicCookie.toList
  | some (.inet6 a) => do
    let b ← store b attrValue 0
    let b ← store b (attrValue + 1) 0x02
    let b ← storeBytes b (attrValue + 2) a.sin6Port.val
    let b ← xorBytes b (attrValue + 2) portMask
    let b ← storeBytes b (attrValue + 4) a.sin6Addr.val
    let b ← xorBytes b (attrValue + 4) magicCookie.toList
    xorWithin b (attrValue + 8) 8 12
  | _ => return b

def putXorMappedAddress (s : Stun) (o : Output) : Mem Output :=
  if s.addXorMappedAddress then
    putAttribute .xorMappedAddress s.xorMappedAddressPaddedLen
      (writeXorMappedAddress s.xorMappedAddress) s.xorMappedAddressPaddedLen.toNat o
  else return o

/-- Both parts are computed in eight bits; the difference wraps and wraps back. -/
def codeClass (errorCode : UInt16) : UInt8 := (errorCode / 100).toUInt8

def codeNumber (errorCode : UInt16) : UInt8 := errorCode.toUInt8 - codeClass errorCode * 100

def writeErrorCode (errorCode : UInt16) (b : Bytes) (i : Nat) : Mem Bytes := do
  let b ← Byte.set2Bytes b i 0
  let b ← Byte.set1Byte b (i + 2) (codeClass errorCode)
  Byte.set1Byte b (i + 3) (codeNumber errorCode)

def putErrorCode (s : Stun) (o : Output) : Mem Output :=
  if s.addErrorCode then putAttribute .errorCode 4 (writeErrorCode s.errorCode) 4 o
  else return o

/-- The attributes in front of the two trailers. -/
def putAttributes (s : Stun) (o : Output) : Mem Output :=
  putUsername s o >>= putPriority s >>= putIceControlling s >>= putIceControlled s >>=
    putUseCandidate s >>= putXorMappedAddress s >>= putErrorCode s

section

variable (hmac : Bytes → Bytes → Block 20)

/-- The signature is computed under a length field that leaves out the FINGERPRINT. -/
def putMessageIntegrity (s : Stun) (o : Output) : Mem (Output × Option Nat) :=
  if s.addMessageIntegrity then do
    let b ← Byte.set2Bytes o.buffer 2 (UInt16.ofNat (s.serializedSize - 20 - 8))
    let text ← loadBytes b 0 o.pos
    let o' ← putAttribute .messageIntegrity 20
      (fun b i => storeBytes b i (hmac s.password text).val) 20 { o with buffer := b }
    let b ← Byte.set2Bytes o'.buffer 2 (UInt16.ofNat (s.serializedSize - 20))
    return ({ o' with buffer := b }, some (o.pos + 4))
  else return (o, none)

def putFingerprint (o : Output) : Mem Output := do
  let crc ← Crypto.getCRC32 o.buffer o.pos
  putAttribute .fingerprint 4 (fun b i => Byte.set4Bytes b i (crc ^^^ 0x5354554e)) 4 o

/-- `Stun::Serialize`. The object keeps pointing into the buffer it was written to. -/
def serialize (s : Stun) (buffer : Bytes) : Mem Stun := do
  let o ← putHeader s buffer
  let o ← putAttributes s o
  let (o, messageIntegrity) ← putMessageIntegrity hmac s o
  let o ← putFingerprint o
  return { s with
    data := o.buffer, size := s.serializedSize, messageIntegrity := messageIntegrity,
    hasFingerprint := true }

/-- The writing pass with the position it ends at, which the object does not keep. -/
def writingPass (s : Stun) (buffer : Bytes) : Mem (Output × Option Nat) := do
  let o ← putHeader s buffer
  let o ← putAttributes s o
  let (o, messageIntegrity) ← putMessageIntegrity hmac s o
  let o ← putFingerprint o
  return (o, messageIntegrity)

theorem serialize_eq (s : Stun) (buffer : Bytes) :
    serialize hmac s buffer = writingPass hmac s buffer >>= fun r =>
      return { s with
        data := r.1.buffer, size := s.serializedSize, messageIntegrity := r.2,
        hasFingerprint := true } := by
  simp only [serialize, writingPass, bind_assoc, pure_bind]

end

end Stun

end Sars
