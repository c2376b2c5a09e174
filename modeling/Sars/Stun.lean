import Sars.Utils

/-!
# STUN messages

The message object of `Stun.h`: its class, method and attributes with the
defaults a fresh object has, and the test that tells a STUN datagram from other
traffic on the same port. Pointers into a buffer are offsets into `data`; a
pointer to twelve or twenty bytes that nobody overwrites is the block itself.
-/

namespace Sars

open ByteMemory NetworkOrder

inductive Stun.Class where
  | request
  | indication
  | successResponse
  | errorResponse
  deriving DecidableEq, Repr

/-- Any 16-bit number is a method; only one has a name. -/
abbrev Stun.Method := UInt16

inductive Stun.Attribute where
  | mappedAddress
  | username
  | messageIntegrity
  | errorCode
  | unknownAttributes
  | realm
  | nonce
  | xorMappedAddress
  | priority
  | useCandidate
  | software
  | alternateServer
  | fingerprint
  | iceControlled
  | iceControlling
  deriving DecidableEq, Repr

/-- Ports and addresses are kept as they lie in memory, in network order. -/
structure SockaddrIn where
  sinPort : Block 2
  sinAddr : Block 4
  deriving DecidableEq

structure SockaddrIn6 where
  sin6Port : Block 2
  sin6Addr : Block 16
  deriving DecidableEq

/-- A `sockaddr` is read according to its family. -/
inductive Sockaddr where
  | inet (addr : SockaddrIn)
  | inet6 (addr : SockaddrIn6)
  | other (saFamily : UInt16)
  deriving DecidableEq

structure Stun where
  klass : Stun.Class
  method : Stun.Method
  transactionId : Block 12
  data : Bytes
  size : Nat
  username : Bytes := []
  priority : UInt32 := 0
  iceControlling : UInt64 := 0
  iceControlled : UInt64 := 0
  hasUseCandidate : Bool := false
  messageIntegrity : Option Nat := none
  hasFingerprint : Bool := false
  xorMappedAddress : Option Sockaddr := none
  errorCode : UInt16 := 0
  password : Bytes := []
  deriving DecidableEq

namespace Stun

def Class.toUInt16 : Class → UInt16
  | .request => 0
  | .indication => 1
  | .successResponse => 2
  | .errorResponse => 3

/-- `static_cast<Class>` of the two class bits. -/
def Class.ofUInt16 (v : UInt16) : Class :=
  if v = 0 then .request
  else if v = 1 then .indication
  else if v = 2 then .successResponse
  else .errorResponse

def Method.binding : Method := 1

def Attribute.code : Attribute → UInt16
  | .mappedAddress => 0x0001
  | .username => 0x0006
  | .messageIntegrity => 0x0008
  | .errorCode => 0x0009
  | .unknownAttributes => 0x000A
  | .realm => 0x0014
  | .nonce => 0x0015
  | .xorMappedAddress => 0x0020
  | .priority => 0x0024
  | .useCandidate => 0x0025
  | .software => 0x8022
  | .alternateServer => 0x8023
  | .fingerprint => 0x8028
  | .iceControlled => 0x8029
  | .iceControlling => 0x802A

/-- `static_cast<Attribute>`; a number without a name falls to `default`. -/
def Attribute.ofUInt16 (v : UInt16) : Option Attribute :=
  [mappedAddress, username, messageIntegrity, errorCode, unknownAttributes, realm, nonce,
    xorMappedAddress, priority, useCandidate, software, alternateServer, fingerprint,
    iceControlled, iceControlling].find? (fun a => a.code == v)

def magicCookie : Vector UInt8 4 := #v[0x21, 0x12, 0xA4, 0x42]

/-- The part of the cookie that masks a port. -/
def portMask : Bytes := [magicCookie[0], magicCookie[1]]

@[simp] theorem portMask_length : portMask.length = 2 := rfl

def setUsername (s : Stun) (username : Bytes) : Stun := { s with username := username }

def setPriority (s : Stun) (priority : UInt32) : Stun := { s with priority := priority }

def setIceControlling (s : Stun) (iceControlling : UInt64) : Stun :=
  { s with iceControlling := iceControlling }

def setIceControlled (s : Stun) (iceControlled : UInt64) : Stun :=
  { s with iceControlled := iceControlled }

def setUseCandidate (s : Stun) : Stun := { s with hasUseCandidate := true }

def setXorMappedAddress (s : Stun) (xorMappedAddress : Option Sockaddr) : Stun :=
  { s with xorMappedAddress := xorMappedAddress }

def setErrorCode (s : Stun) (errorCode : UInt16) : Stun := { s with errorCode := errorCode }

def setMessageIntegrity (s : Stun) (messageIntegrity : Nat) : Stun :=
  { s with messageIntegrity := some messageIntegrity }

def setFingerprint (s : Stun) : Stun := { s with hasFingerprint := true }

def hasMessageIntegrity (s : Stun) : Bool := s.messageIntegrity.isSome

/-- A reply shares the transaction id of the request and points to no buffer yet. -/
def createSuccessResponse (s : Stun) : Stun :=
  { klass := .successResponse, method := s.method, transactionId := s.transactionId
    data := [], size := 0 }

def createErrorResponse (s : Stun) (errorCode : UInt16) : Stun :=
  setErrorCode
    { klass := .errorResponse, method := s.method, transactionId := s.transactionId
      data := [], size := 0 } errorCode

/-- No password is set for an error response. -/
def authenticate (s : Stun) (password : Bytes) : Stun :=
  if s.klass = .errorResponse then s else { s with password := password }

/-- The conjunction is evaluated left to right and stops at the first failure. -/
def isStun (data : Bytes) : Mem Bool := do
  if ¬ 20 ≤ data.length then return false
  let first ← load data 0
  if ¬ first < 3 then return false
  let c0 ← load data 4
  if c0 ≠ magicCookie[0] then return false
  let c1 ← load data 5
  if c1 ≠ magicCookie[1] then return false
  let c2 ← load data 6
  if c2 ≠ magicCookie[2] then return false
  let c3 ← load data 7
  return decide (c3 = magicCookie[3])

theorem Class.ofUInt16_toUInt16 (c : Class) : Class.ofUInt16 c.toUInt16 = c := by
  cases c <;> rfl

theorem Attribute.ofUInt16_code (a : Attribute) : Attribute.ofUInt16 a.code = some a := by
  cases a <;> decide

theorem Attribute.code_of_ofUInt16 {v : UInt16} {a : Attribute}
    (h : Attribute.ofUInt16 v = some a) : a.code = v := by
  simpa using List.find?_some h

theorem Attribute.ofUInt16_iff {v : UInt16} {a : Attribute} :
    Attribute.ofUInt16 v = some a ↔ v = a.code :=
  ⟨fun h => (Attribute.code_of_ofUInt16 h).symm, fun h => h ▸ Attribute.ofUInt16_code a⟩

theorem Attribute.code_injective : Function.Injective Attribute.code := by
  intro a b h
  have ha := Attribute.ofUInt16_code a
  rw [h, Attribute.ofUInt16_code b] at ha
  exact (Option.some.inj ha).symm

/-- Cut the twenty bytes in front of the attributes into their fields. -/
theorem exists_header {data : Bytes} (long : 20 ≤ data.length) :
    ∃ (msgType msgLength : UInt16) (cookie tid rest : Bytes),
      data = be16 msgType ++ (be16 msgLength ++ (cookie ++ (tid ++ rest))) ∧
      cookie.length = 4 ∧ tid.length = 12 := by
  obtain ⟨msgType, ht⟩ := exists_be16 (b := data.take 2) (by rw [List.length_take]; omega)
  obtain ⟨msgLength, hl⟩ := exists_be16 (b := (data.drop 2).take 2)
    (by rw [List.length_take, List.length_drop]; omega)
  refine ⟨msgType, msgLength, (data.drop 4).take 4, (data.drop 8).take 12, data.drop 20,
    ?_, ?_, ?_⟩
  · rw [← ht, ← hl]
    have h1 := List.take_append_drop 12 (data.drop 8)
    have h2 := List.take_append_drop 4 (data.drop 4)
    have h3 := List.take_append_drop 2 (data.drop 2)
    have h4 := List.take_append_drop 2 data
    simp only [List.drop_drop, Nat.reduceAdd] at h1 h2 h3
    rw [h1, h2, h3, h4]
  · rw [List.length_take, List.length_drop]
    omega
  · rw [List.length_take, List.length_drop]
    omega

/-- On a message with a full header the test reads the first byte and the cookie. -/
theorem isStun_header (msgType msgLength : UInt16) {cookie tid : Bytes} (rest : Bytes)
    (hcookie : cookie.length = 4) (htid : tid.length = 12) :
    isStun (be16 msgType ++ (be16 msgLength ++ (cookie ++ (tid ++ rest)))) =
      .ok (decide ((msgType >>> 8).toUInt8 < 3 ∧ cookie = magicCookie.toList)) := by
  match cookie, hcookie with
  | [a, b, c, d], _ =>
    have long :
        20 ≤ (be16 msgType ++ (be16 msgLength ++ ([a, b, c, d] ++ (tid ++ rest)))).length := by
      simp [htid]
      omega
    have first : load (be16 msgType ++ (be16 msgLength ++ ([a, b, c, d] ++ (tid ++ rest)))) 0 =
        .ok (msgType >>> 8).toUInt8 := load_window [] _ _ rfl
    have h4 : load (be16 msgType ++ (be16 msgLength ++ ([a, b, c, d] ++ (tid ++ rest)))) 4 =
        .ok a := rfl
    have h5 : load (be16 msgType ++ (be16 msgLength ++ ([a, b, c, d] ++ (tid ++ rest)))) 5 =
        .ok b := rfl
    have h6 : load (be16 msgType ++ (be16 msgLength ++ ([a, b, c, d] ++ (tid ++ rest)))) 6 =
        .ok c := rfl
    have h7 : load (be16 msgType ++ (be16 msgLength ++ ([a, b, c, d] ++ (tid ++ rest)))) 7 =
        .ok d := rfl
    have hm : magicCookie.toList =
        [magicCookie[0], magicCookie[1], magicCookie[2], magicCookie[3]] := rfl
    simp only [isStun, long, not_true_eq_false, ite_false, first, h4, h5, h6, h7, ok_bind, pure_ok,
      hm, List.cons.injEq, and_true]
    split_ifs <;> simp_all

theorem isStun_short {data : Bytes} (short : data.length < 20) : isStun data = .ok false := by
  have h : ¬ 20 ≤ data.length := by omega
  simp only [isStun, h, not_false_eq_true, ite_true, pure_ok]

theorem isStun_total (data : Bytes) : ∃ b, isStun data = .ok b := by
  by_cases long : 20 ≤ data.length
  · obtain ⟨msgType, msgLength, cookie, tid, rest, hdata, hcookie, htid⟩ := exists_header long
    rw [hdata]
    exact ⟨_, isStun_header msgType msgLength rest hcookie htid⟩
  · exact ⟨false, isStun_short (by omega)⟩

end Stun

end Sars
