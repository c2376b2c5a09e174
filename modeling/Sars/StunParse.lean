import Sars.Stun

/-!
# Parsing a STUN message

`Stun::Parse` with its attribute loop. One iteration of the loop is `attrStep`
and its `switch` is `attrSwitch`; the loop runs on explicit fuel because the next
position is computed in 16 bits and need not grow on messages above 65535 bytes.
-/

namespace Sars

open ByteMemory NetworkOrder TlvFraming

namespace Stun

/-- The locals of the attribute loop. The last two are declared without a value. -/
structure ParseState where
  pos : Nat
  packet : Stun
  hasMessageIntegrity : Bool := false
  hasFingerprint : Bool := false
  fingerprintAttrPos : Option Nat := none
  fingerprint : Option UInt32 := none

inductive Parsed where
  | packet (p : Stun)
  | nullptr
  | running
  deriving DecidableEq

/-- The `switch` on the attribute type; `none` is the exit that deletes the packet. -/
def attrSwitch (data : Bytes) (st : ParseState) (attrType attrLength : UInt16) :
    Mem (Option ParseState) :=
  let attrValuePos := st.pos + 4
  match Attribute.ofUInt16 attrType with
  | some .username => do
    let username ← loadBytes data attrValuePos attrLength.toNat
    return some { st with packet := st.packet.setUsername username }
  | some .priority =>
    if attrLength ≠ 4 then return none
    else do
      let priority ← Byte.get4Bytes data attrValuePos
      return some { st with packet := st.packet.setPriority priority }
  | some .iceControlling =>
    if attrLength ≠ 8 then return none
    else do
      let iceControlling ← Byte.get8Bytes data attrValuePos
      return some { st with packet := st.packet.setIceControlling iceControlling }
  | some .iceControlled =>
    if attrLength ≠ 8 then return none
    else do
      let iceControlled ← Byte.get8Bytes data attrValuePos
      return some { st with packet := st.packet.setIceControlled iceControlled }
  | some .useCandidate =>
    if attrLength ≠ 0 then return none
    else return some { st with packet := st.packet.setUseCandidate }
  | some .messageIntegrity =>
    if attrLength ≠ 20 then return none
    else return some { st with
      hasMessageIntegrity := true, packet := st.packet.setMessageIntegrity attrValuePos }
  | some .fingerprint =>
    if attrLength ≠ 4 then return none
    else do
      let fingerprint ← Byte.get4Bytes data attrValuePos
      return some { st with
        hasFingerprint := true, fingerprintAttrPos := some st.pos,
        fingerprint := some fingerprint, packet := st.packet.setFingerprint }
  | some .errorCode =>
    if attrLength < 4 then return none
    else do
      let errorClass ← Byte.get1Byte data (attrValuePos + 2)
      let errorNumber ← Byte.get1Byte data (attrValuePos + 3)
      return some { st with
        packet := st.packet.setErrorCode (errorClass.toUInt16 * 100 + errorNumber.toUInt16) }
  | _ => return some st

/-- One iteration of the attribute loop. -/
def attrStep (data : Bytes) (st : ParseState) : Mem (Option ParseState) := do
  let attrType ← Byte.get2Bytes data st.pos
  let attrLength ← Byte.get2Bytes data (st.pos + 2)
  if st.pos + 4 + attrLength.toNat > data.length then return none
  if st.hasFingerprint then return none
  if st.hasMessageIntegrity ∧ attrType ≠ Attribute.fingerprint.code then return none
  let next ← attrSwitch data st attrType attrLength
  -- the position is cast to 16 bits before it is padded
  let pos := (Byte.padTo4Bytes (UInt16.ofNat (st.pos + 4 + attrLength.toNat))).toNat
  return next.map fun st => { st with pos := pos }

/-- What follows the loop: the position test and the fingerprint comparison. -/
def afterLoop (data : Bytes) (st : ParseState) : Mem Parsed := do
  if st.pos ≠ data.length then return .nullptr
  if ¬ st.hasFingerprint then return .packet st.packet
  let fingerprintAttrPos ← assigned st.fingerprintAttrPos
  let crc ← Crypto.getCRC32 data fingerprintAttrPos
  let fingerprint ← assigned st.fingerprint
  if fingerprint ≠ crc ^^^ 0x5354554e then return .nullptr
  return .packet st.packet

def attrLoop (data : Bytes) : Nat → ParseState → Mem Parsed
  | 0, st => if st.pos + 4 ≤ data.length then return .running else afterLoop data st
  | fuel + 1, st =>
    if st.pos + 4 ≤ data.length then do
      match ← attrStep data st with
      | none => return .nullptr
      | some next => attrLoop data fuel next
    else afterLoop data st

def msgMethod (msgType : UInt16) : UInt16 :=
  (msgType &&& (0x000f : UInt16)) ||| ((msgType &&& (0x00e0 : UInt16)) >>> 1) |||
    ((msgType &&& (0x3E00 : UInt16)) >>> 2)

def msgClass (data0 data1 : UInt8) : UInt16 :=
  ((data0.toUInt16 &&& (0x01 : UInt16)) <<< 1) ||| ((data1.toUInt16 &&& (0x10 : UInt16)) >>> 4)

/-- `Stun::Parse` with a bound on the number of loop iterations. -/
def parseWith (fuel : Nat) (data : Bytes) : Mem Parsed := do
  let stun ← isStun data
  if ¬ stun then return .nullptr
  let msgType ← Byte.get2Bytes data 0
  let msgLength ← Byte.get2Bytes data 2
  if msgLength.toNat ≠ data.length - 20 ∨ msgLength &&& 0x03 ≠ 0 then return .nullptr
  let data0 ← load data 0
  let data1 ← load data 1
  let transactionId ← loadBlock data 8 12
  attrLoop data fuel
    { pos := 20
      packet :=
        { klass := Class.ofUInt16 (msgClass data0 data1), method := msgMethod msgType,
          transactionId := transactionId, data := data, size := data.length } }

/-- Every iteration that goes on advances by at least four bytes on messages of
at most 65535 bytes, so one iteration a byte is more than the loop needs. -/
def parse (data : Bytes) : Mem Parsed := parseWith data.length data

end Stun

end Sars
