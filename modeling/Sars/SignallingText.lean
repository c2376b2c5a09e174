import Sars.ByteMemory

/-!
# Text of the signalling requests

The searches of `std::string` and the two texts the server takes apart with
them: the ice-ufrag of an SDP and the stream id of a stream url. Positions that
the source computes as `size_t` are 64-bit words here and wrap as they do there;
leaving the process through `exit(1)` is `none`.
-/

namespace Sars

open ByteMemory

/-- The first position from `i` on at which the rest of the text starts with `pat`. -/
def searchFrom (pat : Bytes) : Bytes → Nat → Option Nat
  | [], i => if pat.isPrefixOf [] then some i else none
  | c :: s, i => if pat.isPrefixOf (c :: s) then some i else searchFrom pat s (i + 1)

/-- `std::string::find`; `none` is `npos`. -/
def find (s pat : Bytes) (pos : Nat) : Option Nat :=
  if pos ≤ s.length then searchFrom pat (s.drop pos) pos else none

/-- `std::string::find_last_of` for one character: the last one not behind `pos`. -/
def findLastOf (s : Bytes) (c : UInt8) (pos : Nat) : Option Nat :=
  ((List.range s.length).filter fun i => decide (i ≤ pos) && s[i]? == some c).getLast?

def substr (s : Bytes) (pos count : Nat) : Bytes := (s.drop pos).take count

/-- The bytes of `ice-ufrag`. -/
def iceUfrag : Bytes := [0x69, 0x63, 0x65, 0x2D, 0x75, 0x66, 0x72, 0x61, 0x67]

def crlf : Bytes := [0x0D, 0x0A]

/-- The text between the character behind the first `ice-ufrag` and the end of its line. -/
def getUfragFromSdp (sdp : Bytes) : Option Bytes :=
  match find sdp iceUfrag 0 with
  | none => none
  | some spos =>
    match find sdp crlf (spos + 10) with
    | none => none
    | some epos => some (substr sdp (spos + 10) (epos - spos - 10))

def getStreamIdFromStreamUrl (streamUrl : Bytes) : Option Bytes :=
  let findposEndpos : UInt64 :=
    match find streamUrl [0x3F] 0 with
    | some i => UInt64.ofNat i - 1
    | none => UInt64.ofNat streamUrl.length
  match findLastOf streamUrl 0x2F findposEndpos.toNat with
  | none => none
  | some findposStart =>
    if findposStart + 1 ≥ streamUrl.length then none
    else
      let findposStart := findposStart + 1
      -- an `int32_t`, converted back to `size_t` for the call of `substr`
      let length := (findposEndpos - UInt64.ofNat findposStart + 1).toUInt32.toInt32
      some (substr streamUrl findposStart length.toInt64.toUInt64.toNat)

end Sars
