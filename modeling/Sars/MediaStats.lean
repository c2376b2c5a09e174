import Mathlib.Data.List.TakeWhile
import Sars.RtcPeer
import Sars.RunningTotal

/-!
# The statistics text

`RtcPeer::GetMediaStats` prints up to eighteen texts one behind the other into a
buffer of 4096 bytes. The next position is the sum of what `snprintf` returned,
which is the length the text would have had, or -1 for a text that does not fit
an `int`. The texts are functions of the status records of the engine; where
each call writes is a running total of their lengths.
-/

namespace Sars

open ByteMemory DecimalText RunningTotal

/-! ## The status records -/

structure PeerConnectionStatus where
  streamId : Bytes
  rtt : UInt32
  sendBitrateBps : UInt64
  recvBitrateBps : UInt64

structure VideoCodecStatus where
  codecType : UInt32
  payloadType : UInt32
  profileLevelId : Bytes

structure AudioCodecStatus where
  codecType : UInt32
  payloadType : UInt32
  sampleRate : UInt32
  channels : UInt32

structure LocalTrackStatus (Codec : Type) where
  codecInfo : Codec
  ssrc : UInt32
  lable : Bytes
  rtt : UInt32
  coreBitrateBps : UInt64
  realBitrateBps : UInt64
  recvFrameNum : UInt32
  popPkgNum : UInt32

abbrev LocalVideoTrackStatus := LocalTrackStatus VideoCodecStatus

abbrev LocalAudioTrackStatus := LocalTrackStatus AudioCodecStatus

/-- What `%.2f` prints. The largest double has 309 digits in front of the point. -/
abbrev FixedText := {t : Bytes // t.length ≤ 313}

structure RemoteVideoTrackStatus where
  codecInfo : VideoCodecStatus
  ssrc : UInt32
  lable : Bytes
  rtt : UInt32
  coreBitrateBps : UInt64
  realBitrateBps : UInt64
  lossBeforeRecover : FixedText
  lossAfterRecover : FixedText
  recvPkgNum : UInt32
  lostPkgNum : UInt32
  pliCnt : UInt32
  recvIdrNum : UInt32
  frozenTime : UInt32
  popFrameNum : UInt32

structure RemoteAudioTrackStatus where
  codecInfo : AudioCodecStatus
  ssrc : UInt32
  lable : Bytes
  rtt : UInt32
  coreBitrateBps : UInt64
  realBitrateBps : UInt64
  lossBeforeRecover : FixedText
  lossAfterRecover : FixedText
  recvPkgNum : UInt32
  lostPkgNum : UInt32
  popFrameNum : UInt32

/-- The five status calls of the connection, each with its return code. -/
structure ConnectionStatus where
  getPeerConnectionStatus : Int × PeerConnectionStatus
  getLocalVideoTrackStatus : UInt32 → Int × LocalVideoTrackStatus
  getLocalAudioTrackStatus : UInt32 → Int × LocalAudioTrackStatus
  getRemoteVideoTrackStatus : UInt32 → Int × RemoteVideoTrackStatus
  getRemoteAudioTrackStatus : UInt32 → Int × RemoteAudioTrackStatus

/-! ## The texts -/

def ascii (s : String) : Bytes := s.toList.map fun c => UInt8.ofNat c.toNat

/-- A `%s` ends at the first zero. -/
def cStr (s : Bytes) : Bytes := s.takeWhile (· ≠ 0)

def u32 (n : UInt32) : Bytes := decimal n.toNat

def u64 (n : UInt64) : Bytes := decimal n.toNat

def videoMediaText (codec : VideoCodecStatus) (ssrc : UInt32) (lable : Bytes) : Bytes :=
  ascii " media codec_type:" ++ u32 codec.codecType ++ ascii " ssrc:" ++ u32 ssrc ++
    ascii " pt:" ++ u32 codec.payloadType ++ ascii " profile_level_id:" ++
    cStr codec.profileLevelId ++ ascii " lable:" ++ cStr lable ++ ascii "\r\n"

def audioMediaText (codec : AudioCodecStatus) (ssrc : UInt32) (lable : Bytes) : Bytes :=
  ascii " media codec_type:" ++ u32 codec.codecType ++ ascii " ssrc:" ++ u32 ssrc ++
    ascii " pt:" ++ u32 codec.payloadType ++ ascii " sample_rate:" ++ u32 codec.sampleRate ++
    ascii "HZ chn:" ++ u32 codec.channels ++ ascii " lable:" ++ cStr lable ++ ascii "\r\n"

def netText (rtt : UInt32) (core real : UInt64) (loss : Bytes) : Bytes :=
  ascii " Net   rtt:" ++ u32 rtt ++ ascii " bitrate:" ++ u64 (core >>> 10) ++ ascii "->" ++
    u64 (real >>> 10) ++ ascii "kpbs" ++ loss ++ ascii "\r\n"

def lossText (lossBefore lossAfter : FixedText) : Bytes :=
  ascii " loss:" ++ lossBefore.val ++ ascii "%->" ++ lossAfter.val ++ ascii "%"

def localFlowText (recvFrameNum popPkgNum : UInt32) : Bytes :=
  ascii " flow  recv:" ++ u32 recvFrameNum ++ ascii " pop_pkg:" ++ u32 popPkgNum ++ ascii "\r\n"

def peerConnectionTexts (s : PeerConnectionStatus) : List Bytes :=
  [ascii " Stm   " ++ cStr s.streamId ++ ascii "\r\n",
    ascii " Net   rtt:" ++ u32 s.rtt ++ ascii " bitrate:[send:" ++ u64 (s.sendBitrateBps >>> 10) ++
      ascii "|recv:" ++ u64 (s.recvBitrateBps >>> 10) ++ ascii "]kpbs\r\n"]

def localVideoTexts (s : LocalVideoTrackStatus) : List Bytes :=
  [ascii "--------Local Video---------\r\n", videoMediaText s.codecInfo s.ssrc s.lable,
    netText s.rtt s.coreBitrateBps s.realBitrateBps [], localFlowText s.recvFrameNum s.popPkgNum]

def localAudioTexts (s : LocalAudioTrackStatus) : List Bytes :=
  [ascii "--------Local Audio---------\r\n", audioMediaText s.codecInfo s.ssrc s.lable,
    netText s.rtt s.coreBitrateBps s.realBitrateBps [], localFlowText s.recvFrameNum s.popPkgNum]

def remoteVideoTexts (s : RemoteVideoTrackStatus) : List Bytes :=
  [ascii "--------Remote Video---------\r\n", videoMediaText s.codecInfo s.ssrc s.lable,
    netText s.rtt s.coreBitrateBps s.realBitrateBps
      (lossText s.lossBeforeRecover s.lossAfterRecover),
    ascii " flow  recv:" ++ u32 s.recvPkgNum ++ ascii " lost:" ++ u32 s.lostPkgNum ++
      ascii " pli:" ++ u32 s.pliCnt ++ ascii " idr:" ++ u32 s.recvIdrNum ++ ascii " frozen:" ++
      u32 s.frozenTime ++ ascii " pop_frame:" ++ u32 s.popFrameNum ++ ascii "\r\n"]

def remoteAudioTexts (s : RemoteAudioTrackStatus) : List Bytes :=
  [ascii "--------Remote Audio---------\r\n", audioMediaText s.codecInfo s.ssrc s.lable,
    netText s.rtt s.coreBitrateBps s.realBitrateBps
      (lossText s.lossBeforeRecover s.lossAfterRecover),
    ascii " flow  recv:" ++ u32 s.recvPkgNum ++ ascii "  lost:" ++ u32 s.lostPkgNum ++
      ascii " pop_frame:" ++ u32 s.popFrameNum ++ ascii "\r\n"]

/-! ## Printing -/

/-- `LOG_BUFF_LEN`. -/
def logBuffLen : Int := 4096

/-- What `snprintf` returns for a text, whatever room it has. -/
def printedLength (text : Bytes) : Int :=
  if text.length ≤ 2147483647 then (text.length : Int) else -1

/-- One call of `snprintf`: where it writes, the size it is given and the text. -/
structure PrintCall where
  offset : Int
  size : Int
  text : Bytes

/-- `out_len` and the calls made so far. A sum beyond `int32_t` is far outside the buffer. -/
structure Log where
  outLen : Int := 0
  calls : List PrintCall := []

def Log.print (log : Log) (text : Bytes) : Log :=
  { outLen := log.outLen + printedLength text
    calls := log.calls ++
      [{ offset := log.outLen, size := logBuffLen - log.outLen, text := text }] }

/-- The texts of one status, if it was asked for and came back. -/
def Log.printStatus {σ : Type} (log : Log) (asked : Bool) (status : Int × σ)
    (texts : σ → List Bytes) : Log :=
  if asked ∧ status.1 = 0 then (texts status.2).foldl Log.print log else log

def RtcPeer.getMediaStats (p : RtcPeer) (connection : ConnectionStatus) : Log :=
  if ¬ p.peerConnection then {}
  else
    let log : Log := {}
    let log := log.printStatus true connection.getPeerConnectionStatus peerConnectionTexts
    let log := log.printStatus (p.localVideoSsrc ≠ 0)
      (connection.getLocalVideoTrackStatus p.localVideoSsrc) localVideoTexts
    let log := log.printStatus (p.localAudioSsrc ≠ 0)
      (connection.getLocalAudioTrackStatus p.localAudioSsrc) localAudioTexts
    let log := log.printStatus (p.remoteVideoSsrc ≠ 0)
      (connection.getRemoteVideoTrackStatus p.remoteVideoSsrc) remoteVideoTexts
    log.printStatus (p.remoteAudioSsrc ≠ 0)
      (connection.getRemoteAudioTrackStatus p.remoteAudioSsrc) remoteAudioTexts

/-- The call stays in front of the end of the buffer. -/
structure PrintCall.Safe (call : PrintCall) : Prop where
  low : 0 ≤ call.offset
  high : call.offset ≤ logBuffLen
  room : 0 ≤ call.size

/-- How many bytes are stored, the final zero included. -/
def PrintCall.stored (call : PrintCall) : Int := min (call.text.length + 1) call.size

/-! ## The texts that are printed -/

def statusTexts {σ : Type} (asked : Bool) (status : Int × σ) (texts : σ → List Bytes) :
    List Bytes :=
  if asked ∧ status.1 = 0 then texts status.2 else []

/-- What is printed for the four tracks, in order. -/
def trackTexts (p : RtcPeer) (connection : ConnectionStatus) : List Bytes :=
  statusTexts (p.localVideoSsrc ≠ 0)
      (connection.getLocalVideoTrackStatus p.localVideoSsrc) localVideoTexts ++
    statusTexts (p.localAudioSsrc ≠ 0)
      (connection.getLocalAudioTrackStatus p.localAudioSsrc) localAudioTexts ++
    statusTexts (p.remoteVideoSsrc ≠ 0)
      (connection.getRemoteVideoTrackStatus p.remoteVideoSsrc) remoteVideoTexts ++
    statusTexts (p.remoteAudioSsrc ≠ 0)
      (connection.getRemoteAudioTrackStatus p.remoteAudioSsrc) remoteAudioTexts

/-- Everything printed for a peer. -/
def mediaTexts (p : RtcPeer) (connection : ConnectionStatus) : List Bytes :=
  if ¬ p.peerConnection then []
  else
    statusTexts true connection.getPeerConnectionStatus peerConnectionTexts ++
      trackTexts p connection

theorem printStatus_eq {σ : Type} (log : Log) (asked : Bool) (status : Int × σ)
    (texts : σ → List Bytes) :
    log.printStatus asked status texts = (statusTexts asked status texts).foldl Log.print log := by
  rw [Log.printStatus, statusTexts]
  split_ifs <;> rfl

theorem getMediaStats_eq (p : RtcPeer) (connection : ConnectionStatus) :
    p.getMediaStats connection = (mediaTexts p connection).foldl Log.print {} := by
  simp only [RtcPeer.getMediaStats, mediaTexts]
  split_ifs with hconnection
  · simp only [printStatus_eq, trackTexts, List.foldl_append]
  · rfl

theorem foldl_print (texts : List Bytes) (log : Log) :
    (texts.foldl Log.print log).calls.map PrintCall.offset =
      log.calls.map PrintCall.offset ++ before log.outLen (texts.map printedLength) := by
  induction texts generalizing log with
  | nil => simp [before]
  | cons text texts ih =>
    rw [List.foldl_cons, ih]
    simp [Log.print, before]

theorem foldl_print_size (texts : List Bytes) (log : Log)
    (h : ∀ call ∈ log.calls, call.size = logBuffLen - call.offset) :
    ∀ call ∈ (texts.foldl Log.print log).calls, call.size = logBuffLen - call.offset := by
  induction texts generalizing log with
  | nil => exact h
  | cons text texts ih =>
    refine ih (log.print text) fun call hcall => ?_
    rcases List.mem_append.mp hcall with hold | hnew
    · exact h call hold
    · rw [List.mem_singleton.mp hnew]

/-- The offset of a call decides whether it is safe. -/
theorem safe_iff {call : PrintCall} (hsize : call.size = logBuffLen - call.offset) :
    call.Safe ↔ 0 ≤ call.offset ∧ call.offset ≤ logBuffLen := by
  constructor
  · exact fun h => ⟨h.low, h.high⟩
  · rintro ⟨low, high⟩
    exact { low := low, high := high, room := by omega }

/-- What a safe call stores ends inside the buffer. -/
theorem PrintCall.Safe.stored {call : PrintCall} (hsafe : call.Safe)
    (hsize : call.size = logBuffLen - call.offset) : call.offset + call.stored ≤ logBuffLen := by
  have := hsafe.room
  simp only [PrintCall.stored]
  omega

theorem getMediaStats_safe (p : RtcPeer) (connection : ConnectionStatus) :
    (∀ call ∈ (p.getMediaStats connection).calls, call.Safe) ↔
      ∀ t ∈ before 0 ((mediaTexts p connection).map printedLength), 0 ≤ t ∧ t ≤ logBuffLen := by
  have hsize := foldl_print_size (mediaTexts p connection) {} (by simp)
  have hoffsets := foldl_print (mediaTexts p connection) {}
  rw [← getMediaStats_eq] at hsize hoffsets
  rw [List.map_nil, List.nil_append] at hoffsets
  rw [← hoffsets]
  constructor
  · intro hall t ht
    obtain ⟨call, hcall, rfl⟩ := List.mem_map.mp ht
    exact (safe_iff (hsize call hcall)).mp (hall call hcall)
  · intro hall call hcall
    exact (safe_iff (hsize call hcall)).mpr (hall _ (List.mem_map_of_mem hcall))

/-! ## When the last text still begins inside -/

/-- A line that never comes near the limit of an `int`. -/
def Small (text : Bytes) : Prop := 0 < text.length ∧ text.length ≤ 1000

instance (text : Bytes) : Decidable (Small text) :=
  inferInstanceAs (Decidable (0 < text.length ∧ text.length ≤ 1000))

theorem Small.printedLength {text : Bytes} (h : Small text) :
    1 ≤ printedLength text ∧ printedLength text ≤ 1000 := by
  obtain ⟨hpos, hle⟩ := h
  rw [Sars.printedLength, if_pos (by omega)]
  omega

theorem printedLength_ge (text : Bytes) : -1 ≤ printedLength text := by
  simp only [printedLength]
  split_ifs <;> omega

theorem u32_length (n : UInt32) : (u32 n).length ≤ 10 := by
  have hlt : n.toNat < 10 ^ 10 := by
    have := n.toNat_lt
    omega
  rw [u32, decimal, List.length_map]
  exact (Nat.length_toDigits_le_iff (by omega) (by omega)).mpr hlt

theorem u64_length (n : UInt64) : (u64 n).length ≤ 20 := by
  have hlt : n.toNat < 10 ^ 20 := by
    have := n.toNat_lt
    omega
  rw [u64, decimal, List.length_map]
  exact (Nat.length_toDigits_le_iff (by omega) (by omega)).mpr hlt

theorem netText_small (rtt : UInt32) (core real : UInt64) {loss : Bytes}
    (h : loss.length ≤ 800) : Small (netText rtt core real loss) := by
  have hrtt := u32_length rtt
  have hcore := u64_length (core >>> 10)
  have hreal := u64_length (real >>> 10)
  constructor
  · simp [netText, ascii]
  · simp [netText, ascii]
    omega

theorem lossText_length (lossBefore lossAfter : FixedText) :
    (lossText lossBefore lossAfter).length ≤ 800 := by
  have hbefore := lossBefore.property
  have hafter := lossAfter.property
  simp [lossText, ascii]
  omega

theorem localFlowText_small (recvFrameNum popPkgNum : UInt32) :
    Small (localFlowText recvFrameNum popPkgNum) := by
  have hrecv := u32_length recvFrameNum
  have hpop := u32_length popPkgNum
  constructor
  · simp [localFlowText, ascii]
  · simp [localFlowText, ascii]
    omega

/-- A track has a small header, a media line of any length and two small lines. -/
structure TrackTexts (texts : List Bytes) : Prop where
  lines : ∃ header media net flow, texts = [header, media, net, flow] ∧ Small header ∧
    Small net ∧ Small flow

theorem localVideoTexts_track (s : LocalVideoTrackStatus) : TrackTexts (localVideoTexts s) :=
  ⟨_, _, _, _, rfl, by decide, netText_small _ _ _ (by simp),
    localFlowText_small _ _⟩

theorem localAudioTexts_track (s : LocalAudioTrackStatus) : TrackTexts (localAudioTexts s) :=
  ⟨_, _, _, _, rfl, by decide, netText_small _ _ _ (by simp),
    localFlowText_small _ _⟩

theorem remoteVideoTexts_track (s : RemoteVideoTrackStatus) : TrackTexts (remoteVideoTexts s) := by
  refine ⟨_, _, _, _, rfl, by decide, netText_small _ _ _ (lossText_length _ _), ?_⟩
  have hrecv := u32_length s.recvPkgNum
  have hlost := u32_length s.lostPkgNum
  have hpli := u32_length s.pliCnt
  have hidr := u32_length s.recvIdrNum
  have hfrozen := u32_length s.frozenTime
  have hpop := u32_length s.popFrameNum
  constructor
  · simp [ascii]
  · simp [ascii]
    omega

theorem remoteAudioTexts_track (s : RemoteAudioTrackStatus) : TrackTexts (remoteAudioTexts s) := by
  refine ⟨_, _, _, _, rfl, by decide, netText_small _ _ _ (lossText_length _ _), ?_⟩
  have hrecv := u32_length s.recvPkgNum
  have hlost := u32_length s.lostPkgNum
  have hpop := u32_length s.popFrameNum
  constructor
  · simp [ascii]
  · simp [ascii]
    omega

/-- Texts whose lengths rise, behind whatever was printed before. -/
structure Steady (texts : List Bytes) : Prop where
  rising : Rising (texts.map printedLength)
  first : ∀ text ∈ texts.head?, text.length ≤ 2147483647

theorem Steady.append {as bs : List Bytes} (ha : Steady as) (hb : Steady bs) :
    Steady (as ++ bs) := by
  constructor
  · rw [List.map_append]
    exact ha.rising.append hb.rising
  · intro text htext
    rw [List.head?_append] at htext
    cases hhead : as.head? with
    | none =>
      rw [hhead, Option.none_or] at htext
      exact hb.first text htext
    | some first =>
      rw [hhead, Option.some_or] at htext
      exact ha.first text (hhead ▸ htext)

/-- An overlong media line takes one step back, which the line behind it makes up for. -/
theorem TrackTexts.steady {texts : List Bytes} (h : TrackTexts texts) : Steady texts := by
  obtain ⟨header, media, net, flow, rfl, hheader, hnet, hflow⟩ := h.lines
  have h1 := hheader.printedLength
  have h2 := printedLength_ge media
  have h3 := hnet.printedLength
  have h4 := hflow.printedLength
  constructor
  · exact Rising.dip (by omega) (by omega) (by omega) (by omega) (by omega)
  · intro text htext
    cases htext
    have := hheader.2
    omega

theorem statusTexts_steady {σ : Type} {texts : σ → List Bytes}
    (h : ∀ status, TrackTexts (texts status)) (asked : Bool) (status : Int × σ) :
    Steady (statusTexts asked status texts) := by
  simp only [statusTexts]
  split_ifs
  · exact (h status.2).steady
  · exact { rising := Rising.nil, first := by simp }

theorem trackTexts_steady (p : RtcPeer) (connection : ConnectionStatus) :
    Steady (trackTexts p connection) :=
  (((statusTexts_steady localVideoTexts_track _ _).append
    (statusTexts_steady localAudioTexts_track _ _)).append
    (statusTexts_steady remoteVideoTexts_track _ _)).append
    (statusTexts_steady remoteAudioTexts_track _ _)

/-- The first text has a length that `snprintf` can return, and all texts but the last one
together are no longer than the buffer. -/
structure TextsFit (texts : List Bytes) : Prop where
  first : ∀ text ∈ texts.head?, text.length ≤ 2147483647
  total : (texts.dropLast.map printedLength).sum ≤ logBuffLen

theorem Steady.fits_iff {texts : List Bytes} (h : Steady texts) :
    (∀ t ∈ before 0 (texts.map printedLength), 0 ≤ t ∧ t ≤ logBuffLen) ↔ TextsFit texts := by
  rw [h.rising.bounded_iff (by decide), ← List.map_dropLast]
  exact ⟨fun total => { first := h.first, total := total }, TextsFit.total⟩

theorem peerConnection_small (s : PeerConnectionStatus) :
    ∃ stream net, peerConnectionTexts s = [stream, net] ∧ Small net := by
  refine ⟨_, _, rfl, ?_⟩
  have hrtt := u32_length s.rtt
  have hsend := u64_length (s.sendBitrateBps >>> 10)
  have hrecv := u64_length (s.recvBitrateBps >>> 10)
  constructor
  · simp [ascii]
  · simp [ascii]
    omega

/-- The stream line is the only one that can take the position below zero. -/
theorem stream_iff {stream net : Bytes} (hnet : Small net) {tracks : List Bytes}
    (htracks : Steady tracks) :
    (∀ t ∈ before 0 (([stream, net] ++ tracks).map printedLength), 0 ≤ t ∧ t ≤ logBuffLen) ↔
      TextsFit ([stream, net] ++ tracks) := by
  by_cases hstream : stream.length ≤ 2147483647
  · have h1 : printedLength stream = stream.length := if_pos hstream
    have h2 := hnet.printedLength
    have hlines : Steady [stream, net] := by
      constructor
      · exact (Rising.single (by omega)).append (Rising.single (by omega))
      · simpa using hstream
    exact Steady.fits_iff (hlines.append htracks)
  · have hback : printedLength stream = -1 := if_neg hstream
    refine iff_of_false (fun hall => ?_) fun fit => hstream (fit.first stream rfl)
    have hsecond := (hall (-1) (by simp [before, hback])).1
    omega

theorem calls_safe_iff (p : RtcPeer) (connection : ConnectionStatus) :
    (∀ call ∈ (p.getMediaStats connection).calls, call.Safe) ↔
      TextsFit (mediaTexts p connection) := by
  rw [getMediaStats_safe]
  have htracks := trackTexts_steady p connection
  simp only [mediaTexts, statusTexts]
  split_ifs
  · obtain ⟨stream, net, htexts, hnet⟩ := peerConnection_small connection.getPeerConnectionStatus.2
    rw [htexts]
    exact stream_iff hnet htracks
  · rw [List.nil_append]
    exact htracks.fits_iff
  · exact Steady.fits_iff { rising := Rising.nil, first := by simp }

/-- Every call writes inside the buffer exactly when the texts in front of the last one fit. -/
theorem getMediaStats_inside (p : RtcPeer) (connection : ConnectionStatus) :
    ((∀ call ∈ (p.getMediaStats connection).calls, call.Safe) ↔
      TextsFit (mediaTexts p connection)) ∧
    ∀ call ∈ (p.getMediaStats connection).calls, call.Safe →
      call.offset + call.stored ≤ logBuffLen := by
  refine ⟨calls_safe_iff p connection, fun call hcall hsafe => ?_⟩
  rw [getMediaStats_eq] at hcall
  exact hsafe.stored (foldl_print_size (mediaTexts p connection) {} (by simp) call hcall)

/-- A connection that knows its stream and nothing else. -/
def streamOnly (streamId : Bytes) : ConnectionStatus where
  getPeerConnectionStatus :=
    (0, { streamId := streamId, rtt := 0, sendBitrateBps := 0, recvBitrateBps := 0 })
  getLocalVideoTrackStatus _ :=
    (-1, ⟨{ codecType := 0, payloadType := 0, profileLevelId := [] }, 0, [], 0, 0, 0, 0, 0⟩)
  getLocalAudioTrackStatus _ :=
    (-1, ⟨{ codecType := 0, payloadType := 0, sampleRate := 0, channels := 0 },
      0, [], 0, 0, 0, 0, 0⟩)
  getRemoteVideoTrackStatus _ :=
    (-1, ⟨{ codecType := 0, payloadType := 0, profileLevelId := [] }, 0, [], 0, 0, 0,
      ⟨[], by decide⟩, ⟨[], by decide⟩, 0, 0, 0, 0, 0, 0⟩)
  getRemoteAudioTrackStatus _ :=
    (-1, ⟨{ codecType := 0, payloadType := 0, sampleRate := 0, channels := 0 }, 0, [], 0, 0, 0,
      ⟨[], by decide⟩, ⟨[], by decide⟩, 0, 0, 0⟩)

theorem streamText_length (n : Nat) :
    (ascii " Stm   " ++ cStr (List.replicate n 0x61) ++ ascii "\r\n").length = n + 9 := by
  have hplain : cStr (List.replicate n 0x61) = List.replicate n 0x61 := by
    rw [cStr, List.takeWhile_eq_self_iff]
    intro c hc
    rw [List.eq_of_mem_replicate hc]
    rfl
  rw [hplain, List.length_append, List.length_append, List.length_replicate,
    show (ascii " Stm   ").length = 7 from rfl, show (ascii "\r\n").length = 2 from rfl]
  omega

theorem long_stream {n : Nat} (long : 4096 < n + 9) (short : n + 9 ≤ 2147483647) :
    ¬ TextsFit (mediaTexts { peerClass := .player, peerConnection := true }
      (streamOnly (List.replicate n 0x61))) := by
  intro fit
  have htotal : printedLength (ascii " Stm   " ++ cStr (List.replicate n 0x61) ++ ascii "\r\n") +
      0 ≤ logBuffLen := fit.total
  rw [printedLength, streamText_length, if_pos short, logBuffLen] at htotal
  omega

/-- A stream id of 4096 characters puts the second text behind the buffer. -/
theorem stream_id_overruns :
    ¬ ∀ (p : RtcPeer) (connection : ConnectionStatus),
      ∀ call ∈ (p.getMediaStats connection).calls, call.Safe := by
  intro h
  exact long_stream (by decide) (by decide) ((calls_safe_iff _ _).mp
    (h { peerClass := .player, peerConnection := true } (streamOnly (List.replicate 4096 0x61))))

end Sars
