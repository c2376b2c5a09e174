import Mathlib.Algebra.Order.BigOperators.Group.List
import Mathlib.Algebra.Order.Group.Nat
import Sars.MediaStats
import Sars.BoundedPrint

/-!
# What the statistics print

The calls of `GetMediaStats` run on the buffer of the peer, which keeps what the
last statistics left there. Where all texts but the last one fit the buffer, the
line that goes to the terminal is the time and the first 4095 bytes of the texts
that came back, whatever the buffer held; nothing is printed when nothing came back.
-/

namespace Sars

open ByteMemory BoundedPrint

/-- The call on a buffer; offset and size are converted to `size_t`. -/
def PrintCall.run (m : Bytes) (call : PrintCall) : Mem Bytes :=
  BoundedPrint.snprintf m (call.offset % 18446744073709551616).toNat
    (call.size % 18446744073709551616).toNat call.text

def Log.run (log : Log) (m : Bytes) : Mem Bytes := log.calls.foldlM PrintCall.run m

/-- The line for the terminal, under the time it is printed at. -/
def statsLine (time logOutBuffer : Bytes) : Bytes :=
  ascii "[" ++ time ++ ascii "]\r\n" ++ cStr logOutBuffer ++ ascii "\r\n"

/-- The end of `GetMediaStats`: what is printed, if anything, and the buffer left behind. -/
def RtcPeer.printMediaStats (p : RtcPeer) (connection : ConnectionStatus)
    (logOutBuffer time : Bytes) : Mem (Bytes × Option Bytes) := do
  let log := p.getMediaStats connection
  let m ← log.run logOutBuffer
  return (m, if log.outLen ≠ 0 then some (statsLine time m) else none)

/-- All texts but the last one are short enough to leave a position in the buffer. -/
def Fits (texts : List Bytes) : Prop := (texts.dropLast.map List.length).sum ≤ 4096

instance (texts : List Bytes) : Decidable (Fits texts) := inferInstanceAs (Decidable (_ ≤ _))

theorem run_at {m text : Bytes} {offset : Nat} (inside : offset ≤ 4096) :
    PrintCall.run m { offset := offset, size := logBuffLen - offset, text := text } =
      snprintf m offset (4096 - offset) text := by
  have hoffset : ((offset : Int) % 18446744073709551616).toNat = offset := by omega
  have hsize : ((logBuffLen - offset) % 18446744073709551616).toNat = 4096 - offset := by
    simp only [logBuffLen]
    omega
  rw [PrintCall.run, hoffset, hsize]

/-- The calls run as the texts printed one behind the other. -/
theorem foldl_print_run {texts : List Bytes} {log : Log} {offset : Nat}
    (outLen : log.outLen = offset)
    (fit : offset + (texts.dropLast.map List.length).sum ≤ 4096) (m : Bytes) :
    (texts.foldl Log.print log).run m = log.run m >>= fun m => printAll 4096 m offset texts := by
  induction texts generalizing log offset with
  | nil => exact (bind_pure (log.run m)).symm
  | cons text texts ih =>
    have hrun : (log.print text).run m =
        log.run m >>= fun m => snprintf m offset (4096 - offset) text := by
      simp only [Log.run, Log.print, List.foldlM_append, outLen, List.foldlM_cons,
        List.foldlM_nil, run_at (show offset ≤ 4096 by omega), bind_pure]
    rw [List.foldl_cons]
    cases texts with
    | nil =>
      have hlast : ∀ m, (snprintf m offset (4096 - offset) text >>= fun m => .ok m) =
          snprintf m offset (4096 - offset) text := fun m => bind_pure _
      simp only [List.foldl_nil, hrun, printAll, hlast]
    | cons more texts =>
      simp only [List.dropLast_cons_cons, List.map_cons, List.sum_cons] at fit
      have hshort : printedLength text = text.length := if_pos (by omega)
      have hnext : (log.print text).outLen = ((offset + text.length : Nat) : Int) := by
        simp only [Log.print, outLen, hshort, Nat.cast_add]
      rw [ih hnext (by omega), hrun, bind_assoc]
      rfl

/-! ## When anything is printed -/

/-- Nothing, or texts of which the last one is a small line. -/
def EndsSmall (texts : List Bytes) : Prop :=
  texts = [] ∨ ∃ front last, texts = front ++ [last] ∧ Small last

theorem EndsSmall.append {as bs : List Bytes} (ha : EndsSmall as) (hb : EndsSmall bs) :
    EndsSmall (as ++ bs) := by
  rcases hb with rfl | ⟨front, last, rfl, hsmall⟩
  · rwa [List.append_nil]
  · exact Or.inr ⟨as ++ front, last, (List.append_assoc as front [last]).symm, hsmall⟩

theorem TrackTexts.endsSmall {texts : List Bytes} (h : TrackTexts texts) : EndsSmall texts := by
  obtain ⟨header, media, net, flow, rfl, _, _, hflow⟩ := h.lines
  exact Or.inr ⟨[header, media, net], flow, rfl, hflow⟩

theorem statusTexts_endsSmall {σ : Type} {texts : σ → List Bytes}
    (h : ∀ status, EndsSmall (texts status)) (asked : Bool) (status : Int × σ) :
    EndsSmall (statusTexts asked status texts) := by
  simp only [statusTexts]
  split_ifs
  · exact h status.2
  · exact Or.inl rfl

theorem mediaTexts_endsSmall (p : RtcPeer) (connection : ConnectionStatus) :
    EndsSmall (mediaTexts p connection) := by
  have hfirst : ∀ s, EndsSmall (peerConnectionTexts s) := by
    intro s
    obtain ⟨stream, net, htexts, hnet⟩ := peerConnection_small s
    exact Or.inr ⟨[stream], net, htexts, hnet⟩
  rw [mediaTexts]
  split_ifs
  · exact (statusTexts_endsSmall hfirst _ _).append
      ((((statusTexts_endsSmall (fun s => (localVideoTexts_track s).endsSmall) _ _).append
        (statusTexts_endsSmall (fun s => (localAudioTexts_track s).endsSmall) _ _)).append
        (statusTexts_endsSmall (fun s => (remoteVideoTexts_track s).endsSmall) _ _)).append
        (statusTexts_endsSmall (fun s => (remoteAudioTexts_track s).endsSmall) _ _))
  · exact Or.inl rfl

theorem foldl_print_outLen (texts : List Bytes) (log : Log) :
    (texts.foldl Log.print log).outLen = log.outLen + (texts.map printedLength).sum := by
  induction texts generalizing log with
  | nil => simp
  | cons text texts ih =>
    rw [List.foldl_cons, ih, List.map_cons, List.sum_cons, ← Int.add_assoc]
    rfl

/-- Where the texts fit, the position is zero exactly when there are none. -/
theorem outLen_eq_zero {texts : List Bytes} (hsmall : EndsSmall texts) (fit : Fits texts) :
    (texts.foldl Log.print {}).outLen = 0 ↔ texts = [] := by
  rw [foldl_print_outLen]
  constructor
  · intro hzero
    rcases hsmall with hnil | ⟨front, last, rfl, hlast⟩
    · exact hnil
    · have hfront : 0 ≤ (front.map printedLength).sum := by
        refine List.sum_nonneg fun n hn => ?_
        obtain ⟨text, htext, rfl⟩ := List.mem_map.mp hn
        have hle := List.single_le_sum (fun _ _ => Nat.zero_le _) _
          (List.mem_map_of_mem (f := List.length) htext)
        rw [Fits, List.dropLast_concat] at fit
        rw [printedLength, if_pos (by omega)]
        exact Int.natCast_nonneg _
      have hpos := hlast.printedLength
      simp only [List.map_append, List.sum_append, List.map_singleton, List.sum_singleton] at hzero
      omega
  · rintro rfl
    rfl

/-! ## The line that is printed -/

/-- The terminal shows the texts that came back, up to 4095 bytes of them, and nothing that the
buffer held before. -/
theorem statistics_printed (p : RtcPeer) (connection : ConnectionStatus) (time : Bytes)
    (logOutBuffer : Block 4096) (fit : Fits (mediaTexts p connection)) :
    ∃ m, p.printMediaStats connection logOutBuffer.val time = .ok (m,
        if mediaTexts p connection = [] then none
        else some (ascii "[" ++ time ++ ascii "]\r\n" ++
          cStr ((mediaTexts p connection).flatten.take 4095) ++ ascii "\r\n")) ∧
      m.length = 4096 := by
  have hrun : (p.getMediaStats connection).run logOutBuffer.val =
      printAll 4096 logOutBuffer.val 0 (mediaTexts p connection) := by
    have hfit : 0 + ((mediaTexts p connection).dropLast.map List.length).sum ≤ 4096 := by
      rw [Nat.zero_add]
      exact fit
    rw [getMediaStats_eq, foldl_print_run rfl hfit]
    rfl
  have hzero := outLen_eq_zero (mediaTexts_endsSmall p connection) fit
  rw [← getMediaStats_eq] at hzero
  by_cases hnil : mediaTexts p connection = []
  · have hout : (p.getMediaStats connection).outLen = 0 := hzero.mpr hnil
    refine ⟨logOutBuffer.val, ?_, logOutBuffer.property⟩
    simp only [RtcPeer.printMediaStats, hrun, hnil, printAll, ok_bind, pure_ok, if_true]
    rw [if_neg (not_not_intro hout)]
  · have hout : (p.getMediaStats connection).outLen ≠ 0 := fun h => hnil (hzero.mp h)
    obtain ⟨m, hprint, hshows⟩ := printAll_shows logOutBuffer.property (by decide) hnil fit
    refine ⟨m, ?_, hshows.size⟩
    have hshown : cStr m = cStr ((mediaTexts p connection).flatten.take 4095) := hshows.cString
    simp only [RtcPeer.printMediaStats, hrun, hprint, ok_bind, pure_ok, if_neg hnil, statsLine,
      hshown]
    rw [if_pos hout]

/-- A connection that knows its stream and nothing else, and a buffer full of old bytes. -/
theorem statistics_printed_streamOnly :
    ∃ m, RtcPeer.printMediaStats { peerClass := .player, peerConnection := true }
        (streamOnly [0x61]) (List.replicate 4096 0x7A) [] = .ok (m,
          some (ascii "[]\r\n Stm   a\r\n Net   rtt:0 bitrate:[send:0|recv:0]kpbs\r\n\r\n")) ∧
      m.length = 4096 := by
  obtain ⟨m, hprinted, hlength⟩ := statistics_printed
    { peerClass := .player, peerConnection := true } (streamOnly [0x61]) []
    ⟨List.replicate 4096 0x7A, List.length_replicate⟩ (by decide +kernel)
  have hnonempty : mediaTexts { peerClass := .player, peerConnection := true }
      (streamOnly [0x61]) ≠ [] := by decide +kernel
  have hline : ascii "[" ++ [] ++ ascii "]\r\n" ++
      cStr ((mediaTexts { peerClass := .player, peerConnection := true }
        (streamOnly [0x61])).flatten.take 4095) ++ ascii "\r\n" =
      ascii "[]\r\n Stm   a\r\n Net   rtt:0 bitrate:[send:0|recv:0]kpbs\r\n\r\n" := by
    decide +kernel
  rw [if_neg hnonempty, hline] at hprinted
  exact ⟨m, hprinted, hlength⟩

end Sars
