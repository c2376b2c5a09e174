import Sars.SerialNumber
import Mathlib.Data.UInt

/-!
# Timestamps of 32 bits

`Time::IsNewerTimestamp` and `Time::LatestTimestamp` compare timestamps that
wrap every 2^32 ticks. The rule for timestamps exactly 0x80000000 apart makes
one of any two different ones the newer.
-/

namespace Sars

open SerialNumber

namespace Time

def isNewerTimestamp (timestamp prevTimestamp : UInt32) : Bool :=
  if timestamp - prevTimestamp = 0x80000000 then decide (timestamp > prevTimestamp)
  else timestamp != prevTimestamp && decide (timestamp - prevTimestamp < 0x80000000)

def latestTimestamp (timestamp1 timestamp2 : UInt32) : UInt32 :=
  if isNewerTimestamp timestamp1 timestamp2 then timestamp1 else timestamp2

theorem sub_ahead (a b : UInt32) : (a - b).toNat = ahead 0x80000000 a.toNat b.toNat := by
  have ha := a.toNat_lt
  have hb := b.toNat_lt
  rw [UInt32.toNat_sub, ahead]
  split_ifs <;> omega

theorem isNewerTimestamp_iff (a b : UInt32) :
    isNewerTimestamp a b = true ↔ Newer 0x80000000 a.toNat b.toNat := by
  have hsub := sub_ahead a b
  have hhalf : a - b = 0x80000000 ↔ ahead 0x80000000 a.toNat b.toNat = 0x80000000 := by
    rw [← hsub, ← UInt32.toNat_inj]
    rfl
  have hlow : a - b < 0x80000000 ↔ ahead 0x80000000 a.toNat b.toNat < 0x80000000 := by
    rw [← hsub, UInt32.lt_iff_toNat_lt]
    rfl
  have hsame : a ≠ b ↔ ahead 0x80000000 a.toNat b.toNat ≠ 0 := by
    have hb := b.toNat_lt
    rw [ne_eq, ← UInt32.toNat_inj, ahead]
    split_ifs <;> omega
  simp only [isNewerTimestamp, Newer]
  by_cases h : a - b = 0x80000000
  · rw [if_pos h]
    have hahead := hhalf.mp h
    rw [decide_eq_true_eq, gt_iff_lt, UInt32.lt_iff_toNat_lt, hahead]
    simp
  · rw [if_neg h]
    have hahead : ahead 0x80000000 a.toNat b.toNat ≠ 0x80000000 := fun heq => h (hhalf.mpr heq)
    simp only [Bool.and_eq_true, bne_iff_ne, decide_eq_true_eq, hsame, hlow]
    omega

theorem latestTimestamp_toNat (a b : UInt32) :
    (latestTimestamp a b).toNat = latest 0x80000000 a.toNat b.toNat := by
  simp only [latestTimestamp, latest, isNewerTimestamp_iff]
  split_ifs <;> rfl

/-- Of two different timestamps exactly one is newer. -/
theorem isNewerTimestamp_total {a b : UInt32} (hne : a ≠ b) :
    isNewerTimestamp a b = !isNewerTimestamp b a := by
  have hiff : Newer 0x80000000 a.toNat b.toNat ↔ ¬ Newer 0x80000000 b.toNat a.toNat :=
    newer_iff_not a.toNat_lt b.toNat_lt fun h => hne (UInt32.toNat_inj.mp h)
  rw [← isNewerTimestamp_iff, ← isNewerTimestamp_iff] at hiff
  rw [Bool.eq_iff_iff, hiff, Bool.not_eq_true, Bool.not_eq_true']

theorem foldl_latest (ts : List UInt32) (a : UInt32) :
    (ts.foldl latestTimestamp a).toNat =
      (ts.map UInt32.toNat).foldl (latest 0x80000000) a.toNat := by
  induction ts generalizing a with
  | nil => rfl
  | cons t ts ih => rw [List.foldl_cons, ih, latestTimestamp_toNat, List.map_cons, List.foldl_cons]

/-- The latest timestamp of a stream is that of its newest tick, over any number of wraps, as
long as no tick is half a wrap away from the newest one before it. -/
theorem latestTimestamp_tracks (newest : Nat) (ticks : List Nat)
    (near : Near 0x80000000 newest ticks) :
    (ticks.map UInt32.ofNat).foldl latestTimestamp (UInt32.ofNat newest) =
      UInt32.ofNat (ticks.foldl max newest) := by
  apply UInt32.toNat_inj.mp
  have hmap : (ticks.map UInt32.ofNat).map UInt32.toNat = ticks.map (· % (2 * 0x80000000)) := by
    rw [List.map_map]
    exact List.map_congr_left fun t _ => UInt32.toNat_ofNat'
  rw [foldl_latest, hmap, UInt32.toNat_ofNat', UInt32.toNat_ofNat']
  exact latest_foldl near

/-- A clock that wraps between its third and its fourth tick, with one tick out of order. -/
theorem latestTimestamp_tracks_wrap :
    ([4294967290, 4294967280, 4294967295, 4294967300, 4294967298].map UInt32.ofNat).foldl
      latestTimestamp (UInt32.ofNat 4294967270) = 4 :=
  latestTimestamp_tracks 4294967270
    [4294967290, 4294967280, 4294967295, 4294967300, 4294967298]
    (near_window 4294967200 (by decide) (by decide) (by decide))

end Time

end Sars
