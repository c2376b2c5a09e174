import Mathlib.Algebra.Ring.Nat
import Mathlib.Data.List.TakeWhile
import Sars.ByteMemory

/-!
# Texts printed into a bounded buffer

`snprintf` stores a text, cut to the size it is given, and a final zero. Texts
printed one behind the other, each into the room that is left, leave their
concatenation in the buffer, cut to one byte less than the buffer has. What the
buffer held before is not seen.
-/

namespace BoundedPrint

open ByteMemory

/-- The bytes in front of the first zero. -/
def cString (m : Bytes) : Bytes := m.takeWhile (· ≠ 0)

theorem cString_zero (text rest : Bytes) : cString (text ++ 0 :: rest) = cString text := by
  induction text with
  | nil => rfl
  | cons c text ih =>
    by_cases hc : c = 0
    · simp [cString, hc]
    · simpa [cString, hc] using ih

/-- `snprintf`; with no room nothing is stored. -/
def snprintf (m : Bytes) (offset size : Nat) (text : Bytes) : Mem Bytes :=
  if size = 0 then .ok m else storeBytes m offset (text.take (size - 1) ++ [0])

/-- A buffer of `n` bytes that holds the text as far as it has room for it. -/
structure Shows (n : Nat) (text m : Bytes) : Prop where
  size : m.length = n
  held : ∃ rest, m = text.take (n - 1) ++ 0 :: rest

theorem Shows.cString {n : Nat} {text m : Bytes} (h : Shows n text m) :
    cString m = cString (text.take (n - 1)) := by
  obtain ⟨rest, hm⟩ := h.held
  rw [hm, cString_zero]

section

variable {n : Nat} {text m : Bytes}

/-- Room is left: the next text goes behind the ones before it. -/
theorem snprintf_behind (size : m.length = n) (held : text <+: m) (room : text.length < n)
    (next : Bytes) : ∃ m', snprintf m text.length (n - text.length) next = .ok m' ∧
      Shows n (text ++ next) m' := by
  obtain ⟨rest, hm⟩ := held
  have hlen : text.length + rest.length = n := by rw [← size, ← hm, List.length_append]
  have hstored : (next.take (n - text.length - 1) ++ [0]).length ≤ rest.length := by
    simp only [List.length_append, List.length_take, List.length_singleton]
    omega
  have hcut : (text ++ next).take (n - 1) = text ++ next.take (n - text.length - 1) := by
    rw [List.take_append, List.take_of_length_le (by omega)]
    congr 2
    omega
  refine ⟨text ++ (next.take (n - text.length - 1) ++ [0]) ++
    rest.drop (next.take (n - text.length - 1) ++ [0]).length, ?_, ?_, ?_⟩
  · rw [snprintf, if_neg (by omega), ← hm]
    exact storeBytes_behind text rest _ rfl hstored
  · rw [List.length_append, List.length_append, List.length_drop]
    omega
  · rw [hcut]
    refine ⟨rest.drop (next.take (n - text.length - 1) ++ [0]).length, ?_⟩
    simp only [List.append_assoc, List.singleton_append]

/-- No room is left: nothing more is seen. -/
theorem snprintf_full (h : Shows n text m) (full : text.length = n) (next : Bytes) :
    snprintf m text.length (n - text.length) next = .ok m ∧ Shows n (text ++ next) m := by
  constructor
  · rw [snprintf, if_pos (by omega)]
  · refine ⟨h.size, ?_⟩
    rw [List.take_append_of_le_length (by omega)]
    exact h.held

end

/-- The texts printed from an offset on, each into what is left of `n` bytes. -/
def printAll (n : Nat) : Bytes → Nat → List Bytes → Mem Bytes
  | m, _, [] => .ok m
  | m, offset, text :: texts => do
    let m ← snprintf m offset (n - offset) text
    printAll n m (offset + text.length) texts

/-- Only the last text may be cut. -/
theorem printAll_from {n : Nat} {texts : List Bytes} {text m : Bytes} (h : Shows n text m)
    (fit : text.length + (texts.dropLast.map List.length).sum ≤ n) :
    ∃ m', printAll n m text.length texts = .ok m' ∧ Shows n (text ++ texts.flatten) m' := by
  induction texts generalizing text m with
  | nil =>
    rw [List.flatten_nil, List.append_nil]
    exact ⟨m, rfl, h⟩
  | cons next texts ih =>
    have hnext : ∃ m', snprintf m text.length (n - text.length) next = .ok m' ∧
        Shows n (text ++ next) m' := by
      by_cases room : text.length < n
      · obtain ⟨rest, hm⟩ := h.held
        refine snprintf_behind h.size ⟨0 :: rest, ?_⟩ room next
        rw [hm, List.take_of_length_le (by omega)]
      · have hfull : text.length = n := by omega
        obtain ⟨hprint, hshows⟩ := snprintf_full h hfull next
        exact ⟨m, hprint, hshows⟩
    obtain ⟨m', hprint, hshows⟩ := hnext
    cases texts with
    | nil =>
      refine ⟨m', ?_, by simpa using hshows⟩
      simp only [printAll, hprint, ok_bind]
    | cons more texts =>
      have hsum : (text ++ next).length + ((more :: texts).dropLast.map List.length).sum ≤ n := by
        simp only [List.dropLast_cons_cons, List.map_cons, List.sum_cons] at fit
        rw [List.length_append]
        omega
      obtain ⟨m'', hrest, hall⟩ := ih hshows hsum
      refine ⟨m'', ?_, by simpa only [List.flatten_cons, List.append_assoc] using hall⟩
      rw [printAll, hprint, ok_bind, ← List.length_append]
      exact hrest

/-- Printed into any buffer, the texts are all that is seen. -/
theorem printAll_shows {n : Nat} {texts : List Bytes} {m : Bytes} (size : m.length = n)
    (pos : 0 < n) (some : texts ≠ []) (fit : (texts.dropLast.map List.length).sum ≤ n) :
    ∃ m', printAll n m 0 texts = .ok m' ∧ Shows n texts.flatten m' := by
  obtain ⟨text, texts, rfl⟩ := List.exists_cons_of_ne_nil some
  have hempty : ([] : Bytes) <+: m := List.nil_prefix
  obtain ⟨m', hprint, hshows⟩ := snprintf_behind size hempty pos text
  rw [List.nil_append] at hshows
  have hfirst : printAll n m 0 (text :: texts) = printAll n m' text.length texts := by
    rw [printAll, Nat.zero_add]
    rw [List.length_nil] at hprint
    rw [hprint, ok_bind]
  rw [hfirst]
  cases texts with
  | nil => exact ⟨m', rfl, by simpa using hshows⟩
  | cons more texts =>
    refine printAll_from hshows ?_
    simpa only [List.dropLast_cons_cons, List.map_cons, List.sum_cons] using fit

end BoundedPrint
