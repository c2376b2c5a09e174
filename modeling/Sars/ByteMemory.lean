import Mathlib.Data.List.Basic

/-!
# Byte memory with checked accesses

A buffer is a list of bytes and every access names the index it touches. An
access outside the buffer, or a read of a variable that was never assigned, is
a `Fault`, so that a computation in `Mem` which ends in `ok` has touched nothing
but the buffer. No byte order and no layout is assumed here.
-/

namespace ByteMemory

abbrev Bytes := List UInt8

/-- A block of exactly `n` bytes, such as a digest or an address. -/
abbrev Block (n : Nat) := {b : Bytes // b.length = n}

inductive Fault where
  | read (i : Nat)
  | write (i : Nat)
  | uninitialised
  deriving DecidableEq, Repr

abbrev Mem (α : Type) := Except Fault α

instance {α : Type} [DecidableEq α] : DecidableEq (Mem α) := fun a b =>
  match a, b with
  | .ok x, .ok y => if h : x = y then .isTrue (by rw [h]) else .isFalse (by simpa using h)
  | .error x, .error y => if h : x = y then .isTrue (by rw [h]) else .isFalse (by simpa using h)
  | .ok _, .error _ => .isFalse (by simp)
  | .error _, .ok _ => .isFalse (by simp)

@[simp] theorem ok_bind {α β : Type} (a : α) (f : α → Mem β) :
    ((Except.ok a : Mem α) >>= f) = f a := rfl

@[simp] theorem error_bind {α β : Type} (e : Fault) (f : α → Mem β) :
    ((Except.error e : Mem α) >>= f) = Except.error e := rfl

@[simp] theorem pure_ok {α : Type} (a : α) : (pure a : Mem α) = Except.ok a := rfl

def load (m : Bytes) (i : Nat) : Mem UInt8 :=
  match m[i]? with
  | some v => .ok v
  | none => .error (.read i)

def store (m : Bytes) (i : Nat) (v : UInt8) : Mem Bytes :=
  if i < m.length then .ok (m.set i v) else .error (.write i)

/-- Copy `n` bytes out of the buffer. -/
def loadBytes (m : Bytes) (i n : Nat) : Mem Bytes :=
  if i + n ≤ m.length then .ok ((m.drop i).take n) else .error (.read (i + n - 1))

/-- The same for a block of fixed size. -/
def loadBlock (m : Bytes) (i n : Nat) : Mem (Block n) :=
  if h : i + n ≤ m.length then
    .ok ⟨(m.drop i).take n, by rw [List.length_take, List.length_drop]; omega⟩
  else .error (.read (i + n - 1))

/-- Copy a run of bytes into the buffer. -/
def storeBytes (m : Bytes) (i : Nat) (bs : Bytes) : Mem Bytes :=
  if i + bs.length ≤ m.length then .ok (m.take i ++ bs ++ m.drop (i + bs.length))
  else .error (.write (i + bs.length - 1))

/-- Read a variable that may not have been assigned. -/
def assigned {α : Type} : Option α → Mem α
  | some a => .ok a
  | none => .error .uninitialised

@[simp] theorem assigned_some {α : Type} (a : α) : assigned (some a) = .ok a := rfl

/-- Every in-range stretch can be cut out of the buffer. -/
theorem exists_window (m : Bytes) {i n : Nat} (h : i + n ≤ m.length) :
    ∃ pre mid post, m = pre ++ (mid ++ post) ∧ pre.length = i ∧ mid.length = n := by
  refine ⟨m.take i, (m.drop i).take n, (m.drop i).drop n, ?_, ?_, ?_⟩
  · rw [List.take_append_drop, List.take_append_drop]
  · rw [List.length_take]
    omega
  · rw [List.length_take, List.length_drop]
    omega

theorem load_window (pre post : Bytes) (v : UInt8) {i : Nat} (hi : pre.length = i) :
    load (pre ++ v :: post) i = .ok v := by
  subst hi
  simp [load]

theorem store_window (pre post : Bytes) (old v : UInt8) {i : Nat} (hi : pre.length = i) :
    store (pre ++ old :: post) i v = .ok (pre ++ v :: post) := by
  subst hi
  simp [store]

theorem loadBytes_window (pre mid post : Bytes) {i n : Nat} (hi : pre.length = i)
    (hn : mid.length = n) : loadBytes (pre ++ (mid ++ post)) i n = .ok mid := by
  subst hi hn
  simp [loadBytes]

theorem loadBlock_window (pre post : Bytes) {i n : Nat} (mid : Block n) (hi : pre.length = i) :
    loadBlock (pre ++ (mid.val ++ post)) i n = .ok mid := by
  obtain ⟨mid, hn⟩ := mid
  subst hi hn
  simp [loadBlock]

theorem storeBytes_window (pre old post new : Bytes) {i : Nat} (hi : pre.length = i)
    (hn : old.length = new.length) :
    storeBytes (pre ++ (old ++ post)) i new = .ok (pre ++ (new ++ post)) := by
  subst hi
  simp [storeBytes, ← hn]

/-- Writing behind what is already there extends it. -/
theorem storeBytes_behind (w rest new : Bytes) {i : Nat} (hi : w.length = i)
    (hn : new.length ≤ rest.length) :
    storeBytes (w ++ rest) i new = .ok ((w ++ new) ++ rest.drop new.length) := by
  have h := storeBytes_window w (rest.take new.length) (rest.drop new.length) new hi
    (by rw [List.length_take]; omega)
  rw [List.take_append_drop] at h
  rw [h, List.append_assoc]

end ByteMemory
