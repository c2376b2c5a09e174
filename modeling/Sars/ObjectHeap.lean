import Mathlib.Data.List.Basic

/-!
# A heap of shared objects

Objects are allocated one after the other and never freed, and a pointer is the
number of an allocation. Reading through a pointer that was never handed out
gives the default object, so facts about such pointers are facts about
`Inhabited` and nothing else; every lemma that matters asks for `p < h.size`.
-/

namespace ObjectHeap

structure Heap (α : Type) where
  cells : List α
  deriving DecidableEq

namespace Heap

variable {α : Type}

def empty : Heap α := { cells := [] }

def size (h : Heap α) : Nat := h.cells.length

def alloc (h : Heap α) (a : α) : Heap α := { cells := h.cells ++ [a] }

def modify (h : Heap α) (p : Nat) (f : α → α) : Heap α := { cells := h.cells.modify p f }

@[simp] theorem size_alloc (h : Heap α) (a : α) : (h.alloc a).size = h.size + 1 := by
  simp [alloc, size]

@[simp] theorem size_modify (h : Heap α) (p : Nat) (f : α → α) : (h.modify p f).size = h.size := by
  simp [modify, size]

theorem modify_comm (h : Heap α) {p q : Nat} (f g : α → α) (hpq : p ≠ q) :
    (h.modify p f).modify q g = (h.modify q g).modify p f := by
  simp only [modify, mk.injEq]
  exact List.modify_modify_ne f g h.cells hpq

/-- Updates that commute on every object may be made in any order. -/
theorem modify_commute (h : Heap α) {f g : α → α} (commute : ∀ a, g (f a) = f (g a)) (p q : Nat) :
    (h.modify p f).modify q g = (h.modify q g).modify p f := by
  by_cases hpq : p = q
  · subst hpq
    simp only [modify, mk.injEq]
    rw [List.modify_modify_eq, List.modify_modify_eq]
    exact congrArg (h.cells.modify p) (funext commute)
  · exact modify_comm h f g hpq

variable [Inhabited α]

def get (h : Heap α) (p : Nat) : α := h.cells.getD p default

@[simp] theorem get_alloc_self (h : Heap α) (a : α) : (h.alloc a).get h.size = a := by
  simp [get, alloc, size]

theorem get_beyond {h : Heap α} {p : Nat} (hp : h.size ≤ p) : h.get p = default := by
  have hcell : h.cells.length ≤ p := hp
  simp [get, List.getD_eq_getElem?_getD, hcell]

theorem get_alloc {h : Heap α} {p : Nat} (a : α) (hp : p < h.size) :
    (h.alloc a).get p = h.get p := by
  simp only [get, alloc, List.getD_eq_getElem?_getD]
  rw [List.getElem?_append_left hp]

/-- A new object that is the default one is not noticed by reads. -/
theorem get_alloc_default (h : Heap α) (p : Nat) : (h.alloc default).get p = h.get p := by
  rcases Nat.lt_trichotomy p h.size with hlt | heq | hgt
  · exact get_alloc default hlt
  · rw [heq, get_alloc_self, get_beyond (Nat.le_refl _)]
  · rw [get_beyond (Nat.le_of_lt hgt), get_beyond (by rw [size_alloc]; exact hgt)]

@[simp] theorem get_modify_self {h : Heap α} {p : Nat} (f : α → α) (hp : p < h.size) :
    (h.modify p f).get p = f (h.get p) := by
  have hcell : p < h.cells.length := hp
  simp [get, modify, List.getD_eq_getElem?_getD, hcell]

@[simp] theorem get_modify_ne {h : Heap α} {p q : Nat} (f : α → α) (hq : q ≠ p) :
    (h.modify p f).get q = h.get q := by
  simp [get, modify, List.getD_eq_getElem?_getD, Ne.symm hq]

/-- A field that an update leaves alone is the same everywhere. -/
theorem get_modify_field {β : Type} (g : α → β) {h : Heap α} {p : Nat} {f : α → α}
    (same : ∀ a, g (f a) = g a) (q : Nat) : g ((h.modify p f).get q) = g (h.get q) := by
  by_cases hq : q = p
  · subst hq
    by_cases hp : q < h.size
    · rw [get_modify_self f hp, same]
    · have hcell : h.cells.length ≤ q := Nat.le_of_not_lt hp
      simp [get, modify, List.getD_eq_getElem?_getD, hcell]
  · rw [get_modify_ne f hq]

/-- An update is known by what it does to the object that is there. -/
theorem modify_congr {h : Heap α} {p : Nat} {f g : α → α} (same : f (h.get p) = g (h.get p)) :
    h.modify p f = h.modify p g := by
  simp only [modify, mk.injEq]
  refine List.ext_getElem? fun i => ?_
  rw [List.getElem?_modify, List.getElem?_modify]
  by_cases hi : p = i
  · subst hi
    cases hcell : h.cells[p]? with
    | none => rfl
    | some a =>
      have hget : h.get p = a := by simp [get, List.getD_eq_getElem?_getD, hcell]
      rw [hget] at same
      simp [same]
  · simp [hi]

theorem modify_same {h : Heap α} {p : Nat} {f : α → α} (same : f (h.get p) = h.get p) :
    h.modify p f = h := by
  rw [modify_congr (show f (h.get p) = id (h.get p) from same)]
  simp [modify]

end Heap

end ObjectHeap
