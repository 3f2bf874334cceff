import Mathlib.Data.List.Rotate
import Mathlib.Data.Nat.ModEq

/-!
# Circular arrays

A non-empty array whose last cell is followed by the first. A position may be any number:
it stands for its remainder. `around i` lists the cells from `i` on, once each; a write
changes one entry of it, and to advance by one cell moves its head to the end.
-/

namespace Netlib.Lib

/-- A non-empty array, read in a circle. -/
structure Circular (α : Type*) where
  cells : List α
  ne : cells ≠ []

namespace Circular

variable {α : Type*} (r : Circular α)

def size : ℕ := r.cells.length

theorem size_pos : 0 < r.size := List.length_pos_iff.mpr r.ne

/-- The cell at a position. -/
def get (i : ℕ) : α := r.cells.get ⟨i % r.size, Nat.mod_lt i r.size_pos⟩

def set (i : ℕ) (a : α) : Circular α where
  cells := r.cells.set (i % r.size) a
  ne := by
    rw [ne_eq, List.set_eq_nil_iff]
    exact r.ne

/-- The position after `i`. -/
def next (i : ℕ) : ℕ := (i + 1) % r.size

/-- The cells from `i` on. -/
def around (i : ℕ) : List α := r.cells.rotate i

/-- `n` equal cells. -/
def replicate (n : ℕ) (a : α) (h : n ≠ 0) : Circular α where
  cells := List.replicate n a
  ne h' := h (List.replicate_eq_nil_iff _ |>.mp h')

variable {r} {a : α} {i j k : ℕ}

@[simp] theorem size_set (i : ℕ) (a : α) : (r.set i a).size = r.size := List.length_set

@[simp] theorem next_set (i j : ℕ) (a : α) : (r.set i a).next j = r.next j := by
  unfold next
  rw [size_set]

theorem next_lt (i : ℕ) : r.next i < r.size := Nat.mod_lt _ r.size_pos

@[simp] theorem next_mod (i : ℕ) : r.next (i % r.size) = r.next i := by
  unfold next
  rw [Nat.mod_add_mod]

theorem get_congr (h : i % r.size = j % r.size) : r.get i = r.get j := by
  unfold get
  congr 2

@[simp] theorem get_mod (i : ℕ) : r.get (i % r.size) = r.get i := get_congr (Nat.mod_mod i _)

@[simp] theorem set_mod (i : ℕ) (a : α) : r.set (i % r.size) a = r.set i a := by
  unfold set
  congr 2
  exact Nat.mod_mod i _

/-- Two positions that are less than a turn apart are the same cell only when equal. -/
theorem add_mod_inj {c : ℕ} (hi : i < r.size) (hj : j < r.size)
    (h : (c + i) % r.size = (c + j) % r.size) : i = j := by
  have hmod : Nat.ModEq r.size i j := Nat.ModEq.add_left_cancel' c h
  rwa [Nat.ModEq, Nat.mod_eq_of_lt hi, Nat.mod_eq_of_lt hj] at hmod

theorem get_set_self (i : ℕ) (a : α) : (r.set i a).get i = a := by
  unfold get
  simp only [size_set]
  exact List.getElem_set_self _

theorem get_set_ne (h : i % r.size ≠ j % r.size) (a : α) : (r.set i a).get j = r.get j := by
  unfold get
  simp only [size_set]
  exact List.getElem_set_ne h _

@[simp] theorem length_around (i : ℕ) : (r.around i).length = r.size := List.length_rotate _ _

theorem getElem_around (hk : k < r.size) (i : ℕ) :
    (r.around i)[k]? = some (r.get (i + k)) := by
  have hk' : k < r.cells.length := hk
  unfold around get size
  rw [List.getElem?_rotate hk', Nat.add_comm k i]
  exact List.getElem?_eq_getElem _

/-- The list starts with the cell at `i`. -/
theorem around_cons (i : ℕ) : r.around i = r.get i :: (r.around i).tail := by
  have h0 := getElem_around r.size_pos i
  cases h : r.around i with
  | nil =>
    rw [h] at h0
    cases h0
  | cons x t =>
    rw [h, List.getElem?_cons_zero, Nat.add_zero] at h0
    rw [List.tail_cons, Option.some.inj h0]

/-- A write changes one entry. -/
theorem around_set (hk : k < r.size) (i : ℕ) (a : α) :
    (r.set (i + k) a).around i = (r.around i).set k a := by
  apply List.ext_getElem?
  intro m
  by_cases hm : m < r.size
  · rw [getElem_around ((size_set (r := r) (i + k) a).symm ▸ hm), List.getElem?_set]
    split
    · rename_i hkm
      subst hkm
      rw [get_set_self, if_pos (by simpa using hm)]
    · rename_i hkm
      rw [getElem_around hm, get_set_ne]
      intro h
      exact hkm (add_mod_inj hk hm h)
  · rw [List.getElem?_eq_none, List.getElem?_eq_none]
    · simpa using hm
    · simpa using hm

section Split

variable {c : ℕ} {xs ys : List α} {x : α}

/-- The cell after the first `xs`. -/
theorem get_of_around (h : r.around c = xs ++ x :: ys) : r.get (c + xs.length) = x := by
  have hk : xs.length < r.size := by
    rw [← length_around c, h, List.length_append, List.length_cons]
    omega
  have hget := getElem_around hk c
  rw [h, List.getElem?_append_right (Nat.le_refl _), Nat.sub_self, List.getElem?_cons_zero] at hget
  exact (Option.some.inj hget).symm

/-- A write after the first `xs`. -/
theorem set_of_around (h : r.around c = xs ++ x :: ys) (a : α) :
    (r.set (c + xs.length) a).around c = xs ++ a :: ys := by
  have hk : xs.length < r.size := by
    rw [← length_around c, h, List.length_append, List.length_cons]
    omega
  rw [around_set hk, h, List.set_append_right _ _ (Nat.le_refl _), Nat.sub_self, List.set_cons_zero]

theorem get_of_cons (h : r.around c = x :: ys) : r.get c = x := by
  have h' : r.around c = [] ++ x :: ys := h
  exact get_of_around h'

theorem set_of_cons (h : r.around c = x :: ys) (a : α) : (r.set c a).around c = a :: ys := by
  have h' : r.around c = [] ++ x :: ys := h
  exact set_of_around h' a

end Split

/-- One cell further the head comes last. -/
theorem around_next (i : ℕ) : r.around (r.next i) = (r.around i).tail ++ [r.get i] := by
  unfold next around size
  rw [List.rotate_mod, ← List.rotate_rotate]
  have hcons := around_cons (r := r) i
  unfold around at hcons
  rw [hcons, List.rotate_cons_succ, List.rotate_zero, List.tail_cons]

theorem around_replicate (n : ℕ) (a : α) (h : n ≠ 0) (i : ℕ) :
    (replicate n a h).around i = List.replicate n a := List.rotate_replicate a n i

end Circular

end Netlib.Lib
