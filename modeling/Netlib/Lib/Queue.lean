import Mathlib.Data.List.DropRight

/-!
# Queues that can be put back

A queue keeps the elements that were taken from it, and the last of them can be put back in front.
Taking and putting back move a border in the same history (`history_drop`, `history_restore`), so a
representation of a queue is its history and where the border is.
-/

namespace Netlib.Lib

/-- A queue, with the elements that were taken from it. -/
structure Queue (α : Type*) where
  consumed : List α
  elems : List α
  deriving DecidableEq

namespace Queue

variable {α : Type*}

def empty : Queue α := ⟨[], []⟩

variable (q : Queue α)

/-- All elements that were there, the oldest first. -/
def history : List α := q.consumed ++ q.elems

/-- The elements `l` come last. -/
def append (l : List α) : Queue α := ⟨q.consumed, q.elems ++ l⟩

/-- The first `n` elements are taken. -/
def drop (n : ℕ) : Queue α := ⟨q.consumed ++ q.elems.take n, q.elems.drop n⟩

/-- The last `n` elements that were taken come first again. -/
def restore (n : ℕ) : Queue α := ⟨q.consumed.rdrop n, q.consumed.rtake n ++ q.elems⟩

@[simp] theorem history_append (l : List α) : (q.append l).history = q.history ++ l :=
  (List.append_assoc ..).symm

@[simp] theorem history_drop (n : ℕ) : (q.drop n).history = q.history := by
  simp [history, drop]

@[simp] theorem history_restore (n : ℕ) : (q.restore n).history = q.history := by
  simp [history, restore, List.rdrop, List.rtake, ← List.append_assoc]

@[simp] theorem consumed_append (l : List α) : (q.append l).consumed = q.consumed := rfl

theorem consumed_drop_length (n : ℕ) :
    (q.drop n).consumed.length = q.consumed.length + min n q.elems.length := by
  simp [drop]

theorem consumed_restore_length (n : ℕ) :
    (q.restore n).consumed.length = q.consumed.length - n := by
  simp [restore, List.rdrop]

theorem history_length : q.history.length = q.consumed.length + q.elems.length :=
  List.length_append

/-- The border splits the history. -/
theorem history_drop_consumed : q.history.drop q.consumed.length = q.elems := List.drop_left

theorem history_take_consumed : q.history.take q.consumed.length = q.consumed := List.take_left

end Queue

end Netlib.Lib
