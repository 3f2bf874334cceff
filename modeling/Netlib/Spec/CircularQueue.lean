import Netlib.Lib.Circular
import Netlib.Lib.Refine
import Netlib.Spec.Buffer

/-!
# The bounded queue (`base/circular_queue.hpp`)

A ring with one cell more than its capacity: where `_head` and `_tail` meet it is empty. A cell
that no element has been copied to is `none`. Sizes are `size_t`; no sum of them wraps while the
capacity is below `2 ^ 62`. The block has as many cells as fit into `sizeof(T)*_cap` bytes, and
`call` is undefined where one outside of it is used. `push_back` assigns to its cell, which makes
no element where there is none unless the bytes of `T` are all that there is to it.
-/

namespace Netlib

open Lib
open Function (update)

/-- `circular_queue`. -/
structure CircularQueue (α : Type*) where
  _cap : ℕ
  _head : ℕ
  _tail : ℕ
  _element : Circular (Option α)

namespace CircularQueue

variable {α : Type*}

/-- The constructor with a capacity; the other one has 1024. -/
def new (cap : ℕ) : CircularQueue α :=
  ⟨cap + 1, 0, 0, .replicate (cap + 1) none (Nat.succ_ne_zero cap)⟩

variable (q : CircularQueue α)

def size : ℕ := (q._cap - q._head + q._tail) % q._cap

def full : Bool := q.size == q._cap - 1

def empty : Bool := q._head == q._tail

/-- `push_back` returns false and drops the element where the ring is full. -/
def push_back (a : α) : Bool × CircularQueue α :=
  if q.full then (false, q)
  else
    (true, { q with
      _element := q._element.set q._tail (some a)
      _tail := (q._tail + 1) % q._cap })

/-- `pop_front(t)`, with the element if there is one. -/
def pop_front : Option α × CircularQueue α :=
  if q._head ≠ q._tail then
    (q._element.get q._head, { q with _head := (q._head + 1) % q._cap })
  else (none, q)

/-! ## The other end -/

/-- `front`, on a queue that is not empty. -/
def front : Option α := q._element.get q._head

/-- `pop_front()`. -/
def pop_front_void : CircularQueue α :=
  if q._head ≠ q._tail then { q with _head := (q._head + 1) % q._cap } else q

/-- The cell before `_tail`. -/
def last : ℕ := (q._cap + q._tail - 1) % q._cap

/-- `back`, on a queue that is not empty. -/
def back : Option α := q._element.get q.last

/-- `pop_back()`. -/
def pop_back_void : CircularQueue α :=
  if q._head ≠ q._tail then { q with _tail := q.last } else q

/-- `pop_back(t)`: what is returned, what `t` is assigned, and the queue. When there is an
element the function ends in the statement `true;` and returns nothing. -/
def pop_back : Option Bool × Option α × CircularQueue α :=
  if q._head ≠ q._tail then (none, q._element.get q.last, { q with _tail := q.last })
  else (some false, none, q)

/-- The cells that have elements, which `clear` destroys. -/
def cells : List ℕ := (List.range q.size).map fun k => (q._head + k) % q._cap

def swap (queue : CircularQueue α) : CircularQueue α × CircularQueue α :=
  (⟨queue._cap, queue._head, queue._tail, queue._element⟩,
    ⟨q._cap, q._head, q._tail, q._element⟩)

/-- `clear`: the cells are popped until the queue is empty. -/
def clear : CircularQueue α := (fun q => q.pop_front.2)^[q.size] q

end CircularQueue

/-! ## Calls -/

/-- A call on the `i`-th queue. -/
inductive QueueCall (α : Type*)
  | push_back (i : ℕ) (t : α)
  | pop_front (i : ℕ)
  | pop_front_void (i : ℕ)
  | pop_back (i : ℕ)
  | pop_back_void (i : ℕ)
  | front (i : ℕ)
  | back (i : ℕ)
  | clear (i : ℕ)
  | swap (i queue : ℕ)
  | size (i : ℕ)
  | full (i : ℕ)
  | empty (i : ℕ)

namespace CircularQueue

-- whether `T` is trivially copyable, and `sizeof(T)`
variable {α : Type*} (bytewise : Bool) (sizeT : ℕ)

/-- A cell of the block. -/
def InBlock (q : CircularQueue α) (i : ℕ) : Prop := i < roomFor sizeT q._cap

instance (q : CircularQueue α) (i : ℕ) : Decidable (q.InBlock sizeT i) :=
  inferInstanceAs (Decidable (_ < _))

/-- `_element[i] = t` has an element to assign to, or needs none. -/
def Assignable (q : CircularQueue α) (i : ℕ) : Prop :=
  q.InBlock sizeT i ∧ (bytewise = true ∨ i ∈ q.cells)

instance (q : CircularQueue α) (i : ℕ) : Decidable (q.Assignable bytewise sizeT i) :=
  inferInstanceAs (Decidable (_ ∧ _))

/-- A call on a family of queues, `none` when it is undefined. -/
def call (s : ℕ → CircularQueue α) : QueueCall α → Option (Answer α × (ℕ → CircularQueue α))
  | .push_back i t =>
    if (s i).full ∨ (s i).Assignable bytewise sizeT (s i)._tail then
      let (ret, q) := (s i).push_back t
      some (.bool ret, update s i q)
    else none
  | .pop_front i =>
    if (s i).empty ∨ (s i).InBlock sizeT (s i)._head then
      let (t, q) := (s i).pop_front
      some (.assigned (!(s i).empty) t, update s i q)
    else none
  | .pop_front_void i =>
    if (s i).empty ∨ (s i).InBlock sizeT (s i)._head then
      some (.void, update s i (s i).pop_front_void)
    else none
  | .pop_back i =>
    if (s i).empty ∨ (s i).InBlock sizeT (s i).last then
      let (ret, t, q) := (s i).pop_back
      ret.map fun ret => (.assigned ret t, update s i q)
    else none
  | .pop_back_void i =>
    if (s i).empty ∨ (s i).InBlock sizeT (s i).last then
      some (.void, update s i (s i).pop_back_void)
    else none
  | .front i =>
    if (s i).InBlock sizeT (s i)._head then (s i).front.map fun t => (.elem t, s) else none
  | .back i =>
    if (s i).InBlock sizeT (s i).last then (s i).back.map fun t => (.elem t, s) else none
  | .clear i =>
    if ∀ c ∈ (s i).cells, (s i).InBlock sizeT c then some (.void, update s i (s i).clear)
    else none
  | .swap i queue =>
    if i ≠ queue then
      let (q, q') := (s i).swap (s queue)
      some (.void, update (update s i q) queue q')
    else some (.void, s)
  | .size i => some (.size (s i).size, s)
  | .full i => some (.bool (s i).full, s)
  | .empty i => some (.bool (s i).empty, s)

end CircularQueue

/-- A double-ended queue of bounded length. -/
structure Deque (α : Type*) where
  cap : ℕ
  elems : List α
  deriving DecidableEq

namespace Deque

variable {α : Type*}

/-- **The bounded double-ended queues.** `front` and `back` of an empty one are not allowed. -/
def call (m : ℕ → Deque α) : QueueCall α → Option (Answer α × (ℕ → Deque α))
  | .push_back i t =>
    if (m i).elems.length = (m i).cap then some (.bool false, m)
    else some (.bool true, update m i ⟨(m i).cap, (m i).elems ++ [t]⟩)
  | .pop_front i =>
    some (.assigned (!(m i).elems.isEmpty) (m i).elems.head?,
      update m i ⟨(m i).cap, (m i).elems.tail⟩)
  | .pop_front_void i => some (.void, update m i ⟨(m i).cap, (m i).elems.tail⟩)
  | .pop_back i =>
    some (.assigned (!(m i).elems.isEmpty) (m i).elems.getLast?,
      update m i ⟨(m i).cap, (m i).elems.dropLast⟩)
  | .pop_back_void i => some (.void, update m i ⟨(m i).cap, (m i).elems.dropLast⟩)
  | .front i => (m i).elems.head?.map fun t => (.elem t, m)
  | .back i => (m i).elems.getLast?.map fun t => (.elem t, m)
  | .clear i => some (.void, update m i ⟨(m i).cap, []⟩)
  | .swap i queue => some (.void, update (update m i (m queue)) queue (m i))
  | .size i => some (.size (m i).elems.length, m)
  | .full i => some (.bool ((m i).elems.length = (m i).cap), m)
  | .empty i => some (.bool (m i).elems.isEmpty, m)

end Deque

namespace CircularQueue

variable {α : Type*} (bytewise : Bool) (sizeT : ℕ)

/-- **The condition on a call**: `pop_back(t)` finds the queue empty, and `push_back` finds it
full, or comes to a cell of the block with a `T` that is trivially copyable. -/
def Returns (s : ℕ → CircularQueue α) : QueueCall α → Prop
  | .push_back i _ => (s i).full ∨ bytewise = true ∧ (s i).InBlock sizeT (s i)._tail
  | .pop_back i => (s i).empty
  | _ => True

end CircularQueue

end Netlib
