import Netlib.Lib.Linked
import Netlib.Lib.Refine
import Mathlib.Algebra.Ring.Int.Defs
import Mathlib.Data.Int.Notation

/-!
# The singly linked list (`base/slist.hpp`)

A list knows its first and its last node and how many there are. All lists have their nodes on
one heap. To use a node that is not allocated is undefined, as is an `int` that overflows. An
address that has been freed is not given again.
-/

namespace Netlib

open Lib
open Function (update)

/-- The result of `int` arithmetic. -/
def int32 (z : ℤ) : Option ℤ := if -2 ^ 31 ≤ z ∧ z < 2 ^ 31 then some z else none

structure Slist where
  _count : ℤ
  _head : Option ℕ
  _tail : Option ℕ
  deriving DecidableEq

namespace Slist

variable {α : Type*}

/-- The constructor. -/
def new : Slist := ⟨0, none, none⟩

variable (l : Slist) (heap : Heap α)

/-- `push_back`, where `pnode` is what `new Node` gives. -/
def push_back (t : α) (pnode : ℕ) : Option (Heap α × Slist) :=
  let heap : Heap α := update heap pnode (some ⟨t, none⟩)
  let linked := match l._tail with
    | some _tail => heap.setNext _tail (some pnode)
    | none => some heap
  let _tail := some pnode
  let _head := if l._head = none then _tail else l._head
  linked.bind fun heap => (int32 (l._count + 1)).map fun _count => (heap, ⟨_count, _head, _tail⟩)

def front : Option α := (l._head.bind heap).map Node.val

def pop_front : Option (Heap α × Slist) :=
  match l._head with
  | none => some (heap, l)
  | some _head =>
    (heap _head).bind fun node =>
      (heap.free _head).bind fun heap =>
        (int32 (l._count - 1)).map fun _count =>
          (heap, ⟨_count, node.next, if l._head = l._tail then node.next else l._tail⟩)

def size : ℤ := l._count

def empty : Bool := l._count == 0

/-- The loop of `clear` from `cur` on, at most `n` times. -/
def clearLoop : ℕ → Heap α → Option ℕ → Option (Heap α)
  | _, heap, none => some heap
  | 0, _, some _ => none
  | n + 1, heap, some cur =>
    (heap cur).bind fun node => (heap.free cur).bind fun heap => clearLoop n heap node.next

/-- `clear`, when `n` nodes have been allocated so far; `_tail` stays. -/
def clear (n : ℕ) : Option (Heap α × Slist) :=
  (clearLoop n heap l._head).map fun heap => (heap, ⟨0, none, l._tail⟩)

/-- `swap` with another list. -/
def swap (other : Slist) : Slist × Slist :=
  (⟨other._count, other._head, other._tail⟩, ⟨l._count, l._head, l._tail⟩)

/-- `join` with another list. -/
def join (other : Slist) : Option (Heap α × Slist × Slist) :=
  let linked := match l._tail with
    | some _tail => (heap.setNext _tail other._head).map fun heap => (heap, l._head)
    | none => some (heap, other._head)
  linked.bind fun (heap, _head) =>
    (int32 (l._count + other._count)).map fun _count =>
      (heap, ⟨_count, _head, other._tail⟩, ⟨0, none, none⟩)

end Slist

/-! ## Calls -/

/-- A call on the `i`-th list. -/
inductive SlistCall (α : Type*)
  | push_back (i : ℕ) (t : α)
  | front (i : ℕ)
  | pop_front (i : ℕ)
  | size (i : ℕ)
  | empty (i : ℕ)
  | clear (i : ℕ)
  | swap (i other : ℕ)
  | join (i other : ℕ)

/-- The lists and their heap; `fresh` is the address that `new` gives next. -/
structure SlistWorld (α : Type*) where
  heap : Heap α
  fresh : ℕ
  list : ℕ → Slist

namespace SlistWorld

variable {α : Type*}

def start : SlistWorld α := ⟨fun _ => none, 0, fun _ => .new⟩

variable (w : SlistWorld α)

/-- A call, `none` when it is undefined. -/
def call : SlistCall α → Option (Answer α × SlistWorld α)
  | .push_back i t =>
    ((w.list i).push_back w.heap t w.fresh).map fun (heap, l) =>
      (.void, ⟨heap, w.fresh + 1, update w.list i l⟩)
  | .front i => ((w.list i).front w.heap).map fun t => (.elem t, w)
  | .pop_front i =>
    ((w.list i).pop_front w.heap).map fun (heap, l) =>
      (.void, ⟨heap, w.fresh, update w.list i l⟩)
  | .size i => some (.size (w.list i).size, w)
  | .empty i => some (.bool (w.list i).empty, w)
  | .clear i =>
    ((w.list i).clear w.heap w.fresh).map fun (heap, l) =>
      (.void, ⟨heap, w.fresh, update w.list i l⟩)
  | .swap i other =>
    if i = other then some (.void, w)
    else
      let (l, l') := (w.list i).swap (w.list other)
      some (.void, { w with list := update (update w.list i l) other l' })
  | .join i other =>
    if i = other then some (.void, w)
    else
      ((w.list i).join w.heap (w.list other)).map fun (heap, l, l') =>
        (.void, ⟨heap, w.fresh, update (update w.list i l) other l'⟩)

/-- **The lists of values.** `front` of an empty one is not allowed. -/
def listCall (m : ℕ → List α) : SlistCall α → Option (Answer α × (ℕ → List α))
  | .push_back i t => some (.void, update m i (m i ++ [t]))
  | .front i => (m i).head?.map fun t => (.elem t, m)
  | .pop_front i => some (.void, update m i (m i).tail)
  | .size i => some (.size (m i).length, m)
  | .empty i => some (.bool (m i).isEmpty, m)
  | .clear i => some (.void, update m i [])
  | .swap i other => some (.void, update (update m i (m other)) other (m i))
  | .join i other =>
    if i = other then some (.void, m)
    else some (.void, update (update m i (m i ++ m other)) other [])

/-- Each list has the nodes `cells i`, in order, and no node is in two lists. -/
structure Owns (cells : ℕ → List (ℕ × α)) : Prop where
  seg : ∀ i, Seg w.heap (w.list i)._head (cells i) none
  tail : ∀ i, (w.list i)._tail = (addrs (cells i)).getLast?
  count : ∀ i, (w.list i)._count = (cells i).length
  lt : ∀ i, (w.list i)._count < 2 ^ 31
  nodup : ∀ i, (addrs (cells i)).Nodup
  disjoint : ∀ i j, i ≠ j → List.Disjoint (addrs (cells i)) (addrs (cells j))
  fresh : ∀ i, ∀ a ∈ addrs (cells i), a < w.fresh

/-- **The nodes from `_head` on have the values of the lists**, `_count` is their number and
`_tail` the last of them. -/
def Linked (m : ℕ → List α) : Prop := ∃ cells, w.Owns cells ∧ ∀ i, m i = (cells i).map Prod.snd

/-- **The condition on a call**: `clear` finds an empty list, `join` does not join an empty list
to one that is not, and `_count` does not overflow. -/
def Keeps : SlistCall α → Prop
  | .push_back i _ => (w.list i)._count < 2 ^ 31 - 1
  | .clear i => (w.list i)._head = none
  | .join i other =>
    i = other ∨ ((w.list i)._head = none ∨ (w.list other)._head ≠ none) ∧
      (w.list i)._count + (w.list other)._count < 2 ^ 31
  | _ => True

end SlistWorld

end Netlib
