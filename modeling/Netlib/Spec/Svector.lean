import Netlib.Lib.Refine
import Netlib.Spec.Buffer

/-!
# The stack (`base/svector.hpp`)

`_head` is what `malloc` or `realloc` has given last; a cell of it has an element or is raw
memory. To use a cell outside of it, to make an element where there is one and to destroy one
where there is none is undefined. `push_back` asks for twice `_cap` when there are `_cap`
elements or more, and leaves `_cap` as it is. Its argument is a reference, also to an element of
an svector, and `realloc` moves the bytes of the elements.
-/

namespace Netlib

open Lib
open Function (update)

structure Svector (α : Type*) where
  _cap : ℕ
  _size : ℕ
  _head : List (Option α)
  deriving DecidableEq

/-- The `const T&` that `push_back` gets: to an object that is no element of the svector, or to its
own `k`-th element. -/
inductive SvectorArg (α : Type*)
  | outer (t : α)
  | own (k : ℕ)

namespace Svector

section

-- whether `T` is trivially copyable, and `sizeof(T)`
variable {α : Type*} (bytewise : Bool) (sizeT : ℕ)

/-- `realloc` keeps the cells that both blocks have. It moves their elements by the bytes, which
makes no elements of a class with constructors of its own. -/
def realloc (_head : List (Option α)) (n : ℕ) : Option (List (Option α)) :=
  if bytewise ∨ _head.all Option.isNone then
    some (_head.take (roomFor sizeT n) ++ .replicate (roomFor sizeT n - _head.length) none)
  else none

/-- `new(p)T(t)`, where `p` is `&_head[i]`. -/
def construct (_head : List (Option α)) (i : ℕ) (t : α) : Option (List (Option α)) :=
  match _head[i]? with
  | some none => some (_head.set i (some t))
  | _ => none

/-- `p->~T()`. -/
def destroy (_head : List (Option α)) (i : ℕ) : Option (List (Option α)) :=
  match _head[i]? with
  | some (some _) => some (_head.set i none)
  | _ => none

/-- The constructor with a capacity; the other one has 100. -/
def new (cap : ℕ) : Svector α := ⟨cap, 0, .replicate (roomFor sizeT cap) none⟩

variable (v : Svector α)

def empty : Bool := v._size == 0

def size : ℕ := v._size

/-- `back`, on an svector that is not empty. -/
def back : Option α := v._head[v._size - 1]?.join

def pop_back : Option (Svector α) :=
  if v._size > 0 then
    (destroy v._head (v._size - 1)).map fun _head =>
      { v with _size := v._size - 1, _head := _head }
  else some v

/-- `push_back`. After a `realloc` a reference to an own element goes to the block that is freed. -/
def push_back (t : SvectorArg α) : Option (Svector α) :=
  (if v._size ≥ v._cap then realloc bytewise sizeT v._head (u64 (v._cap * 2))
    else some v._head).bind fun _head =>
  (match t with
    | .outer t => some t
    | .own k => if v._size ≥ v._cap then none else _head[k]?.join).bind fun t =>
  (construct _head v._size t).map fun _head => { v with _size := v._size + 1, _head := _head }

def clear : Option (Svector α) :=
  ((List.range v._size).foldlM destroy v._head).map fun _head =>
    { v with _size := 0, _head := _head }

def swap (other : Svector α) : Svector α × Svector α :=
  (⟨other._cap, other._size, other._head⟩, ⟨v._cap, v._size, v._head⟩)

end

end Svector

/-! ## Calls -/

/-- A call on the `i`-th svector. `push_back_of` is `push_back` with a reference to the `k`-th
element of the `j`-th one, such as `back` returns. -/
inductive SvectorCall (α : Type*)
  | push_back (i : ℕ) (t : α)
  | push_back_of (i j k : ℕ)
  | pop_back (i : ℕ)
  | back (i : ℕ)
  | clear (i : ℕ)
  | swap (i other : ℕ)
  | size (i : ℕ)
  | empty (i : ℕ)

namespace Svector

variable {α : Type*} (bytewise : Bool) (sizeT : ℕ)

/-- A call on a family of svectors, `none` when it is undefined. -/
def call (s : ℕ → Svector α) : SvectorCall α → Option (Answer α × (ℕ → Svector α))
  | .push_back i t =>
    ((s i).push_back bytewise sizeT (.outer t)).map fun v => (.void, update s i v)
  | .push_back_of i j k =>
    (if i = j then some (.own k) else ((s j)._head[k]?.join).map .outer).bind fun t =>
      ((s i).push_back bytewise sizeT t).map fun v => (.void, update s i v)
  | .pop_back i => (s i).pop_back.map fun v => (.void, update s i v)
  | .back i => (s i).back.map fun a => (.elem a, s)
  | .clear i => (s i).clear.map fun v => (.void, update s i v)
  | .swap i other =>
    let (v, w) := (s i).swap (s other)
    some (.void, update (update s i v) other w)
  | .size i => some (.size (s i).size, s)
  | .empty i => some (.bool (s i).empty, s)

/-- **The stacks**: the calls on lists whose last element is on top. `back` of an empty one is
not allowed, nor a reference to an element that there is not. -/
def stackCall (m : ℕ → List α) : SvectorCall α → Option (Answer α × (ℕ → List α))
  | .push_back i t => some (.void, update m i (m i ++ [t]))
  | .push_back_of i j k => (m j)[k]?.map fun t => (.void, update m i (m i ++ [t]))
  | .pop_back i => some (.void, update m i (m i).dropLast)
  | .back i => (m i).getLast?.map fun a => (.elem a, m)
  | .clear i => some (.void, update m i [])
  | .swap i other => some (.void, update (update m i (m other)) other (m i))
  | .size i => some (.size (m i).length, m)
  | .empty i => some (.bool (m i).isEmpty, m)

/-- **A sound representation of a stack**: its elements are in the first cells, the others are
raw memory, and there is room for the capacity or, once it has grown, for twice as much. -/
structure Holds (v : Svector α) (xs : List α) : Prop where
  size : v._size = xs.length
  cells : ∃ k, v._head = xs.map some ++ List.replicate k none
  alloc : v._head.length = roomFor sizeT v._cap ∨
    v._head.length = roomFor sizeT (2 * v._cap) ∧ roomFor sizeT v._cap = v._cap ∧
      v._cap ≤ v._head.length

/-- There is room for one more element in the capacity, or in twice the capacity where that is
what `push_back` asks for. -/
def HasRoom (v : Svector α) : Prop :=
  v._size < roomFor sizeT (if v._size < v._cap then v._cap else 2 * v._cap)

/-- **The condition on a call**: `push_back` finds room, and where it has to grow the elements may
be moved by their bytes, if there are any, and the argument is none of them. -/
def Fits (s : ℕ → Svector α) : SvectorCall α → Prop
  | .push_back i _ =>
    HasRoom sizeT (s i) ∧ ((s i)._cap ≤ (s i)._size → (s i)._size = 0 ∨ bytewise = true)
  | .push_back_of i j _ =>
    HasRoom sizeT (s i) ∧
      ((s i)._cap ≤ (s i)._size → i ≠ j ∧ ((s i)._size = 0 ∨ bytewise = true))
  | _ => True

end Svector

end Netlib
