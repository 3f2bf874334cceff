import Netlib.Lib.Queue
import Netlib.Lib.Refine
import Netlib.Spec.TypedBuffer

/-!
# Buffers as queues of bytes (`base/buffer.hpp`)

A buffer is a queue of the bytes in `[_offset, _pos)`. The bytes before `_offset` have been taken
from it, and `CutData` with a negative length puts them back. Here are the calls on any number of
buffers, what they do to queues, and what a buffer is for a queue.
-/

namespace Netlib

open Lib
open Function (update)

/-- A call on the `i`-th buffer. `src` are the bytes at `data`, `dst` is the memory at `data`, and
the length of `CutData` is an `s_int32_t`. -/
inductive ByteQueueCall
  | write (i : ℕ) (src : List Byte)
  | read (i : ℕ) (dst : List Byte) (len : ℕ)
  | cutData (i : ℕ) (len : BitVec 32)
  | clear (i : ℕ)
  | swap (i buffer : ℕ)
  | length (i : ℕ)

/-- What a call gives: nothing, the memory that was read to, or a number. -/
inductive ByteQueueAnswer
  | void
  | memory (dst : List Byte)
  | length (n : ℕ)
  deriving DecidableEq

namespace Buffer

/-- A call, `none` when it uses memory outside of an allocation. -/
def call (s : ℕ → Buffer) : ByteQueueCall → Option (ByteQueueAnswer × (ℕ → Buffer))
  | .write i src => ((s i).writeIn src).map fun b => (.void, update s i b)
  | .read i dst len =>
    ((s i).readIn dst len).map fun (dst, b) => (.memory dst, update s i b)
  | .cutData i len => some (.void, update s i ((s i).cutData len.toInt))
  | .clear i => some (.void, update s i (s i).clear)
  | .swap i buffer => some (.void, update (update s i (s buffer)) buffer (s i))
  | .length i => some (.length (s i).length, s)

end Buffer

/-- **The calls on queues**, which are allowed while the bytes since the last `Clear` are fewer
than `2 ^ 31`, for as many bytes as there are to read, and for as many as there are to put back. -/
def queueCall (m : ℕ → Queue Byte) : ByteQueueCall → Option (ByteQueueAnswer × (ℕ → Queue Byte))
  | .write i src =>
    if (m i).history.length + src.length < 2 ^ 31 then
      some (.void, update m i ((m i).append src))
    else none
  | .read i dst len =>
    if len ≤ (m i).elems.length ∧ len ≤ dst.length then
      some (.memory ((m i).elems.take len ++ dst.drop len), update m i ((m i).drop len))
    else none
  | .cutData i len =>
    if 0 ≤ len.toInt then some (.void, update m i ((m i).drop len.toInt.toNat))
    else if (-len.toInt).toNat ≤ (m i).consumed.length then
      some (.void, update m i ((m i).restore (-len.toInt).toNat))
    else none
  | .clear i => some (.void, update m i .empty)
  | .swap i buffer => some (.void, update (update m i (m buffer)) buffer (m i))
  | .length i => some (.length (m i).elems.length, m)

namespace Buffer

/-- The buffer `b` has the history of the queue `q` below `_pos`, with the border at `_offset`. -/
structure Holds (b : Buffer) (q : Queue Byte) : Prop where
  wf : b.WF
  content : b.content = q.history
  offset : b._offset = q.consumed.length
  lt : b._pos < 2 ^ 31

/-- **A buffer as a queue**: its bytes in `[_offset, _pos)` are those of the queue, those before
are the bytes that were taken, and `Length()` is the length. The reallocation of a `Write` preserves
all bytes below `_pos` and leaves `_offset ≤ _pos ≤ _size`. -/
structure Represents (b : Buffer) (q : Queue Byte) : Prop extends Holds b q where
  unread : b.unread = q.elems
  consumed : b._data.take b._offset = q.consumed
  length : b.length = q.elems.length
  grow : ∀ len, b._pos + len < 2 ^ 31 → (b.grow len).WF ∧
    (b.grow len)._data.take b._pos = b._data.take b._pos ∧
    (b.grow len)._pos = b._pos ∧ (b.grow len)._offset = b._offset

end Buffer

end Netlib
