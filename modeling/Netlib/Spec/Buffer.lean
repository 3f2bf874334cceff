import Mathlib.Algebra.Ring.Int.Defs
import Mathlib.Algebra.Ring.Nat
import Mathlib.Data.List.Basic
import Mathlib.Data.Nat.Notation
import Mathlib.Data.Int.Notation

/-!
# Byte buffers (`base/buffer.hpp`)

`Buffer` is the growing byte buffer that sockets and messages use. The bytes
`[0, _pos)` have been written, those before `_offset` have been read. Lengths are
`s_uint32_t`: sums wrap (`u32`), and a conversion to or from `s_int32_t` is
`toU32` or `toInt32`. An allocation is a list of bytes; a copy past its end, which
is undefined in the source, makes the list longer than `_size`.
-/

namespace Netlib

/-- `s_byte_t`. -/
abbrev Byte := UInt8

/-- `s_uint32_t` arithmetic. -/
def u32 (n : ℕ) : ℕ := n % 2 ^ 32

/-- `size_t` arithmetic. -/
def u64 (n : ℕ) : ℕ := n % 2 ^ 64

/-- Conversion to `s_uint32_t`. -/
def toU32 (z : ℤ) : ℕ := (z % 2 ^ 32).toNat

/-- Conversion to `s_int32_t`. -/
def toInt32 (n : ℕ) : ℤ := if u32 n < 2 ^ 31 then (u32 n : ℤ) else (u32 n : ℤ) - 2 ^ 32

/-- A fresh allocation. Its bytes are never read before they are written. -/
def malloc (n : ℕ) : List Byte := List.replicate n 0

/-- The elements that fit into `sizeof(T)*n` bytes. -/
def roomFor (sizeT n : ℕ) : ℕ := u64 (sizeT * n) / sizeT

/-- Copy `src` over `dst` from index `i` on. -/
def memcpy (dst : List Byte) (i : ℕ) (src : List Byte) : List Byte :=
  dst.take i ++ src ++ dst.drop (i + src.length)

/-- `M_BUFFER_DEFAILT_SIZE`. -/
def bufferDefaultSize : ℕ := 1024

structure Buffer where
  _size : ℕ
  _pos : ℕ
  _offset : ℕ
  _data : List Byte
  deriving DecidableEq

namespace Buffer

/-- The constructor `Buffer()`. -/
def new : Buffer := ⟨bufferDefaultSize, 0, 0, malloc bufferDefaultSize⟩

variable (b : Buffer)

def clear : Buffer := { b with _pos := 0, _offset := 0 }

/-- `CutData`: a negative `len` gives back bytes that were read. -/
def cutData (len : ℤ) : Buffer :=
  if toU32 (b._offset + len) > b._pos then { b with _offset := b._pos }
  else { b with _offset := toU32 (b._offset + len) }

/-- The memory from `Data()` on. -/
def data : List Byte := b._data.drop b._offset

/-- The memory from `Raw()` on. -/
def raw : List Byte := b._data

def capacity : ℕ := b._size

def size : ℕ := b._pos

def length : ℕ := toU32 (b._pos - b._offset)

/-- The reallocation of `Write` for `len` more bytes. -/
def grow (len : ℕ) : Buffer :=
  if u32 (b._pos + len) > b._size then
    let size := u32 (bufferDefaultSize * (u32 (b._pos + len) / bufferDefaultSize + 1))
    { b with _size := size, _data := memcpy (malloc size) 0 (b._data.take b._pos) }
  else b

/-- `Write(data, len)`, where `src` is the memory that `data` points to. -/
def write (src : List Byte) (len : ℕ) : Buffer :=
  let b := b.grow len
  { b with _data := memcpy b._data b._pos (src.take len), _pos := u32 (b._pos + len) }

/-- `Read(data, len)`: the bytes copied out, `none` when there are too few. -/
def read (len : ℕ) : Option (List Byte) × Buffer :=
  if u32 (b._offset + len) > b._pos then (none, b)
  else (some ((b._data.drop b._offset).take len), { b with _offset := u32 (b._offset + len) })

/-- The bytes written since the last `Clear`. -/
def content : List Byte := b._data.take b._pos

/-- The bytes not read yet, `Data()[0..Length())`. -/
def unread : List Byte := b.content.drop b._offset

/-- **The representation invariant.** -/
structure WF (b : Buffer) : Prop where
  offset_le : b._offset ≤ b._pos
  pos_le : b._pos ≤ b._size
  size_lt : b._size < 2 ^ 32
  data : b._data.length = b._size

end Buffer

end Netlib
