import Netlib.Lib.Run
import Netlib.Spec.Header

/-!
# Values in a buffer (`base/buffer.hpp`)

`Write` and `Read` of a value are those of its bytes, and of a `std::string` those of a 32-bit
length and of its characters. `Read` of a string copies the characters to a block of its own and
makes the string from there as a C string. Here an access outside of an allocation is seen: the
operation is then `none`.
-/

namespace Netlib

open Lib
open Function (update)

/-- What `malloc` gives: blocks with any bytes in them. -/
structure Malloc where
  block : ℕ → List Byte
  length_block : ∀ n, (block n).length = n

/-- The C string at the start of a piece of memory. -/
def cstr (mem : List Byte) : List Byte := mem.takeWhile (· != 0)

namespace Buffer

variable (b : Buffer)

/-- The constructor `Buffer(hdrlen)`. The bytes of the header are those of the block. -/
def newHdr (m : Malloc) (hdrlen : ℕ) : Buffer :=
  let b := { new with _data := m.block bufferDefaultSize }
  if hdrlen ≤ b._size then { b with _pos := b._pos + hdrlen } else b

/-- `Write(data, len)` of the bytes `src`, with its accesses checked: what is copied from the
old block, and what is copied to the new one. -/
def writeIn (src : List Byte) : Option Buffer :=
  if b._pos ≤ b._data.length ∧ b._pos + src.length ≤ (b.grow src.length)._size then
    some (b.write src src.length)
  else none

/-- `Write(std::string)`. -/
def writeString (value : List Byte) : Option Buffer :=
  let len := u32 value.length
  (b.writeIn (le32 len)).bind fun b => b.writeIn (value.take len)

/-- `Read(data, len)` with its accesses checked, where `dst` is the memory at `data`: what is
there afterwards. -/
def readIn (dst : List Byte) (len : ℕ) : Option (List Byte × Buffer) :=
  match b.read len with
  | (none, b) => some (dst, b)
  | (some bytes, b') =>
    if b._offset + len ≤ b._data.length ∧ len ≤ dst.length then some (memcpy dst 0 bytes, b')
    else none

/-- `Read(T&)` of a variable with the bytes `value`. -/
def readValue (value : List Byte) : Option (List Byte × Buffer) := b.readIn value value.length

/-- `Read(std::string&)` of a variable with the characters `value`. -/
def readString (m : Malloc) (value : List Byte) : Option (List Byte × Buffer) :=
  (b.readValue (le32 0)).bind fun (word, b) =>
    let len := ofLe32 word
    if len > 0 then
      -- one more for the null character, which makes 0 of the largest length
      (b.readIn (m.block (u32 (len + 1))) len).bind fun (tmp, b) =>
        if len < tmp.length then some (cstr (tmp.set len 0), b) else none
    else some (value, b)

end Buffer

/-! ## Buffers that are read from -/

/-- A piece of memory whose length has 32 bits. -/
structure Block where
  bytes : List Byte
  lt : bytes.length < 2 ^ 32

/-- A call on the `i`-th buffer. `dst` and `value` are the variable that is read to. -/
inductive BufferCall
  | write (i : ℕ) (src : Block)
  | read (i : ℕ) (dst : Block)
  | readString (i : ℕ) (m : Malloc) (value : List Byte)
  | cutData (i : ℕ) (len : ℤ)
  | clear (i : ℕ)
  | swap (i buffer : ℕ)

namespace Buffer

/-- The buffers before any call, made with `Buffer(hdrlen)`; `Buffer()` is the one for 0. -/
def start (m : ℕ → Malloc) (hdrlen : ℕ → ℕ) (i : ℕ) : Buffer := newHdr (m i) (hdrlen i)

/-- A call, `none` when it uses memory outside of an allocation. -/
def step (s : ℕ → Buffer) : BufferCall → Option (ℕ → Buffer)
  | .write i src => ((s i).writeIn src.bytes).map (update s i)
  | .read i dst => ((s i).readValue dst.bytes).map fun (_, b) => update s i b
  | .readString i m value => ((s i).readString m value).map fun (_, b) => update s i b
  | .cutData i len => some (update s i ((s i).cutData len))
  | .clear i => some (update s i (s i).clear)
  | .swap i buffer => some (update (update s i (s buffer)) buffer (s i))

/-- The buffer after `n` bytes have been read. -/
def advance (b : Buffer) (n : ℕ) : Buffer := { b with _offset := b._offset + n }

/-- The length of the string at the offset. -/
def stringLength (b : Buffer) : ℕ := ofLe32 (b.unread.take 4)

/-- The characters of the string at the offset. -/
def stringChars (b : Buffer) : List Byte := (b.unread.drop 4).take b.stringLength

/-- The string at the offset is there with all its characters. -/
def HasString (b : Buffer) : Prop :=
  4 ≤ b.unread.length ∧ 4 + b.stringLength ≤ b.unread.length

instance (b : Buffer) : Decidable b.HasString := inferInstanceAs (Decidable (_ ∧ _))

/-- **Reads are bounded and atomic**: a call uses no memory outside of the allocations and keeps
the representation. `Read` copies bytes and advances the offset when all of them are there, and a
string is assigned its characters as a C string unless it has none; otherwise the buffer and the
variable are left as they were. -/
structure Atomic (s : ℕ → Buffer) (c : BufferCall) : Prop where
  before : ∀ i, (s i).WF
  after : ∃ s', step s c = some s' ∧ ∀ i, (s' i).WF
  read : ∀ i dst, c = .read i dst →
    (s i).readValue dst.bytes =
      if dst.bytes.length ≤ (s i).unread.length then
        some ((s i).unread.take dst.bytes.length, (s i).advance dst.bytes.length)
      else some (dst.bytes, s i)
  string : ∀ i m value, c = .readString i m value →
    (s i).readString m value =
      if (s i).HasString then
        some (if (s i).stringLength = 0 then value else cstr (s i).stringChars,
          (s i).advance (4 + (s i).stringLength))
      else some (value, s i)

/-- `Write` of `len` bytes has room, or asks for a block whose size does not wrap. -/
def WriteFits (b : Buffer) (len : ℕ) : Prop :=
  b._pos + len ≤ b._size ∨ b._pos + len + bufferDefaultSize < 2 ^ 32

/-- **The condition on a call**: the sums of 32 bits do not wrap, and a string whose length is
there is there with its characters. -/
def Bounded (s : ℕ → Buffer) : BufferCall → Prop
  | .write i src => (s i).WriteFits src.bytes.length
  | .read i dst => (s i)._offset + dst.bytes.length < 2 ^ 32
  | .readString i _ _ =>
    if 4 ≤ (s i).unread.length then (s i).HasString else (s i)._offset + 4 < 2 ^ 32
  | _ => True

end Buffer

/-! ## Values that are read back -/

/-- A value that is written, and what is in the variable that it is read to: the bytes of a
value of fixed size, or the characters of a string. -/
inductive Item
  | fixed (value old : List Byte) (h : old.length = value.length)
  | str (value old : List Byte)

namespace Item

def value : Item → List Byte
  | fixed value _ _ => value
  | str value _ => value

/-- The bytes that the value takes in a buffer. -/
def size : Item → ℕ
  | fixed value _ _ => value.length
  | str value _ => 4 + value.length

/-- `operator<<`. -/
def write (b : Buffer) : Item → Option Buffer
  | fixed value _ _ => b.writeIn value
  | str value _ => b.writeString value

/-- `operator>>`: what is in the variable afterwards. -/
def read (m : Malloc) (b : Buffer) : Item → Option (List Byte × Buffer)
  | fixed _ old _ => b.readValue old
  | str _ old => b.readString m old

/-- The values of `items`, one after the other. -/
def readAll (m : Malloc) : Buffer → List Item → Option (List (List Byte) × Buffer)
  | b, [] => some ([], b)
  | b, x :: items =>
    (x.read m b).bind fun (value, b) =>
      (readAll m b items).map fun (values, b) => (value :: values, b)

/-- **The round trip**: written into the buffer and read back, the values are the same, and
nothing is left. -/
def RoundTrip (m : Malloc) (b : Buffer) (items : List Item) : Prop :=
  ∃ b' b'', items.foldlM write b = some b' ∧
    readAll m b' items = some (items.map value, b'') ∧ b''.length = 0

/-- What comes back is the value: a string has no null character, and is not empty unless the
variable is. -/
def Plain : Item → Prop
  | fixed _ _ _ => True
  | str value old => 0 ∉ value ∧ (value = [] → old = [])

/-- The pieces that `operator<<` writes. -/
def pieces : Item → List (List Byte)
  | fixed value _ _ => [value]
  | str value _ => [le32 value.length, value]

/-- **The condition on the round trip**: no block is asked for whose size wraps, and every
string comes back. -/
def Comes (b : Buffer) (items : List Item) : Prop :=
  Along Buffer.writeIn (fun b src => b.WriteFits src.length) b (items.flatMap pieces) ∧
    ∀ x ∈ items, x.Plain

end Item

end Netlib
