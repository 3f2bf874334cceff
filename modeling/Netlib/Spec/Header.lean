import Netlib.Spec.Buffer
import Netlib.Lib.Framing

/-!
# Message headers (`netio/netio.hpp`, `netio/tsocket_impl.hpp`)

A frame is an 8-byte `MessageHeader` followed by `size` payload bytes. The header
is written and read as the packed struct it is in memory, on a little-endian
host; `h2n` and `n2h` swap the bytes of its two words. `frames limit` is the
reference for what a stream of frames means.
-/

namespace Netlib

/-- `E_STATE_START`, `E_STATE_STOP` and `E_STATE_CLOSE`. -/
inductive Flag
  | start
  | stop
  | close
  deriving DecidableEq

/-- The bytes of a 32-bit word in memory (little-endian host). -/
def le32 (n : ℕ) : List Byte :=
  [.ofNat n, .ofNat (n / 2 ^ 8), .ofNat (n / 2 ^ 16), .ofNat (n / 2 ^ 24)]

/-- The 32-bit word whose bytes in memory are given (little-endian host). -/
def ofLe32 : List Byte → ℕ
  | [a, b, c, d] => a.toNat + 2 ^ 8 * b.toNat + 2 ^ 16 * c.toNat + 2 ^ 24 * d.toNat
  | _ => 0

/-- Big-endian bytes of a 32-bit word. -/
def be32 (n : ℕ) : List Byte := (le32 n).reverse

def ofBe32 (l : List Byte) : ℕ := ofLe32 l.reverse

/-- `::htonl`: the word whose bytes in memory are the big-endian bytes of `n`. -/
def htonl (n : ℕ) : ℕ := ofLe32 (be32 n)

/-- `::ntohl`. -/
def ntohl (n : ℕ) : ℕ := ofBe32 (le32 n)

structure MessageHeader where
  timestamp : ℕ
  size : ℕ
  deriving DecidableEq

namespace MessageHeader

def n2h (h : MessageHeader) : MessageHeader := ⟨ntohl h.timestamp, ntohl h.size⟩

def h2n (h : MessageHeader) : MessageHeader := ⟨htonl h.timestamp, htonl h.size⟩

/-- The struct in memory. -/
def bytes (h : MessageHeader) : List Byte := le32 h.timestamp ++ le32 h.size

def ofBytes (l : List Byte) : MessageHeader := ⟨ofLe32 (l.take 4), ofLe32 ((l.drop 4).take 4)⟩

end MessageHeader

/-- `sizeof(MessageHeader)`. -/
def hdrlen : ℕ := 8

/-- `M_SOCKET_READ_SIZE`. -/
def socketReadSize : ℕ := 4 * 1024

/-- `M_SOCKET_PACK_SIZE`. -/
def socketPackSize : ℕ := 400 * 1024

/-- The bytes of a frame on the wire. -/
def encodeFrame (timestamp : ℕ) (payload : List Byte) : List Byte :=
  be32 timestamp ++ be32 payload.length ++ payload

/-- The size word of a stream that starts with a header. -/
def frameSize (s : List Byte) : ℕ := ofBe32 ((s.drop 4).take 4)

/-- **The first frame of a stream**: 8 bytes of header, both words big-endian, whose
size is at most `limit`, then `size` bytes of payload. -/
def nextFrame (limit : ℕ) (s : List Byte) : Lib.Next (List Byte) :=
  if s.length < hdrlen then .more
  else if limit < frameSize s then .reject
  else if s.length < hdrlen + frameSize s then .more
  else .frame ((s.drop hdrlen).take (frameSize s)) (hdrlen + frameSize s)

end Netlib
