import Netlib.Spec.Reader

/-!
# The synchronous connector (`netio/tconnector_impl.hpp`)

`SyncConnector::Recv` reads until a frame is complete and hands out `_rcvbuffer`.
The bytes of a read that were not consumed are counted in `_readsize` for the next
call. `_CutMsgPack` gets the count by reference but the pointer by value, and the
next call starts again at `_readbuf`. `_rcvbuffer` and `_curheader` are a
`ReaderInfo`, since the header part is that of the stream reader.
-/

namespace Netlib

/-- What a call of `RecvSome` gives: bytes, none at the end of the stream, or an error
with the value returned. -/
inductive RecvSome
  | data (bytes : List Byte)
  | fail (ret : ℤ)

/-- The bytes that come. -/
def RecvSome.bytes : RecvSome → List Byte
  | .data bytes => bytes
  | .fail _ => []

structure SyncConnector where
  _flag : Flag
  _readbuf : List Byte
  _readsize : ℕ
  _reader : ReaderInfo

namespace SyncConnector

/-- The constructor, then a `Connect` that returns true. -/
def connected : SyncConnector := ⟨.start, malloc socketReadSize, 0, .fresh⟩

variable (c : SyncConnector)

def close : SyncConnector := { c with _flag := .stop }

/-- The largest payload `_CutMsgPack` takes. -/
def limit : ℕ := 0xFFFF - hdrlen

/-- `_CutMsgPack(_readbuf, _readsize)`: whether it returns `_rcvbuffer`. -/
def _cutMsgPack : Bool × SyncConnector :=
  -- the bytes at the start of `_readbuf`, also after a frame that took some of them
  match c._reader.header limit (c._readbuf.take c._readsize) with
  | .more r => (false, { c with _reader := r })
  | .reject r buf => (false, { c with _readsize := buf.length, _reader := r })
  | .ready r buf =>
    let datalen := r.msgbuffer.length
    if u32 (buf.length + datalen) < r.curheader.size then
      (false, { c with
        _readsize := buf.length
        _reader := { r with msgbuffer := r.msgbuffer.write buf buf.length } })
    else
      let n := toU32 (r.curheader.size - datalen)
      (true, { c with
        _readsize := (buf.drop n).length
        _reader := ⟨r.msgbuffer.write buf n, { r.curheader with size := 0 }⟩ })

/-- `_readsize = _socket->RecvSome(_readbuf, M_SOCKET_READ_SIZE, error)`. -/
def recvSome : RecvSome → SyncConnector
  | .data bytes => { c with _readbuf := memcpy c._readbuf 0 bytes, _readsize := bytes.length }
  | .fail ret => { c with _readsize := toU32 ret }

/-- The loop of `Recv` on the results of `RecvSome` to come: the buffer returned, the
state and the results left. With no result left the call does not return. -/
def recvLoop (c : SyncConnector) :
    List RecvSome → Option (Option Buffer × SyncConnector × List RecvSome)
  | [] => none
  | .fail ret :: rs => some (none, (c.recvSome (.fail ret)).close, rs)
  | .data bytes :: rs =>
    let c := c.recvSome (.data bytes)
    -- the peer has closed
    if c._readsize = 0 then some (none, c.close, rs)
    else
      match c._cutMsgPack with
      | (true, c) => some (some c._reader.msgbuffer, c, rs)
      | (false, c) => recvLoop c rs

/-- `_rcvbuffer.Clear()`. -/
def clearRcvbuffer : SyncConnector :=
  { c with _reader := { c._reader with msgbuffer := c._reader.msgbuffer.clear } }

def recv (rs : List RecvSome) : Option (Option Buffer × SyncConnector × List RecvSome) :=
  if c._flag ≠ .start then some (none, c, rs)
  else
    let c := c.clearRcvbuffer
    if c._readsize > 0 then
      match c._cutMsgPack with
      | (true, c) => some (some c._reader.msgbuffer, c, rs)
      | (false, c) => c.recvLoop rs
    else c.recvLoop rs

/-- The buffers of `n` successful calls of `Recv`, one after the other. -/
def recvs : ℕ → SyncConnector → List RecvSome → Option (List Buffer)
  | 0, _, _ => some []
  | n + 1, c, rs => do
    let (b, c, rs) ← c.recv rs
    return (← b) :: (← recvs n c rs)

end SyncConnector

/-! ## Reads and frames -/

/-- A position in a list of reads: the last read done, how many of its bytes are left,
and the reads to come. -/
structure ReadPos where
  last : List Byte
  left : ℕ
  rest : List (List Byte)

namespace ReadPos

/-- What `SyncConnector` takes for the bytes to come: it counts the bytes left of the
last read, but looks for them at its start. -/
def seen (r : ReadPos) : List Byte := r.last.take r.left ++ r.rest.flatten

/-- `n` bytes further. -/
def advance (last : List Byte) (left n : ℕ) : List (List Byte) → ReadPos
  | [] => ⟨last, left - n, []⟩
  | c :: cs => if n ≤ left then ⟨last, left - n, c :: cs⟩ else advance c c.length (n - left) cs

/-- **Every frame is seen right**: the bytes at the start of the last read are, apart
from the timestamp, those of the frame that the read has more of. -/
def SeesFrames : List (List Byte) → ReadPos → Prop
  | [], _ => True
  | f :: fs, r =>
    (r.seen.take f.length).drop 4 = f.drop 4 ∧ SeesFrames fs (advance r.last r.left f.length r.rest)

end ReadPos

end Netlib
