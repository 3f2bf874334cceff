import Netlib.Spec.Header

/-!
# The sending side of a socket (`netio/tsocket_impl.hpp`)

`TcpBaseSocket` sends through two buffers: a posted write covers the unread bytes
of `msgbuffer1`, and new frames wait in `msgbuffer2` until it is empty. Every
function below runs under `_writer.lock`, or takes it for its whole effect, so a
run of a socket is a sequence of them. What the source asks of `_socket` is kept
in `SocketCalls`; the answers of `AsyncSendSome` are a parameter.
-/

namespace Netlib

/-- `_writerinfo_::E_MAX_BUFFER_SIZE`. -/
def maxBufferSize : ℕ := 1024 * 1024 * 3

/-- `_writerinfo_`. -/
structure WriterInfo where
  writing : Bool
  msgbuffer1 : Buffer
  msgbuffer2 : Buffer

/-- What the object has asked of `_socket`: the write that has not completed, as
`msgbuffer1` was when it was posted, and the writer at each `_socket->Close`. -/
structure SocketCalls where
  posted : Option Buffer
  closes : List WriterInfo
  shutdownRd : Bool
  shutdownWr : Bool

structure TcpBaseSocket where
  _flag : Flag
  _writer : WriterInfo
  _socket : SocketCalls

namespace TcpBaseSocket

/-- A connected socket: the constructor, then `_flag = E_STATE_START`. -/
def connected : TcpBaseSocket := ⟨.start, ⟨false, .new, .new⟩, ⟨none, [], false, false⟩⟩

variable (s : TcpBaseSocket)

def setMsgbuffer1 (b : Buffer) : TcpBaseSocket :=
  { s with _writer := { s._writer with msgbuffer1 := b } }

def setMsgbuffer2 (b : Buffer) : TcpBaseSocket :=
  { s with _writer := { s._writer with msgbuffer2 := b } }

def setPosted (b : Option Buffer) : TcpBaseSocket :=
  { s with _socket := { s._socket with posted := b } }

/-- `_Close`. -/
def _close : TcpBaseSocket :=
  if s._flag = .close then s
  else if s._writer.writing then { s with _flag := .stop }
  else
    { s with
      _flag := .close
      _socket := { s._socket with closes := s._socket.closes ++ [s._writer] } }

/-- `_PostClose`, which takes the lock. -/
def _postClose : TcpBaseSocket := s._close

def close : TcpBaseSocket := s._postClose

/-- The exchange of the two buffers in `_TrySendData`. -/
def _swap : TcpBaseSocket :=
  let spent := if s._writer.msgbuffer1.capacity ≥ 1024 * 1024 then .new else s._writer.msgbuffer1
  { s with _writer := ⟨s._writer.writing, s._writer.msgbuffer2, spent.clear⟩ }

/-- `_TrySendData`, where `err` says whether `AsyncSendSome` reports an error. -/
def _trySendData (err : Bool) : Bool × TcpBaseSocket :=
  if s._writer.writing then (true, s)
  else
    -- `msgbuffer1` is spent: what has waited goes next
    let s := if s._writer.msgbuffer1.length = 0 then s._swap else s
    if s._writer.msgbuffer1.length > 0 then
      if err then (false, s._close)
      else
        (true, { s with
          _writer := { s._writer with writing := true }
          _socket := { s._socket with posted := some s._writer.msgbuffer1 } })
    else (false, s)

/-- `Send(const Buffer*)`; `none` is the null pointer. -/
def sendBuffer (buffer : Option Buffer) (err : Bool) : Bool × TcpBaseSocket :=
  match buffer with
  | none => (false, s)
  | some b =>
    if b.length = 0 then (false, s)
    else
      -- `int snd_len = buffer->Size()`
      let snd_len := toInt32 b.size
      if snd_len > socketPackSize then (false, s)
      else if s._flag ≠ .start then (false, s)
      else if u32 (s._writer.msgbuffer2.size + toU32 snd_len) > maxBufferSize then (false, s)
      else
        let msgbuffer2 := s._writer.msgbuffer2.write b.raw (toU32 snd_len)
        (true, ((s.setMsgbuffer2 msgbuffer2)._trySendData err).2)

/-- `Send(data, len)` at time `now`, where `data` is the `len` bytes. -/
def send (now : ℕ) (data : List Byte) (err : Bool) : Bool × TcpBaseSocket :=
  if data.length = 0 then (false, s)
  else if data.length > socketPackSize then (false, s)
  else if s._flag ≠ .start then (false, s)
  else
    let snd_len := data.length + hdrlen
    if u32 (s._writer.msgbuffer2.size + snd_len) > maxBufferSize then (false, s)
    else
      let hdr := (MessageHeader.mk (u32 now) data.length).h2n
      let msgbuffer2 := (s._writer.msgbuffer2.write hdr.bytes hdrlen).write data data.length
      (true, ((s.setMsgbuffer2 msgbuffer2)._trySendData err).2)

/-- `_WriteHandler`; `err` is the answer to the next `AsyncSendSome`. -/
def _writeHandler (tran_byte : ℕ) (error err : Bool) : TcpBaseSocket :=
  let s := { s with _writer := { s._writer with writing := false } }
  if error then s._close
  else if tran_byte = 0 then s._close
  else
    let s := s.setMsgbuffer1 (s._writer.msgbuffer1.cutData (toInt32 tran_byte))
    let (sent, s) := s._trySendData err
    -- all is sent and the socket is closing
    if !sent && s._flag ≠ .start then
      { s with _socket := { s._socket with shutdownWr := true } }._close
    else s

/-- `_ReadHandler`, where `cut` is what `_CutMsgPack` returns and `err` says whether
the next `AsyncRecvSome` reports an error. -/
def _readHandler (tran_byte : ℕ) (error cut err : Bool) : TcpBaseSocket :=
  if error then s._postClose
  else if tran_byte = 0 then s._postClose
  else if s._flag ≠ .start then s._postClose
  else if cut then if err then s._postClose else s
  else { s with _socket := { s._socket with shutdownRd := true } }._postClose

end TcpBaseSocket

/-! ## Runs -/

/-- A socket with what has left it and what it has taken: the bytes of the completed
writes, and the encodings of the `Send` calls that returned true, in lock order. -/
structure SendWorld where
  sock : TcpBaseSocket
  wire : List Byte
  accepted : List Byte

/-- A call or a completion. A read handler takes the lock only in `_PostClose`: when
other steps come between its tests and that call, the call is a `close`. -/
inductive SendAction
  | send (now : ℕ) (data : List Byte) (err : Bool)
  | sendBuffer (b : Option { b : Buffer // b.WF }) (err : Bool)
  | close
  | complete (n : ℕ) (error err : Bool)
  | read (tran_byte : ℕ) (error cut err : Bool)

namespace SendWorld

def start : SendWorld := ⟨.connected, [], []⟩

/-- One step. A completion reports at most the number of bytes posted. -/
def step (w : SendWorld) : SendAction → Option SendWorld
  | .send now data err =>
    let (ok, sock) := w.sock.send now data err
    some { w with
      sock := sock
      accepted := if ok then w.accepted ++ encodeFrame (u32 now) data else w.accepted }
  | .sendBuffer b err =>
    let (ok, sock) := w.sock.sendBuffer (b.map Subtype.val) err
    some { w with
      sock := sock
      accepted := if ok then w.accepted ++ (b.map fun b => b.val.content).getD [] else w.accepted }
  | .close => some { w with sock := w.sock.close }
  | .complete n error err =>
    match w.sock._socket.posted with
    | none => none
    | some b =>
      if n ≤ b.length then
        some { w with
          sock := (w.sock.setPosted none)._writeHandler n error err
          wire := w.wire ++ b.data.take n }
      else none
  | .read tran_byte error cut err =>
    some { w with sock := w.sock._readHandler tran_byte error cut err }

/-- No write is refused or fails, and a completion reports at least one byte. -/
def NoError : SendAction → Prop
  | .send _ _ err => err = false
  | .sendBuffer _ err => err = false
  | .complete n error err => 0 < n ∧ error = false ∧ err = false
  | .close | .read .. => True

/-- **The size of a buffer handed to `Send` is not taken for a negative `int`** and
then accepted because the sum with `msgbuffer2.Size()` wraps. -/
def Fits (w : SendWorld) : SendAction → Prop
  | .sendBuffer (some b) _ =>
    ¬ (w.sock._flag = .start ∧ b.val.length ≠ 0 ∧ 2 ^ 31 ≤ b.val.size ∧
      u32 (w.sock._writer.msgbuffer2.size + b.val.size) ≤ maxBufferSize)
  | _ => True

end SendWorld

end Netlib
