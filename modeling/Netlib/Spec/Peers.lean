import Netlib.Spec.Reader
import Netlib.Spec.Writer

/-!
# Two connected sockets (`netio/tsocket_impl.hpp`)

The two ends of one connection, each a `TcpStreamSocket` that sends and reads, with the
stream of each direction between them. The threads of the two ends and the network
interleave as they like: a write is posted, then the system takes some of its bytes, which the
peer may read at once, and only later `_WriteHandler` runs; `_ReadHandler` tests `_flag` and cuts
without the lock, and takes it in `_PostClose`. Writes and reads may fail at any point.
-/

namespace Netlib

variable {σ : Type*}

/-- The ends of the connection. -/
inductive Side
  | left
  | right
  deriving DecidableEq

def Side.peer : Side → Side
  | .left => .right
  | .right => .left

/-- A read is posted, its handler has still to call `_PostClose`, or no read is posted again. -/
inductive Reading
  | posted
  | closing
  | done
  deriving DecidableEq

/-- An end: its socket, the bytes of the posted write that the system has taken while
`_WriteHandler` has not run, all bytes that the system has taken, the reader with the user's
state, how many bytes of the peer its reads have brought, the frames that `Send` has accepted
in lock order, and the payloads handed to `OnReceiveData`. -/
structure PeerSocket (σ : Type*) where
  sock : TcpBaseSocket
  taken : Option ℕ
  wire : List Byte
  read : ReadState σ
  reading : Reading
  received : ℕ
  accepted : List (ℕ × List Byte)
  got : List (List Byte)

/-- What happens at an end. `err` says whether the next `AsyncSendSome` or `AsyncRecvSome`
reports an error. -/
inductive PeerAction
  | send (now : ℕ) (data : List Byte) (err : Bool)
  | close
  | take (n : ℕ)
  | complete (error err : Bool)
  | read (n : ℕ) (err : Bool)
  | readFails
  | postClose

/-- The frames on the wire. -/
def encodeFrames (fs : List (ℕ × List Byte)) : List Byte := fs.flatMap fun f => encodeFrame f.1 f.2

namespace PeerSocket

/-- A connected socket whose first read is posted. -/
def start (user : σ) : PeerSocket σ :=
  ⟨.connected, none, [], ⟨.fresh, user⟩, .posted, 0, [], []⟩

variable (e : PeerSocket σ)

/-- `_ReadHandler` without error, up to `_TryRecvData` or `_PostClose`; `none` is a
`_CutMsgPack` that does not return. -/
def _readHandler (io : Receiver σ) (bytes : List Byte) (err : Bool) : Option (PeerSocket σ) :=
  let e := { e with received := e.received + bytes.length }
  -- the socket was closed here: the bytes are dropped
  if e.sock._flag ≠ .start then some { e with reading := .closing }
  else
    (TcpStreamSocket._cutMsgPack io e.read bytes).map fun (ok, payloads, read) =>
      let e := { e with read := read, got := e.got ++ payloads }
      if ok then { e with reading := if err then .closing else .posted }
      else
        { e with
          sock := { e.sock with _socket := { e.sock._socket with shutdownRd := true } }
          reading := .closing }

/-- A step of an end, where `wire` is what the system has taken from the peer. A read brings at
least one byte and at most `M_SOCKET_READ_SIZE`. -/
def step (io : Receiver σ) (wire : List Byte) : PeerAction → Option (PeerSocket σ)
  | .send now data err =>
    let (ok, sock) := e.sock.send now data err
    some { e with
      sock := sock
      accepted := if ok then e.accepted ++ [(u32 now, data)] else e.accepted }
  | .close => some { e with sock := e.sock.close }
  | .take n =>
    match e.sock._socket.posted, e.taken with
    | some b, none =>
      if n ≤ b.length then some { e with taken := some n, wire := e.wire ++ b.data.take n } else none
    | _, _ => none
  | .complete error err =>
    if e.sock._socket.posted = none then none
    else
      some { e with
        sock := (e.sock.setPosted none)._writeHandler (e.taken.getD 0) error err
        taken := none }
  | .read n err =>
    if e.reading = .posted ∧ 0 < n ∧ n ≤ socketReadSize ∧ e.received + n ≤ wire.length then
      e._readHandler io ((wire.drop e.received).take n) err
    else none
  | .readFails => if e.reading = .posted then some { e with reading := .closing } else none
  | .postClose =>
    if e.reading = .closing then some { e with sock := e.sock._postClose, reading := .done } else none

end PeerSocket

/-- The two ends. -/
abbrev Peers (σ : Type*) := Side → PeerSocket σ

namespace Peers

def start (user : Side → σ) : Peers σ := fun i => .start (user i)

/-- A step of one of the ends. -/
def step (io : Receiver σ) (w : Peers σ) (a : Side × PeerAction) : Option (Peers σ) :=
  ((w a.1).step io (w a.1.peer).wire a.2).map (Function.update w a.1)

/-- No write of the end `i` fails here: `AsyncSendSome` reports no error, the system takes some bytes
of each write, and the write completes without error after that. -/
def NoFail (i : Side) (w : Peers σ) (a : Side × PeerAction) : Prop :=
  a.1 = i → match a.2 with
    | .send _ _ err => err = false
    | .take n => 0 < n
    | .complete error err => error = false ∧ err = false ∧ (w i).taken ≠ none
    | _ => True

end Peers

/-- **What the end `e`, whose user's state was `u` at first, has made of the frames that its peer has
accepted**: it has handed out payloads in the order in which they were accepted, none twice and
none left out; the user's state is that after these callbacks; no bytes were rejected; and as
long as it reads, each payload is handed out when its last byte has come. -/
structure PeerSocket.Delivers (io : Receiver σ) (u : σ) (e p : PeerSocket σ) : Prop where
  inOrder : e.got <+: p.accepted.map Prod.snd
  handed : ∃ bs : List Buffer, (∀ b ∈ bs, Handed b) ∧ bs.map Buffer.unread = e.got ∧
    bs.foldl (fun u b => (io.onReceiveData u b).1) u = e.read.user
  accepts : e.sock._socket.shutdownRd = false
  prompt : e.reading = .posted → ∀ k, (encodeFrames (p.accepted.take k)).length ≤ e.received →
    (p.accepted.take k).map Prod.snd <+: e.got
  returns : ∀ n err, e.reading = .posted → 0 < n → n ≤ socketReadSize →
    e.received + n ≤ p.wire.length → e.step io p.wire (.read n err) ≠ none

end Netlib
