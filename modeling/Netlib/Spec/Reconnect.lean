import Netlib.Spec.BlockMode
import Netlib.Spec.SyncReject

/-!
# A synchronous connector that connects again (`netio/tconnector_impl.hpp`, `socket/ioaccess.ipp`)

`Close` sets `_flag` and closes the descriptor. It leaves `_readbuf`, `_readsize` and
`_curheader` alone, and `IoAccess::Close` zeroes the whole state word, with the block bit
that only the constructor sets. The next `Connect` opens a new descriptor in blocking mode.
Without a time-out it is refused; with one it comes through, and then every `SendSome` and
`RecvSome` is refused, while `Recv` still finds what the last connection has left.
-/

namespace Netlib

/-- What a call of `SendSome` gives: a number of bytes, or an error. -/
inductive SendResult
  | sent (n : ℕ)
  | fail

/-- A `SyncConnector` with its socket and its send buffer. No operation is posted on it. -/
structure SyncWorld where
  core : Core Empty
  conn : SyncConnector
  _sndbuffer : Buffer

/-- `Send` at time `now` or `Recv`, with the results of `SendSome` or `RecvSome` to come. -/
inductive SyncIo
  | send (now : ℕ) (data : List Byte) (results : List SendResult)
  | recv (results : List RecvSome)

/-- What a call returns. A `Send` is given with the bytes that `SendSome` has taken. -/
inductive SyncReply
  | sent (ok : Bool) (wire : List Byte)
  | received (payload : Option (List Byte))
  deriving DecidableEq

/-- A `Connect`, where `fd` is what `socket` returns and `endpoints` says whether both
endpoints are found; a call on the connection; `Close`. -/
inductive SyncAction
  | connect (fd : Option ℕ) (valid timed : Bool) (res : ConnectResult) (endpoints : Bool)
  | call (c : SyncIo)
  | close

/-- `Connect` reports no error. -/
def ConnectResult.ok (timed : Bool) : ConnectResult → Bool
  | .connected => true
  | .failed => false
  | .selected ok => timed && ok

namespace SyncWorld

/-- The constructor. -/
def new : SyncWorld := ⟨.init, { SyncConnector.connected with _flag := .stop }, .new⟩

variable (w : SyncWorld)

/-- `TcpConnector::Connect` up to `IoAccess::Connect`: a closed socket is opened. -/
def opened (fd : Option ℕ) : Core Empty :=
  match fd with
  | some fd => w.core.openFd fd
  | none => w.core

/-- `Connect`. -/
def connect (fd : Option ℕ) (valid timed : Bool) (res : ConnectResult) (endpoints : Bool) :
    Bool × SyncWorld :=
  if (w.opened fd).connectRefusal valid timed ≠ none then (false, { w with core := w.opened fd })
  else
    let w := { w with core := (w.opened fd).connect timed res }
    if res.ok timed then
      -- the flag is set before the endpoints are asked for
      (endpoints, { w with conn := { w.conn with _flag := .start } })
    else (false, w)

/-- `Close`. -/
def close : SyncWorld := { w with core := w.core.close, conn := w.conn.close }

/-- The loop of `Send` on the results of `SendSome` to come, with the bytes taken. -/
def sendLoop (b : Buffer) : List SendResult → Option (Bool × List Byte × Buffer)
  | [] => none
  | .fail :: _ => some (false, [], b)
  | .sent n :: rs =>
    let wire := (b.data.take b.length).take n
    let b := b.cutData (toInt32 n)
    if b.length = 0 then some (true, wire, b)
    else (sendLoop b rs).map fun (ok, more, b) => (ok, wire ++ more, b)

/-- `_sndbuffer` with the frame. -/
def frame (now : ℕ) (data : List Byte) : Buffer :=
  let hdr := (MessageHeader.mk (u32 now) data.length).h2n
  (w._sndbuffer.clear.write hdr.bytes hdrlen).write data data.length

/-- `Send`. A refused `SendSome` gives an error. -/
def send (now : ℕ) (data : List Byte) (results : List SendResult) :
    Option (SyncReply × SyncWorld) :=
  if w.conn._flag ≠ .start then some (.sent false [], w)
  else if 0 < data.length ∧ data.length ≤ 0xFFFF - hdrlen then
    let results := if w.core.syncRefusal w.core._state.write = none then results else [.fail]
    (sendLoop (w.frame now data) results).map fun (ok, wire, b) =>
      let w := { w with _sndbuffer := b }
      (.sent ok wire, if ok then w else w.close)
  else some (.sent false [], w)

/-- `Recv`, which closes the socket when it stops the connector. A refused `RecvSome` gives an
error and returns `M_SOCKET_ERROR`. -/
def recv (results : List RecvSome) : Option (SyncReply × SyncWorld) :=
  let results := if w.core.syncRefusal w.core._state.read = none then results else [.fail (-1)]
  (w.conn.recv results).map fun (b, conn, _) =>
    let core := if w.conn._flag = .start ∧ conn._flag ≠ .start then w.core.close else w.core
    (.received (b.map Buffer.unread), { w with core := core, conn := conn })

def call : SyncIo → Option (SyncReply × SyncWorld)
  | .send now data results => w.send now data results
  | .recv results => w.recv results

/-- What the calls return, one after the other. -/
def replies : SyncWorld → List SyncIo → Option (List SyncReply)
  | _, [] => some []
  | w, c :: cs => do
    let (r, w) ← w.call c
    return r :: (← replies w cs)

/-- One step. A descriptor that is connected does not connect again. -/
def step : SyncAction → Option SyncWorld
  | .connect fd valid timed res endpoints =>
    if w.conn._flag = .start ∧ res ≠ .failed then none
    else some (w.connect fd valid timed res endpoints).2
  | .call c => (w.call c).map Prod.snd
  | .close => some w.close

/-- A `SyncConnector` just constructed, after a `Connect` that returned true. -/
def fresh (fd : ℕ) : SyncWorld := (new.connect (some fd) true false .connected true).2

/-- **A clean start**: the calls on the connection return what they return on a fresh connector;
and the first `Recv`, on the reads of this connection, returns its first frame or 0, when the
header there is not over-long. -/
structure Clean : Prop where
  same : ∃ fd, ∀ cs, w.replies cs = (fresh fd).replies cs
  first : ∀ (cs : List (List Byte)) (fin : List RecvSome),
    (∀ x ∈ cs, x ≠ [] ∧ x.length ≤ socketReadSize) → SyncConnector.AtEnd fin →
    nextFrame SyncConnector.limit cs.flatten ≠ .reject → ∀ p w',
    w.recv (cs.map .data ++ fin) = some (.received (some p), w') →
    ∃ n, nextFrame SyncConnector.limit cs.flatten = .frame p n

/-- **Every `Connect` that returns true starts clean.** -/
def StartsClean : SyncAction → SyncWorld → Prop
  | .connect fd valid timed res endpoints, w' =>
    (w.connect fd valid timed res endpoints).1 = true → w'.Clean
  | _, _ => True

/-- The condition: a `Connect` that returns true finds the block bit set, as it is until a
descriptor of the connector is closed. -/
def StartsBlocking : SyncAction → SyncWorld → Prop
  | .connect fd valid timed res endpoints, _ =>
    (w.connect fd valid timed res endpoints).1 = true → w.core._state.block = true
  | _, _ => True

end SyncWorld

end Netlib
