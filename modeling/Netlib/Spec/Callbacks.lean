import Netlib.Spec.Epoll
import Netlib.Spec.Header

/-!
# Callbacks (`netio/tsocket_impl.hpp`, `netio/tconnector_impl.hpp`, `netio/netio.hpp`)

One socket of `netio` over its core and the close queue of its service. The thread that
runs the service takes its completions and its close requests; an accepted socket is
started by the thread of the acceptor, a connector by its own. `Close` and `Send` come
from any thread. A callback that runs is a state of its thread, so that the other threads
step in between. The HTTP sockets differ in what they cut from the bytes read.
-/

namespace Netlib

inductive Callback
  | onConnected
  | onReceiveData
  | onDisconnected
  deriving DecidableEq

/-- How far `Init` or `_ConnectHandler` has come: not accepted or connecting, connecting,
entered with an error or none, past `_flag = E_STATE_START`, in `OnConnected`, returned. -/
inductive Starter
  | idle
  | waiting
  | entered (error : Option SockError)
  | started
  | called (error : Option SockError)
  | finished
  deriving DecidableEq

/-- What the thread of the service does for this socket: a `Complete` that has given up
the lock, the callbacks of `_CutMsgPack`, a `_DoClose` that has closed the descriptor. -/
inductive Thread
  | idle
  | completing (d : Dir) (notify : Bool) (error : Option SockError)
  | receiving
  | closing
  deriving DecidableEq

/-- `TcpBaseSocket` with the callbacks so far. `inflight` and `_closereqs` count its close
requests, before they are in the queue of the service and in it. -/
structure CbWorld where
  connector : Bool
  readbuf : ℕ
  _flag : Flag
  writing : Bool
  core : Core Unit
  _implmap : List ℕ
  starter : Starter
  thread : Thread
  inflight : ℕ
  _closereqs : ℕ
  trace : List Callback
  deriving DecidableEq

inductive CbAction
  | openFd (fd : ℕ)
  | asyncConnect (valid : Bool) (connect : Option ℕ) (env : Env)
  | accept (fd : ℕ)
  | connectComplete (so : Option ℕ)
  | connectHandler (endpoints : Bool)
  | onConnected
  | afterConnected (env : Env)
  | lock (d : Dir) (ctl : Option ℕ)
  | finish (ret : ℤ) (so : Option ℕ) (data len : ℕ) (env : Env)
  | onReceiveData
  | afterReceive (cut : Bool) (env : Env)
  | send (data len : ℕ) (env : Env)
  | close
  | enqueue
  | doClose
  | closeHandler
  | createIo (i : ℕ)

/-- The handler runs. -/
def Starter.running : Starter → Bool
  | entered _ | started | called _ => true
  | idle | waiting | finished => false

/-- The handler runs and cannot leave without `OnConnected`. -/
def Starter.certain : Starter → Bool
  | entered (some _) | started => true
  | idle | waiting | entered none | called _ | finished => false

namespace CbWorld

/-- A new object, with the services that run. -/
def start (connector : Bool) (readbuf : ℕ) (implmap : List ℕ) : CbWorld :=
  ⟨connector, readbuf, .stop, false, .init, implmap, .idle, .idle, 0, 0, []⟩

variable (w : CbWorld)

def setThread (t : Thread) : CbWorld := { w with thread := t }

def notify (cb : Callback) : CbWorld := { w with trace := w.trace ++ [cb] }

/-- `_socket->Close` with `_CloseHandler`. -/
def socketClose : CbWorld :=
  if w.core._fd ≠ none ∧ w.core._state.close = false then
    { w with
      core := w.core.close
      inflight := match w.core._getIoServiceImpl w._implmap with
        | some _ => w.inflight + 1
        | none => w.inflight }
  else w

/-- `_Close`, and `_PostClose`, which takes the lock of the writer. -/
def _close : CbWorld :=
  if w._flag = .close then w
  else if w.writing then { w with _flag := .stop }
  else { w with _flag := .close }.socketClose

/-- `_TryRecvData`. -/
def _tryRecvData (env : Env) : CbWorld :=
  let (error, core) := w.core.asyncRecvSome w.readbuf socketReadSize () env
  let w := { w with core := core }
  if error = none then w else w._close

/-- `_TrySendData`, where `msgbuffer1` has `len` bytes at `data` after the swap. -/
def _trySendData (data len : ℕ) (env : Env) : Bool × CbWorld :=
  if w.writing then (true, w)
  else if len = 0 then (false, w)
  else
    let (error, core) := w.core.asyncSendSome data len () env
    let w := { w with core := core }
    if error = none then (true, { w with writing := true }) else (false, w._close)

/-- `Send`, of a packet that is not too big. -/
def send (data len : ℕ) (env : Env) : CbWorld :=
  if w._flag = .start then (w._trySendData data len env).2 else w

def _writeHandler (tran_byte : ℕ) (error : Option SockError) (data len : ℕ) (env : Env) : CbWorld :=
  let w := { w with writing := false }
  if error ≠ none ∨ tran_byte = 0 then w._close
  else
    let (sent, w) := w._trySendData data len env
    -- all is sent and the socket is closing
    if !sent ∧ w._flag ≠ .start then w._close else w

/-- `_ReadHandler` up to `_CutMsgPack`. -/
def _readHandler (tran_byte : ℕ) (error : Option SockError) : CbWorld :=
  if error ≠ none ∨ tran_byte = 0 ∨ w._flag ≠ .start then w._close else w.setThread .receiving

/-- `_ReadHandler` after `_CutMsgPack` returned `cut`. -/
def afterReceive (cut : Bool) (env : Env) : CbWorld := if cut then w._tryRecvData env else w._close

/-- `_ConnectHandler` up to the callback, `Init` when there is no error; `endpoints` says
that `RemoteEndPoint` and `LocalEndPoint` do not throw. -/
def _connectHandler (error : Option SockError) (endpoints : Bool) : CbWorld :=
  if error ≠ none then { w with starter := .called error }.notify .onConnected
  else if endpoints then { w with _flag := .start, starter := .started }
  else { w with starter := .finished }

/-- `_ConnectHandler` or `Init` after the callback. A connector drops the error. -/
def afterConnected (error : Option SockError) (env : Env) : CbWorld :=
  let w := { w with starter := .finished }
  if error ≠ none then w
  else if w.connector then
    { w with core := (w.core.asyncRecvSome w.readbuf socketReadSize () env).2 }
  else w._tryRecvData env

/-- The rest of a `Complete`, with the handler. -/
def finish (d : Dir) (notify : Bool) (error : Option SockError) (ret : ℤ) (so : Option ℕ)
    (data len : ℕ) (env : Env) : CbWorld :=
  let w := { w with core := w.core.setOper .clear d, thread := .idle }
  let error := Core.rwError d error ret so
  if !notify then w
  else
    match d with
    | .read => w._readHandler ret.toNat error
    | .write => w._writeHandler ret.toNat error data len env

/-- The thread of the service is free for this socket. -/
abbrev Free : Prop := w.thread = .idle ∧ (w.connector = true → w.starter.running = false)

/-- The user has the object: an accepted one comes with `OnConnected`. -/
abbrev Owned : Prop := w.connector = true ∨ w.trace ≠ []

def step : CbAction → Option CbWorld
  -- `TcpConnector::AsyncConnect` opens a descriptor first
  | .openFd fd =>
    if w.connector ∧ w.starter = .idle then some { w with core := w.core.openFd fd } else none
  | .asyncConnect valid connect env =>
    if w.connector ∧ w.starter = .idle then
      let (error, core) := w.core.asyncConnect valid connect () env
      some { w with core := core, starter := if error = none then .waiting else .idle }
    else none
  -- `AcceptOperation::Complete`, on the thread of the acceptor
  | .accept fd =>
    if !w.connector ∧ w.starter = .idle then
      some { w with core := { w.core with _fd := some fd }, starter := .entered none }
    else none
  | .connectComplete so =>
    if w.Free ∧ w.core._type.connect ∧ w.core._cop._impl then
      some { w with
        core := w.core.connectComplete
        starter := if w.core._fd = none then .finished else .entered (Core.connectError so) }
    else none
  | .connectHandler endpoints =>
    match w.starter with
    | .entered error => some (w._connectHandler error endpoints)
    | _ => none
  | .onConnected =>
    if w.starter = .started then some ({ w with starter := .called none }.notify .onConnected)
    else none
  | .afterConnected env =>
    match w.starter with
    | .called error => some (w.afterConnected error env)
    | _ => none
  -- what `_DoExecOp` asks for
  | .lock d ctl =>
    if w.Free ∧ !w.core._type.accept ∧ !w.core._type.connect ∧ w.core._type.has d ∧
        (w.core.oper d)._impl then
      let (notify, error, core) := w.core.locked ctl d
      some { w with core := core, thread := .completing d notify error }
    else none
  | .finish ret so data len env =>
    match w.thread with
    | .completing d notify error => some (w.finish d notify error ret so data len env)
    | _ => none
  | .onReceiveData => if w.thread = .receiving then some (w.notify .onReceiveData) else none
  | .afterReceive cut env =>
    if w.thread = .receiving then some ((w.setThread .idle).afterReceive cut env) else none
  | .send data len env => if w.Owned then some (w.send data len env) else none
  | .close => if w.Owned then some w._close else none
  | .enqueue =>
    if 0 < w.inflight then
      some { w with inflight := w.inflight - 1, _closereqs := w._closereqs + 1 }
    else none
  -- from here on `_DoClose` holds no lock
  | .doClose =>
    if w.Free ∧ 0 < w._closereqs then
      some { w with core := w.core.invalidate, _closereqs := w._closereqs - 1, thread := .closing }
    else none
  | .closeHandler =>
    if w.thread = .closing then some ((w.setThread .idle).notify .onDisconnected) else none
  | .createIo i => some { w with _implmap := i :: w._implmap }

/-- **The callback order**: a prefix of `OnConnected`, any number of `OnReceiveData`, and
`OnDisconnected`. -/
def Ordered (trace : List Callback) : Prop :=
  ∃ n, trace <+: .onConnected :: (List.replicate n .onReceiveData ++ [.onDisconnected])

/-- `OnConnected` was called, or will be before the thread of the service is free. -/
def Announced : Prop := w.trace ≠ [] ∨ w.starter.certain = true

/-- A `Close` now finds the socket open and not closing, no write posted, and a running
service. -/
structure Requests : Prop where
  flag : w._flag ≠ .close
  writing : w.writing = false
  fd : w.core._fd ≠ none
  close : w.core._state.close = false
  service : w.core._getIoServiceImpl w._implmap ≠ none

/-- **The condition on a step**: no `Close` makes a request before `OnConnected`. -/
def StepOk : CbAction → Prop
  | .close => w.Requests → w.Announced
  | _ => True

end CbWorld

end Netlib
