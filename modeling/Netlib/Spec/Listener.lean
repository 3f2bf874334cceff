import Netlib.Spec.Epoll

/-!
# Accepting connections (`netio/netio_impl.hpp`, `socket/epoll_access.hpp`)

`ListenOne` posts an accept for a fresh `TcpSocket`. Each connection completes the accept, and
`_AcceptHandler` gives the socket to `Init` and posts the next one. The acceptor lives in the
handler of the posted accept, and closes its descriptor when it is destroyed. `_AcceptHandler`
hands its `error` on to `AsyncAccept`, which takes any error it finds there for its own.
`ListenOneHttp` and `_AcceptHttpHandler` are the same code for an `HttpSocket`.
-/

namespace Netlib

variable {η : Type*}

/-- The errors that `_AcceptHandler` may see: those of `AsyncAccept`, that of `SO_ERROR`, and
`M_ERR_ASYNC_ACCEPT_FAIL`. -/
inductive AcceptError
  | posting (e : SockError)
  | so (errno : ℕ)
  | asyncAcceptFail
  deriving DecidableEq

/-- `AsyncAccept` when `error` holds something before the call. -/
def Core.asyncAcceptFrom (c : Core η) (error : Option AcceptError) (cli : ℕ) (handler : η) (env : Env) :
    Option AcceptError × Core η :=
  if c._fd = none then (some (.posting .badDescriptor), c)
  else if c._state.accept then (some (.posting .postedAccept), c)
  else
    match c.setNonblock env with
    | .error e => (some (.posting e), c)
    | .ok c =>
      let c := { c with
        _state := { c._state with accept := true }
        _type := { OpType.none with accept := true }
        _aop := ⟨true, some cli, some handler⟩ }
      let (e, c) := c.bindEpoll env ⟨true, false, false⟩
      -- `CtlEpoll` does not reset `error`
      let error := match e with
        | none => error
        | some e => some (.posting e)
      if error = none then (none, c)
      else
        (error, { c with
          _state := { c._state with accept := false, bind := false }
          _aop := .clear })

/-- What `accept` gives: a descriptor, with whether `getpeername` and `getsockname` work on it, or
an error with what `SO_ERROR` gives. -/
inductive AcceptResult
  | conn (fd : ℕ) (remote loc : Bool)
  | fail (so : Option ℕ)

/-- The error that `AcceptOperation::Complete` hands to the handler. -/
def AcceptResult.error : AcceptResult → Option AcceptError
  | .conn .. => none
  | .fail none => some .asyncAcceptFail
  | .fail (some e) => if e = 0 then none else some (.so e)

/-- The descriptor of a connection that `Init` can start. -/
def AcceptResult.served : AcceptResult → Option ℕ
  | .conn fd true true => some fd
  | _ => none

/-- A `TcpSocket` made for a connection, with the calls of `Init`; `started` once `Init` has come to
`OnConnected`. -/
structure AcceptedSocket where
  _fd : Option ℕ
  inits : ℕ
  started : Bool
  deriving DecidableEq

/-- The acceptor, the sockets that have been made for it, by number, and those handed to `OnConnected`.
The handler of an accept is the number of the socket that is bound in it. -/
structure Listener where
  core : Core ℕ
  socks : List AcceptedSocket
  onConnected : List ℕ

/-- An event on the descriptor, where `env` is for the next `AsyncAccept`; the service closes the
descriptor. -/
inductive ListenAction
  | event (res : AcceptResult) (env : Env)
  | doClose

/-- `M_Impl_Fd(cli_impl) = fd`, for a descriptor. -/
def AcceptResult.give (res : AcceptResult) (s : AcceptedSocket) : AcceptedSocket :=
  match res with
  | .conn fd _ _ => { s with _fd := some fd }
  | .fail _ => s

namespace Listener

/-- `new TcpSocket`. -/
def newSocket : AcceptedSocket := ⟨none, 0, false⟩

/-- `ListenOne`, when the constructor of the acceptor opens `fd`: `none` where it returns false. -/
def listenOne (fd : ℕ) (env : Env) : Option Listener :=
  match (Core.init.openFd fd).asyncAcceptFrom none 0 0 env with
  | (none, c) => some ⟨c, [newSocket], []⟩
  | (some _, _) => none

variable (w : Listener)

/-- `TcpSocket::Init`, where the endpoints can be had if `ok`. -/
def init (ok : Bool) (clisock : ℕ) : Listener :=
  { w with
    socks := w.socks.modify clisock fun s =>
      { s with inits := s.inits + 1, started := s.started || ok }
    onConnected := if ok then w.onConnected ++ [clisock] else w.onConnected }

/-- `_AcceptHandler`, then the end of the handler, which destroys the acceptor if no accept is
posted: it is closed. -/
def _acceptHandler (error : Option AcceptError) (ok : Bool) (clisock : ℕ) (env : Env) : Listener :=
  let w := if error = none then w.init ok clisock else w
  let newclisock := w.socks.length
  let (_, core) := w.core.asyncAcceptFrom error newclisock newclisock env
  { w with
    core := if core._aop._handler = none then core.close else core
    socks := w.socks ++ [newSocket] }

/-- `AcceptOperation::Complete` up to the handler: the socket that is bound in it, if the slot has
one. -/
def complete (res : AcceptResult) : Option (ℕ × Listener) :=
  match w.core._aop._cli_impl, w.core._aop._handler with
  | some cli, some clisock =>
    some (clisock,
      { w with
        core := w.core.acceptComplete
        socks := w.socks.modify cli res.give })
  | _, _ => none

/-- The endpoints of the socket can be had. -/
def endpoints : AcceptResult → Bool
  | .conn _ remote loc => remote && loc
  | .fail _ => false

/-- The descriptor is open, in the epoll set, and not about to be closed: `_DoClose` comes before the
next `epoll_wait`. -/
def Watched : Prop :=
  w.core._fd ≠ none ∧ w.core._state.close = false ∧ w.core.interest = some ⟨true, false, false⟩

instance : Decidable w.Watched := inferInstanceAs (Decidable (_ ∧ _ ∧ _))

/-- A step; `_DoExecOp` on a slot that is not the accept's is not a step, nor is a completion that
finds the slot empty. -/
def step : ListenAction → Option Listener
  | .event res env =>
    if w.Watched ∧ w.core._type.accept ∧ w.core._aop._acpt_impl then
      (w.complete res).map fun (clisock, w) =>
        w._acceptHandler res.error (endpoints res) clisock env
    else none
  | .doClose => if w.core._state.close then some { w with core := w.core.invalidate } else none

/-- **The acceptor waits for a connection**: an accept is posted for a socket without a descriptor,
and the next event completes it. -/
structure Listening : Prop where
  watched : w.Watched
  type : w.core._type = { OpType.none with accept := true }
  flag : w.core._state.accept = true
  slot : ∃ n, w.core._aop = ⟨true, some n, some n⟩ ∧ w.socks[n]? = some newSocket
  event : ∀ res env, w.step (.event res env) ≠ none

/-- What the events of a run have brought. -/
def results (l : List ListenAction) : List AcceptResult :=
  l.filterMap fun
    | .event res _ => some res
    | .doClose => none

/-- **What a listener has done with the results `rs`**: every connection that can be started has been
handed to `OnConnected` once, on a socket of its own, in order; the sockets with a descriptor have
had one call of `Init`; and the acceptor waits for the next connection, unless an accept has
reported an error, and then its descriptor is closed or about to be, and no connection follows. -/
structure Served (rs : List AcceptResult) : Prop where
  nodup : w.onConnected.Nodup
  connected : w.onConnected.map (fun n => (w.socks[n]?).bind AcceptedSocket._fd) =
    (rs.filterMap AcceptResult.served).map some
  started : ∀ (n : ℕ) (s : AcceptedSocket), w.socks[n]? = some s → (s.started = true ↔ n ∈ w.onConnected)
  once : ∀ (n : ℕ) (s : AcceptedSocket), w.socks[n]? = some s → s._fd ≠ none → s.inits = 1
  listens : (∀ r ∈ rs, r.error = none) → w.Listening
  stops : (∃ r ∈ rs, r.error ≠ none) → ∀ res env, w.step (.event res env) = none

end Listener

end Netlib
