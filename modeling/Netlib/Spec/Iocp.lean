import Netlib.Lib.Locked
import Netlib.Lib.Run
import Netlib.Spec.Epoll

/-!
# Asynchronous operations on IOCP (`socket/iocp_access.hpp`)

The four calls that post an operation, with what they do to the mutex of the socket and to the
bits of its `_state`. They are four copies of one another with differences, so each has its own
body here. What the system returns is a parameter, and between two calls the completions and other
threads may leave the socket in any state.
-/

namespace Netlib

open Lib
open Function (update)

/-- The bits of `_state` that the calls use. -/
inductive StateBit
  | v
  | bind
  | block
  | accept
  | connect
  | write
  | read
  deriving DecidableEq

/-- `SocketImpl::core`, `_fd` being `none` for `M_INVALID_SOCKET`. -/
structure IocpCore where
  _fd : Option ℕ
  _state : StateBit → Bool

/-- What the system answers before the operation is posted: the errors of `SetNonBlock` and of
`BindIocp`. -/
structure IocpEnv where
  nonblock : Option ℕ
  bindIocp : Option SockError

/-- What `AcceptEx` returns: success or `ERROR_IO_PENDING`, a reset connection, another error. -/
inductive AcceptEx
  | posted
  | reset
  | failed (errno : ℕ)
  deriving DecidableEq

/-- A call on a socket. -/
abbrev IocpCall := Locking IocpCore StateBit

namespace IocpCall

open Locking

/-- `M_Impl_Fd(impl) == M_INVALID_SOCKET`. -/
def invalid : IocpCall Bool := look (·._fd.isNone)

/-- `M_Impl_G_…`. -/
def get (b : StateBit) : IocpCall Bool := Locking.read b (·._state b)

/-- `M_Impl_S_…` and `M_Impl_C_…`. -/
def set (b : StateBit) (value : Bool) : IocpCall Unit :=
  Locking.write b fun c => { c with _state := update c._state b value }

/-- `if (!M_Impl_G_Nonblock(impl))`. -/
def setNonblock (env : IocpEnv) : IocpCall (Option SockError) := do
  if ← get .block then
    match env.nonblock with
    | some e => return some (.sys e)
    | none =>
      set .block false
      return none
  else return none

/-- `if (!M_Impl_G_Bind(impl))`. -/
def setBind (env : IocpEnv) : IocpCall (Option SockError) := do
  if ← get .bind then return none
  else
    match env.bindIocp with
    | some e => return some e
    | none =>
      set .bind true
      return none

/-- What the calls have in common before they post. -/
def prepare (env : IocpEnv) : IocpCall (Option SockError) := do
  match ← setNonblock env with
  | some e => return some e
  | none => setBind env

/-- `break`: the end of the function is behind the loop. -/
def leave (error : SockError) : IocpCall (Option SockError) := do
  unlock
  return some error

/-- The operation could not be posted. -/
def unpost (flag : StateBit) : IocpCall Unit := do
  lock
  set flag false
  unlock

/-- The loop around `AcceptEx`, with what it returns each time. -/
def acceptLoop : List AcceptEx → IocpCall (Option SockError)
  | [] => pure none
  | .reset :: results => acceptLoop results
  | .posted :: _ => pure none
  | .failed errno :: _ => do
    unpost .accept
    return some (.sys errno)

/-- `AsyncAccept`. `openErr` is the error of `Open` for the client, by its address family. -/
def asyncAccept (env : IocpEnv) (openErr : Bool → Option ℕ) (results : List AcceptEx) :
    IocpCall (Option SockError) := do
  lock
  if ← invalid then leave .badDescriptor
  else if ← get .accept then leave .postedAccept
  else
    match ← prepare env with
    | some e => leave e
    | none =>
      match openErr (← get .v) with
      | some errno => leave (.sys errno)
      | none =>
        set .accept true
        unlock
        acceptLoop results

/-- `AsyncConnect`, where `valid` is `ep.Valid()` and `connectEx` the error of `ConnectEx`. The
mutex is not locked here. -/
def asyncConnect (env : IocpEnv) (valid : Bool) (connectEx : Option ℕ) :
    IocpCall (Option SockError) := do
  if ← invalid then leave .badDescriptor
  else if ← get .connect then leave .postedConnect
  else if !valid then leave .endpointInvalid
  else
    match ← prepare env with
    | some e => leave e
    | none =>
      set .connect true
      unlock
      match connectEx with
      | some errno =>
        unpost .connect
        return some (.sys errno)
      | none => return none

/-- `AsyncRecvSome`, where `wsarecv` is the error of `WSARecv`. -/
def asyncRecvSome (env : IocpEnv) (wsarecv : Option ℕ) : IocpCall (Option SockError) := do
  lock
  if ← invalid then leave .badDescriptor
  else if ← get .read then leave .postedRead
  else
    match ← prepare env with
    | some e => leave e
    | none =>
      set .read true
      unlock
      match wsarecv with
      | some errno =>
        unpost .read
        return some (.sys errno)
      | none => return none

/-- `AsyncSendSome`, where `wsasend` is the error of `WSASend`. -/
def asyncSendSome (env : IocpEnv) (wsasend : Option ℕ) : IocpCall (Option SockError) := do
  lock
  if ← invalid then leave .badDescriptor
  -- `return`, not `break`
  else if ← get .write then return some .postedWrite
  else
    match ← prepare env with
    | some e => leave e
    | none =>
      set .write true
      unlock
      match wsasend with
      | some errno =>
        unpost .write
        -- there is no `return` in the loop
        leave (.sys errno)
      | none =>
        unlock
        return none

end IocpCall

/-- A call of a program on the socket, or what others do to its core between two calls. -/
inductive IocpAction
  | asyncAccept (env : IocpEnv) (openErr : Bool → Option ℕ) (results : List AcceptEx)
  | asyncConnect (env : IocpEnv) (valid : Bool) (connectEx : Option ℕ)
  | asyncRecvSome (env : IocpEnv) (wsarecv : Option ℕ)
  | asyncSendSome (env : IocpEnv) (wsasend : Option ℕ)
  | others (core : IocpCore)

namespace IocpAction

/-- The call that an action is. -/
def call : IocpAction → IocpCall (Option SockError)
  | asyncAccept env openErr results => IocpCall.asyncAccept env openErr results
  | asyncConnect env valid connectEx => IocpCall.asyncConnect env valid connectEx
  | asyncRecvSome env wsarecv => IocpCall.asyncRecvSome env wsarecv
  | asyncSendSome env wsasend => IocpCall.asyncSendSome env wsasend
  | others core => fun _ => (none, core, [])

end IocpAction

namespace IocpCore

def step (c : IocpCore) (a : IocpAction) : Option IocpCore := some (a.call.after c)

/-- **The lock discipline** of a call. -/
def Disciplined (c : IocpCore) (a : IocpAction) : Prop := a.call.Disciplined c

/-- The call ends before it posts, and not because of the flag. -/
def Refuses (c : IocpCore) (env : IocpEnv) (flag : StateBit) : Prop :=
  c._fd = none ∨ c._state flag = false ∧
    (c._state .block = true ∧ env.nonblock ≠ none ∨
      c._state .bind = false ∧ env.bindIocp ≠ none)

/-- **The condition on a call**: it is no `AsyncConnect`, and an `AsyncSendSome` ends before it
posts, and not because of the flag. -/
def Balanced (c : IocpCore) : IocpAction → Prop
  | .asyncConnect _ _ _ => False
  | .asyncSendSome env _ => c.Refuses env .write
  | _ => True

end IocpCore

end Netlib
