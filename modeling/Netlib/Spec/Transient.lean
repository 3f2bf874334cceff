import Netlib.Spec.Connector

/-!
# Why a socket leaves `E_STATE_START` (`socket/epoll_access.hpp`, `netio/tsocket_impl.hpp`)

`ReadOperation::Complete` and `WriteOperation::Complete` look for the error of a failed
`recv` or `send` in `SO_ERROR`, and hand the handler 0 bytes for a negative result. The
handlers take 0 bytes for the end of the stream.
-/

namespace Netlib

/-- An error of the system, and not that of an operation that is posted twice. -/
def SockError.Real : SockError → Prop
  | badDescriptor | notService | sys _ => True
  | postedAccept | postedConnect | postedRead | postedWrite | endpointInvalid
  | asyncConnectFail | asyncReadFail | asyncWriteFail => False

namespace CbWorld

variable (w : CbWorld)

/-- A step of a socket; a connector may connect again. -/
def socketStep (a : CbAction) : Option CbWorld :=
  if w.connector then w.connectorStep a else w.step a

/-- The call of a completion handler: the operation, what `recv` or `send` returned, and
what the handler gets. -/
def call : CbAction → Option (Dir × ℤ × Notified)
  | .finish ret so _ _ _ =>
    match w.thread with
    | .completing d true error => some (d, ret, ⟨ret.toNat, Core.rwError d error ret so⟩)
    | _ => none
  | _ => none

/-- **What a completion handler may be told**: no bytes and no error only when `recv`
returned 0, and an error when the result is negative. -/
def Told (a : CbAction) : Prop :=
  ∀ d ret n, w.call a = some (d, ret, n) →
    (n.tran_byte = 0 ∧ n.error = none → d = .read ∧ ret = 0) ∧ (ret < 0 → n.error ≠ none)

/-- The error of the operation that a step posts: a write handler that was told of bytes posts
the next write. -/
def refusal : CbAction → Option SockError
  | .send data len env => (w.core.asyncSendSome data len () env).1
  | .finish ret _ data len env =>
    match w.thread with
    | .completing .write _ _ =>
      if 0 < ret then ((w.core.setOper .clear .write).asyncSendSome data len () env).1 else none
    | _ => none
  | .afterReceive _ env | .afterConnected env =>
    (w.core.asyncRecvSome w.readbuf socketReadSize () env).1
  | _ => none

/-- **The causes** for leaving `E_STATE_START`: the user closes; the peer has shut down; a
frame is malformed; a completion comes with an error of `epoll_ctl`, or without bytes and with
an error that is pending (or cannot be read); the next operation cannot be posted. -/
inductive Cause : CbAction → Prop
  | close : Cause .close
  | shutdown {error : Option SockError} {so : Option ℕ} {data len : ℕ} {env : Env} :
    w.thread = .completing .read true error → Cause (.finish 0 so data len env)
  | malformed {env : Env} : Cause (.afterReceive false env)
  | failed {d : Dir} {error : Option SockError} {ret : ℤ} {so : Option ℕ} {data len : ℕ}
    {env : Env} : w.thread = .completing d true error → error ≠ none ∨ ret ≤ 0 ∧ so ≠ some 0 →
    Cause (.finish ret so data len env)
  | refused {a : CbAction} {e : SockError} : w.refusal a = some e → e.Real → Cause a

/-- **Transient conditions do not close**: the handler is told what happened, and the socket
leaves `E_STATE_START` for a cause. -/
structure Steady (a : CbAction) (w' : CbWorld) : Prop where
  told : w.Told a
  cause : w._flag = .start → w'._flag ≠ .start → w.Cause a

/-- **The condition on a step**: an error is pending (or cannot be read) when `recv` or `send`
fails or `send` takes nothing, unless `epoll_ctl` has failed before. -/
def ErrorPending : CbAction → Prop
  | .finish ret so _ _ _ => ∀ d, w.thread = .completing d true none →
    ret < 0 ∨ ret = 0 ∧ d = .write → so ≠ some 0
  | _ => True

end CbWorld

end Netlib
