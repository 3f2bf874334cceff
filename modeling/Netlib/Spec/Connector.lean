import Netlib.Spec.Callbacks
import Netlib.Spec.Writer
import Netlib.Lib.Run

/-!
# A connector that connects again (`netio/tconnector_impl.hpp`, `netio/hconnector_impl.hpp`)

The user may call `AsyncConnect` on a `TcpConnector` or `HttpConnector` at any time, also
after a `Close`; the other steps of the socket are those of its callbacks. `_Close` writes
`_flag` under the lock of the writer, and `_ConnectHandler` without it, whatever it was.
-/

namespace Netlib

namespace CbWorld

variable (w : CbWorld)

/-- `TcpBaseSocket::IsConnected`. -/
def isConnected : Bool := w._flag = .start

/-- A step where `AsyncConnect` may come at any time. A handler that still runs for an earlier
connect goes on. -/
def connectorStep : CbAction → Option CbWorld
  | .openFd fd => some { w with core := w.core.openFd fd }
  | .asyncConnect valid connect env =>
    let (error, core) := w.core.asyncConnect valid connect () env
    some { w with
      core := core
      starter := if error = none ∧ w.starter.running = false then .waiting else w.starter }
  | a => w.step a

/-- No new connect is requested. -/
def NoConnect (_ : CbWorld) : CbAction → Prop
  | .asyncConnect .. => False
  | _ => True

/-- `_ConnectHandler` comes to `_flag = E_STATE_START`. -/
def Connects : CbAction → Prop
  | .connectHandler endpoints => w.starter = .entered none ∧ endpoints = true
  | _ => False

/-- **The condition on a step**: no successful connect completion comes to its handler after the
close, unless the descriptor is gone by then and `RemoteEndPoint` throws. -/
def CloseFinal (a : CbAction) : Prop := w._flag = .close → ¬ w.Connects a

/-- The steps after a close, up to the next connect. -/
def AfterClose (a : CbAction) : Prop := w.NoConnect a ∧ w.CloseFinal a

/-- **Closed**: the socket is not connected, and every `Send` returns false, whatever the writer
holds. -/
structure Closed : Prop where
  flag : w._flag = .close
  isConnected : w.isConnected = false
  send : ∀ s : TcpBaseSocket, s._flag = w._flag → ∀ now data err, (s.send now data err).1 = false
  sendBuffer : ∀ s : TcpBaseSocket, s._flag = w._flag → ∀ b err, (s.sendBuffer b err).1 = false

end CbWorld

end Netlib
