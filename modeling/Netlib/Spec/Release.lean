import Netlib.Spec.Epoll
import Netlib.Lib.Run

/-!
# What a closed socket holds (`socket/ioaccess.ipp`, `socket/linux_epoll.hpp`)

A slot with an operation refers to the core that it is part of, and its handler to the
object of the user. A `Complete` clears the slot. When the descriptor is closed it leaves
the epoll set, so an operation that is pending then may never be completed, and the core
keeps itself alive.
-/

namespace Netlib

variable {η : Type*}

/-- No handler and no reference to the core. -/
structure RwOperation.Empty (o : RwOperation η) : Prop where
  impl : o._impl = false
  handler : o._handler = none

structure ConnectOperation.Empty (o : ConnectOperation η) : Prop where
  impl : o._impl = false
  handler : o._handler = none

structure AcceptOperation.Empty (o : AcceptOperation η) : Prop where
  acpt_impl : o._acpt_impl = false
  cli_impl : o._cli_impl = none
  handler : o._handler = none

/-- The four slots are empty. -/
structure Core.HoldsNone (c : Core η) : Prop where
  oper : ∀ d, (c.oper d).Empty
  cop : c._cop.Empty
  aop : c._aop.Empty

namespace OpWorld

variable (w : OpWorld η)

/-- **A closed socket holds no operation**, once no `Complete` is executing. -/
def Released : Prop := w.core._fd = none → w.completing = none → w.core.HoldsNone

/-- Every operation in a slot is being completed. -/
structure Quiet : Prop where
  oper : ∀ d, (w.core.oper d).Empty ∨ w.Completing d
  cop : w.core._cop.Empty
  aop : w.core._aop.Empty

/-- **The condition on a step**: when `_DoClose` closes the descriptor no operation is pending but
one that is being completed. -/
def QuietClose : OpAction η → Prop
  | .doClose => w.Quiet
  | _ => True

end OpWorld

end Netlib
