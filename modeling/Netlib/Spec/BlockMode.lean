import Netlib.Spec.Release

/-!
# The block bit and the mode of the descriptor (`socket/ioaccess.ipp`, `socket/epoll_access.hpp`)

The bit of `_state` and the mode of the descriptor are set by different statements: an
asynchronous call sets both, `Connect` with a time-out only the mode, `Close` and
`_DoClose` zero the whole state word, and `Open` and an accept bring a new descriptor in
blocking mode. `SetBlock` and `SetNonBlock` succeed here.
-/

namespace Netlib

variable {η : Type*}

/-- `M_ERR_BAD_DESCRIPTOR`, `M_ERR_POSTED_…`, `M_ERR_ENDPOINT_INVALID`, `M_ERR_IS_NONBLOCK`. -/
inductive SyncRefusal
  | badDescriptor
  | posted
  | endpointInvalid
  | isNonblock
  deriving DecidableEq

/-- How a `Connect` ends: `g_connect` succeeds, or fails at once, or is in progress and
`Select` returns 0 or not. -/
inductive ConnectResult
  | connected
  | failed
  | selected (ok : Bool)
  deriving DecidableEq

namespace Core

variable (c : Core η)

/-- The tests of `Accept`, `SendSome` and `RecvSome`; `posted` is the flag of the call. -/
def syncRefusal (posted : Bool) : Option SyncRefusal :=
  if c._fd = none then some .badDescriptor
  else if posted then some .posted
  else if c._state.block = false then some .isNonblock
  else none

/-- The tests of `Connect`, where `timed` is `timeo_sec != -1`. -/
def connectRefusal (valid timed : Bool) : Option SyncRefusal :=
  if c._fd = none then some .badDescriptor
  else if c._state.connect then some .posted
  else if !valid then some .endpointInvalid
  else if !timed ∧ c._state.block = false then some .isNonblock
  else none

def setConnectFlag (b : Bool) : Core η := { c with _state := { c._state with connect := b } }

/-- `Connect` after the tests; `Close` when `Select` fails. -/
def connect (timed : Bool) (res : ConnectResult) : Core η :=
  let c := c.setConnectFlag true
  let c := if timed ∧ res = .selected false then c.close else c
  c.setConnectFlag false

end Core

/-- The error of `SetNonBlock`. -/
def OpAction.nonblock : OpAction η → Option ℕ
  | .async _ _ _ _ env | .asyncConnect _ _ _ env | .asyncAccept _ _ env => env.nonblock
  | _ => none

/-- An asynchronous call that passes its tests, up to `if (!M_Impl_G_Nonblock(impl))`. -/
def OpAction.posts (c : Core η) : OpAction η → Bool
  | .async d _ _ _ _ => c._fd ≠ none ∧ c.flag d = false
  | .asyncConnect valid _ _ _ => c._fd ≠ none ∧ c._state.connect = false ∧ valid = true
  | .asyncAccept _ _ _ => c._fd ≠ none ∧ c._state.accept = false
  | _ => false

/-- A socket with the mode of its descriptor. -/
structure ModeWorld (η : Type*) where
  op : OpWorld η
  blocking : Bool

/-- An asynchronous operation, a completion, an `Open` or a close; `Connect`; `Accept` on this
socket, and an accept that gives it a descriptor or, when `g_accept` fails in `Accept`, none. -/
inductive ModeAction (η : Type*)
  | op (a : OpAction η)
  | connect (valid timed : Bool) (res : ConnectResult)
  | accept
  | accepted (fd : Option ℕ)

namespace ModeWorld

def start : ModeWorld η := ⟨.start, true⟩

variable (w : ModeWorld η)

/-- The mode after an operation. -/
def opMode : OpAction η → Bool
  | .openFd _ => if w.op.core._fd = none then true else w.blocking
  | a => if a.posts w.op.core ∧ w.op.core._state.block then false else w.blocking

def setCore (c : Core η) : ModeWorld η := { w with op := { w.op with core := c } }

def connect (timed : Bool) (res : ConnectResult) : ModeWorld η :=
  let mode := if timed ∧ w.op.core._state.block then false else w.blocking
  let c := w.op.core.connect timed res
  -- `SetBlock`, also when the socket was non-blocking before
  { w.setCore c with blocking := if c._fd = none then mode else true }

def step : ModeAction η → Option (ModeWorld η)
  | .op a =>
    if a.nonblock = none then (w.op.step a).map fun op => ⟨op, w.opMode a⟩ else none
  | .connect valid timed res =>
    if w.op.core.connectRefusal valid timed = none then some (w.connect timed res) else some w
  -- its flag is set and cleared again
  | .accept => some w
  | .accepted fd => some { w.setCore { w.op.core with _fd := fd } with blocking := true }

/-- **The bit tells the truth** about a descriptor that is valid. -/
def Truth : Prop := w.op.core._fd ≠ none → (w.op.core._state.block = true ↔ w.blocking = true)

/-- The bit tells the truth; so a call is refused with `M_ERR_IS_NONBLOCK` only on a non-blocking
descriptor, and an operation is pending only on such a one. -/
structure Honest : Prop where
  truth : w.Truth
  sync : ∀ posted, w.op.core.syncRefusal posted = some .isNonblock → w.blocking = false
  connect : ∀ valid timed, w.op.core.connectRefusal valid timed = some .isNonblock →
    w.blocking = false
  async : w.op.core._fd ≠ none → ¬ w.op.core.HoldsNone → w.blocking = false

/-- **The condition on a step**: the block bit is set when the socket gets a new descriptor and when
a `Connect` with a time-out passes its tests. The first is false after any close, the second after
any asynchronous call. -/
def StepOk : ModeAction η → Prop
  | .op (.openFd _) => w.op.core._fd = none → w.op.core._state.block = true
  | .accepted (some _) => w.op.core._state.block = true
  | .connect valid true _ =>
    w.op.core.connectRefusal valid true = none → w.op.core._state.block = true
  | _ => True

end ModeWorld

end Netlib
