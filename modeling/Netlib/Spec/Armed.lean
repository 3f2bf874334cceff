import Netlib.Spec.BlockMode
import Netlib.Lib.Run

/-!
# Whether a connect is armed (`socket/epoll_access.hpp`)

`AsyncConnect` asks for one report when it registers the descriptor, and leaves the epoll
set alone when the bound bit is set. The system disables an entry that has had its one
report, and drops the entry of a descriptor that is closed; the bound bit tells of neither.
-/

namespace Netlib

variable {η : Type*}

/-- The entry of a descriptor in its epoll set. -/
structure EpollEntry where
  events : EpollEvents
  enabled : Bool
  deriving DecidableEq

/-- `epoll_wait` reports the entry. -/
def EpollEntry.report (e : EpollEntry) : EpollEntry :=
  { e with enabled := e.enabled && !e.events.oneshot }

/-- A socket with its entry in the epoll set. `reported` holds from a report of `epoll_wait` to the
next wait, `due` as long as the connect that `_DoExecOp` finds then is not completed. -/
structure ArmWorld (η : Type*) where
  op : OpWorld η
  entry : Option EpollEntry
  reported : Bool
  due : Bool

/-- An asynchronous operation, a completion, an `Open` or a close; `Connect`; `Cancel`; what
`epoll_wait` does. -/
inductive ArmAction (η : Type*)
  | op (a : OpAction η)
  | connect (valid timed : Bool) (res : ConnectResult)
  | cancel (ctl : Option ℕ)
  | event
  | wait

namespace OpAction

/-- The mask that an operation gives to `epoll_ctl`, when `epoll_ctl` takes it. -/
def given (c : Core η) : OpAction η → Option EpollEvents
  | .async d data size hander env =>
    let (error, c') := c.async d data size hander env
    if error = none then c'.interest else none
  | .asyncConnect valid connect handler env =>
    let (error, c') := c.asyncConnect valid connect handler env
    if error = none ∧ c._state.bind = false then c'.interest else none
  | .asyncAccept cli handler env =>
    let (error, c') := c.asyncAccept cli handler env
    if error = none ∧ c._state.bind = false then c'.interest else none
  | .lock d ctl =>
    let (notify, error, c') := c.locked ctl d
    if notify ∧ error = none then c'.interest else none
  | _ => none

/-- `_DoExecOp` begins a `Complete`. -/
def dispatched : OpAction η → Bool
  | .lock .. | .connectComplete | .acceptComplete => true
  | _ => false

end OpAction

/-- A step of the service thread towards the completion of a connect. -/
def ArmAction.completes : ArmAction η → Bool
  | .event | .op .connectComplete => true
  | _ => false

namespace Core

variable (c : Core η)

/-- `AsyncConnect` comes to its first write of `_state`, past `connect`. -/
structure ConnectPosts (valid : Bool) (connect : Option ℕ) (env : Env) : Prop where
  fd : c._fd ≠ none
  flag : c._state.connect = false
  valid : valid = true
  nonblock : c._state.block = true → env.nonblock = none
  connect : connect = none

/-- An `AsyncConnect` that the system grants, of an endpoint that is valid. -/
def Connectable : Prop :=
  ∀ (fd service : ℕ) (handler : η),
    ((c.openFd fd).asyncConnect true none handler ⟨none, some service, none⟩).1 = none

end Core

namespace ArmWorld

def start : ArmWorld η := ⟨.start, none, false, false⟩

variable (w : ArmWorld η)

/-- The entry after an operation: none without a descriptor or for a new one. -/
def opEntry (a : OpAction η) (c' : Core η) : Option EpollEntry :=
  if w.op.core._fd = none ∨ c'._fd = none then none
  else
    match a.given w.op.core with
    | some events => some ⟨events, true⟩
    | none => w.entry

def step : ArmAction η → Option (ArmWorld η)
  | .op a =>
    if a.dispatched → w.reported then
      (w.op.step a).map fun op =>
        { w with op := op, entry := w.opEntry a op.core, due := w.due && op.core._type.connect }
    else none
  | .connect valid timed res =>
    if w.op.core.connectRefusal valid timed = none then
      let c := w.op.core.connect timed res
      some { w with
        op := { w.op with core := c }
        entry := if c._fd = none then none else w.entry }
    else some w
  -- the bound bit stays
  | .cancel ctl =>
    if w.op.core._state.bind ∧ w.op.core._epoll ≠ none ∧ ctl = none then
      some { w with entry := none }
    else some w
  | .event =>
    if w.entry.any (·.enabled) then
      some { w with
        entry := w.entry.map .report, reported := true, due := w.due || w.op.core._type.connect }
    else none
  -- `_DoExecOp` asks for `E_CONNECT_OP` before the next wait
  | .wait => if w.due then none else some { w with reported := false }

/-- The descriptor is registered, and enabled for `M_EPOLLOUT`. -/
def Armed : Prop := w.entry.any fun e => e.enabled && e.events.out

/-- **What `AsyncConnect` leaves when it returns no error**: the connect is posted and armed, and
its completion follows the next report. -/
structure Awaits : Prop where
  flag : w.op.core._state.connect = true
  type : w.op.core._type = { OpType.none with connect := true }
  armed : w.Armed
  completes : ∃ w₁ w₂, w.step .event = some w₁ ∧ w₁.step (.op .connectComplete) = some w₂

/-- **What `AsyncConnect` leaves when it returns an error**: another one is possible, at once or when the
service thread has completed the one that is posted. -/
def Again : Prop :=
  ∃ (as : List (ArmAction η)) (w' : ArmWorld η),
    (∀ a ∈ as, a.completes = true) ∧ as.foldlM step w = some w' ∧ w'.op.core.Connectable

/-- **What `AsyncConnect` promises** of the state it leaves. -/
def Promised : ArmAction η → ArmWorld η → Prop
  | .op (.asyncConnect valid connect handler env), w' =>
    match (w.op.core.asyncConnect valid connect handler env).1 with
    | none => w'.Awaits
    | some _ => w'.Again
  | _, _ => True

/-- A connect is posted on an open descriptor. -/
def Connecting : Prop := w.op.core._fd ≠ none ∧ w.op.core._state.connect = true

/-- The operation set has the operation, and a report is at hand or to come. -/
def Completable : Prop :=
  w.op.core._type.connect = true ∧ w.op.core._cop._impl = true ∧
    (w.reported = true ∨ w.entry.any (·.enabled) = true)

/-- **The condition on a step**: when `AsyncConnect` comes past `connect` with the bound bit set, the
descriptor is registered and still enabled for `M_EPOLLOUT`; when it finds a connect that is posted,
that one can still be completed. -/
def StepOk : ArmAction η → Prop
  | .op (.asyncConnect valid connect _ env) =>
    (w.op.core.ConnectPosts valid connect env → w.op.core._state.bind = true → w.Armed) ∧
      (w.Connecting → w.Completable)
  | _ => True

/-- **A step that does not disturb** a connect: no read, write or accept is posted and no `Cancel` called
while it is posted, and `AsyncConnect` comes past `connect` only on a descriptor that it registers or
that is still enabled. -/
def Undisturbed : ArmAction η → Prop
  | .op (.async ..) | .op (.asyncAccept ..) | .cancel _ => ¬ w.Connecting
  | .op (.asyncConnect valid connect _ env) =>
    w.op.core.ConnectPosts valid connect env → w.op.core._state.bind = true → w.Armed
  | _ => True

end ArmWorld

end Netlib
