import Mathlib.Data.Nat.Notation
import Mathlib.Data.Int.Notation
import Mathlib.Logic.Function.Basic

/-!
# Asynchronous operations on epoll (`socket/epoll_access.hpp`)

A socket has one core, with one slot for each kind of operation. `AsyncRecvSome` and
`AsyncSendSome` fill their slot before they take the lock and clear it again when they
refuse the call. What the system answers is a parameter. A `Complete` has two steps:
what it does under the lock, and the rest. `IoAccess` closes and opens (`ioaccess.ipp`).
-/

namespace Netlib

/-- An event mask: `M_EPOLLIN`, `M_EPOLLOUT`, `M_EPOLLONESHOT`. -/
structure EpollEvents where
  inp : Bool
  out : Bool
  oneshot : Bool
  deriving DecidableEq

inductive EpollCtl
  | add
  | mod
  deriving DecidableEq

/-- The `SocketError`s set here; `sys` is an error number of the system. -/
inductive SockError
  | badDescriptor
  | postedAccept
  | postedConnect
  | postedRead
  | postedWrite
  | endpointInvalid
  | notService
  | asyncConnectFail
  | asyncReadFail
  | asyncWriteFail
  | sys (errno : ℕ)
  deriving DecidableEq

/-- `OperationSet::_type`. -/
structure OpType where
  accept : Bool
  connect : Bool
  write : Bool
  read : Bool
  deriving DecidableEq

/-- The bits of `_state`, without the address family and the socket type. -/
structure SockState where
  bind : Bool
  block : Bool
  accept : Bool
  connect : Bool
  write : Bool
  read : Bool
  close : Bool
  deriving DecidableEq

/-- `_state = 0`. -/
def SockState.zero : SockState := ⟨false, false, false, false, false, false, false⟩

/-- `ReadOperation` or `WriteOperation`: the buffer pointer and the length of `_wsabuf`,
whether `_impl` refers to the core, and `_handler`. -/
structure RwOperation (η : Type*) where
  buf : ℕ
  len : ℕ
  _impl : Bool
  _handler : Option η
  deriving DecidableEq

def RwOperation.clear {η : Type*} : RwOperation η := ⟨0, 0, false, none⟩

/-- `ConnectOperation`. -/
structure ConnectOperation (η : Type*) where
  _impl : Bool
  _handler : Option η
  deriving DecidableEq

def ConnectOperation.clear {η : Type*} : ConnectOperation η := ⟨false, none⟩

/-- `AcceptOperation`, where `_cli_impl` is the core that gets the connection. -/
structure AcceptOperation (η : Type*) where
  _acpt_impl : Bool
  _cli_impl : Option ℕ
  _handler : Option η
  deriving DecidableEq

def AcceptOperation.clear {η : Type*} : AcceptOperation η := ⟨false, none, none⟩

/-- `SocketImpl::core`. `_epoll` and `_fd` are `none` for -1; `interest` is the mask
last given to `epoll_ctl`. -/
structure Core (η : Type*) where
  _epoll : Option ℕ
  _fd : Option ℕ
  _state : SockState
  _type : OpType
  _aop : AcceptOperation η
  _cop : ConnectOperation η
  _wop : RwOperation η
  _rop : RwOperation η
  interest : Option EpollEvents
  deriving DecidableEq

/-- Reading or writing. -/
inductive Dir
  | read
  | write
  deriving DecidableEq

def Dir.other : Dir → Dir
  | read => write
  | write => read

/-- What the system answers: the error of `SetNonBlock`, the epoll handle of the next
running service, the error of `epoll_ctl`. -/
structure Env where
  nonblock : Option ℕ
  service : Option ℕ
  ctl : Option ℕ

variable {η : Type*}

namespace OpType

def none : OpType := ⟨false, false, false, false⟩

def has (t : OpType) : Dir → Bool
  | .read => t.read
  | .write => t.write

def set (t : OpType) (b : Bool) : Dir → OpType
  | .read => { t with read := b }
  | .write => { t with write := b }

end OpType

/-- The mask for reading or writing, and for the other when `both`. -/
def EpollEvents.of (d : Dir) (both : Bool) : EpollEvents :=
  match d with
  | .read => ⟨true, both, false⟩
  | .write => ⟨both, true, false⟩

namespace Core

variable (c : Core η)

/-- `SocketImpl::Init`, then `ConstructImpl`. -/
def init : Core η where
  _epoll := none
  _fd := none
  _state := { SockState.zero with block := true }
  _type := .none
  _aop := .clear
  _cop := .clear
  _wop := .clear
  _rop := .clear
  interest := none

/-- `M_Impl_Rop`, `M_Impl_Wop`. -/
def oper : Dir → RwOperation η
  | .read => c._rop
  | .write => c._wop

def setOper (o : RwOperation η) : Dir → Core η
  | .read => { c with _rop := o }
  | .write => { c with _wop := o }

/-- `M_Impl_G_Read_Flag`, `M_Impl_G_Write_Flag`. -/
def flag : Dir → Bool
  | .read => c._state.read
  | .write => c._state.write

def setFlag (b : Bool) : Dir → Core η
  | .read => { c with _state := { c._state with read := b } }
  | .write => { c with _state := { c._state with write := b } }

def setBind (b : Bool) : Core η := { c with _state := { c._state with bind := b } }

def setType (t : OpType) : Core η := { c with _type := t }

/-- `SetNonBlock` when the block bit is set. -/
def setNonblock (env : Env) : Except SockError (Core η) :=
  if c._state.block then
    match env.nonblock with
    | some e => .error (.sys e)
    | none => .ok { c with _state := { c._state with block := false } }
  else .ok c

/-- `CtlEpoll`. -/
def ctlEpoll (env : Env) (flag : EpollCtl) (events : EpollEvents) : Option SockError × Core η :=
  -- the service is chosen once, and kept when the descriptor is opened again
  let c := { c with _epoll := if flag = .add ∧ c._epoll = none then env.service else c._epoll }
  if c._epoll = none then (some .notService, c)
  else
    match env.ctl with
    | some e => (some (.sys e), c)
    | none => (none, { c with interest := some events })

/-- The type bits of a call: the operation, and the other one when it is posted. -/
def postType (d : Dir) : OpType := (OpType.none.set true d).set (c.flag d.other) d.other

/-- The bits that a call sets before it goes to `CtlEpoll`. -/
def post (d : Dir) : Core η := ((c.setFlag true d).setBind true).setType (c.postType d)

/-- The exit of a call when `CtlEpoll` failed. -/
def unpost (d : Dir) : Core η := ((c.setFlag false d).setBind false).setOper .clear d

/-- `AsyncRecvSome` or `AsyncSendSome`: the error and the core left. -/
def asyncSome (d : Dir) (posted : SockError) (data size : ℕ) (hander : η) (env : Env) :
    Option SockError × Core η :=
  -- before the lock
  let c := c.setOper ⟨data, size, true, some hander⟩ d
  if c._fd = none then (some .badDescriptor, c.setOper .clear d)
  else if c.flag d then (some posted, c.setOper .clear d)
  else
    match c.setNonblock env with
    | .error e => (some e, c.setOper .clear d)
    | .ok c =>
      let ctl := if c._state.bind then EpollCtl.mod else EpollCtl.add
      match (c.post d).ctlEpoll env ctl (.of d (c.flag d.other)) with
      -- `_type` stays as `post` has set it
      | (some e, c) => (some e, c.unpost d)
      | (none, c) => (none, c)

def asyncRecvSome (data size : ℕ) (hander : η) (env : Env) : Option SockError × Core η :=
  c.asyncSome .read .postedRead data size hander env

def asyncSendSome (data size : ℕ) (hander : η) (env : Env) : Option SockError × Core η :=
  c.asyncSome .write .postedWrite data size hander env

/-- A call of `AsyncRecvSome` or `AsyncSendSome`. -/
def async : Dir → ℕ → ℕ → η → Env → Option SockError × Core η
  | .read => c.asyncRecvSome
  | .write => c.asyncSendSome

/-- `CtlEpoll` when the bound bit is not set. -/
def bindEpoll (env : Env) (events : EpollEvents) : Option SockError × Core η :=
  if c._state.bind then (none, c) else (c.setBind true).ctlEpoll env .add events

/-- `AsyncConnect`, where `valid` is `ep.Valid()` and `connect` the error of `connect`
other than `EINPROGRESS`. -/
def asyncConnect (valid : Bool) (connect : Option ℕ) (handler : η) (env : Env) :
    Option SockError × Core η :=
  if c._fd = none then (some .badDescriptor, c)
  else if c._state.connect then (some .postedConnect, c)
  else if !valid then (some .endpointInvalid, c)
  else
    match c.setNonblock env with
    | .error e => (some e, c)
    | .ok c =>
      match connect with
      -- the socket stays in non-blocking mode
      | some e => (some (.sys e), c)
      | none =>
        let c := { c with
          _state := { c._state with connect := true }
          _type := { OpType.none with connect := true }
          _cop := ⟨true, some handler⟩ }
        let (error, c) := c.bindEpoll env ⟨false, true, true⟩
        if error = none then (none, c)
        else
          (error, { c with
            _state := { c._state with connect := false, bind := false }
            _cop := .clear })

/-- `AsyncAccept` on a listening socket, for the core `cli`. -/
def asyncAccept (cli : ℕ) (handler : η) (env : Env) : Option SockError × Core η :=
  if c._fd = none then (some .badDescriptor, c)
  else if c._state.accept then (some .postedAccept, c)
  else
    match c.setNonblock env with
    | .error e => (some e, c)
    | .ok c =>
      let c := { c with
        _state := { c._state with accept := true }
        _type := { OpType.none with accept := true }
        _aop := ⟨true, some cli, some handler⟩ }
      let (error, c) := c.bindEpoll env ⟨true, false, false⟩
      if error = none then (none, c)
      else
        (error, { c with
          _state := { c._state with accept := false, bind := false }
          _aop := .clear })

/-! ## Completions -/

/-- `ReadOperation::Complete` under the lock: whether it will notify, and the error. -/
def readLocked (ctl : Option ℕ) : Bool × Option SockError × Core η :=
  if c._fd = none then (false, none, c)
  else
    let c := (c.setFlag false .read).setType { c._type with read := false }
    (true, c.ctlEpoll ⟨none, none, ctl⟩ .mod ⟨false, c._type.write, false⟩)

/-- `WriteOperation::Complete` under the lock; the type bit goes also when the
descriptor is closed. -/
def writeLocked (ctl : Option ℕ) : Bool × Option SockError × Core η :=
  let c := c.setType { c._type with write := false }
  if c._fd = none then (false, none, c)
  else
    let c := c.setFlag false .write
    (true, c.ctlEpoll ⟨none, none, ctl⟩ .mod ⟨c._type.read, false, false⟩)

def locked (ctl : Option ℕ) : Dir → Bool × Option SockError × Core η
  | .read => c.readLocked ctl
  | .write => c.writeLocked ctl

/-- The error of a completion when `recv` or `send` returned `ret`; `so` is `SO_ERROR`,
`none` when `getsockopt` fails. An error of `CtlEpoll` hides it. -/
def rwError (d : Dir) (error : Option SockError) (ret : ℤ) (so : Option ℕ) : Option SockError :=
  if ret ≤ 0 then
    match error, so with
    | none, some e => if e = 0 then none else some (.sys e)
    | _, _ => some (match d with | .read => .asyncReadFail | .write => .asyncWriteFail)
  else error

/-- The error of a completed connect; `so` as for `rwError`. -/
def connectError (so : Option ℕ) : Option SockError :=
  match so with
  | some e => if e = 0 then none else some (.sys e)
  | none => some .asyncConnectFail

/-- `ConnectOperation::Complete`. -/
def connectComplete : Core η :=
  { c with
    _state := { c._state with connect := c._state.connect && c._fd.isNone }
    _type := { c._type with connect := false }
    _cop := .clear }

/-- `AcceptOperation::Complete`, on the listening socket. -/
def acceptComplete : Core η :=
  { c with
    _state := { c._state with accept := c._state.accept && c._fd.isNone }
    _aop := .clear }

/-! ## `IoAccess` -/

/-- `Open` with a new descriptor. -/
def openFd (fd : ℕ) : Core η := if c._fd = none then { c with _fd := some fd } else c

/-- `_GetIoServiceImpl`, by the handle; the handle 0 is no service. -/
def _getIoServiceImpl (_implmap : List ℕ) : Option ℕ :=
  match c._epoll with
  | none => none
  | some h => if h = 0 then none else if h ∈ _implmap then some h else none

/-- What `_DoClose` does to a core, and `Close` when the block bit is set. -/
def invalidate : Core η := { c with _fd := none, _state := .zero }

/-- `Close`. -/
def close : Core η :=
  if c._fd ≠ none ∧ c._state.close = false then
    if c._state.block then c.invalidate else { c with _state := { c._state with close := true } }
  else c

end Core

/-! ## Runs -/

/-- The call of a handler: the bytes and the error it gets. -/
structure Notified where
  tran_byte : ℕ
  error : Option SockError

/-- A socket with what was posted and completed. `completing` is a `Complete` that has
given up the lock, with what it knows. A completed operation is what was in its slot,
with the call of the handler; a closed socket does not call it. -/
structure OpWorld (η : Type*) where
  core : Core η
  completing : Option (Dir × Bool × Option SockError)
  accepted : Dir → List (RwOperation η)
  finished : Dir → List (RwOperation η × Option Notified)

inductive OpAction (η : Type*)
  | async (d : Dir) (data size : ℕ) (hander : η) (env : Env)
  | asyncConnect (valid : Bool) (connect : Option ℕ) (handler : η) (env : Env)
  | asyncAccept (cli : ℕ) (handler : η) (env : Env)
  | lock (d : Dir) (ctl : Option ℕ)
  | finish (ret : ℤ) (so : Option ℕ)
  | connectComplete
  | acceptComplete
  | openFd (fd : ℕ)
  | close
  | doClose

namespace OpWorld

open Function (update)

def start : OpWorld η := ⟨.init, none, fun _ => [], fun _ => []⟩

/-- One step. `_DoExecOp` asks for the type bits. A `Complete` on a cleared slot, which
dereferences a null pointer, is not a step. -/
def step (w : OpWorld η) : OpAction η → Option (OpWorld η)
  | .async d data size hander env =>
    let (error, core) := w.core.async d data size hander env
    some { w with
      core := core
      accepted := if error = none then
          update w.accepted d (w.accepted d ++ [⟨data, size, true, some hander⟩])
        else w.accepted }
  | .asyncConnect valid connect handler env =>
    some { w with core := (w.core.asyncConnect valid connect handler env).2 }
  | .asyncAccept cli handler env => some { w with core := (w.core.asyncAccept cli handler env).2 }
  | .lock d ctl =>
    if w.completing = none ∧ !w.core._type.accept ∧ !w.core._type.connect ∧ w.core._type.has d ∧
        (w.core.oper d)._impl then
      let (notify, error, core) := w.core.locked ctl d
      some { w with core := core, completing := some (d, notify, error) }
    else none
  | .finish ret so =>
    match w.completing with
    | none => none
    | some (d, notify, error) =>
      let call := if notify then some ⟨ret.toNat, Core.rwError d error ret so⟩ else none
      some { w with
        core := w.core.setOper .clear d
        completing := none
        finished := update w.finished d (w.finished d ++ [(w.core.oper d, call)]) }
  | .connectComplete =>
    if w.core._type.connect ∧ w.core._cop._impl then some { w with core := w.core.connectComplete }
    else none
  | .acceptComplete =>
    if w.core._type.accept ∧ w.core._aop._acpt_impl then
      some { w with core := w.core.acceptComplete }
    else none
  | .openFd fd => some { w with core := w.core.openFd fd }
  | .close => some { w with core := w.core.close }
  | .doClose => some { w with core := w.core.invalidate }

end OpWorld

/-! ## Rejected calls -/

namespace Core

/-- An operation other than that of `d` is in its slot. -/
def PendingBut (d : Dir) (c : Core η) : Prop :=
  (c.oper d.other)._handler ≠ none ∨ c._cop._handler ≠ none ∨ c._aop._handler ≠ none

/-- **What a rejected call must leave alone**: every pending operation and, when there
is one, the read and write flags, the type bits and the bound bit. -/
structure Untouched (c c' : Core η) : Prop where
  oper : ∀ d, (c.oper d)._handler ≠ none → c'.oper d = c.oper d
  cop : c._cop._handler ≠ none → c'._cop = c._cop
  aop : c._aop._handler ≠ none → c'._aop = c._aop
  bits : (∃ d, (c.oper d)._handler ≠ none) ∨ c._cop._handler ≠ none ∨ c._aop._handler ≠ none →
    (∀ d, c'.flag d = c.flag d) ∧ c'._type = c._type ∧ c'._state.bind = c._state.bind

/-- The call comes to `epoll_ctl`, or to the search for a service, and this fails. -/
def CtlFails (d : Dir) (env : Env) (c : Core η) : Prop :=
  c._fd ≠ none ∧ c.flag d = false ∧ (c._state.block = true → env.nonblock = none) ∧
    (env.ctl ≠ none ∨ c._epoll = none ∧ (c._state.bind = true ∨ env.service = none))

/-- **The condition on a call**: its slot is free, and when `epoll_ctl` fails, no other
operation is pending on bits that the call changes. -/
def CallOk (d : Dir) (env : Env) (c : Core η) : Prop :=
  (c.oper d)._handler = none ∧
    (c.CtlFails d env → c.PendingBut d → c._type = c.postType d ∧ c._state.bind = false)

end Core

namespace OpWorld

/-- The operation in a slot. -/
def pending (w : OpWorld η) (d : Dir) : List (RwOperation η) :=
  if (w.core.oper d)._handler = none then [] else [w.core.oper d]

/-- **Every accepted operation is completed once or still in its slot**, in order, with
its own handler, buffer and length. -/
def Conserved (w : OpWorld η) : Prop :=
  ∀ d, w.accepted d = (w.finished d).map Prod.fst ++ w.pending d

/-- The condition on a step. -/
def StepOk (w : OpWorld η) : OpAction η → Prop
  | .async d _ _ _ env => w.core.CallOk d env
  | _ => True

end OpWorld

/-! ## The interest -/

def EpollEvents.has (e : EpollEvents) : Dir → Bool
  | .read => e.inp
  | .write => e.out

namespace Core

/-- **Three copies of one fact**: the mask last given to `epoll_ctl`, the bits of `_type`
and the flags of `_state`. -/
def Synced (c : Core η) : Prop :=
  ∀ d, (c.interest.any (·.has d) = true ↔ c.flag d = true) ∧
    (c._type.has d = true ↔ c.flag d = true)

/-- A connected or accepted socket before its first call. After `AsyncAccept` and after
a blocking connect it is not bound, after `AsyncConnect` it is non-blocking and bound. -/
structure Idle (c : Core η) : Prop where
  fd : c._fd ≠ none
  flag : ∀ d, c.flag d = false
  type : c._type = .none
  oper : ∀ d, c.oper d = .clear
  block : c._state.block = true → c.interest = none
  bind : c._state.bind = true → c._epoll ≠ none

end Core

namespace OpWorld

/-- A socket before its first call. -/
def idle (c : Core η) : OpWorld η := ⟨c, none, fun _ => [], fun _ => []⟩

/-- The steps of a connected socket: the callers leave an operation alone until its
handler is called, and every `epoll_ctl` succeeds. -/
def Plain (w : OpWorld η) : OpAction η → Prop
  | .async d _ _ _ env => (w.core.oper d)._handler = none ∧ env.ctl = none
  | .lock _ ctl => ctl = none
  | .finish _ _ | .close | .doClose => True
  | _ => False

/-- A plain step that also finds a running service. -/
def Served (w : OpWorld η) : OpAction η → Prop
  | .async d data size hander env => w.Plain (.async d data size hander env) ∧ env.service ≠ none
  | a => w.Plain a

/-- `d` is being completed. -/
def Completing (w : OpWorld η) (d : Dir) : Prop := ∃ n e, w.completing = some (d, n, e)

/-- **No wake-up is lost and none is made up**: the three copies agree, a pending
operation that is not yet being completed has its bits in all of them, and the bits of
an operation that `_DoExecOp` would complete have the operation in its slot. -/
structure Awake (w : OpWorld η) : Prop where
  synced : w.core.Synced
  wakes : ∀ d, (w.core.oper d)._handler ≠ none → ¬ w.Completing d →
    w.core.interest.any (·.has d) = true ∧ w.core._type.has d = true
  posted : ∀ d, w.core.interest.any (·.has d) = true ∨ w.core._type.has d = true →
    (w.core.oper d)._impl = true ∧ (w.core.oper d)._handler ≠ none ∧ ¬ w.Completing d

end OpWorld

end Netlib
