import Netlib.Lib.Run
import Netlib.Spec.Epoll

/-!
# The loop of a service (`socket/epoll_access.hpp`, `coroutine/coroutine.hpp`)

`_DoRun` refills one array of events in every round and hands out pointers into it. A
handler may yield while `_DoExecOp` is between its read half and its write half; the loop
then goes on, and resumes it at the top of a later round. A dispatch is the coroutine of one
event. It reads the event through its pointer; `plainStep` is the same loop with the event
passed by value. What `E_FINISH_OP` and the runners' free list do is left out.
-/

namespace Netlib

variable {η : Type*}

/-- The bits of `events` that a dispatch looks at. -/
structure EpollMask where
  inp : Bool
  out : Bool
  err : Bool
  hup : Bool
  deriving DecidableEq

/-- `epoll_event_t`. Sets are numbered, and `none` is the null pointer. -/
structure EpollEvent where
  events : EpollMask
  ptr : Option ℕ
  deriving DecidableEq

namespace EpollEvent

/-- An entry after `g_bzero`. -/
def zero : EpollEvent := ⟨⟨false, false, false, false⟩, none⟩

def readable (e : EpollEvent) : Bool := e.events.inp || e.events.err || e.events.hup

def writable (e : EpollEvent) : Bool := e.events.out || e.events.err || e.events.hup

end EpollEvent

/-- The four operations of a set. -/
inductive OpKind
  | accept
  | connect
  | read
  | write
  deriving DecidableEq

/-- Where a dispatch stands: before its first test, in the handler of the read half, in
the handler of the last `Complete`. -/
inductive DispatchPc
  | start
  | read
  | last
  deriving DecidableEq

/-- A call of `_DoExecOp`: its set, the index of its event in the array, and that event as
`epoll_wait` reported it. -/
structure Dispatch where
  opset : ℕ
  slot : ℕ
  reported : EpollEvent
  pc : DispatchPc
  deriving DecidableEq

/-- The sockets, each by the number of its operation set, and the data pointer that epoll
has for its descriptor. -/
structure Sockets (η : Type*) where
  core : ℕ → Core η
  ptr : ℕ → Option ℕ

namespace Sockets

open Function (update)

variable (s : Sockets η)

def setCore (n : ℕ) (c : Core η) : Sockets η := { s with core := update s.core n c }

/-- `CtlEpoll` with `M_EPOLL_CTL_MOD` on the descriptor of `n`, with the pointer `p`. -/
def modEpoll (n p : ℕ) (events : EpollEvents) (ctl : Option ℕ) : Sockets η :=
  let (error, c) := (s.core n).ctlEpoll ⟨none, none, ctl⟩ .mod events
  let s := s.setCore n c
  if error = none then { s with ptr := update s.ptr n (some p) } else s

/-- `ReadOperation::Complete` of the set `n`, where the event has the pointer `p`. -/
def readComplete (n p : ℕ) (ctl : Option ℕ) : Sockets η :=
  let s :=
    if (s.core n)._fd = none then s
    else
      let s := s.setCore n ((s.core n).setFlag false .read)
      let s := s.setCore p ((s.core p).setType { (s.core p)._type with read := false })
      s.modEpoll n p ⟨false, (s.core p)._type.write, false⟩ ctl
  s.setCore n ((s.core n).setOper .clear .read)

/-- `WriteOperation::Complete`. -/
def writeComplete (n p : ℕ) (ctl : Option ℕ) : Sockets η :=
  let s := s.setCore p ((s.core p).setType { (s.core p)._type with write := false })
  let s :=
    if (s.core n)._fd = none then s
    else
      let s := s.setCore n ((s.core n).setFlag false .write)
      s.modEpoll n p ⟨(s.core p)._type.read, false, false⟩ ctl
  s.setCore n ((s.core n).setOper .clear .write)

/-- `ConnectOperation::Complete`. -/
def connectComplete (n p : ℕ) : Sockets η :=
  let s :=
    if (s.core n)._fd = none then s
    else s.setCore n { s.core n with _state := { (s.core n)._state with connect := false } }
  let s := s.setCore p ((s.core p).setType { (s.core p)._type with connect := false })
  s.setCore n { s.core n with _cop := .clear }

/-- `Complete(simpl, event)` of an operation of `n`. Only that of an accept does not use
the pointer, and no event with a null pointer is completed. -/
def complete (op : OpKind) (n : ℕ) (event : EpollEvent) (ctl : Option ℕ) : Sockets η :=
  match op, event.ptr with
  | .accept, _ => s.setCore n (s.core n).acceptComplete
  | _, none => s
  | .connect, some p => s.connectComplete n p
  | .read, some p => s.readComplete n p ctl
  | .write, some p => s.writeComplete n p ctl

end Sockets

/-- A `Complete` that was executed: for which dispatch, with which event, and the sockets
before and after. -/
structure Completed (η : Type*) where
  opset : ℕ
  reported : EpollEvent
  op : OpKind
  seen : EpollEvent
  before : Sockets η
  after : Sockets η

/-- A service: the sockets, the array, the events of the batch that are dispatched and
there, the running coroutine and those that have yielded, the `Complete`s so far. -/
structure IoRun (η : Type*) where
  socks : Sockets η
  events : ℕ → EpollEvent
  idx : ℕ
  ret : ℕ
  current : Option Dispatch
  yielded : List Dispatch
  completed : List (Completed η)

inductive IoAction (η : Type*)
  /-- `g_bzero` and `epoll_wait`, which reports the batch. -/
  | wait (batch : List (EpollMask × ℕ))
  /-- `_ExecOp` of the next event. -/
  | dispatch
  /-- The running dispatch goes on to the next handler or to its end. -/
  | exec (ctl : Option ℕ)
  | yield
  /-- `doThrResume`. -/
  | resume (k : ℕ)
  /-- What handlers and other threads do to a socket; `post` is a call of `CtlEpoll`. -/
  | socket (n : ℕ) (c : Core η) (post : Bool)

namespace IoRun

open Function (update)

/-- A service with any sockets; an event that epoll has for one of them has its own pointer. -/
def start (core : ℕ → Core η) : IoRun η where
  socks := ⟨core, some⟩
  events := fun _ => .zero
  idx := 0
  ret := 0
  current := none
  yielded := []
  completed := []

variable (w : IoRun η)

/-- `max_events`. -/
def maxEvents : ℕ := 128

/-- The array after `epoll_wait`. -/
def fill (batch : List (EpollMask × ℕ)) (i : ℕ) : EpollEvent :=
  match batch[i]? with
  | none => .zero
  | some (events, n) => ⟨events, some n⟩

/-- A `Complete` of the running dispatch, whose handler is called next. -/
def runComplete (d : Dispatch) (op : OpKind) (event : EpollEvent) (ctl : Option ℕ)
    (pc : DispatchPc) : IoRun η :=
  let socks := w.socks.complete op d.opset event ctl
  { w with
    socks := socks
    current := some { d with pc := pc }
    completed := w.completed ++ [⟨d.opset, d.reported, op, event, w.socks, socks⟩] }

/-- The write half of `_DoExecOp`. -/
def writeHalf (d : Dispatch) (event : EpollEvent) (ctl : Option ℕ) : IoRun η :=
  if (w.socks.core d.opset)._type.write && event.writable then w.runComplete d .write event ctl .last
  else { w with current := none }

/-- `_DoExecOp` up to the next handler, where `event` is what the pointer points to. -/
def doExecOp (d : Dispatch) (event : EpollEvent) (ctl : Option ℕ) : IoRun η :=
  match d.pc with
  | .start =>
    let type := (w.socks.core d.opset)._type
    if type.accept then w.runComplete d .accept event ctl .last
    else if type.connect then w.runComplete d .connect event ctl .last
    else if type.read && event.readable then w.runComplete d .read event ctl .read
    else w.writeHalf d event ctl
  | .read => w.writeHalf d event ctl
  | .last => { w with current := none }

/-- One step, where `event` gives the event that a dispatch sees. -/
def stepWith (event : IoRun η → Dispatch → EpollEvent) (w : IoRun η) :
    IoAction η → Option (IoRun η)
  | .wait batch =>
    if w.current = none ∧ w.idx = w.ret ∧ batch.length ≤ maxEvents then
      some { w with events := fill batch, idx := 0, ret := batch.length }
    else none
  | .dispatch =>
    if w.current = none ∧ w.idx < w.ret then
      match (w.events w.idx).ptr with
      | none => none
      | some n =>
        some { w with current := some ⟨n, w.idx, w.events w.idx, .start⟩, idx := w.idx + 1 }
    else none
  | .exec ctl =>
    match w.current with
    | none => none
    | some d => some (w.doExecOp d (event w d) ctl)
  | .yield =>
    match w.current with
    | none => none
    | some d =>
      -- only a handler yields
      if d.pc = .start then none
      else some { w with current := none, yielded := w.yielded ++ [d] }
  | .resume k =>
    if w.current = none ∧ w.idx = w.ret then
      match w.yielded[k]? with
      | none => none
      | some d => some { w with current := some d, yielded := w.yielded.eraseIdx k }
    else none
  | .socket n c post =>
    let socks := w.socks.setCore n c
    some { w with socks := if post then { socks with ptr := update socks.ptr n (some n) } else socks }

/-- **The loop of the source**: an event is looked up in the array. -/
def step : IoRun η → IoAction η → Option (IoRun η) := stepWith fun w d => w.events d.slot

/-- **The loop with events passed by value.** -/
def plainStep : IoRun η → IoAction η → Option (IoRun η) := stepWith fun _ d => d.reported

/-- **The condition on a step**: when a dispatch comes back from its read half to a set with
`E_WRITE_OP`, its entry of the array still holds the event that was reported for it, or
neither of the two asks for the write half. -/
def EventKept (w : IoRun η) : IoAction η → Prop
  | .exec _ => ∀ d, w.current = some d → d.pc = .read →
      (w.socks.core d.opset)._type.write = true →
      w.events d.slot = d.reported ∨
        (w.events d.slot).writable = false ∧ d.reported.writable = false
  | _ => True

/-- **A `Complete` on behalf of its set**: it sees what was reported for the set, and
changes only this set and its registration, which keeps its pointer. -/
structure OnBehalf (c : Completed η) : Prop where
  seen : c.seen = c.reported
  ptr : c.seen.ptr = some c.opset
  core : ∀ n, n ≠ c.opset → c.after.core n = c.before.core n
  reg : ∀ n, c.after.ptr n = c.before.ptr n ∨ n = c.opset ∧ c.after.ptr n = some c.opset

end IoRun

end Netlib
