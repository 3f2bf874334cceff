import Netlib.Spec.Epoll

/-!
# The close queues (`socket/ioaccess.ipp`)

`IoAccess::Close` asks the service of a socket to close it: it puts a request on the
queue of that service, whose thread runs `_DoClose`. A call has two steps, one under the
lock of the socket and one under that of the service; `_DoClose` goes from lock to lock.
Requests are nodes that go back to the service when they have been served.
-/

namespace Netlib

open Function (update)

variable {η : Type*}

/-- A call of `Close` that found the socket open: its number, the socket, whether it has
a handler, the block bit and the service found. -/
structure CloseCall where
  id : ℕ
  impl : ℕ
  handler : Bool
  block : Bool
  simpl : Option ℕ
  deriving DecidableEq

/-- Where the thread of a service is in `_DoClose`: outside, at the head of the loop,
after the close of the descriptor, after the handler. -/
inductive DoClosePc
  | idle
  | loop
  | closed
  | called
  deriving DecidableEq

/-- `IoServiceImpl` with the two lists of its thread. Lists hold pointers to nodes;
`node` is what they point to, `none` after `Clear`, and `fresh` the next to allocate. -/
structure CloseService where
  _closereqs : List ℕ
  _closereqs2 : List ℕ
  closereqs : List ℕ
  closereqs2 : List ℕ
  node : ℕ → Option CloseCall
  fresh : ℕ
  pc : DoClosePc

namespace CloseService

def new : CloseService := ⟨[], [], [], [], fun _ => none, 0, .idle⟩

variable (s : CloseService)

/-- `close->_handler = handler`, `close->_impl = impl`, `_closereqs.push_back(close)`. -/
def pushNode (p : ℕ) (e : CloseCall) : CloseService :=
  { s with node := update s.node p (some e), _closereqs := s._closereqs ++ [p] }

/-- The second part of `Close`: a node of `_closereqs2`, or a new one. -/
def push (e : CloseCall) : CloseService :=
  match s._closereqs2 with
  | p :: ps => { s with _closereqs2 := ps }.pushNode p e
  | [] => { s with fresh := s.fresh + 1 }.pushNode s.fresh e

/-- `closereqs.swap(_closereqs)`, when the queue is not empty. -/
def swap : CloseService :=
  if s._closereqs = [] then { s with pc := .loop }
  else { s with closereqs := s._closereqs, _closereqs := s.closereqs, pc := .loop }

/-- `cls->Clear()`, `closereqs2.push_back(cls)`, `closereqs.pop_front()`. -/
def recycle (p : ℕ) (ps : List ℕ) : CloseService :=
  { s with
    node := update s.node p none
    closereqs2 := s.closereqs2 ++ [p]
    closereqs := ps
    pc := .loop }

/-- `_closereqs2.join(closereqs2)`. -/
def join : CloseService :=
  { s with _closereqs2 := s._closereqs2 ++ s.closereqs2, closereqs2 := [], pc := .idle }

def setPc (pc : DoClosePc) : CloseService := { s with pc := pc }

end CloseService

/-- Sockets and services. `inflight` are the calls between their two steps; `effective`
those that found the socket open and not closing, `closed` those whose descriptor has
been closed, `handled` those that are past `if (cls->_handler) cls->_handler()`. -/
structure CloseWorld (η : Type*) where
  socks : ℕ → Core η
  _implmap : List ℕ
  svc : ℕ → CloseService
  inflight : List CloseCall
  calls : ℕ
  effective : List CloseCall
  closed : List CloseCall
  handled : List CloseCall

/-- A step: the two parts of `Close`, a step of `_DoClose` of a service, any other
operation on a socket, a new service. -/
inductive CloseAction (η : Type*)
  | close (impl : ℕ) (handler : Bool)
  | enqueue (e : CloseCall)
  | doClose (simpl : ℕ)
  | op (impl : ℕ) (core : Core η)
  | createIo (simpl : ℕ)

namespace CloseWorld

def start (socks : ℕ → Core η) (implmap : List ℕ) : CloseWorld η :=
  ⟨socks, implmap, fun _ => .new, [], 0, [], [], []⟩

variable (w : CloseWorld η)

/-- What the call `e` does to a socket that is open and not closing. -/
def accept (e : CloseCall) : CloseWorld η :=
  { w with
    socks := update w.socks e.impl (w.socks e.impl).close
    calls := w.calls + 1
    effective := w.effective ++ [e]
    closed := if e.block then w.closed ++ [e] else w.closed
    -- without a service the handler is forgotten
    inflight := if e.simpl = none then w.inflight else w.inflight ++ [e] }

/-- The first part of `Close`, under the lock of the socket. -/
def close (impl : ℕ) (handler : Bool) : CloseWorld η :=
  let c := w.socks impl
  if c._fd ≠ none ∧ c._state.close = false then
    w.accept ⟨w.calls, impl, handler, c._state.block, c._getIoServiceImpl w._implmap⟩
  else { w with calls := w.calls + 1 }

def setSvc (i : ℕ) (s : CloseService) : CloseWorld η := { w with svc := update w.svc i s }

/-- `g_closesocket` of a descriptor that is valid, for the request `e`. -/
def closesocket (e : CloseCall) : CloseWorld η :=
  { w with
    socks := update w.socks e.impl (w.socks e.impl).invalidate
    closed := if (w.socks e.impl)._fd = none then w.closed else w.closed ++ [e] }

/-- The next step of `_DoClose` for the service `i`. -/
def _doClose (i : ℕ) : Option (CloseWorld η) :=
  let s := w.svc i
  match s.pc, s.closereqs with
  | .idle, _ => some (w.setSvc i s.swap)
  | .loop, [] => some (w.setSvc i s.join)
  | .loop, p :: _ => (s.node p).map fun e => (w.closesocket e).setSvc i (s.setPc .closed)
  | .closed, p :: _ =>
    (s.node p).map fun e => { w with handled := w.handled ++ [e] }.setSvc i (s.setPc .called)
  | .called, p :: ps => some (w.setSvc i (s.recycle p ps))
  -- the list is not empty while a request is served
  | .closed, [] => none
  | .called, [] => none

def step (w : CloseWorld η) : CloseAction η → Option (CloseWorld η)
  | .close impl handler => some (w.close impl handler)
  | .enqueue e =>
    match e.simpl with
    | none => none
    | some i =>
      if e ∈ w.inflight then
        some ({ w with inflight := w.inflight.erase e }.setSvc i ((w.svc i).push e))
      else none
  | .doClose i => w._doClose i
  | .op impl core =>
    if core._fd = (w.socks impl)._fd ∧ core._state.close = (w.socks impl)._state.close then
      some { w with socks := update w.socks impl core }
    else none
  | .createIo i => some { w with _implmap := i :: w._implmap }

/-- Nothing is queued, and no thread is inside `Close` or `_DoClose`. -/
structure Drained : Prop where
  inflight : w.inflight = []
  queues : ∀ i, (w.svc i)._closereqs = [] ∧ (w.svc i).closereqs = [] ∧ (w.svc i).pc = .idle

/-- The handlers called. -/
def called : List CloseCall := w.handled.filter (·.handler)

/-- **No dropped or doubled close**: every effective call led to one close of its
descriptor and one call of its handler, and no other call led to any. -/
structure ExactlyOnce : Prop where
  closed : ∀ e ∈ w.effective, (w.closed.filter (·.impl = e.impl)).length = 1
  called : ∀ e ∈ w.effective, e.handler = true → (w.called.filter (·.id = e.id)).length = 1
  only : ∀ e, e ∈ w.closed ∨ e ∈ w.called → e ∈ w.effective

end CloseWorld

/-- **The condition on a call**: a service was found, or the socket was in blocking mode
and there was no handler. -/
def CloseCall.Ok (e : CloseCall) : Prop := e.simpl ≠ none ∨ e.block = true ∧ e.handler = false

end Netlib
