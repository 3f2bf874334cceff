import Netlib.Spec.Epoll
import Netlib.Spec.Buffer
import Netlib.Lib.Run

/-!
# The threads of a service (`socket/ioaccess.ipp`, `socket/linux_epoll.hpp`)

A thread that runs a service brings its own `IoServiceImpl`, with an epoll descriptor for a
handler. The service keeps those that run in a vector, a counter, and a map from handlers,
by which `Close` finds the one a socket is bound to. `_ReleaseIoImpl` closes the handler and
makes a new one; the system may give its number out again.
-/

namespace Netlib

open Function (update)

/-- Where a thread is: outside `Run` and `CoRun`, in the loop of `_DoRun`, past it, in
`_ReleaseIoImpl` after `simpl->Close()`. -/
inductive Loop
  | outside
  | looping
  | left
  | releasing
  deriving DecidableEq

/-- A service with its threads and the sockets bound to it. The `IoServiceImpl` of a thread has
its number; `_handler` is `none` before it is made. `opened` are the descriptor numbers in use.
`inflight` are the calls of `Close` between their two steps, with the service found; `enqueued`
says for each request made where the thread was. `_fdcnt` and `_taskvec` are left out. -/
structure Registry where
  _handler : ℕ → Option ℕ
  loop : ℕ → Loop
  opened : List ℕ
  _implmap : ℕ → Option ℕ
  _implvector : List ℕ
  _implcnt : ℤ
  _implidx : ℕ
  socks : ℕ → Core Unit
  _closereqs : ℕ → List ℕ
  inflight : List (ℕ × ℕ)
  enqueued : List (ℕ × Loop)

/-- A step. `fd` is the number that `epoll_create` gives. -/
inductive RegistryAction
  | createIoImpl (i fd : ℕ)
  | leave (i : ℕ)
  | closeHandler (i fd : ℕ)
  | erase (i : ℕ)
  | ctlEpoll (impl : ℕ) (flag : EpollCtl) (events : EpollEvents) (ctl : Option ℕ)
  | op (impl : ℕ) (core : Core Unit)
  | close (impl : ℕ)
  | enqueue (impl i : ℕ)
  | doClose (i : ℕ)

namespace Registry

/-- A service that no thread has run. -/
def start (opened : List ℕ) : Registry :=
  ⟨fun _ => none, fun _ => .outside, opened, fun _ => none, [], 0, 0, fun _ => .init, fun _ => [],
    [], []⟩

variable (r : Registry)

/-- `GetServiceImpl`, which makes the `IoServiceImpl` of the thread at its first call. -/
def getServiceImpl (i fd : ℕ) : Registry :=
  if r._handler i = none then
    { r with _handler := update r._handler i (some fd), opened := fd :: r.opened }
  else r

/-- The registration in `_CreateIoImpl`. -/
def register (i h : ℕ) : Registry :=
  { r with
    _implmap := update r._implmap h (some i)
    _implvector := r._implvector ++ [i]
    _implcnt := r._implcnt + 1
    loop := update r.loop i .looping }

/-- `_CreateIoImpl`. A handler 0 is taken for none, and `Run` returns. -/
def _createIoImpl (i fd : ℕ) : Registry :=
  let r := r.getServiceImpl i fd
  match r._handler i with
  | some h => if h = 0 then r else r.register i h
  | none => r

/-- The first half of `_ReleaseIoImpl`: the queues are dropped, and `simpl->Close()`. -/
def closeHandler (i h fd : ℕ) : Registry :=
  { r with
    _closereqs := update r._closereqs i []
    opened := fd :: r.opened.erase h
    _handler := update r._handler i (some fd)
    loop := update r.loop i .releasing }

/-- The second half. -/
def erase (i : ℕ) : Registry :=
  { r with
    _implvector := r._implvector.erase i
    _implcnt := r._implcnt - 1
    loop := update r.loop i .outside }

/-- The handler of the next service, in turn. -/
def nextService : Option ℕ :=
  match r._implvector[u32 (r._implidx + 1) % r._implvector.length]? with
  | some i => r._handler i
  | none => none

/-- `CtlEpoll`. -/
def ctlEpoll (impl : ℕ) (flag : EpollCtl) (events : EpollEvents) (ctl : Option ℕ) : Registry :=
  let c := r.socks impl
  { r with
    socks := update r.socks impl (c.ctlEpoll ⟨none, r.nextService, ctl⟩ flag events).2
    _implidx := if flag = .add ∧ c._epoll = none ∧ r._implvector ≠ [] then u32 (r._implidx + 1)
      else r._implidx }

/-- `_GetIoServiceImpl`, by the handler. -/
def _getIoServiceImpl (c : Core Unit) : Option ℕ :=
  match c._epoll with
  | none => none
  | some h => if h = 0 then none else r._implmap h

/-- The first part of `Close`, under the locks of the socket and of the service. -/
def close (impl : ℕ) : Registry :=
  let c := r.socks impl
  if c._fd ≠ none ∧ c._state.close = false then
    { r with
      socks := update r.socks impl c.close
      inflight := match r._getIoServiceImpl c with
        | some i => r.inflight ++ [(impl, i)]
        | none => r.inflight }
  else r

/-- The second part, under the lock of the service found. -/
def enqueue (impl i : ℕ) : Registry :=
  { r with
    inflight := r.inflight.erase (impl, i)
    _closereqs := update r._closereqs i (r._closereqs i ++ [impl])
    enqueued := r.enqueued ++ [(i, r.loop i)] }

def step (r : Registry) : RegistryAction → Option Registry
  | .createIoImpl i fd =>
    if r.loop i = .outside ∧ fd ∉ r.opened then some (r._createIoImpl i fd) else none
  | .leave i =>
    if r.loop i = .looping then some { r with loop := update r.loop i .left } else none
  | .closeHandler i fd =>
    match r._handler i with
    | some h =>
      if r.loop i = .left ∧ fd ∉ r.opened.erase h then some (r.closeHandler i h fd) else none
    | none => none
  | .erase i => if r.loop i = .releasing then some (r.erase i) else none
  | .ctlEpoll impl flag events ctl => some (r.ctlEpoll impl flag events ctl)
  -- any other operation on a socket
  | .op impl core =>
    if core._epoll = (r.socks impl)._epoll then
      some { r with socks := update r.socks impl core }
    else none
  | .close impl => some (r.close impl)
  | .enqueue impl i => if (impl, i) ∈ r.inflight then some (r.enqueue impl i) else none
  -- `_DoClose`, for one request
  | .doClose i =>
    match r._closereqs i with
    | impl :: reqs =>
      if r.loop i = .looping then
        some { r with
          socks := update r.socks impl (r.socks impl).invalidate
          _closereqs := update r._closereqs i reqs }
      else none
    | [] => none

/-- **The map, the vector and the counter agree.** -/
structure Consistent : Prop where
  map : ∀ h i, r._implmap h = some i ↔ i ∈ r._implvector ∧ r._handler i = some h
  cnt : r._implcnt = r._implvector.length

/-- **The registry is right** outside `_ReleaseIoImpl`, and a request goes only to a service whose
loop is running. -/
structure Sound : Prop where
  consistent : (∀ i, r.loop i ≠ .releasing) → r.Consistent
  running : ∀ e ∈ r.enqueued, e.2 = .looping

/-- **The condition on a step**: no thread leaves its loop. -/
def Stays (_ : Registry) : RegistryAction → Prop
  | .leave _ => False
  | _ => True

end Registry

end Netlib
