import Netlib.Spec.Services
import Netlib.Spec.Dispatch

/-!
# Start and Stop (`netio/netio_impl.hpp`, `socket/epoll_access.hpp`)

`Start` makes the threads and waits until as many of them are in the service. `Stop` adds a
fresh socket to the epoll set of every thread that is in the service, with an operation set of the
type `E_FINISH_OP`, and joins the threads one after the other. A thread that `epoll_wait` reports such
a set to deletes it and leaves its loop after the batch. `Start` and `Stop` are called by one thread,
which is none of those.
-/

namespace Netlib

open Function (update)

/-- What the caller is doing: nothing, waiting in `Start`, or joining in `Stop`. -/
inductive Caller
  | idle
  | starting
  | joining
  deriving DecidableEq

/-- A `NetIo`. Threads have the numbers below `made`; `exited` says that `_Start` has
returned. `brk` is the variable of `_DoRun`. `finish` are the operation sets of `Stop` in the epoll
set of a thread, numbered in the order they are made, and `deleted` those that were deleted. -/
structure NetIoWorld where
  svc : ServiceWorld
  _threadlist : List ℕ
  made : ℕ
  exited : ℕ → Bool
  brk : ℕ → Bool
  caller : Caller
  finish : ℕ → List ℕ
  posted : ℕ
  deleted : List ℕ

/-- A step. `wait` is a call of `epoll_wait` that reports `fin` of the sets of `Stop` and `others`
other events, `fail` one that fails; `stop` has the sockets that are added, `none` for one that is
refused. -/
inductive NetIoAction
  | start (thread_cnt : ℕ)
  | started
  | stop (fds : List (Option ℕ))
  | join
  | stopped
  | enter (i fd : ℕ)
  | wait (i fin others : ℕ)
  | fail (i : ℕ)
  | leave (i : ℕ)
  | closeHandler (i fd : ℕ)
  | erase (i : ℕ)
  | svc (a : ServiceAction)

/-- One thread of it. -/
structure NetThread where
  loop : Loop
  handler : Option ℕ
  exited : Bool
  brk : Bool
  finish : List ℕ

namespace NetThread

/-- A thread that has not run. -/
def fresh : NetThread := ⟨.outside, none, false, false, []⟩

/-- The steps that a thread has to take before the caller is done with it. -/
def stage (t : NetThread) : Caller → ℕ
  | .idle => 0
  | .starting => if t.loop = .outside then 1 else 0
  | .joining =>
    if t.exited then 1
    else
      match t.loop with
      | .releasing => 2
      | .left => 3
      | .looping => if t.brk then 4 else 5
      | .outside => 6

end NetThread

/-- What is not done by a thread that comes or goes. -/
def ServiceAction.onSockets : ServiceAction → Bool
  | .enter .. | .leave .. | .closeHandler .. | .erase .. => false
  | _ => true

/-- What has nothing to do with `Start` and `Stop`. -/
def NetIoAction.isOther : NetIoAction → Bool
  | .wait _ fin _ => fin = 0
  | .svc _ => true
  | _ => false

namespace NetIoWorld

/-- A `NetIo` before `Start`. -/
def init (opened : List ℕ) : NetIoWorld where
  svc := .start opened
  _threadlist := []
  made := 0
  exited := fun _ => false
  brk := fun _ => false
  caller := .idle
  finish := fun _ => []
  posted := 0
  deleted := []

variable (w : NetIoWorld)

def setSvc (svc : ServiceWorld) : NetIoWorld := { w with svc := svc }

/-- `Start`, up to its `while`. -/
def start (thread_cnt : ℕ) : NetIoWorld :=
  if w._threadlist = [] then
    { w with
      _threadlist := List.range' w.made thread_cnt
      made := w.made + thread_cnt
      caller := .starting }
  else { w with caller := .starting }

/-- One round of the `for` of `Stop`. The socket is never closed. -/
def postFinish (i : ℕ) : Option ℕ → NetIoWorld
  | some fd => { w with
      svc := w.svc.setReg { w.svc.reg with opened := fd :: w.svc.reg.opened }
      finish := update w.finish i (w.finish i ++ [w.posted])
      posted := w.posted + 1 }
  | none => { w with
      posted := w.posted + 1
      deleted := w.deleted ++ [w.posted] }

/-- `Stop` of the service, for each of its threads. -/
def postAll : List ℕ → List (Option ℕ) → NetIoWorld → NetIoWorld
  | i :: is, fd :: fds, w => postAll is fds (w.postFinish i fd)
  | _, _, w => w

/-- `Stop`, up to its `while`. After an error no thread is joined. -/
def stop (fds : List (Option ℕ)) : NetIoWorld :=
  { postAll w.svc.reg._implvector fds w with caller := if none ∈ fds then .idle else .joining }

/-- What `_DoRun` does with the sets of `Stop` in a batch. -/
def wait (i fin : ℕ) : NetIoWorld :=
  { w with
    finish := update w.finish i ((w.finish i).drop fin)
    deleted := w.deleted ++ (w.finish i).take fin
    brk := update w.brk i (decide (0 < fin)) }

def step (w : NetIoWorld) : NetIoAction → Option NetIoWorld
  | .start thread_cnt => if w.caller = .idle then some (w.start thread_cnt) else none
  | .started =>
    if w.caller = .starting ∧ w.svc.reg._implcnt = w._threadlist.length then
      some { w with caller := .idle }
    else none
  | .stop fds =>
    if w.caller = .idle ∧ fds.length = w.svc.reg._implvector.length ∧ fds.reduceOption.Nodup ∧
        ∀ fd ∈ fds.reduceOption, fd ∉ w.svc.reg.opened then some (w.stop fds)
    else none
  | .join =>
    match w._threadlist with
    | i :: is =>
      if w.caller = .joining ∧ w.exited i then some { w with _threadlist := is } else none
    | [] => none
  | .stopped =>
    if w.caller = .joining ∧ w._threadlist = [] then some { w with caller := .idle } else none
  | .enter i fd =>
    if i < w.made ∧ w.exited i = false then
      (w.svc.step (.enter i fd)).map fun svc => { w with
        svc := svc
        -- `Run` returns when it is refused
        exited := update w.exited i (decide (svc.reg.loop i = .outside)) }
    else none
  | .wait i fin others =>
    if w.svc.reg.loop i = .looping ∧ w.brk i = false ∧ fin ≤ (w.finish i).length ∧
        fin + others ≤ IoRun.maxEvents ∧
        (fin = (w.finish i).length ∨ fin + others = IoRun.maxEvents) then some (w.wait i fin)
    else none
  | .fail i => if w.brk i = false then (w.svc.step (.leave i)).map w.setSvc else none
  | .leave i => if w.brk i then (w.svc.step (.leave i)).map w.setSvc else none
  -- the epoll set is closed with the operation sets in it
  | .closeHandler i fd =>
    (w.svc.step (.closeHandler i fd)).map fun svc => { w with
      svc := svc
      finish := update w.finish i [] }
  | .erase i =>
    (w.svc.step (.erase i)).map fun svc => { w with
      svc := svc
      exited := update w.exited i true }
  | .svc a => if a.onSockets then (w.svc.step a).map w.setSvc else none

/-- The system refuses nothing. -/
def NoFail (_ : NetIoWorld) : NetIoAction → Prop
  | .enter _ fd => fd ≠ 0
  | .fail _ => False
  | .stop fds => none ∉ fds
  | _ => True

def thread (i : ℕ) : NetThread :=
  ⟨w.svc.reg.loop i, w.svc.reg._handler i, w.exited i, w.brk i, w.finish i⟩

/-- The steps before `Start` or `Stop` returns. -/
def remaining : ℕ :=
  (w._threadlist.map fun i => (w.thread i).stage w.caller).sum + if w.caller = .idle then 0 else 1

end NetIoWorld

end Netlib
