import Netlib.Spec.Registry

/-!
# Many sockets on many threads (`socket/epoll_access.hpp`, `socket/ioaccess.ipp`)

The threads of a service (`Registry`) and the sockets that are used on it (`OpWorld`) in one
system. A call that comes to `CtlEpoll` binds its socket to the thread that is next in turn. The
`epoll_wait` of this thread reports the socket, and its `_DoClose` closes it. Calls and closes come
from any thread.
-/

namespace Netlib

open Function (update)

namespace OpAction

/-- A call of the user. -/
def isCall : OpAction Unit → Bool
  | .async .. | .asyncConnect .. | .asyncAccept .. | .openFd .. => true
  | _ => false

/-- What `_DoExecOp` runs, up to the end of the lock of a `Complete`. -/
def isReport : OpAction Unit → Bool
  | .lock .. | .connectComplete | .acceptComplete => true
  | _ => false

/-- The call, with the service that is next in turn. -/
def withService (service : Option ℕ) : OpAction Unit → OpAction Unit
  | .async d data size hander env => .async d data size hander { env with service := service }
  | .asyncConnect valid connect handler env =>
    .asyncConnect valid connect handler { env with service := service }
  | .asyncAccept cli handler env => .asyncAccept cli handler { env with service := service }
  | a => a

end OpAction

/-- The service with its sockets. The cores in `reg` are those of `sock`. `worker` is the thread of
the `Complete` that has given up the lock. `bound` has each socket that was bound with the thread it
was bound to, `ran` the socket of each `Complete` and each close with the thread that did it. -/
structure ServiceWorld where
  reg : Registry
  sock : ℕ → OpWorld Unit
  worker : ℕ → Option ℕ
  bound : List (ℕ × ℕ)
  ran : List (ℕ × ℕ)

/-- A step; `report` and `finish` are a `Complete` on the thread `i`, `opens` is a descriptor that is
opened for something else. -/
inductive ServiceAction
  | opens (fd : ℕ)
  | enter (i fd : ℕ)
  | leave (i : ℕ)
  | closeHandler (i fd : ℕ)
  | erase (i : ℕ)
  | call (s : ℕ) (a : OpAction Unit)
  | report (i s : ℕ) (a : OpAction Unit)
  | finish (i s : ℕ) (ret : ℤ) (so : Option ℕ)
  | close (s : ℕ)
  | enqueue (s i : ℕ)
  | doClose (i : ℕ)

/-- The thread that `CtlEpoll` takes next. -/
def Registry.nextThread (r : Registry) : Option ℕ :=
  r._implvector[u32 (r._implidx + 1) % r._implvector.length]?

namespace ServiceWorld

/-- A service that no thread has run, where `opened` are the descriptor numbers in use. -/
def start (opened : List ℕ) : ServiceWorld :=
  ⟨.start opened, fun _ => .start, fun _ => none, [], []⟩

variable (w : ServiceWorld)

def setReg (r : Registry) : ServiceWorld := { w with reg := r }

def setSock (s : ℕ) (o : OpWorld Unit) : ServiceWorld :=
  { w with
    reg := { w.reg with socks := update w.reg.socks s o.core }
    sock := update w.sock s o }

/-- After a call: when it has bound the socket, `_implidx` has gone on. -/
def called (s : ℕ) (o : OpWorld Unit) : ServiceWorld :=
  if (w.sock s).core._epoll = none ∧ o.core._epoll ≠ none then
    { w.setSock s o with
      reg := { (w.setSock s o).reg with _implidx := u32 (w.reg._implidx + 1) }
      bound := w.bound ++ (w.reg.nextThread.map fun i => (s, i)).toList }
  else w.setSock s o

/-- `_DoExecOp` on the thread `i`. A `Complete` of a read or a write gives up the lock before it
calls the handler. -/
def report (i s : ℕ) (a : OpAction Unit) (o : OpWorld Unit) : ServiceWorld :=
  match a with
  | .lock .. => { w.setSock s o with worker := update w.worker s (some i) }
  | _ => { w.setSock s o with ran := w.ran ++ [(s, i)] }

/-- The rest of a `Complete` of a read or a write. -/
def finish (i s : ℕ) (o : OpWorld Unit) : ServiceWorld :=
  { w.setSock s o with
    worker := update w.worker s none
    ran := w.ran ++ [(s, i)] }

def step (w : ServiceWorld) : ServiceAction → Option ServiceWorld
  | .opens fd =>
    if fd ∉ w.reg.opened then some (w.setReg { w.reg with opened := fd :: w.reg.opened }) else none
  | .enter i fd => (w.reg.step (.createIoImpl i fd)).map w.setReg
  | .leave i => (w.reg.step (.leave i)).map w.setReg
  | .closeHandler i fd => (w.reg.step (.closeHandler i fd)).map w.setReg
  | .erase i => (w.reg.step (.erase i)).map w.setReg
  | .call s a =>
    if a.isCall then ((w.sock s).step (a.withService w.reg.nextService)).map (w.called s) else none
  | .report i s a =>
    if a.isReport ∧ w.reg.loop i = .looping ∧ (w.sock s).core._epoll = w.reg._handler i ∧
        (w.sock s).core.interest ≠ none then
      ((w.sock s).step a).map (w.report i s a)
    else none
  | .finish i s ret so =>
    if w.worker s = some i ∧ w.reg.loop i = .looping then
      ((w.sock s).step (.finish ret so)).map (w.finish i s)
    else none
  | .close s =>
    ((w.sock s).step .close).map fun o => { w with
      reg := w.reg.close s
      sock := update w.sock s o }
  | .enqueue s i => (w.reg.step (.enqueue s i)).map w.setReg
  | .doClose i =>
    match w.reg._closereqs i with
    | s :: _ =>
      (w.reg.step (.doClose i)).bind fun r =>
        ((w.sock s).step .doClose).map fun o => { w with
          reg := r
          sock := update w.sock s o
          ran := w.ran ++ [(s, i)] }
    | [] => none

/-- No thread leaves its loop. -/
def Stays (_ : ServiceWorld) : ServiceAction → Prop
  | .leave _ => False
  | _ => True

/-- No thread leaves its loop, and none comes after the first socket is bound. -/
def Settled (w : ServiceWorld) : ServiceAction → Prop
  | .leave _ => False
  | .enter _ _ => w.bound = []
  | _ => True

/-- How many sockets were bound to a thread. -/
def load (i : ℕ) : ℕ := (w.bound.map Prod.snd).count i

/-- **One socket, one thread.** -/
structure OneThread : Prop where
  /-- Every socket is a socket by itself. -/
  alone : ∀ s, Lib.Reach OpWorld.step Lib.always .start (w.sock s)
  /-- A socket is bound once. -/
  once : (w.bound.map Prod.fst).Nodup
  /-- Its completions and its closes are done by the thread it is bound to. -/
  ran : ∀ p ∈ w.ran, p ∈ w.bound
  same : ∀ s i j, (s, i) ∈ w.ran → (s, j) ∈ w.ran → i = j
  /-- So are those that are under way. -/
  working : ∀ s i, w.worker s = some i → (s, i) ∈ w.bound
  closing : ∀ i, ∀ s ∈ w.reg._closereqs i, (s, i) ∈ w.bound

/-- **The sockets are dealt out evenly.** -/
def Balanced : Prop :=
  ∀ i ∈ w.reg._implvector, ∀ j ∈ w.reg._implvector, w.load i ≤ w.load j + 1

end ServiceWorld

end Netlib
