import Netlib.Spec.CoTask
import Netlib.Spec.CircularQueue

/-!
# The end of the tasks of a thread (`coroutine/coroutine.hpp`, `base/slist.hpp`)

When `CoRun` returns it calls `clrTask`, which frees the task objects of both lists, destroys
the coroutines of all wrappers and frees these, and empties the two queues of resumes; then it
closes the schedule. `clrTask` does not touch `gfreecovec`. `slist::clear` sets `_head` and
`_count` but not `_tail`, and `push_back` goes by `_tail`. The free ids, tasks and wrappers are in
svectors, which have room for `svectorRoom` of them.
-/

namespace Netlib

open Function (update)

/-- `intlist`: the values from `_head` on, and whether `_tail` points to a freed node. -/
structure IntList where
  nodes : List ℤ
  stale : Bool
  deriving DecidableEq

namespace IntList

def new : IntList := ⟨[], false⟩

variable (l : IntList)

/-- `push_back`, which writes to the node at `_tail`. -/
def push_back (t : ℤ) : Option IntList :=
  if l.stale then none else some { l with nodes := l.nodes ++ [t] }

/-- `clear`. -/
def clear : IntList := ⟨[], l.stale || !l.nodes.isEmpty⟩

end IntList

/-- A thread, with the number `ctid`: its task pool and the queues of resumes. `tmp` is what is
left in the local list of the call of `doThrResume` in progress. -/
structure TaskThread where
  pool : TaskPool
  ctid : ℕ
  gresumetaskque : CircularQueue ℤ
  _queue_map : ℕ → Option IntList
  tmp : Option (List ℤ)

/-- What the code of the user does next, in the main context or in a task. -/
inductive ThreadOp
  | task (op : TaskOp)
  | addResume (id : ℤ)
  | addThrResume (thrid : ℕ) (co_id : ℤ)
  | doResume
  | doThrResume

/-- What is seen of a step: what the call returns, `curid`, and the functions of the tasks called
so far with their arguments. -/
structure Seen where
  reply : Bool
  curid : Option ℤ
  called : List (ℕ × ℕ)
  deriving DecidableEq

namespace TaskThread

/-- A thread after `initEnv` that nothing has been asked of. -/
def start (ctid : ℕ) : TaskThread := ⟨.start, ctid, .new 1024, fun _ => none, none⟩

variable (w : TaskThread)

/-! ## The interface -/

/-- `Coroutine::resume`, and what the coroutine does then. -/
def resume (co_id : ℤ) : Option TaskThread :=
  (w.pool.resume co_id).map fun pool => { w with pool := pool.settle }

/-- `addResume(id)`. What `push_back` returns is not looked at. -/
def addResume (id : ℤ) : TaskThread :=
  { w with gresumetaskque := (w.gresumetaskque.push_back id).2 }

/-- `addResume(thrid, co_id)`, under the mutex. -/
def addThrResume (thrid : ℕ) (co_id : ℤ) : Option TaskThread :=
  (((w._queue_map thrid).getD .new).push_back co_id).map fun l =>
    { w with _queue_map := update w._queue_map thrid (some l) }

/-- `doResume`. -/
def doResume : Option TaskThread :=
  w.pool.co.curid.bind fun cur =>
    if cur = -1 then
      if w.gresumetaskque.empty then some w
      else
        match w.gresumetaskque.pop_front with
        | (none, _) => none
        | (some id, que) => { w with gresumetaskque := que }.resume id
    else some w

/-- The loop of `doThrResume` over `tmp`, up to where a coroutine runs. -/
def drain : List ℤ → TaskThread → Option TaskThread
  | [], w => some { w with tmp := none }
  | co_id :: tmp, w =>
    (w.resume co_id).bind fun w =>
      if w.pool.co.cur = none then drain tmp w else some { w with tmp := some tmp }

/-- `doThrResume`: `join` empties the list of the thread into the new list `tmp`. -/
def doThrResume : Option TaskThread :=
  w.pool.co.curid.bind fun cur =>
    if cur = -1 then
      match w._queue_map w.ctid with
      | some l => drain l.nodes { w with _queue_map := update w._queue_map w.ctid (some .new) }
      | none => drain [] w
    else some w

/-- In the main context the loop of a `doThrResume` in progress goes on. -/
def goOn : Option TaskThread :=
  match w.pool.co.cur, w.tmp with
  | none, some tmp => drain tmp w
  | _, _ => some w

/-- What is called, on svectors without end. -/
def act : ThreadOp → Option TaskThread
  | .task op => (w.pool.step op).bind fun pool => { w with pool := pool }.goOn
  | .addResume id => some (w.addResume id)
  | .addThrResume thrid co_id => w.addThrResume thrid co_id
  | .doResume => w.doResume
  | .doThrResume => w.doThrResume

/-- The svectors have room for what is on them, and `_cap` is an `int`. -/
def Fits : Prop :=
  w.pool.co.Fits ∧ w.pool.store.gfreetaskvec.length ≤ svectorRoom ∧
    w.pool.gfreecovec.length ≤ svectorRoom

instance : Decidable w.Fits := inferInstanceAs (Decidable (_ ∧ _ ∧ _))

/-- Undefined where an svector has been written past its end. Nothing is taken off one after
something has been pushed on it, between two points at which code of the user runs. -/
def within (r : Option TaskThread) : Option TaskThread :=
  r.bind fun w => if w.Fits then some w else none

/-- One step. -/
def step (op : ThreadOp) : Option TaskThread := within (w.act op)

/-! ## The end of `CoRun` -/

/-- `free` of the tasks in a list. -/
def freeTasks : List ℕ → (ℕ → Option CoTask) → Option (ℕ → Option CoTask)
  | [], tasks => some tasks
  | a :: l, tasks => (tasks a).bind fun _ => freeTasks l (update tasks a none)

/-- The loop over `gallcolist`. -/
def freeWrappers : List ℕ → TaskPool → Option TaskPool
  | [], w => some { w with gallcolist := [] }
  | x :: l, w =>
    (w.wrappers x).bind fun wr =>
      (w.co.destroy wr.co_id).bind fun co =>
        freeWrappers l { w with co := co, wrappers := update w.wrappers x none }

/-- `clrTask`. -/
def clrTask : Option TaskThread :=
  w.pool.co.curid.bind fun cur =>
    if cur = -1 then
      (freeTasks (w.pool.store.gfreetaskvec ++ w.pool.store.gworktasklist)
          w.pool.store.tasks).bind fun tasks =>
        let store := { w.pool.store with tasks := tasks, gfreetaskvec := [], gworktasklist := [] }
        within <| (freeWrappers w.pool.gallcolist { w.pool with store := store }).map fun pool =>
          { w with
            pool := pool
            gresumetaskque := w.gresumetaskque.clear
            _queue_map := update w._queue_map w.ctid ((w._queue_map w.ctid).map IntList.clear) }
    else some w

/-- `Coroutine::close`, after which no coroutine is anywhere. -/
def close : Option TaskThread :=
  w.pool.co.close.map fun co => { w with pool := { w.pool with co := co, pc := fun _ => .start } }

/-- `clrTask` and `close` at the end of `CoRun`, and the `initEnv` of the next one. -/
def reset : Option TaskThread :=
  w.clrTask.bind fun w => w.close.map fun w =>
    { w with pool := { w.pool with co := w.pool.co.initEnv } }

/-! ## What is asked of the end -/

/-- What a call returns; most return nothing. -/
def reply : ThreadOp → Bool
  | .task .doTask => w.pool.co.cur = none ∧ w.pool.store.gworktasklist ≠ []
  | .doResume => w.pool.co.cur = none ∧ ¬ w.gresumetaskque.empty
  | _ => false

/-- What is seen after a call that has returned `reply`. -/
def seen (reply : Bool) : Seen :=
  ⟨reply, w.pool.co.curid, w.pool.started.map fun t => (t.func, t.p)⟩

/-- What is seen of a run, `none` when a step is undefined. -/
def behaviour : List ThreadOp → Option (List Seen) :=
  Lib.trace step (fun w op w' => w'.seen (w.reply op)) w

/-- A thread after `initEnv` that has never run a task, in the memory of `w`: what is allocated
and freed there, and the tasks counted along. -/
def neverRan : TaskThread where
  pool := { w.pool with
    co := { Schedule.start with heap := w.pool.co.heap, fresh := w.pool.co.fresh }.initEnv
    store := { w.pool.store with gfreetaskvec := [], gworktasklist := [] }
    gfreecovec := []
    gallcolist := []
    pc := fun _ => .start
    frame := none }
  ctid := w.ctid
  gresumetaskque := .new 1024
  _queue_map := update w._queue_map w.ctid none
  tmp := none

/-- **The thread is really reset**: no list refers to a freed task or wrapper, no id is left in
the queues, and every run is seen as on a thread that has never run a task. -/
structure Clean : Prop where
  tasks : ∀ a ∈ w.pool.store.gfreetaskvec ++ w.pool.store.gworktasklist,
    w.pool.store.tasks a ≠ none
  wrappers : ∀ x ∈ w.pool.gfreecovec ++ w.pool.gallcolist, w.pool.wrappers x ≠ none
  ids : w.gresumetaskque.empty = true ∧ ∀ l, w._queue_map w.ctid = some l → l.nodes = []
  same : ∀ ops, w.behaviour ops = w.neverRan.behaviour ops

end TaskThread

end Netlib
