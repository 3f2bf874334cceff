import Netlib.Spec.Coroutine

/-!
# The task pool (`coroutine/coroutine.hpp`, `CoroutineTask`)

Tasks run in coroutines that are used again. A `co_task_wrapper` gets its task through a
pointer to the local variable `task` of the call of `doTask` that starts it; the loop of
`_co_task_func_` reads the pointer, runs the task, gives both objects back and yields.
A step goes from one point at which code of the user runs to the next: in the main context, or
inside a task. As in the schedule, `none` is undefined behaviour.
-/

namespace Netlib

open Function (update)
open Lib (Pool)

/-- `co_task`. `serial` is the number of its submission and `queued` says that this was by
`addTask`; they are no fields of the source. -/
structure CoTask where
  func : ℕ
  p : ℕ
  serial : ℕ
  queued : Bool
  deriving DecidableEq

/-- `co_task_wrapper`, `task` being the address of a local variable. -/
structure CoTaskWrapper where
  co_id : ℤ
  task : Option ℕ

/-- The local variable `task` of the call of `doTask` in progress. -/
structure TaskLocal where
  addr : ℕ
  task : Option ℕ

/-- Where a coroutine is in `_co_task_func_`: before its loop, in the call of the function of its
`task`, in the `yield` at the end of the loop. -/
inductive TaskPc
  | start
  | inTask (task : ℕ)
  | parked
  deriving DecidableEq

/-- The task objects by address, and the two lists of them. `submitted` and `returned` are, in
their order, the tasks handed in and those pushed on the free vector. -/
structure TaskStore where
  tasks : ℕ → Option CoTask
  ntask : ℕ
  gfreetaskvec : List ℕ
  gworktasklist : List ℕ
  submitted : List CoTask
  returned : List CoTask

/-- A thread with its schedule, its tasks and the wrappers. `pc` is by the id of the coroutine;
`started` are the tasks whose function has been called. -/
structure TaskPool where
  co : Schedule
  store : TaskStore
  wrappers : ℕ → Option CoTaskWrapper
  nwrapper : ℕ
  gfreecovec : List ℕ
  gallcolist : List ℕ
  pc : ℕ → TaskPc
  frame : Option TaskLocal
  nframe : ℕ
  started : List CoTask

/-- What the code of the user does next: `taskYield` and `taskReturn` inside a task. -/
inductive TaskOp
  | addTask (func p : ℕ)
  | doTask
  | doTaskOf (func p : ℕ)
  | resume (co_id : ℤ)
  | taskYield
  | taskReturn

namespace TaskStore

variable (s : TaskStore)

/-- A task object, from the free vector or new, with `func` and `p`. -/
def newTask (func p : ℕ) (queued : Bool) : Option (TaskStore × ℕ) :=
  let t : CoTask := ⟨func, p, s.submitted.length, queued⟩
  match s.gfreetaskvec with
  | a :: rest =>
    (s.tasks a).map fun _ =>
      ({ s with
          gfreetaskvec := rest
          tasks := update s.tasks a (some t)
          submitted := s.submitted ++ [t] }, a)
  | [] =>
    some ({ s with
        tasks := update s.tasks s.ntask (some t)
        ntask := s.ntask + 1
        submitted := s.submitted ++ [t] }, s.ntask)

/-- `tl.push_back(task)`. -/
def pushFree (a : ℕ) : Option TaskStore :=
  (s.tasks a).map fun t =>
    { s with gfreetaskvec := a :: s.gfreetaskvec, returned := s.returned ++ [t] }

/-- The tasks that wait in the work list. -/
def waiting : List CoTask := s.gworktasklist.filterMap s.tasks

end TaskStore

namespace TaskPool

/-- After `initEnv`. -/
def start : TaskPool :=
  ⟨Schedule.start.initEnv, ⟨fun _ => none, 0, [], [], [], []⟩, fun _ => none, 0, [], [],
    fun _ => .start, none, 0, []⟩

variable (w : TaskPool)

/-- The address of `_co_task_func_`. -/
def _co_task_func_ : ℕ := 1

/-- The end of the loop of `_co_task_func_`. -/
def park (i wrapper : ℕ) : Option TaskPool :=
  w.co.yield.map fun co =>
    { w with co := co, gfreecovec := wrapper :: w.gfreecovec, pc := update w.pc i .parked }

/-- `*(wrapper->task)`, where the variable is still there. -/
def readLocal (addr : ℕ) : Option (Option ℕ) :=
  match w.frame with
  | none => none
  | some l => if l.addr = addr then some l.task else none

/-- The loop of `_co_task_func_` from its test to the call of the function. -/
def loop (i wrapper : ℕ) : Option TaskPool :=
  (w.wrappers wrapper).bind fun wr =>
    match wr.task with
    | none =>
      w.co.finish.map fun co => { w with co := co, wrappers := update w.wrappers wrapper none }
    | some addr =>
      (w.readLocal addr).bind fun
        | none => w.park i wrapper
        | some a =>
          (w.store.tasks a).map fun t =>
            { w with pc := update w.pc i (.inTask a), started := w.started ++ [t] }

/-- The coroutine that has been switched to goes on. -/
def enter : Option TaskPool :=
  w.co._curco.bind fun co =>
    (w.co.heap co).bind fun c =>
      match w.pc c._id with
      | .inTask _ => some w
      | _ => w.loop c._id c._data

/-- `Coroutine::resume`, and what the coroutine does then. -/
def resume (co_id : ℤ) : Option TaskPool :=
  (w.co.resume co_id).bind fun co =>
    if co.cur = w.co.cur then some { w with co := co } else { w with co := co }.enter

/-- `_get_co_task_wrapper`. -/
def _get_co_task_wrapper : Option (TaskPool × ℕ) :=
  match w.gfreecovec with
  | wrapper :: rest =>
    (w.wrappers wrapper).map fun wr =>
      ({ w with
          gfreecovec := rest
          wrappers := update w.wrappers wrapper (some { wr with task := none }) }, wrapper)
  | [] =>
    (w.co.create _co_task_func_ w.nwrapper).map fun (co, co_id) =>
      ({ w with
          co := co
          wrappers := update w.wrappers w.nwrapper (some ⟨co_id, none⟩)
          nwrapper := w.nwrapper + 1
          gallcolist := w.gallcolist ++ [w.nwrapper]
          pc := if co_id < 0 then w.pc else update w.pc co_id.toNat .start }, w.nwrapper)

/-- `wrapper->task = &task`. -/
def setLocal (wrapper : ℕ) (task : Option ℕ) : Option TaskPool :=
  (w.wrappers wrapper).map fun wr =>
    { w with
      wrappers := update w.wrappers wrapper (some { wr with task := some w.nframe })
      frame := some ⟨w.nframe, task⟩
      nframe := w.nframe + 1 }

/-- The end of both forms of `doTask`. -/
def launch (task : Option ℕ) : Option TaskPool :=
  w._get_co_task_wrapper.bind fun (w, wrapper) =>
    (w.setLocal wrapper task).bind fun w =>
      (w.wrappers wrapper).bind fun wr => w.resume wr.co_id

/-- `addTask`. -/
def addTask (func p : ℕ) : Option TaskPool :=
  (w.store.newTask func p true).map fun (s, a) =>
    { w with store := { s with gworktasklist := s.gworktasklist ++ [a] } }

/-- `doTask()`, with `_get_task`. -/
def doTask : Option TaskPool :=
  w.co.curid.bind fun cur =>
    if cur = -1 then
      match w.store.gworktasklist with
      | [] => some w
      | a :: rest => { w with store := { w.store with gworktasklist := rest } }.launch (some a)
    else some w

/-- `doTask(func, p)`. -/
def doTaskOf (func p : ℕ) : Option TaskPool :=
  w.co.curid.bind fun cur =>
    if cur = -1 then
      (w.store.newTask func p false).bind fun (s, a) => { w with store := s }.launch (some a)
    else some w

/-- A task yields. -/
def taskYield : Option TaskPool := w.co.yield.map fun co => { w with co := co }

/-- The function of a task returns. -/
def taskReturn : Option TaskPool :=
  w.co._curco.bind fun co =>
    (w.co.heap co).bind fun c =>
      match w.pc c._id with
      | .inTask a =>
        (w.store.pushFree a).bind fun s => { w with store := s }.park c._id c._data
      | _ => none

/-- In the main context a call of `doTask` has returned, and its local variable is gone. -/
def settle : TaskPool := if w.co.cur = none then { w with frame := none } else w

/-- One step. -/
def step (op : TaskOp) : Option TaskPool :=
  Option.map settle <|
    match op with
    | .addTask func p => w.addTask func p
    | .doTask => w.doTask
    | .doTaskOf func p => w.doTaskOf func p
    | .resume co_id => w.resume co_id
    | .taskYield => w.taskYield
    | .taskReturn => w.taskReturn

/-- A coroutine that is inside a task. -/
def inside (i : ℕ) : Prop :=
  match w.pc i with
  | .inTask _ => True
  | _ => False

/-- Resumed are only coroutines inside a task, and only a task yields or returns. -/
def Issued : TaskOp → Prop
  | .resume co_id => 0 ≤ co_id ∧ w.inside co_id.toNat
  | .taskYield | .taskReturn => w.co.cur ≠ none
  | _ => True

/-- The coroutine `i` holds the task `t`: it has called its function, which has not returned. -/
def Holds (i : ℕ) (t : CoTask) : Prop :=
  ∃ a, w.pc i = .inTask a ∧ w.store.tasks a = some t

/-- What is asked of the pool. Each task is started once or waits, those of `addTask` in order;
a started one has been given back once or is held by one coroutine, alone. A wrapper is free
exactly when its coroutine is parked. A task object is in one place. Each step is defined, and
`doTask()` in the main context starts the first task that waits. -/
structure Sound : Prop where
  distinct : w.store.submitted.Nodup
  once : (w.started ++ w.store.waiting).Perm w.store.submitted
  fifo : w.started.filter (·.queued) ++ w.store.waiting = w.store.submitted.filter (·.queued)
  finished : ∀ t ∈ w.started, t ∈ w.store.returned ∨
    ∃ i, w.Holds i t ∧
      (w.co.statusAt i = some .running ∨ w.co.statusAt i = some .suspend)
  apart : ∀ i j t, w.Holds i t → w.Holds j t → i = j
  alone : ∀ i t u, w.Holds i t → w.Holds i u → t = u
  wrappersOnce : w.gfreecovec.Nodup
  wrappersFree : ∀ wrapper, wrapper ∈ w.gfreecovec ↔
    ∃ wr i, w.wrappers wrapper = some wr ∧ wr.co_id = (i : ℕ) ∧ w.pc i = .parked ∧
      w.co.statusAt i = some .suspend
  returnedOnce : w.store.returned.Nodup
  returnedDone : ∀ t ∈ w.store.returned, t ∈ w.started ∧ ∀ i, ¬ w.Holds i t
  objectsOnce : (w.store.gfreetaskvec ++ w.store.gworktasklist).Nodup
  objectsHeld : ∀ i a, w.pc i = .inTask a →
    a ∉ w.store.gfreetaskvec ∧ a ∉ w.store.gworktasklist
  defined : ∀ op, w.Issued op → (w.step op).isSome
  progress : ∀ t rest w', w.co.cur = none → w.store.waiting = t :: rest →
    w.step .doTask = some w' → w'.started = w.started ++ [t] ∧ w'.store.waiting = rest

end TaskPool

end Netlib
