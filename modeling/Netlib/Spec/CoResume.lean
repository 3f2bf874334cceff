import Netlib.Spec.Coroutine
import Netlib.Spec.CircularQueue

/-!
# Requests to resume a coroutine (`coroutine/coroutine.hpp`, `CoroutineTask`)

A thread resumes coroutines from two queues: a ring of its own, filled by `addResume(id)`, and
its list in `_queue_map`, filled by `addResume(thr, id)` from any thread under a mutex.
`doThrResume` takes the whole list into the local `tmp` and resumes one after the other; while a
coroutine runs, the loop waits in `resume`. An id that is given back has to find room in
`_freeid`.
-/

namespace Netlib

open Function (update)

/-- A thread, with the number `ctid`. `tmp` is what is left in the local list of the call of
`doThrResume` in progress. The other fields are counted along: the ids asked for and those
passed to `Coroutine::resume` by each way, the calls of `doResume` and `doThrResume` in the
main context, and those of the latter that have returned. -/
structure ResumeWorld where
  co : Schedule
  ctid : ℕ
  gresumetaskque : CircularQueue ℤ
  _queue_map : ℕ → Option (List ℤ)
  tmp : Option (List ℤ)
  asked : List ℤ
  passed : List ℤ
  calls : ℕ
  thrAsked : ℕ → List ℤ
  thrPassed : List ℤ
  thrCalls : ℕ
  thrDone : ℕ

/-- A step: a request, by the thread or by any one, a call of `doResume` or `doThrResume`, and
every other call of the interface by the context that runs. -/
inductive ResumeOp
  | addResume (id : ℤ)
  | addThrResume (thrid : ℕ) (co_id : ℤ)
  | doResume
  | doThrResume
  | co (op : CoOp)

namespace ResumeWorld

/-- A thread that nothing has been asked of. -/
def start (ctid : ℕ) : ResumeWorld :=
  ⟨.start, ctid, .new 1024, fun _ => none, none, [], [], 0, fun _ => [], [], 0, 0⟩

variable (w : ResumeWorld)

/-- `addResume(id)`. What `push_back` returns is not looked at. -/
def addResume (id : ℤ) : ResumeWorld :=
  { w with
    gresumetaskque := (w.gresumetaskque.push_back id).2
    asked := w.asked ++ [id] }

/-- `addResume(thrid, co_id)`, under the mutex. -/
def addThrResume (thrid : ℕ) (co_id : ℤ) : ResumeWorld :=
  { w with
    _queue_map := update w._queue_map thrid <|
      match w._queue_map thrid with
      | some l => some (l ++ [co_id])
      | none => some [co_id]
    thrAsked := update w.thrAsked thrid (w.thrAsked thrid ++ [co_id]) }

/-- `doResume`. -/
def doResume : Option ResumeWorld :=
  w.co.curid.bind fun cur =>
    if cur = -1 then
      if w.gresumetaskque.empty then some { w with calls := w.calls + 1 }
      else
        match w.gresumetaskque.pop_front with
        | (none, _) => none
        | (some id, que) =>
          (w.co.resume id).map fun co =>
            { w with
              co := co
              gresumetaskque := que
              passed := w.passed ++ [id]
              calls := w.calls + 1 }
    else some w

/-- The loop of `doThrResume` over `tmp`, up to where a coroutine runs. -/
def drain : List ℤ → ResumeWorld → Option ResumeWorld
  | [], w => some { w with tmp := none, thrDone := w.thrDone + 1 }
  | co_id :: tmp, w =>
    (w.co.resume co_id).bind fun co =>
      let w' := { w with co := co, thrPassed := w.thrPassed ++ [co_id] }
      if co.cur = w.co.cur then drain tmp w' else some { w' with tmp := some tmp }

/-- `doThrResume`: `join` empties the list of the thread into the new list `tmp`. -/
def doThrResume : Option ResumeWorld :=
  w.co.curid.bind fun cur =>
    if cur = -1 then
      let w := { w with thrCalls := w.thrCalls + 1 }
      match w._queue_map w.ctid with
      | some l =>
        drain l { w with tmp := some l, _queue_map := update w._queue_map w.ctid (some []) }
      | none => drain [] { w with tmp := some [] }
    else some w

/-- A call of the coroutine interface. When it switches back to a `doThrResume` in progress, the
loop goes on. -/
def callCo (op : CoOp) : Option ResumeWorld :=
  (Schedule.within (w.co.step op)).bind fun co =>
    match co.cur, w.tmp with
    | none, some tmp => drain tmp { w with co := co }
    | _, _ => some { w with co := co }

/-- One step. -/
def step : ResumeOp → Option ResumeWorld
  | .addResume id => some (w.addResume id)
  | .addThrResume thrid co_id => some (w.addThrResume thrid co_id)
  | .doResume => w.doResume
  | .doThrResume => w.doThrResume
  | .co op => w.callCo op

/-- Where a step is made: the calls of the coroutine interface as there. -/
def Issued : ResumeOp → Prop
  | .co op => w.co.Issued op
  | _ => True

/-- **The condition on a step**: `addResume(id)` finds room in the ring, and an id that is given
back in `_freeid`. -/
def Meets : ResumeOp → Prop
  | .addResume _ => ¬ w.gresumetaskque.full
  | .co op => w.co.Issued op ∧ w.co.Roomy op
  | _ => True

/-- From `w` to a later `w'`: nothing is passed on that has not been asked for, or out of order,
or twice; and what had been asked for by `w` has been passed on once `doResume` has been called
often enough since, or a `doThrResume` called since has returned. -/
structure Served (w w' : ResumeWorld) : Prop where
  order : w'.passed <+: w'.asked
  thrOrder : w'.thrPassed <+: w'.thrAsked w'.ctid
  all : w.asked.length ≤ w.passed.length + (w'.calls - w.calls) → w.asked <+: w'.passed
  thrAll : w.thrCalls < w'.thrDone → w.thrAsked w.ctid <+: w'.thrPassed

end ResumeWorld

end Netlib
