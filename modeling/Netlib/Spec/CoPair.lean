import Netlib.Spec.Coroutine

/-!
# Coroutines on Windows (`co_win_impl.hpp`), and the two systems side by side

The Windows implementation runs each coroutine in a fiber. `resume` and `destroy` have the
text of the Linux ones; `initEnv`, `create` and `close` have their own guards, and a coroutine
always switches back to the fiber of the main context.
-/

namespace Netlib

/-- The schedule of a thread on Windows. `_ctx` says if the thread has been made a fiber: it is
the fiber of the main context, and there a coroutine switches back to. -/
structure WinSchedule where
  sched : Schedule
  _ctx : Bool

namespace WinSchedule

def start : WinSchedule := ⟨.start, false⟩

variable (w : WinSchedule)

/-- `initEnv`, `granted` being the answer of `ConvertThreadToFiberEx`. -/
def initEnv (granted : Bool) : WinSchedule :=
  if w._ctx then w
  else if !granted then w
  else
    ⟨{ w.sched with
        _curco := none
        _cap := DEFAULT_COROUTINE
        _co := some (List.replicate DEFAULT_COROUTINE none) }, true⟩

/-- `create`, `granted` being the answer of `CreateFiberEx`. There is no test of `_co`. -/
def create (granted : Bool) (routine data : ℕ) : Option (WinSchedule × ℤ) :=
  if granted then
    (w.sched._alloc_co_ routine data).map fun (s, id) => ({ w with sched := s }, (id : ℤ))
  else some (w, -1)

/-- `close`. The test for a running coroutine is about all of it. -/
def close : Option WinSchedule :=
  if w.sched._curco.isNone then
    (Schedule.freeAll ((w.sched._co.getD []).take w.sched._cap) w.sched).map fun s =>
      ⟨s.wipe, false⟩
  else some w

/-- `SwitchToFiber(schedule._ctx)` needs the fiber of the main context. -/
def yield : Option WinSchedule :=
  if w.sched._curco.isSome ∧ ¬ w._ctx then none
  else w.sched.yield.map fun s => { w with sched := s }

def finish : Option WinSchedule :=
  if w._ctx then w.sched.finish.map fun s => { w with sched := s } else none

/-- A call with what it returns. -/
def call : CoOp → Option (WinSchedule × ℤ)
  | .initEnv granted => some (w.initEnv granted, 0)
  | .create granted routine data => w.create granted routine data
  | .resume co_id => (w.sched.resume co_id).map fun s => ({ w with sched := s }, 0)
  | .yield => w.yield.map (·, 0)
  | .destroy co_id => (w.sched.destroy co_id).map fun s => ({ w with sched := s }, 0)
  | .curid => w.sched.curid.map (w, ·)
  | .close => w.close.map (·, 0)
  | .finish => w.finish.map (·, 0)

end WinSchedule

/-! ## The two side by side -/

/-- A thread on each system, with the pairs of ids that the calls have returned. -/
structure CoPair where
  linux : Schedule
  windows : WinSchedule
  ids : List (ℤ × ℤ)

namespace CoPair

/-- Both after a successful `initEnv`. -/
def start : CoPair := ⟨Schedule.start.initEnv, WinSchedule.start.initEnv true, []⟩

variable (p : CoPair)

/-- The same call on both. -/
def step (op : CoOp) : Option CoPair :=
  match p.linux.call op, p.windows.call op with
  | some (l, i), some (w, j) => some ⟨l, w, p.ids ++ [(i, j)]⟩
  | _, _ => none

/-- A routine ends inside its coroutine; every other call is issued anywhere. -/
def Issued (op : CoOp) : Prop := op = .finish → p.linux.cur ≠ none

/-- The two agree: on the ids returned, and on the schedule. -/
structure Agrees : Prop where
  ids : ∀ i j, (i, j) ∈ p.ids → i = j
  sched : p.windows.sched = p.linux

/-- The calls on which they agree: `close` while no coroutine is running, and a fiber granted to
a new schedule and, exactly when there is one, to a new coroutine. -/
def Meets : CoOp → Prop
  | .initEnv granted => p.linux._co = none → granted
  | .create granted _ _ => granted = p.linux._co.isSome
  | .close => p.linux._curco = none
  | .finish => p.linux.cur ≠ none
  | _ => True

end CoPair

end Netlib
