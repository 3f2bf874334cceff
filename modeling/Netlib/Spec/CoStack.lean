import Netlib.Spec.Buffer
import Netlib.Spec.Coroutine
import Netlib.Lib.Refine

/-!
# The stacks of the coroutines (`coroutine/coroutine.hpp`, `co_linux_impl.hpp`)

All coroutines of a thread run on one stack, `_schedule_::_stack`: `yield` copies the part in
use to the heap (`save_stack`), and `resume` copies it back. With `_pri_stack` each coroutine
runs on an allocation of its own. A cell of a stack is named by its depth, 0 at the top. The
abstract machine `OwnStacks` gives each coroutine a memory that nobody else touches, in which
a `yield` keeps what is above the frame of `save_stack`. A free id has to find room in `_freeid`,
and the size of a stack, `_cap`, is an `int`.
-/

namespace Netlib

open Function (update)

/-- `M_COROUTINE_STACK_SIZE`. -/
def M_COROUTINE_STACK_SIZE : ℕ := 4 * 1024 * 1024

/-- The part of `_coroutine_` that `Coroutine` leaves out; the allocation is empty where `_stack` is
null. -/
structure CoStack where
  _stack : List Byte
  _size : ℕ
  _cap : ℕ

/-- A call of the interface, or an access of the running routine to the cell at a depth of its
stack. `depth` is how far `dummy` of `save_stack` is from the top. -/
inductive StackOp
  | initEnv (stack_size : ℕ) (pri_stack : Bool)
  | create (routine data : ℕ)
  | resume (co_id : ℤ)
  | yield (depth : ℕ)
  | destroy (co_id : ℤ)
  | close
  | finish
  | store (depth : ℕ) (b : Byte)
  | load (depth : ℕ)

/-- The call of the schedule that it comes to; an access leaves the schedule alone, as `curid`
does. -/
def StackOp.coOp : StackOp → CoOp
  | initEnv _ _ => .initEnv true
  | create routine data => .create true routine data
  | resume co_id => .resume co_id
  | yield _ => .yield
  | destroy co_id => .destroy co_id
  | close => .close
  | finish => .finish
  | store _ _ | load _ => .curid

/-- The schedule with `_stack`, and the stacks of the coroutines by address. -/
structure StackSchedule where
  sched : Schedule
  _pri_stack : Bool
  gpristacksize : ℕ
  _stack : ℕ → Byte
  costacks : ℕ → CoStack

/-- `memcpy(mem + i, src, size)`. -/
def copyTo (mem : ℕ → Byte) (i : ℕ) (src : List Byte) : ℕ → Byte := fun k =>
  if i ≤ k then src[k - i]?.getD (mem k) else mem k

/-- The `n` bytes from `mem + i` on. -/
def copyFrom (mem : ℕ → Byte) (i n : ℕ) : List Byte := (List.range n).map fun k => mem (i + k)

namespace StackSchedule

/-- The constructor. -/
def start : StackSchedule := ⟨.start, false, 0, fun _ => 0, fun _ => ⟨[], 0, 0⟩⟩

variable (w : StackSchedule)

def initEnv (stack_size : ℕ) (pri_stack : Bool) : StackSchedule :=
  match w.sched._co with
  | some _ => w
  | none =>
    { w with sched := w.sched.initEnv, _pri_stack := pri_stack, gpristacksize := stack_size }

/-- The stack that the context gets. `_cap = gpristacksize` is an `int`, and a negative one is no
size for `malloc`. -/
def newStack : Option CoStack :=
  if w._pri_stack then
    if w.gpristacksize < 2 ^ 31 then some ⟨malloc w.gpristacksize, 0, w.gpristacksize⟩ else none
  else some ⟨[], 0, 0⟩

def create (routine data : ℕ) : Option (StackSchedule × ℤ) :=
  match w.sched._co with
  | none => some (w, -1)
  | some _ =>
    let co := w.sched.fresh
    w.newStack.bind fun stack =>
      (w.sched.create routine data).map fun (sched, id) =>
        ({ w with sched := sched, costacks := update w.costacks co stack }, id)

/-- The `memcpy` of `resume`. -/
def restore (co : ℕ) : Option StackSchedule :=
  let c := w.costacks co
  if c._size ≤ c._stack.length ∧ c._size ≤ M_COROUTINE_STACK_SIZE then
    some { w with
      _stack := copyTo w._stack (M_COROUTINE_STACK_SIZE - c._size) (c._stack.take c._size) }
  else none

/-- What `resume` does before it switches. -/
def resumeStack (co_id : ℤ) : Option StackSchedule :=
  if w.sched._curco.isSome then some w
  else if co_id < 0 ∨ co_id ≥ w.sched._cap then some w
  else
    (w.sched.entry co_id.toNat).bind fun
      | none => some w
      | some co =>
        (w.sched.heap co).bind fun c =>
          if c._status = .suspend ∧ w._pri_stack = false then w.restore co else some w

def resume (co_id : ℤ) : Option StackSchedule :=
  (w.resumeStack co_id).bind fun w => (w.sched.resume co_id).map fun sched => { w with sched := sched }

/-- `save_stack(co, schedule._stack + M_COROUTINE_STACK_SIZE)`. -/
def save_stack (co depth : ℕ) : Option StackSchedule :=
  -- the assertion
  if depth ≤ M_COROUTINE_STACK_SIZE then
    let c := { w.costacks co with _size := depth }
    let c := if c._cap < depth then { c with _cap := depth, _stack := malloc depth } else c
    if depth ≤ c._stack.length then
      let used := copyFrom w._stack (M_COROUTINE_STACK_SIZE - depth) depth
      some { w with costacks := update w.costacks co { c with _stack := memcpy c._stack 0 used } }
    else none
  else none

def yield (depth : ℕ) : Option StackSchedule :=
  match w.sched._curco with
  | none => some w
  | some co =>
    (if w._pri_stack then some w else w.save_stack co depth).bind fun w =>
      w.sched.yield.map fun sched => { w with sched := sched }

/-- A call that leaves the stacks alone. -/
def only (r : Option Schedule) : Option StackSchedule := r.map fun sched => { w with sched := sched }

def close : Option StackSchedule :=
  w.sched.close.map fun sched => { w with sched := sched, _pri_stack := false }

/-- The cell at a depth of the stack on which the coroutine `co` runs. -/
def load (co depth : ℕ) : Option Byte :=
  if w._pri_stack then
    if depth < (w.costacks co)._cap then (w.costacks co)._stack[(w.costacks co)._cap - 1 - depth]? else none
  else if depth < M_COROUTINE_STACK_SIZE then some (w._stack (M_COROUTINE_STACK_SIZE - 1 - depth))
  else none

def store (co depth : ℕ) (b : Byte) : Option StackSchedule :=
  if w._pri_stack then
    let c := w.costacks co
    if depth < c._cap then
      some { w with
        costacks := update w.costacks co { c with _stack := c._stack.set (c._cap - 1 - depth) b } }
    else none
  else if depth < M_COROUTINE_STACK_SIZE then
    some { w with _stack := update w._stack (M_COROUTINE_STACK_SIZE - 1 - depth) b }
  else none

/-- What is called, on a `_freeid` without end, with its answer: the id, the byte loaded, or 0. -/
def act (w : StackSchedule) : StackOp → Option (ℤ × StackSchedule)
  | .initEnv stack_size pri_stack => some (0, w.initEnv stack_size pri_stack)
  | .create routine data => (w.create routine data).map Prod.swap
  | .resume co_id => (w.resume co_id).map (0, ·)
  | .yield depth => (w.yield depth).map (0, ·)
  | .destroy co_id => (w.only (w.sched.destroy co_id)).map (0, ·)
  | .close => w.close.map (0, ·)
  | .finish => (w.only w.sched.finish).map (0, ·)
  | .store depth b => w.sched.cur.bind fun co => (w.store co depth b).map (0, ·)
  | .load depth => w.sched.cur.bind fun co => (w.load co depth).map fun b => ((b.toNat : ℤ), w)

/-- A call with its answer, undefined where the schedule does not fit. -/
def call (op : StackOp) : Option (ℤ × StackSchedule) :=
  (w.act op).bind fun r => if r.2.sched.Fits then some r else none

end StackSchedule

/-! ## One memory for each coroutine -/

/-- **The abstract machine**: the schedule, and a memory for each coroutine, by its address. `limit`
is the size of a stack. -/
structure OwnStacks where
  sched : Schedule
  limit : ℕ
  mem : ℕ → ℕ → Option Byte

namespace OwnStacks

def start : OwnStacks := ⟨.start, 0, fun _ _ => none⟩

variable (m : OwnStacks)

def only (r : Option Schedule) : Option (ℤ × OwnStacks) := r.map fun sched => (0, { m with sched := sched })

/-- What a call does, with its answer. A coroutine is allowed when the size of its stack is an `int`,
an access within the stack, and a load where the routine has stored since the frame was entered. The
frames below `dummy` are gone after a `yield`. -/
def act (m : OwnStacks) : StackOp → Option (ℤ × OwnStacks)
  | .initEnv stack_size pri_stack =>
    if m.sched.cur = none then
      some (0, match m.sched._co with
        | some _ => m
        | none =>
          { m with
            sched := m.sched.initEnv
            limit := if pri_stack then stack_size else M_COROUTINE_STACK_SIZE })
    else none
  | .create routine data =>
    if m.sched._co ≠ none → m.limit < 2 ^ 31 then
      (m.sched.create routine data).map fun (sched, id) =>
        (id, { m with sched := sched, mem := update m.mem m.sched.fresh fun _ => none })
    else none
  | .resume co_id => m.only (m.sched.resume co_id)
  | .yield depth =>
    match m.sched.cur with
    | none => some (0, m)
    | some co =>
      if 0 < depth ∧ depth ≤ m.limit then
        { m with mem := update m.mem co fun k => if k < depth then m.mem co k else none }.only
          m.sched.yield
      else none
  | .destroy co_id => m.only (m.sched.destroy co_id)
  | .close => if m.sched.cur = none then m.only m.sched.close else none
  | .finish => if m.sched.cur = none then none else m.only m.sched.finish
  | .store depth b =>
    m.sched.cur.bind fun co =>
      if depth < m.limit then
        some (0, { m with mem := update m.mem co (update (m.mem co) depth (some b)) })
      else none
  | .load depth =>
    m.sched.cur.bind fun co => (m.mem co depth).map fun b => ((b.toNat : ℤ), m)

/-- A call with its answer; `none` where the call is not allowed: an id may be given back while
fewer than `svectorRoom` are free. -/
def call (op : StackOp) : Option (ℤ × OwnStacks) :=
  if m.sched.Roomy op.coOp then m.act op else none

end OwnStacks

end Netlib
