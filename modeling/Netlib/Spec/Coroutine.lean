import Mathlib.Algebra.Ring.Nat
import Mathlib.Data.Int.Notation
import Mathlib.Logic.Function.Basic
import Netlib.Lib.Run
import Netlib.Lib.Pool

/-!
# Coroutines (`coroutine/coroutine.hpp`, `co_linux_impl.hpp`)

A thread has one schedule: a table of the coroutines, by id, and a stack of the ids that have
been given back. The schedule is modelled with the memory that its pointers go into and with
the context that runs. A function returns `none` where the behaviour is undefined: a null or
freed pointer, an entry outside the table. Memory does not run out. The calls take `_freeid` as
an unbounded stack; `within` goes around them where the room of the `svector` matters.
-/

namespace Netlib

open Function (update)
open Lib (Pool)

/-- `_status`. -/
inductive CoStatus
  | ready
  | running
  | suspend
  | dead
  deriving DecidableEq

/-- `_coroutine_`, without its stack. `_function` and `_data` are addresses. -/
structure Coroutine where
  _id : ℕ
  _status : CoStatus
  _function : ℕ
  _data : ℕ

/-- A call of `resume` that has switched away, with its locals; `caller` is the coroutine that
made it, `none` for the main context. -/
structure ResumeCall where
  caller : Option ℕ
  co : ℕ
  co_id : ℕ

/-- `_schedule_`. `_ctx` is the call to which a coroutine switches back; the back of `_freeid`
comes first. `heap` has the allocated coroutines by address, `cur` is the running one. -/
structure Schedule where
  _cap : ℕ
  _nco : ℕ
  _ctx : Option ResumeCall
  _co : Option (List (Option ℕ))
  _curco : Option ℕ
  _freeid : List ℕ
  heap : ℕ → Option Coroutine
  fresh : ℕ
  cur : Option ℕ

/-- `DEFAULT_COROUTINE`. -/
def DEFAULT_COROUTINE : ℕ := 1024

/-- The elements that an `svector` has room for whose constructor got no capacity: 100, or twice
that once it has grown. -/
def svectorRoom : ℕ := 2 * 100

/-- A call of the interface; `finish` is the end of the routine of the running coroutine.
`granted` is the answer of the system where a fiber is asked for. -/
inductive CoOp
  | initEnv (granted : Bool)
  | create (granted : Bool) (routine data : ℕ)
  | resume (co_id : ℤ)
  | yield
  | destroy (co_id : ℤ)
  | curid
  | close
  | finish

namespace Schedule

/-- The constructor. -/
def start : Schedule := ⟨0, 0, none, none, none, [], fun _ => none, 0, none⟩

variable (s : Schedule)

/-! ## Memory -/

/-- `_co[i]`. -/
def entry (i : ℕ) : Option (Option ℕ) := s._co.bind fun t => t[i]?

/-- `_co[i] = e`. -/
def setEntry (i : ℕ) (e : Option ℕ) : Option Schedule :=
  match s._co with
  | none => none
  | some t => if i < t.length then some { s with _co := some (t.set i e) } else none

/-- `free(co->_stack)` or `DeleteFiber(co->_ctx)`, and `free(co)`. -/
def free (co : ℕ) : Option Schedule :=
  match s.heap co with
  | none => none
  | some _ => some { s with heap := update s.heap co none }

/-- `co->_status = status`. -/
def setStatus (co : ℕ) (status : CoStatus) : Option Schedule :=
  match s.heap co with
  | none => none
  | some c => some { s with heap := update s.heap co (some { c with _status := status }) }

/-! ## The common part -/

/-- `malloc(sizeof(_coroutine_))` and the fields that the caller of `_alloc_co_` sees. -/
def malloc (id routine data : ℕ) : Schedule :=
  { s with
    heap := update s.heap s.fresh (some ⟨id, .ready, routine, data⟩)
    fresh := s.fresh + 1 }

/-- `_alloc_co_`, with the id of the coroutine. -/
def _alloc_co_ (routine data : ℕ) : Option (Schedule × ℕ) :=
  let co := s.fresh
  match s._freeid with
  | id :: rest =>
    (({ s with _freeid := rest }.malloc id routine data).setEntry id (some co)).map (·, id)
  | [] =>
    let id := s._nco
    let s := { s with _nco := id + 1 }
    if id ≥ s._cap then
      -- `realloc` keeps the first half, `memset` clears the second
      let t := (s._co.getD []).take s._cap ++ List.replicate s._cap none
      (({ s with _co := some t, _cap := s._cap * 2 }.malloc id routine data).setEntry
        s._cap (some co)).map (·, id)
    else ((s.malloc id routine data).setEntry id (some co)).map (·, id)

/-- `curid`, before its conversion to an unsigned number. -/
def curid : Option ℤ :=
  match s._curco with
  | none => some (-1)
  | some co => (s.heap co).map fun c => c._id

/-- The coroutine is freed, its entry cleared and its id given back. -/
def release (co co_id : ℕ) : Option Schedule :=
  (s.free co).bind fun s =>
    (s.setEntry co_id none).map fun s => { s with _freeid := co_id :: s._freeid }

/-- `resume` up to the switch. -/
def resume (co_id : ℤ) : Option Schedule :=
  if s._curco.isSome then some s
  else if co_id < 0 ∨ co_id ≥ s._cap then some s
  else
    (s.entry co_id.toNat).bind fun
      | none => some s
      | some co =>
        (s.heap co).bind fun c =>
          match c._status with
          | .suspend | .ready =>
            (s.setStatus co .running).map fun s' =>
              { s' with _curco := some co, _ctx := some ⟨s.cur, co, co_id.toNat⟩, cur := some co }
          | _ => some s

/-- The switch to `schedule._ctx`, and `resume` from there on. -/
def switchBack : Option Schedule :=
  s._ctx.bind fun f =>
    (s.heap f.co).bind fun c =>
      (if c._status = .dead then s.release f.co f.co_id else some s).map fun s =>
        { s with _curco := none, cur := f.caller }

def yield : Option Schedule :=
  match s._curco with
  | none => some s
  | some co => (s.setStatus co .suspend).bind switchBack

/-- `pub_coroutine`, after the routine. -/
def finish : Option Schedule :=
  s._curco.bind fun co => (s.setStatus co .dead).bind switchBack

/-- The loop of `close`. -/
def freeAll : List (Option ℕ) → Schedule → Option Schedule
  | [], s => some s
  | none :: t, s => freeAll t s
  | some co :: t, s => (s.free co).bind (freeAll t)

/-- What `close` leaves. -/
def wipe : Schedule :=
  { s with _freeid := [], _nco := 0, _cap := 0, _curco := none, _co := none }

/-- `destroy`, with the id of the running coroutine. -/
def destroy (co_id : ℤ) : Option Schedule :=
  s.curid.bind fun cur =>
    if s._curco.isNone ∨ cur ≠ co_id then
      if co_id ≥ 0 ∧ co_id < s._cap then
        (s.entry co_id.toNat).bind fun
          | none => some s
          | some co => s.release co co_id.toNat
      else some s
    else some s

/-! ## The Linux implementation -/

def initEnv : Schedule :=
  match s._co with
  | some _ => s
  | none =>
    { s with
      _curco := none
      _cap := DEFAULT_COROUTINE
      _co := some (List.replicate DEFAULT_COROUTINE none) }

def create (routine data : ℕ) : Option (Schedule × ℤ) :=
  match s._co with
  | none => some (s, -1)
  | some _ => (s._alloc_co_ routine data).map fun (s, id) => (s, id)

/-- `close`. The test for a running coroutine is about the loop alone. -/
def close : Option Schedule :=
  if s._curco.isNone then (freeAll ((s._co.getD []).take s._cap) s).map wipe else some s.wipe

/-- A call with what it returns, 0 if that is no id. -/
def call : CoOp → Option (Schedule × ℤ)
  | .initEnv _ => some (s.initEnv, 0)
  | .create _ routine data => s.create routine data
  | .resume co_id => (s.resume co_id).map (·, 0)
  | .yield => s.yield.map (·, 0)
  | .destroy co_id => (s.destroy co_id).map (·, 0)
  | .curid => s.curid.map (s, ·)
  | .close => s.close.map (·, 0)
  | .finish => s.finish.map (·, 0)

def step (op : CoOp) : Option Schedule := (s.call op).map Prod.fst

/-- Where a call is issued: `initEnv` and `close` in the main context, the others in any. A
routine ends inside its coroutine. -/
def Issued : CoOp → Prop
  | .initEnv _ | .close => s.cur = none
  | .finish => s.cur ≠ none
  | _ => True

/-! ## The coroutines by their ids -/

/-- The address in `_co[i]`, if that is not null. -/
def slot (i : ℕ) : Option ℕ := (s.entry i).join

/-- The coroutine with an id. -/
def coAt (i : ℕ) : Option Coroutine := (s.slot i).bind s.heap

/-- The status of the coroutine with an id. -/
def statusAt (i : ℕ) : Option CoStatus := (s.coAt i).map Coroutine._status

/-- The ids, as a pool. -/
def ids : Pool := ⟨s._nco, s._freeid⟩

/-! ## Room -/

/-- The ids in `_freeid`, an `svector`, are as many as it ever has room for, and `_cap` is an
`int`. -/
def Fits : Prop := s._freeid.length ≤ svectorRoom ∧ s._cap < 2 ^ 31

instance : Decidable s.Fits := inferInstanceAs (Decidable (_ ∧ _))

/-- What a function leaves, undefined where it has pushed an id on a full `_freeid` or doubled
`_cap` beyond an `int`. No function takes an id off after it has pushed one. -/
def within (r : Option Schedule) : Option Schedule :=
  r.bind fun s => if s.Fits then some s else none

/-- **The condition on a call**: the id that it gives back finds room, and a table that it
doubles has less than `2 ^ 30` entries. -/
def Roomy : CoOp → Prop
  | .create .. => s._co ≠ none → s._freeid = [] → s._cap ≤ s._nco → s._cap < 2 ^ 30
  | .destroy co_id =>
    s.curid ≠ some co_id → 0 ≤ co_id → s.slot co_id.toNat ≠ none → s._freeid.length < svectorRoom
  | .finish => s._freeid.length < svectorRoom
  | _ => True

instance : (op : CoOp) → Decidable (s.Roomy op)
  | .create _ _ _ =>
    inferInstanceAs (Decidable (s._co ≠ none → s._freeid = [] → s._cap ≤ s._nco → s._cap < 2 ^ 30))
  | .destroy co_id =>
    inferInstanceAs (Decidable (s.curid ≠ some co_id → 0 ≤ co_id → s.slot co_id.toNat ≠ none →
      s._freeid.length < svectorRoom))
  | .finish => inferInstanceAs (Decidable (s._freeid.length < svectorRoom))
  | .initEnv _ | .resume _ | .yield | .curid | .close => inferInstanceAs (Decidable True)

/-! ## What the table says -/

/-- What is asked of a schedule: the table and the free ids fit, the running coroutine is
`_curco`, and each call is defined and keeps to the coroutine it is for. -/
structure Sound : Prop where
  own : ∀ i p, s.entry i = some (some p) → ∃ c, s.heap p = some c ∧ c._id = i ∧ i < s._nco
  cap : s._nco ≤ s._cap
  nodup : s._freeid.Nodup
  free : ∀ i, i ∈ s._freeid ↔ i < s._nco ∧ s.entry i = some none
  running : ∀ i, s.statusAt i = some .running ↔
    ∃ p, s._curco = some p ∧ s.entry i = some (some p)
  defined : ∀ op, s.Issued op → (s.call op).isSome
  createClosed : s._co = none → ∀ routine data, s.create routine data = some (s, -1)
  create : s._co ≠ none → ∀ routine data s' r, s.create routine data = some (s', r) →
    ∃ i : ℕ, r = i ∧ s.coAt i = none ∧
      s'.coAt = update s.coAt i (some ⟨i, .ready, routine, data⟩)
  resume : ∀ x s', s.resume x = some s' → s' = s ∨
    ∃ (i : ℕ) (c : Coroutine), x = i ∧ s.coAt i = some c ∧
      (c._status = .ready ∨ c._status = .suspend) ∧
      s'.coAt = update s.coAt i (some { c with _status := .running })
  destroy : ∀ x s' i, s.destroy x = some s' → s.statusAt i = some .running →
    s'.coAt i = s.coAt i

end Schedule

end Netlib
