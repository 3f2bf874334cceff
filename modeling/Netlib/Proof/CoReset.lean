import Netlib.Spec.CoReset
import Netlib.Proof.CoTask
import Netlib.Proof.CoRoom
import Netlib.Proof.CircularQueue

/-!
# What the end of `CoRun` leaves

A reset thread and one that has never run a task differ in what nobody reads: where the last
coroutine switched back to, where the empty ring begins, and whether the empty list is in the map.
They are seen alike (`Like.behaviour`). So the reset is clean exactly when no wrapper is free, no
id waits in the list of the thread and `_freeid` has room for the ids of all coroutines
(`reset_clean_iff`): a free wrapper stays in `gfreecovec` after it has been freed, the list keeps
its `_tail`, and `clrTask` gives the ids back one after the other.
-/

namespace Netlib

open Function (update)
open Lib

namespace Schedule

variable {s : Schedule}

/-! ## Where the last coroutine has switched back to -/

/-- The schedule with another `_ctx`. -/
def withCtx (s : Schedule) (ctx : Option ResumeCall) : Schedule := { s with _ctx := ctx }

theorem setEntry_withCtx (ctx : Option ResumeCall) (i : ℕ) (e : Option ℕ) :
    (s.withCtx ctx).setEntry i e = (s.setEntry i e).map (·.withCtx ctx) := by
  unfold setEntry withCtx
  cases s._co with
  | none => rfl
  | some t =>
    dsimp only
    split
    · rfl
    · rfl

theorem alloc_withCtx (ctx : Option ResumeCall) (routine data : ℕ) :
    (s.withCtx ctx)._alloc_co_ routine data =
      (s._alloc_co_ routine data).map fun r => (r.1.withCtx ctx, r.2) := by
  -- the entry is set in a schedule that does not depend on `_ctx`
  have hset : ∀ (m : Schedule) (i : ℕ) (e : Option ℕ) (id : ℕ),
      ((m.withCtx ctx).setEntry i e).map (·, id) =
        ((m.setEntry i e).map (·, id)).map fun r => (r.1.withCtx ctx, r.2) := by
    intro m i e id
    rw [setEntry_withCtx, Option.map_map, Option.map_map]
    rfl
  obtain ⟨cap, nco, c, co, curco, freeid, heap, fresh, cur⟩ := s
  cases freeid with
  | cons id rest =>
    exact hset (Schedule.malloc ⟨cap, nco, c, co, curco, rest, heap, fresh, cur⟩ id routine data)
      id (some fresh) id
  | nil =>
    unfold _alloc_co_ withCtx
    dsimp only
    split
    · exact hset (Schedule.malloc ⟨cap * 2, nco + 1, c,
        some ((co.getD []).take cap ++ List.replicate cap none), curco, [], heap, fresh, cur⟩
        nco routine data) cap (some fresh) nco
    · exact hset (Schedule.malloc ⟨cap, nco + 1, c, co, curco, [], heap, fresh, cur⟩ nco routine
        data) nco (some fresh) nco

theorem create_withCtx (ctx : Option ResumeCall) (routine data : ℕ) :
    (s.withCtx ctx).create routine data =
      (s.create routine data).map fun r => (r.1.withCtx ctx, r.2) := by
  have hco : (s.withCtx ctx)._co = s._co := rfl
  unfold create
  rw [hco, alloc_withCtx]
  cases s._co with
  | none => rfl
  | some t =>
    dsimp only
    rw [Option.map_map, Option.map_map]
    rfl

/-- `resume` does nothing, or it sets `_ctx`. -/
theorem resume_withCtx (ctx : Option ResumeCall) (x : ℤ) :
    (s.resume x = some s ∧ (s.withCtx ctx).resume x = some (s.withCtx ctx)) ∨
      (s.withCtx ctx).resume x = s.resume x := by
  obtain ⟨cap, nco, c, co, curco, freeid, heap, fresh, cur⟩ := s
  unfold resume withCtx entry setStatus
  dsimp only
  split
  · exact .inl ⟨rfl, rfl⟩
  · split
    · exact .inl ⟨rfl, rfl⟩
    · cases co with
      | none => exact .inr rfl
      | some t =>
        simp only [Option.bind_some]
        rcases t[x.toNat]? with _ | _ | p
        · exact .inr rfl
        · exact .inl ⟨rfl, rfl⟩
        · simp only [Option.bind_some]
          cases heap p with
          | none => exact .inr rfl
          | some c =>
            simp only [Option.bind_some]
            cases c._status with
            | ready => exact .inr rfl
            | suspend => exact .inr rfl
            | running => exact .inl ⟨rfl, rfl⟩
            | dead => exact .inl ⟨rfl, rfl⟩

/-- `create` does not switch. -/
theorem create_curco {routine data : ℕ} {s' : Schedule} {id : ℤ}
    (h : s.create routine data = some (s', id)) : s'._curco = s._curco := by
  have hset : ∀ (m : Schedule) (i : ℕ) (e : Option ℕ) (k : ℕ) (r : Schedule × ℕ),
      (m.setEntry i e).map (·, k) = some r → r.1._curco = m._curco := by
    intro m i e k r hm
    obtain ⟨m', hm, rfl⟩ := Option.map_eq_some_iff.mp hm
    unfold setEntry at hm
    split at hm
    · cases hm
    · split at hm
      · cases hm
        rfl
      · cases hm
  have halloc : ∀ r, s._alloc_co_ routine data = some r → r.1._curco = s._curco := by
    intro r hr
    unfold _alloc_co_ at hr
    dsimp only at hr
    split at hr
    · have hc := hset _ _ _ _ r hr
      exact hc
    · split at hr
      · have hc := hset _ _ _ _ r hr
        exact hc
      · have hc := hset _ _ _ _ r hr
        exact hc
  unfold create at h
  split at h
  · cases h
    rfl
  · obtain ⟨r, hr, he⟩ := Option.map_eq_some_iff.mp h
    cases he
    exact halloc r hr

end Schedule

namespace TaskPool

variable {w v : TaskPool}

def withCtx (w : TaskPool) (ctx : Option ResumeCall) : TaskPool :=
  { w with co := w.co.withCtx ctx }

/-- **Two pools that are seen alike**: in the main context they may differ in `_ctx`. -/
inductive Like (w : TaskPool) : TaskPool → Prop
  | refl : Like w w
  | main (ctx : Option ResumeCall) : w.co._curco = none → Like w (w.withCtx ctx)

theorem Like.rel_refl (r : Option TaskPool) : Option.Rel Like r r := by
  cases r with
  | none => exact .none
  | some w => exact .some .refl

theorem Like.settle (h : w.Like v) : w.settle.Like v.settle := by
  cases h with
  | refl => exact .refl
  | main ctx hmain =>
    have hset : (w.withCtx ctx).settle = w.settle.withCtx ctx := by
      unfold TaskPool.settle
      change (if w.co.cur = none then _ else _) = _
      split
      · rfl
      · rfl
    rw [hset]
    refine .main ctx ?_
    unfold TaskPool.settle
    split
    · exact hmain
    · exact hmain

theorem Like.resume (h : w.Like v) (x : ℤ) : Option.Rel Like (w.resume x) (v.resume x) := by
  cases h with
  | refl => exact Like.rel_refl _
  | main ctx hmain =>
    unfold TaskPool.resume
    have hco : (w.withCtx ctx).co = w.co.withCtx ctx := rfl
    rw [hco]
    rcases Schedule.resume_withCtx (s := w.co) ctx x with ⟨h₁, h₂⟩ | heq
    · have hcur : (w.co.withCtx ctx).cur = w.co.cur := rfl
      rw [h₁, h₂, Option.bind_some, Option.bind_some, if_pos rfl, if_pos rfl]
      exact .some (.main ctx hmain)
    · rw [heq]
      -- after a switch `_ctx` is that of this call
      cases w.co.resume x with
      | none => exact .none
      | some co => exact Like.rel_refl _

/-- `_get_co_task_wrapper` does not look at `_ctx`. -/
theorem get_withCtx (ctx : Option ResumeCall) :
    (w.withCtx ctx)._get_co_task_wrapper =
      w._get_co_task_wrapper.map fun r => (r.1.withCtx ctx, r.2) := by
  have hfree : (w.withCtx ctx).gfreecovec = w.gfreecovec := rfl
  unfold _get_co_task_wrapper
  rw [hfree]
  cases w.gfreecovec with
  | cons x rest =>
    dsimp only
    rw [Option.map_map]
    rfl
  | nil =>
    have hco : (w.withCtx ctx).co = w.co.withCtx ctx := rfl
    dsimp only
    rw [hco, Schedule.create_withCtx, Option.map_map, Option.map_map]
    rfl

theorem get_curco {x : ℕ} (h : w._get_co_task_wrapper = some (v, x)) :
    v.co._curco = w.co._curco := by
  unfold _get_co_task_wrapper at h
  split at h
  · obtain ⟨wr, -, he⟩ := Option.map_eq_some_iff.mp h
    cases he
    rfl
  · obtain ⟨⟨co, id⟩, hcreate, he⟩ := Option.map_eq_some_iff.mp h
    cases he
    exact Schedule.create_curco hcreate

theorem Like.launch (hmain : w.co._curco = none) (ctx : Option ResumeCall) (task : Option ℕ) :
    Option.Rel Like (w.launch task) ((w.withCtx ctx).launch task) := by
  unfold TaskPool.launch
  rw [get_withCtx]
  cases hget : w._get_co_task_wrapper with
  | none => exact .none
  | some r =>
    obtain ⟨w₁, x⟩ := r
    have hmain₁ : w₁.co._curco = none := (get_curco hget).trans hmain
    rw [Option.map_some, Option.bind_some, Option.bind_some]
    unfold setLocal
    dsimp only
    have hwr : (w₁.withCtx ctx).wrappers x = w₁.wrappers x := rfl
    rw [hwr]
    cases w₁.wrappers x with
    | none => exact .none
    | some wr =>
      simp only [Option.map_some, Option.bind_some, Function.update_self]
      let w₂ : TaskPool := { w₁ with
        wrappers := update w₁.wrappers x (some ⟨wr.co_id, some w₁.nframe⟩)
        frame := some ⟨w₁.nframe, task⟩
        nframe := w₁.nframe + 1 }
      exact Like.resume (w := w₂) (.main ctx hmain₁) wr.co_id

/-- **Pools that are seen alike** do the same. -/
theorem Like.step (h : w.Like v) (op : TaskOp) : Option.Rel Like (w.step op) (v.step op) := by
  have hsettle : ∀ {r r' : Option TaskPool}, Option.Rel Like r r' →
      Option.Rel Like (r.map TaskPool.settle) (r'.map TaskPool.settle) := by
    intro r r' hrel
    cases hrel with
    | none => exact .none
    | some hl => exact .some hl.settle
  cases h with
  | refl => exact Like.rel_refl _
  | main ctx hmain =>
    have hid : w.co.curid = some (-1) := Schedule.curid_main hmain
    have hid' : (w.withCtx ctx).co.curid = some (-1) := Schedule.curid_main hmain
    have hstore : (w.withCtx ctx).store = w.store := rfl
    unfold TaskPool.step
    apply hsettle
    cases op with
    | addTask func p =>
      dsimp only
      unfold TaskPool.addTask
      rw [hstore]
      cases w.store.newTask func p true with
      | none => exact .none
      | some r => exact .some (.main ctx hmain)
    | doTask =>
      dsimp only
      unfold TaskPool.doTask
      rw [hid, hid', Option.bind_some, Option.bind_some, if_pos rfl, if_pos rfl, hstore]
      cases w.store.gworktasklist with
      | nil => exact .some (.main ctx hmain)
      | cons a rest =>
        exact Like.launch (w := { w with store := { w.store with gworktasklist := rest } }) hmain
          ctx (some a)
    | doTaskOf func p =>
      dsimp only
      unfold TaskPool.doTaskOf
      rw [hid, hid', Option.bind_some, Option.bind_some, if_pos rfl, if_pos rfl, hstore]
      cases w.store.newTask func p false with
      | none => exact .none
      | some r => exact Like.launch (w := { w with store := r.1 }) hmain ctx (some r.2)
    | resume x => exact Like.resume (.main ctx hmain) x
    | taskYield =>
      have hyield : w.co.yield = some w.co := by
        unfold Schedule.yield
        rw [hmain]
      have hyield' : (w.withCtx ctx).co.yield = some (w.withCtx ctx).co := by
        unfold Schedule.yield
        rw [show (w.withCtx ctx).co._curco = none from hmain]
      dsimp only
      unfold TaskPool.taskYield
      rw [hyield, hyield']
      exact .some (.main ctx hmain)
    | taskReturn =>
      dsimp only
      unfold TaskPool.taskReturn
      have hmain' : (w.withCtx ctx).co._curco = none := hmain
      rw [hmain, hmain']
      exact .none

/-! ## Runs with any resumes -/

/-- The wrappers are those of before. -/
structure SameWrappers (w w' : TaskPool) : Prop where
  wrappers : w'.wrappers = w.wrappers
  all : w'.gallcolist = w.gallcolist
  top : w'.nwrapper = w.nwrapper

/-- **What holds of the wrappers** between the steps: each points to a local variable, gone or
not, and `gallcolist` has them all. -/
structure Listed (w : TaskPool) : Prop where
  pointed : ∀ x wr, w.wrappers x = some wr → wr.task ≠ none
  all : w.gallcolist = List.range w.nwrapper

variable {w' : TaskPool} {i x : ℕ}

theorem Listed.congr (h : w.Listed) (hs : w.SameWrappers w') : w'.Listed :=
  ⟨by rw [hs.wrappers]; exact h.pointed, by rw [hs.all, hs.top]; exact h.all⟩

theorem park_same (hs : w.park i x = some w') : w.SameWrappers w' := by
  obtain ⟨co, -, rfl⟩ := Option.map_eq_some_iff.mp hs
  exact ⟨rfl, rfl, rfl⟩

/-- No coroutine comes to the end of its routine. -/
theorem Listed.loop_same (h : w.Listed) (hs : w.loop i x = some w') : w.SameWrappers w' := by
  obtain ⟨wr, hwr, hs⟩ := Option.bind_eq_some_iff.mp hs
  have htask := h.pointed x wr hwr
  obtain ⟨addr, haddr⟩ := Option.ne_none_iff_exists'.mp htask
  rw [haddr] at hs
  obtain ⟨l, -, hs⟩ := Option.bind_eq_some_iff.mp hs
  cases l with
  | none => exact park_same hs
  | some a =>
    obtain ⟨t, -, rfl⟩ := Option.map_eq_some_iff.mp hs
    exact ⟨rfl, rfl, rfl⟩

theorem Listed.enter_same (h : w.Listed) (hs : w.enter = some w') : w.SameWrappers w' := by
  obtain ⟨p, -, hs⟩ := Option.bind_eq_some_iff.mp hs
  obtain ⟨c, -, hs⟩ := Option.bind_eq_some_iff.mp hs
  split at hs
  · cases hs
    exact ⟨rfl, rfl, rfl⟩
  · exact h.loop_same hs

theorem resume_listed {k : ℤ} (hs : w.resume k = some w') (h : w.Listed) : w'.Listed := by
  obtain ⟨co, -, hs⟩ := Option.bind_eq_some_iff.mp hs
  split at hs
  · cases hs
    exact ⟨h.pointed, h.all⟩
  · have hco : ({ w with co := co } : TaskPool).Listed := ⟨h.pointed, h.all⟩
    exact hco.congr (hco.enter_same hs)

theorem launch_listed {task : Option ℕ} (hs : w.launch task = some w') (h : w.Listed) :
    w'.Listed := by
  obtain ⟨⟨w₁, x⟩, hget, hs⟩ := Option.bind_eq_some_iff.mp hs
  obtain ⟨w₂, hset, hs⟩ := Option.bind_eq_some_iff.mp hs
  obtain ⟨wr, -, hs⟩ := Option.bind_eq_some_iff.mp hs
  obtain ⟨wr₁, -, rfl⟩ := Option.map_eq_some_iff.mp hset
  -- only the wrapper that is taken is without a task for a moment
  have hget : (∀ y, y ≠ x → w₁.wrappers y = w.wrappers y) ∧
      w₁.gallcolist = List.range w₁.nwrapper := by
    unfold _get_co_task_wrapper at hget
    split at hget
    · obtain ⟨wr₀, -, he⟩ := Option.map_eq_some_iff.mp hget
      cases he
      exact ⟨fun y hy => Function.update_of_ne hy .., h.all⟩
    · obtain ⟨⟨co, k⟩, -, he⟩ := Option.map_eq_some_iff.mp hget
      cases he
      refine ⟨fun y hy => Function.update_of_ne hy .., ?_⟩
      dsimp only
      rw [h.all, List.range_succ]
  refine resume_listed hs ⟨?_, hget.2⟩
  intro y v hy
  dsimp only at hy
  rw [Function.update_apply] at hy
  split at hy
  · cases hy
    nofun
  · rename_i hne
    rw [hget.1 y hne] at hy
    exact h.pointed y v hy

theorem Listed.settle (h : w.Listed) : w.settle.Listed := by
  unfold TaskPool.settle
  split
  · exact ⟨h.pointed, h.all⟩
  · exact h

theorem Listed.step (h : w.Listed) {op : TaskOp} (hs : w.step op = some w') : w'.Listed := by
  unfold TaskPool.step at hs
  obtain ⟨w₁, hop, rfl⟩ := Option.map_eq_some_iff.mp hs
  apply Listed.settle
  cases op with
  | addTask func p =>
    obtain ⟨r, -, rfl⟩ := Option.map_eq_some_iff.mp hop
    exact ⟨h.pointed, h.all⟩
  | doTask =>
    obtain ⟨cur, -, hop⟩ := Option.bind_eq_some_iff.mp hop
    split at hop
    · split at hop
      · cases hop
        exact h
      · exact launch_listed hop ⟨h.pointed, h.all⟩
    · cases hop
      exact h
  | doTaskOf func p =>
    obtain ⟨cur, -, hop⟩ := Option.bind_eq_some_iff.mp hop
    split at hop
    · obtain ⟨r, -, hop⟩ := Option.bind_eq_some_iff.mp hop
      exact launch_listed hop ⟨h.pointed, h.all⟩
    · cases hop
      exact h
  | resume k => exact resume_listed hop h
  | taskYield =>
    obtain ⟨co, -, rfl⟩ := Option.map_eq_some_iff.mp hop
    exact ⟨h.pointed, h.all⟩
  | taskReturn =>
    obtain ⟨p, -, hop⟩ := Option.bind_eq_some_iff.mp hop
    obtain ⟨c, -, hop⟩ := Option.bind_eq_some_iff.mp hop
    split at hop
    · obtain ⟨s, -, hop⟩ := Option.bind_eq_some_iff.mp hop
      have hsame := park_same hop
      exact Listed.congr ⟨h.pointed, h.all⟩ ⟨hsame.wrappers, hsame.all, hsame.top⟩
    · cases hop

/-- The invariant of a pool whose coroutines anyone may resume. -/
structure Full (w : TaskPool) : Prop where
  inv : w.Inv
  listed : w.Listed
  settled : w.co.cur = none → w.frame = none

theorem Full.start : TaskPool.start.Full :=
  ⟨Inv.start, ⟨nofun, rfl⟩, fun _ => rfl⟩

theorem settle_settled (w : TaskPool) : w.settle.co.cur = none → w.settle.frame = none := by
  unfold TaskPool.settle
  split
  · exact fun _ => rfl
  · rename_i hcur
    exact fun h => absurd h hcur

/-- **A parked coroutine that is resumed** reads a local variable that is gone. So a `resume`
that is defined does nothing, or resumes a task. -/
theorem Full.resume_inv (h : w.Full) {k : ℤ} (hs : w.resume k = some w') : w'.Inv := by
  rcases h.inv.co.resume_cases k with heq | ⟨hmain, i, p, c, rfl, hi, hc⟩
  · unfold TaskPool.resume at hs
    rw [heq, Option.bind_some, if_pos rfl] at hs
    cases hs
    exact h.inv
  · rcases h.inv.wraps.state i c hc with ⟨hparked, -⟩ | ⟨a, ha, -⟩
    · obtain ⟨co, hco, hinv, -, hcoAt, hcurco, hruns⟩ := h.inv.co.resume hmain hi hc
      obtain ⟨c', hc', hheap, hid⟩ := hinv.table.coAt_of_slot hruns.slot
      have hdata : c'._data = c._data := by
        rw [hcoAt, Function.update_self] at hc'
        cases hc'
        rfl
      have hcur : w.co.cur = none := (h.inv.co.control.main hmain).1
      have hne : co.cur ≠ w.co.cur := by
        rw [hruns.cur, hcur]
        exact Option.some_ne_none p
      obtain ⟨-, wr, hwr, -⟩ := h.inv.wraps.back i c hc
      obtain ⟨addr, haddr⟩ := Option.ne_none_iff_exists'.mp (h.listed.pointed _ wr hwr)
      have henter := enter_loop (w := { w with co := co }) hcurco hheap (by
        intro b hb
        rw [hid] at hb
        exact TaskPc.noConfusion (hparked.symm.trans hb))
      have hloop : ({ w with co := co } : TaskPool).loop c'._id c'._data = none := by
        unfold TaskPool.loop readLocal
        rw [hdata]
        dsimp only
        rw [hwr, Option.bind_some, haddr]
        dsimp only
        rw [h.settled hcur]
        rfl
      unfold TaskPool.resume at hs
      rw [hco, Option.bind_some, if_neg hne, henter, hloop] at hs
      cases hs
    · have hissued : w.Issued (.resume i) := by
        refine ⟨Int.natCast_nonneg i, ?_⟩
        unfold inside
        rw [Int.toNat_natCast, ha]
        trivial
      obtain ⟨w₁, hw₁, hinv⟩ := h.inv.resume hissued
      rw [hs] at hw₁
      rwa [Option.some.inj hw₁]

/-- **A step keeps the invariant.** -/
theorem Full.step (h : w.Full) {op : TaskOp} (hs : w.step op = some w') : w'.Full := by
  have hlisted := h.listed.step hs
  have hsettled : w'.co.cur = none → w'.frame = none := by
    obtain ⟨w₁, -, rfl⟩ := Option.map_eq_some_iff.mp hs
    exact w₁.settle_settled
  have hissued : w.Issued op → w'.Full := by
    intro hop
    obtain ⟨w₁, hw₁, hinv⟩ := h.inv.step hop
    rw [hs] at hw₁
    obtain rfl := Option.some.inj hw₁
    exact ⟨hinv, hlisted, hsettled⟩
  cases op with
  | addTask func p => exact hissued trivial
  | doTask => exact hissued trivial
  | doTaskOf func p => exact hissued trivial
  | resume k =>
    obtain ⟨w₁, hop, rfl⟩ := Option.map_eq_some_iff.mp hs
    exact ⟨(h.resume_inv hop).settle, hlisted, hsettled⟩
  | taskYield =>
    by_cases hcur : w.co.cur = none
    · -- `yield` does nothing in the main context
      have hmain := h.inv.co.cur_eq_none_iff.mp hcur
      obtain ⟨w₁, hop, rfl⟩ := Option.map_eq_some_iff.mp hs
      obtain ⟨co, hco, rfl⟩ := Option.map_eq_some_iff.mp hop
      unfold Schedule.yield at hco
      rw [hmain] at hco
      cases hco
      exact ⟨h.inv.settle, hlisted, hsettled⟩
    · exact hissued hcur
  | taskReturn =>
    by_cases hcur : w.co.cur = none
    · have hmain := h.inv.co.cur_eq_none_iff.mp hcur
      obtain ⟨w₁, hop, rfl⟩ := Option.map_eq_some_iff.mp hs
      obtain ⟨p, hp, -⟩ := Option.bind_eq_some_iff.mp hop
      rw [hmain] at hp
      cases hp
    · exact hissued hcur

end TaskPool

namespace TaskThread

variable {w v : TaskThread}

/-! ## Threads that are seen alike -/

/-- **Two threads that are seen alike**: the pools are, the rings hold the same ids, and an empty
list in the map counts as none. -/
structure Like (w v : TaskThread) : Prop where
  pool : w.pool.Like v.pool
  ctid : w.ctid = v.ctid
  ring : ∃ xs, w.gresumetaskque.Holds xs ∧ v.gresumetaskque.Holds xs ∧
    w.gresumetaskque._cap = v.gresumetaskque._cap
  map : ∀ t, (w._queue_map t).getD .new = (v._queue_map t).getD .new
  tmp : w.tmp = v.tmp

theorem Like.cur (h : w.Like v) : w.pool.co.cur = v.pool.co.cur ∧
    w.pool.co.curid = v.pool.co.curid ∧ w.pool.started = v.pool.started ∧
      w.pool.store = v.pool.store := by
  obtain ⟨pool, ctid, que, map, tmp⟩ := v
  have hpool : w.pool.Like pool := h.pool
  cases hpool with
  | refl => exact ⟨rfl, rfl, rfl, rfl⟩
  | main ctx hmain => exact ⟨rfl, rfl, rfl, rfl⟩

/-- The same done to both pools. -/
theorem Like.with_pool (h : w.Like v) {pool pool' : TaskPool} (hp : pool.Like pool') :
    { w with pool := pool }.Like { v with pool := pool' } :=
  ⟨hp, h.ctid, h.ring, h.map, h.tmp⟩

theorem Like.resume (h : w.Like v) (x : ℤ) : Option.Rel Like (w.resume x) (v.resume x) := by
  have hrel := h.pool.resume x
  unfold TaskThread.resume
  generalize w.pool.resume x = r at hrel
  generalize v.pool.resume x = r' at hrel
  cases hrel with
  | none => exact .none
  | some hp => exact .some (h.with_pool hp.settle)

theorem Like.addResume (h : w.Like v) (id : ℤ) : (w.addResume id).Like (v.addResume id) := by
  obtain ⟨xs, hw, hv, hcap⟩ := h.ring
  refine ⟨h.pool, h.ctid, ?_, h.map, h.tmp⟩
  unfold TaskThread.addResume
  dsimp only
  by_cases hfull : w.gresumetaskque.full = true
  · have hfull' : v.gresumetaskque.full = true := by
      rw [hv.full_iff, ← hcap]
      exact hw.full_iff.mp hfull
    rw [CircularQueue.push_back_full hfull, CircularQueue.push_back_full hfull']
    exact ⟨xs, hw, hv, hcap⟩
  · have hfull' : ¬ v.gresumetaskque.full = true := by
      rw [hv.full_iff, ← hcap]
      exact fun hl => hfull (hw.full_iff.mpr hl)
    obtain ⟨q, hq, hholds, hsame⟩ := hw.push_back hfull id
    obtain ⟨q', hq', hholds', hsame'⟩ := hv.push_back hfull' id
    rw [hq, hq']
    exact ⟨xs ++ [id], hholds, hholds', hsame.trans (hcap.trans hsame'.symm)⟩

theorem Like.addThrResume (h : w.Like v) (thrid : ℕ) (x : ℤ) :
    Option.Rel Like (w.addThrResume thrid x) (v.addThrResume thrid x) := by
  unfold TaskThread.addThrResume
  rw [h.map thrid]
  cases ((v._queue_map thrid).getD .new).push_back x with
  | none => exact .none
  | some l =>
    refine .some ⟨h.pool, h.ctid, h.ring, ?_, h.tmp⟩
    intro t
    dsimp only
    rw [Function.update_apply, Function.update_apply]
    split
    · rfl
    · exact h.map t

theorem Like.doResume (h : w.Like v) : Option.Rel Like w.doResume v.doResume := by
  obtain ⟨xs, hw, hv, hcap⟩ := h.ring
  unfold TaskThread.doResume
  rw [h.cur.2.1, hw.empty_eq, hv.empty_eq]
  cases v.pool.co.curid with
  | none => exact .none
  | some cur =>
    rw [Option.bind_some, Option.bind_some]
    split
    · cases xs with
      | nil => exact .some h
      | cons a xs =>
        obtain ⟨q, hq, hholds, hsame⟩ := hw.pop_front
        obtain ⟨q', hq', hholds', hsame'⟩ := hv.pop_front
        rw [hq, hq']
        refine Like.resume (w := { w with gresumetaskque := q })
          (v := { v with gresumetaskque := q' }) ⟨h.pool, h.ctid, ?_, h.map, h.tmp⟩ a
        exact ⟨xs, hholds, hholds', hsame.trans (hcap.trans hsame'.symm)⟩
    · exact .some h

/-- The loop of `doThrResume` on the same list. -/
theorem Like.drain (l : List ℤ) :
    ∀ {w v : TaskThread}, w.Like v → Option.Rel Like (drain l w) (drain l v) := by
  induction l with
  | nil => exact fun h => .some ⟨h.pool, h.ctid, h.ring, h.map, rfl⟩
  | cons x l ih =>
    intro w v h
    have hrel := h.resume x
    unfold TaskThread.drain
    generalize w.resume x = r at hrel
    generalize v.resume x = r' at hrel
    cases hrel with
    | none => exact .none
    | some hl =>
      rw [Option.bind_some, Option.bind_some, hl.cur.1]
      split
      · exact ih hl
      · exact .some ⟨hl.pool, hl.ctid, hl.ring, hl.map, rfl⟩

/-- With a list in the map or without one the loop runs, and leaves an empty list. -/
theorem doThrResume_eq (w : TaskThread) : w.doThrResume = w.pool.co.curid.bind fun cur =>
    if cur = -1 then
      drain ((w._queue_map w.ctid).getD .new).nodes
        { w with
          _queue_map := update w._queue_map w.ctid ((w._queue_map w.ctid).map fun _ => .new) }
    else some w := by
  unfold TaskThread.doThrResume
  cases hu : w._queue_map w.ctid with
  | some l => rfl
  | none =>
    have hself : update w._queue_map w.ctid none = w._queue_map := by
      rw [← hu, Function.update_eq_self]
    simp only [Option.map_none, hself]
    rfl

theorem Like.doThrResume (h : w.Like v) : Option.Rel Like w.doThrResume v.doThrResume := by
  rw [doThrResume_eq w, doThrResume_eq v, h.cur.2.1, h.map w.ctid, h.ctid]
  cases v.pool.co.curid with
  | none => exact .none
  | some cur =>
    rw [Option.bind_some, Option.bind_some]
    split
    · refine Like.drain _ ⟨h.pool, rfl, h.ring, ?_, h.tmp⟩
      intro t
      dsimp only
      rw [Function.update_apply, Function.update_apply]
      split
      · cases w._queue_map v.ctid <;> cases v._queue_map v.ctid <;> rfl
      · exact h.map t
    · exact .some h

theorem Like.goOn (h : w.Like v) : Option.Rel Like w.goOn v.goOn := by
  unfold TaskThread.goOn
  rw [h.cur.1, h.tmp]
  split
  · exact Like.drain _ h
  · exact .some h

theorem Like.act (h : w.Like v) (op : ThreadOp) : Option.Rel Like (w.act op) (v.act op) := by
  cases op with
  | task op =>
    have hrel := h.pool.step op
    unfold TaskThread.act
    dsimp only
    generalize w.pool.step op = r at hrel
    generalize v.pool.step op = r' at hrel
    cases hrel with
    | none => exact .none
    | some hp => exact (h.with_pool hp).goOn
  | addResume id => exact .some (h.addResume id)
  | addThrResume thrid x => exact h.addThrResume thrid x
  | doResume => exact h.doResume
  | doThrResume => exact h.doThrResume

/-- They need the same room. -/
theorem Like.fits_iff (h : w.Like v) : w.Fits ↔ v.Fits := by
  obtain ⟨pool, ctid, que, map, tmp⟩ := v
  have hpool : w.pool.Like pool := h.pool
  cases hpool with
  | refl => exact Iff.rfl
  | main ctx hmain => exact Iff.rfl

theorem Like.step (h : w.Like v) (op : ThreadOp) : Option.Rel Like (w.step op) (v.step op) := by
  have hrel := h.act op
  unfold TaskThread.step within
  generalize w.act op = r at hrel
  generalize v.act op = r' at hrel
  cases hrel with
  | none => exact .none
  | some hl =>
    rw [Option.bind_some, Option.bind_some]
    split
    · rename_i hfit
      rw [if_pos (hl.fits_iff.mp hfit)]
      exact .some hl
    · rename_i hfit
      rw [if_neg fun hv => hfit (hl.fits_iff.mpr hv)]
      exact .none

theorem Like.reply (h : w.Like v) (op : ThreadOp) : w.reply op = v.reply op := by
  obtain ⟨xs, hw, hv, -⟩ := h.ring
  obtain ⟨hcur, -, -, hstore⟩ := h.cur
  unfold TaskThread.reply
  rw [hcur, hstore, hw.empty_eq, hv.empty_eq]

/-- **Threads that are seen alike** behave alike. -/
theorem Like.behaviour (h : w.Like v) (ops : List ThreadOp) :
    w.behaviour ops = v.behaviour ops := by
  refine trace_eq ?_ h ops
  intro w v op h
  have hrel := h.step op
  have hreply := h.reply op
  generalize w.step op = r at hrel
  generalize v.step op = r' at hrel
  cases hrel with
  | none => exact .none
  | some hl =>
    refine .some ⟨hl, ?_⟩
    unfold TaskThread.seen
    rw [hreply, hl.cur.2.1, hl.cur.2.2.1]

/-! ## What a run keeps -/

/-- What holds also inside `doThrResume`: the pool is sound, the ring has its capacity, and no list
has been cleared. -/
structure Sound (w : TaskThread) : Prop where
  pool : w.pool.Full
  ring : ∃ xs, w.gresumetaskque.Holds xs
  cap : w.gresumetaskque._cap = 1025
  lists : ∀ t l, w._queue_map t = some l → l.stale = false

/-- The invariant of a thread: no `doThrResume` is in progress in the main context. -/
structure Inv (w : TaskThread) : Prop where
  sound : w.Sound
  idle : w.pool.co.cur = none → w.tmp = none

variable {w' : TaskThread}

/-- What is left within the room. -/
theorem within_eq_some {r : Option TaskThread} : within r = some w ↔ r = some w ∧ w.Fits := by
  unfold within
  cases r with
  | none => exact ⟨fun h => (by cases h), fun h => (by cases h.1)⟩
  | some v =>
    rw [Option.bind_some]
    split
    · rename_i hfit
      constructor
      · intro h
        cases h
        exact ⟨rfl, hfit⟩
      · exact fun h => h.1
    · rename_i hfit
      constructor
      · intro h
        cases h
      · rintro ⟨h, hw⟩
        cases h
        exact absurd hw hfit

theorem Inv.start (ctid : ℕ) : (TaskThread.start ctid).Inv :=
  ⟨⟨.start, ⟨[], .new 1024⟩, rfl, nofun⟩, fun _ => rfl⟩

theorem Sound.resume (h : w.Sound) {k : ℤ} (hs : w.resume k = some w') :
    w'.Sound ∧ w'.tmp = w.tmp := by
  obtain ⟨pool, hpool, rfl⟩ := Option.map_eq_some_iff.mp hs
  have hstep : w.pool.step (.resume k) = some pool.settle := congrArg (Option.map _) hpool
  exact ⟨⟨h.pool.step hstep, h.ring, h.cap, h.lists⟩, rfl⟩

/-- **The loop of `doThrResume`** ends, or waits for a coroutine. -/
theorem Sound.drain (l : List ℤ) : ∀ {w w' : TaskThread}, w.Sound →
    TaskThread.drain l w = some w' → w'.Inv := by
  induction l with
  | nil =>
    intro w w' h hs
    cases hs
    exact ⟨⟨h.pool, h.ring, h.cap, h.lists⟩, fun _ => rfl⟩
  | cons x l ih =>
    intro w w' h hs
    obtain ⟨w₁, hres, hs⟩ := Option.bind_eq_some_iff.mp hs
    obtain ⟨h₁, -⟩ := h.resume hres
    split at hs
    · exact ih h₁ hs
    · rename_i hcur
      cases hs
      exact ⟨⟨h₁.pool, h₁.ring, h₁.cap, h₁.lists⟩, fun hn => absurd hn hcur⟩

theorem Inv.act_task (h : w.Inv) {op : TaskOp} (hs : w.act (.task op) = some w') : w'.Inv := by
  obtain ⟨pool, hpool, hs⟩ := Option.bind_eq_some_iff.mp hs
  have hsound : { w with pool := pool }.Sound :=
    ⟨h.sound.pool.step hpool, h.sound.ring, h.sound.cap, h.sound.lists⟩
  unfold goOn at hs
  split at hs
  · exact hsound.drain _ hs
  · rename_i hno
    cases hs
    refine ⟨hsound, fun hcur => ?_⟩
    by_contra hne
    obtain ⟨tmp, htmp⟩ := Option.ne_none_iff_exists'.mp hne
    exact hno tmp hcur htmp

theorem Inv.addResume (h : w.Inv) (id : ℤ) : (w.addResume id).Inv := by
  obtain ⟨xs, hxs⟩ := h.sound.ring
  have hring : (∃ xs, (w.addResume id).gresumetaskque.Holds xs) ∧
      (w.addResume id).gresumetaskque._cap = 1025 := by
    unfold TaskThread.addResume
    dsimp only
    by_cases hfull : w.gresumetaskque.full = true
    · rw [CircularQueue.push_back_full hfull]
      exact ⟨⟨xs, hxs⟩, h.sound.cap⟩
    · obtain ⟨q, hq, hholds, hcap⟩ := hxs.push_back hfull id
      rw [hq]
      exact ⟨⟨_, hholds⟩, hcap.trans h.sound.cap⟩
  exact ⟨⟨h.sound.pool, hring.1, hring.2, h.sound.lists⟩, h.idle⟩

theorem Inv.addThrResume (h : w.Inv) {thrid : ℕ} {x : ℤ} (hs : w.addThrResume thrid x = some w') :
    w'.Inv := by
  obtain ⟨l, hpush, rfl⟩ := Option.map_eq_some_iff.mp hs
  refine ⟨⟨h.sound.pool, h.sound.ring, h.sound.cap, ?_⟩, h.idle⟩
  intro t m hm
  dsimp only at hm
  rw [Function.update_apply] at hm
  split at hm
  · cases hm
    unfold IntList.push_back at hpush
    split at hpush
    · cases hpush
    · rename_i hstale
      cases hpush
      exact (Bool.not_eq_true _).mp hstale
  · exact h.sound.lists t m hm

theorem Inv.doResume (h : w.Inv) (hs : w.doResume = some w') : w'.Inv := by
  obtain ⟨cur, hcurid, hs⟩ := Option.bind_eq_some_iff.mp hs
  split at hs
  · split at hs
    · cases hs
      exact h
    · rename_i hcur hempty
      obtain ⟨xs, hxs⟩ := h.sound.ring
      cases xs with
      | nil =>
        rw [hxs.empty_eq] at hempty
        exact absurd rfl hempty
      | cons a xs =>
        obtain ⟨q, hq, hholds, hcap⟩ := hxs.pop_front
        rw [hq] at hs
        have hsound : { w with gresumetaskque := q }.Sound :=
          ⟨h.sound.pool, ⟨xs, hholds⟩, hcap.trans h.sound.cap, h.sound.lists⟩
        obtain ⟨h', htmp⟩ := hsound.resume hs
        refine ⟨h', fun _ => htmp.trans (h.idle ?_)⟩
        rcases h.sound.pool.inv.co.curid_cases with ⟨hmain, -⟩ | ⟨r, hr, hne⟩
        · exact h.sound.pool.inv.co.cur_eq_none_iff.mpr hmain
        · rw [hr] at hcurid
          cases hcurid
          exact absurd hcur hne
  · cases hs
    exact h

theorem Inv.doThrResume (h : w.Inv) (hs : w.doThrResume = some w') : w'.Inv := by
  rw [doThrResume_eq] at hs
  obtain ⟨cur, -, hs⟩ := Option.bind_eq_some_iff.mp hs
  split at hs
  · have hlists : ∀ t l, update w._queue_map w.ctid
        ((w._queue_map w.ctid).map fun _ => .new) t = some l → l.stale = false := by
      intro t l hl
      rw [Function.update_apply] at hl
      split at hl
      · obtain ⟨l', -, rfl⟩ := Option.map_eq_some_iff.mp hl
        rfl
      · exact h.sound.lists t l hl
    let u : TaskThread := { w with
      _queue_map := update w._queue_map w.ctid ((w._queue_map w.ctid).map fun _ => .new) }
    have hsound : u.Sound := ⟨h.sound.pool, h.sound.ring, h.sound.cap, hlists⟩
    exact hsound.drain _ hs
  · cases hs
    exact h

theorem Inv.act (h : w.Inv) {op : ThreadOp} (hs : w.act op = some w') : w'.Inv := by
  cases op with
  | task op => exact h.act_task hs
  | addResume id =>
    cases hs
    exact h.addResume id
  | addThrResume thrid x => exact h.addThrResume hs
  | doResume => exact h.doResume hs
  | doThrResume => exact h.doThrResume hs

/-- **A step keeps the invariant**, and the svectors within their room. -/
theorem Inv.step (h : w.Inv) {op : ThreadOp} (hs : w.step op = some w') : w'.Inv ∧ w'.Fits := by
  obtain ⟨hact, hfit⟩ := within_eq_some.mp hs
  exact ⟨h.act hact, hfit⟩

theorem start_fits (ctid : ℕ) : (TaskThread.start ctid).Fits :=
  ⟨show TaskPool.start.co.Fits by decide, Nat.zero_le _, Nat.zero_le _⟩

theorem Inv.reach {ctid : ℕ} (hr : Reach TaskThread.step always (.start ctid) w) :
    w.Inv ∧ w.Fits :=
  hr.inv (I := fun w => w.Inv ∧ w.Fits) ⟨Inv.start ctid, start_fits ctid⟩ fun _ _ _ h _ hs =>
    h.1.step hs

/-! ## The reset -/

theorem freeTasks_defined (l : List ℕ) : ∀ tasks : ℕ → Option CoTask, l.Nodup →
    (∀ a ∈ l, tasks a ≠ none) → ∃ tasks', freeTasks l tasks = some tasks' := by
  induction l with
  | nil => exact fun tasks _ _ => ⟨tasks, rfl⟩
  | cons a l ih =>
    intro tasks hnodup hlive
    obtain ⟨ha, hl⟩ := List.nodup_cons.mp hnodup
    obtain ⟨t, ht⟩ := Option.ne_none_iff_exists'.mp (hlive a List.mem_cons_self)
    obtain ⟨tasks', htasks⟩ := ih (update tasks a none) hl (by
      intro b hb
      have hne : b ≠ a := by
        rintro rfl
        exact ha hb
      rw [Function.update_of_ne hne]
      exact hlive b (List.mem_cons_of_mem a hb))
    exact ⟨tasks', by rw [freeTasks, ht, Option.bind_some, htasks]⟩

/-- What the loop over `gallcolist` leaves. -/
structure Freed (l : List ℕ) (w w' : TaskPool) : Prop where
  inv : w'.co.Inv
  main : w'.co._curco = none
  wrappers : ∀ x ∈ l, w'.wrappers x = none
  freeid : w'.co._freeid.length = w.co._freeid.length + l.length
  cap : w'.co._cap = w.co._cap
  same : ∃ co wrappers, w' = { w with co := co, wrappers := wrappers, gallcolist := [] }

/-- The wrapper of a coroutine that there is. -/
def Owns (w : TaskPool) (x : ℕ) : Prop :=
  ∃ wr i c, w.wrappers x = some wr ∧ wr.co_id = (i : ℕ) ∧ w.co.coAt i = some c ∧ c._data = x

/-- In the main context a coroutine is destroyed, and its id given back. -/
theorem destroy_owned {w : TaskPool} {i : ℕ} {c : Coroutine} (hinv : w.co.Inv)
    (hmain : w.co._curco = none) (hc : w.co.coAt i = some c) :
    ∃ co, w.co.destroy i = some co ∧ w.co.Turns i none co ∧ w.co.GaveBack co := by
  obtain ⟨p, hp, -⟩ := Schedule.Table.slot_of_coAt hc
  have hfrees : w.co.Frees i := by
    refine ⟨?_, Int.natCast_nonneg i, ?_⟩
    · rw [Schedule.curid_main hmain]
      intro he
      have := Option.some.inj he
      omega
    · rw [Int.toNat_natCast, hp]
      exact Option.some_ne_none p
  obtain ⟨q, hq, hdestroy⟩ := hinv.destroy_frees hfrees
  rw [Int.toNat_natCast] at hq hdestroy
  have hother : w.co._curco ≠ some q := by
    rw [hmain]
    exact fun he => by cases he
  obtain ⟨co, hco, hturn⟩ := hinv.release hq hother
  exact ⟨co, hdestroy.trans hco, hturn, Schedule.release_room hco⟩

/-- **The loop over `gallcolist`** destroys the coroutines and frees the wrappers. -/
theorem freeWrappers_defined (l : List ℕ) : ∀ w : TaskPool, w.co.Inv → w.co._curco = none →
    l.Nodup → (∀ x ∈ l, Owns w x) →
    ∃ w', freeWrappers l w = some w' ∧ Freed l w w' ∧
      ∀ x, w.wrappers x = none → w'.wrappers x = none := by
  induction l with
  | nil =>
    intro w hinv hmain _ _
    exact ⟨_, rfl, ⟨hinv, hmain, nofun, rfl, rfl, w.co, w.wrappers, rfl⟩, fun _ h => h⟩
  | cons x l ih =>
    intro w hinv hmain hnodup hown
    obtain ⟨hx, hl⟩ := List.nodup_cons.mp hnodup
    obtain ⟨wr, i, c, hwr, hid, hc, hdata⟩ := hown x List.mem_cons_self
    obtain ⟨co, hco, hturn, hgave⟩ := destroy_owned hinv hmain hc
    obtain ⟨w', hw', hfreed, hgone⟩ :=
      ih { w with co := co, wrappers := update w.wrappers x none } hturn.inv
        (hturn.curco.trans hmain) hl (by
        intro y hy
        have hne : y ≠ x := by
          rintro rfl
          exact hx hy
        obtain ⟨wr', j, d, hwr', hid', hd, hdata'⟩ := hown y (List.mem_cons_of_mem x hy)
        have hij : j ≠ i := by
          rintro rfl
          rw [hc] at hd
          obtain rfl := Option.some.inj hd
          exact hne (hdata'.symm.trans hdata)
        refine ⟨wr', j, d, ?_, hid', ?_, hdata'⟩
        · dsimp only
          rw [Function.update_of_ne hne]
          exact hwr'
        · dsimp only
          rw [hturn.co, Function.update_of_ne hij]
          exact hd)
    refine ⟨w', ?_, ⟨hfreed.inv, hfreed.main, ?_, ?_, hfreed.cap.trans hgave.cap, hfreed.same⟩, ?_⟩
    · rw [freeWrappers, hwr, Option.bind_some, hid, hco, Option.bind_some]
      exact hw'
    · intro y hy
      rcases List.mem_cons.mp hy with rfl | hy
      · exact hgone y (Function.update_self ..)
      · exact hfreed.wrappers y hy
    · have hlen := hfreed.freeid
      have hone := hgave.freeid
      dsimp only at hlen
      rw [List.length_cons]
      omega
    · intro y hy
      apply hgone y
      dsimp only
      rw [Function.update_apply]
      split
      · rfl
      · exact hy

/-- The schedule after `close` and `initEnv` in the main context: it is new but for `_ctx`. -/
theorem close_initEnv {s : Schedule} (h : s.Inv) (hmain : s._curco = none) :
    ∃ s' ctx, s.close = some s' ∧ s'.initEnv =
      { Schedule.start with
        heap := s'.initEnv.heap
        fresh := s'.initEnv.fresh }.initEnv.withCtx ctx := by
  obtain ⟨heap, heq, -⟩ := h.table.freeAll
  have hcur : s.cur = none := (h.control.main hmain).1
  refine ⟨({ s with heap := heap } : Schedule).wipe, s._ctx, ?_, ?_⟩
  · unfold Schedule.close
    rw [if_pos (by rw [hmain]; rfl), heq, Option.map_some]
  · unfold Schedule.wipe Schedule.initEnv Schedule.withCtx
    dsimp only
    rw [hcur]
    rfl

/-- **What a reset leaves.** The wrappers are freed, and those that were free stay in the free
vector; but for these and the list of the thread it is as one that has never run a task. -/
structure ResetTo (w w' : TaskThread) : Prop where
  free : w'.pool.gfreecovec = w.pool.gfreecovec
  freed : ∀ x < w.pool.nwrapper, w'.pool.wrappers x = none
  ctid : w'.ctid = w.ctid
  list : w'._queue_map w'.ctid = (w._queue_map w.ctid).map IntList.clear
  ring : w'.gresumetaskque.Holds [] ∧ w'.gresumetaskque._cap = 1025
  pool : ∃ ctx, w'.pool =
    { w'.neverRan.pool.withCtx ctx with gfreecovec := w.pool.gfreecovec }
  tmp : w'.tmp = none

/-- **What `clrTask` comes to**, before it is asked whether the free ids have found room. -/
structure Cleared (w v : TaskThread) : Prop where
  freed : ∃ tasks, Freed w.pool.gallcolist
    { w.pool with
      store := { w.pool.store with tasks := tasks, gfreetaskvec := [], gworktasklist := [] } } v.pool
  rest : v = { w with
    pool := v.pool
    gresumetaskque := w.gresumetaskque.clear
    _queue_map := update w._queue_map w.ctid ((w._queue_map w.ctid).map IntList.clear) }

theorem Inv.clrTask (h : w.Inv) (hcur : w.pool.co.cur = none) :
    ∃ v, w.clrTask = within (some v) ∧ w.Cleared v := by
  have hinv := h.sound.pool.inv
  have hmain := hinv.co.cur_eq_none_iff.mp hcur
  -- the task objects in the two lists
  have hnodup : (w.pool.store.gfreetaskvec ++ w.pool.store.gworktasklist).Nodup := by
    refine List.nodup_append.mpr ⟨hinv.objects.pool.nodup, hinv.objects.nodup, ?_⟩
    rintro a ha b hb rfl
    exact ((hinv.objects.pool.mem a).mp ha).2 (.inl hb)
  have hlive : ∀ a ∈ w.pool.store.gfreetaskvec ++ w.pool.store.gworktasklist,
      w.pool.store.tasks a ≠ none := by
    intro a ha
    obtain ⟨t, ht⟩ : ∃ t, w.pool.store.tasks a = some t := by
      rcases List.mem_append.mp ha with hfree | hwork
      · exact hinv.objects.alloc a ((hinv.objects.pool.mem a).mp hfree).1
      · exact hinv.objects.work_alloc hwork
    rw [ht]
    exact Option.some_ne_none t
  obtain ⟨tasks, htasks⟩ := freeTasks_defined _ _ hnodup hlive
  -- the wrappers
  let store := { w.pool.store with tasks := tasks, gfreetaskvec := [], gworktasklist := [] }
  have hall := h.sound.pool.listed.all
  obtain ⟨pool, hpool, hfreed, -⟩ :=
    freeWrappers_defined w.pool.gallcolist { w.pool with store := store } hinv.co hmain
      (by rw [hall]; exact List.nodup_range) (by
        intro x hx
        rw [hall, List.mem_range] at hx
        exact hinv.wraps.own x hx)
  refine ⟨{ w with
    pool := pool
    gresumetaskque := w.gresumetaskque.clear
    _queue_map := update w._queue_map w.ctid ((w._queue_map w.ctid).map IntList.clear) }, ?_,
    ⟨tasks, hfreed⟩, rfl⟩
  unfold TaskThread.clrTask
  rw [Schedule.curid_main hmain, Option.bind_some, if_pos rfl, htasks, Option.bind_some]
  dsimp only
  rw [hpool, Option.map_some]

/-- **The free ids find room** when those of all coroutines do. -/
theorem Cleared.fits_iff (h : w.Cleared v) (hfit : w.Fits) :
    v.Fits ↔ w.pool.co._freeid.length + w.pool.gallcolist.length ≤ svectorRoom := by
  obtain ⟨tasks, hfreed⟩ := h.freed
  obtain ⟨co, wrappers, hsame⟩ := hfreed.same
  have hlen := hfreed.freeid
  have hcap := hfreed.cap
  dsimp only at hlen hcap
  obtain ⟨⟨-, hint⟩, -, hfree⟩ := hfit
  have htaskvec : v.pool.store.gfreetaskvec.length = 0 := by
    rw [hsame]
    rfl
  have hcovec : v.pool.gfreecovec = w.pool.gfreecovec := by
    rw [hsame]
  unfold Fits Schedule.Fits
  rw [hlen, hcap, htaskvec, hcovec]
  exact ⟨fun hv => hv.1.1, fun hroom => ⟨⟨hroom, hint⟩, Nat.zero_le _, hfree⟩⟩

/-- **The end of `CoRun`** and the next `initEnv` are defined in the main context when the ids of
all coroutines have room. -/
theorem Inv.reset (h : w.Inv) (hfit : w.Fits) (hcur : w.pool.co.cur = none)
    (hroom : w.pool.co._freeid.length + w.pool.gallcolist.length ≤ svectorRoom) :
    ∃ w', w.reset = some w' ∧ w.ResetTo w' := by
  obtain ⟨v, hclr, hcleared⟩ := h.clrTask hcur
  have hv := (hcleared.fits_iff hfit).mpr hroom
  obtain ⟨tasks, hfreed⟩ := hcleared.freed
  obtain ⟨co, ctx, hclose, hinit⟩ := close_initEnv hfreed.inv hfreed.main
  obtain ⟨xs, hxs⟩ := h.sound.ring
  obtain ⟨hclear, hcap⟩ := hxs.clear
  have hall := h.sound.pool.listed.all
  have hreset : w.reset = some { v with
      pool := { v.pool with co := co.initEnv, pc := fun _ => .start } } := by
    unfold TaskThread.reset TaskThread.close
    rw [hclr, within_eq_some.mpr ⟨rfl, hv⟩, Option.bind_some, hclose, Option.map_some,
      Option.map_some]
  obtain ⟨co', wrappers, hsame⟩ := hfreed.same
  rw [hcleared.rest] at hreset
  refine ⟨_, hreset, ?_, ?_, rfl, Function.update_self .., ⟨hclear, hcap.trans h.sound.cap⟩,
    ⟨ctx, ?_⟩, h.idle hcur⟩
  · dsimp only
    rw [hsame]
  · intro x hx
    have hmem : x ∈ w.pool.gallcolist := by
      rw [hall, List.mem_range]
      exact hx
    exact hfreed.wrappers x hmem
  · have hframe : w.pool.frame = none := h.sound.pool.settled hcur
    unfold neverRan TaskPool.withCtx
    dsimp only
    rw [← hinit, hsame]
    dsimp only
    rw [hframe]

/-- A reset that is defined has found room. -/
theorem Inv.reset_room (h : w.Inv) (hfit : w.Fits) (hcur : w.pool.co.cur = none)
    (hs : w.reset = some w') :
    w.pool.co._freeid.length + w.pool.gallcolist.length ≤ svectorRoom := by
  obtain ⟨v, hclr, hcleared⟩ := h.clrTask hcur
  obtain ⟨u, hu, -⟩ := Option.bind_eq_some_iff.mp hs
  rw [hclr] at hu
  obtain ⟨hvu, hufit⟩ := within_eq_some.mp hu
  rw [← Option.some.inj hvu] at hufit
  exact (hcleared.fits_iff hfit).mp hufit

/-- **A reset that is clean** leaves a thread that is seen as one that has never run a task. -/
theorem ResetTo.like (h : w.ResetTo w') (hfree : w.pool.gfreecovec = [])
    (hlist : ∀ l, w._queue_map w.ctid = some l → l.nodes = [] ∧ l.stale = false) :
    w'.neverRan.Like w' := by
  obtain ⟨ctx, hpool⟩ := h.pool
  have hpool' : w'.pool = w'.neverRan.pool.withCtx ctx := by
    rw [hpool, hfree]
    rfl
  refine ⟨?_, rfl, ⟨[], .new 1024, h.ring.1, h.ring.2.symm⟩, ?_, h.tmp.symm⟩
  · rw [hpool']
    exact .main ctx rfl
  · intro t
    unfold neverRan
    dsimp only
    rw [Function.update_apply]
    split
    · rename_i ht
      rw [ht, h.list]
      cases hl : w._queue_map w.ctid with
      | none => rfl
      | some l =>
        obtain ⟨hnodes, hstale⟩ := hlist l hl
        rw [Option.map_some, Option.getD_some, IntList.clear, hnodes, hstale]
        rfl
    · rfl

theorem neverRan_fits (w : TaskThread) : w.neverRan.Fits :=
  ⟨⟨Nat.zero_le _, show DEFAULT_COROUTINE < 2 ^ 31 by decide⟩, Nat.zero_le _, Nat.zero_le _⟩

/-- A list that has been cleared of an id writes to a freed node. -/
theorem ResetTo.stale (h : w.ResetTo w') {l : IntList} (hl : w._queue_map w.ctid = some l)
    (hne : l.nodes ≠ []) :
    w'.behaviour [.addThrResume w'.ctid 0] ≠ w'.neverRan.behaviour [.addThrResume w'.ctid 0] := by
  have hclear : l.clear.stale = true := by
    unfold IntList.clear
    cases hnodes : l.nodes with
    | nil => exact absurd hnodes hne
    | cons a rest => exact Bool.or_true _
  have hbad : w'.step (.addThrResume w'.ctid 0) = none := by
    unfold TaskThread.step TaskThread.act addThrResume
    dsimp only
    rw [h.list, hl, Option.map_some, Option.getD_some, IntList.push_back, if_pos hclear]
    rfl
  have hgood : ∃ v, w'.neverRan.step (.addThrResume w'.ctid 0) = some v := by
    unfold TaskThread.step TaskThread.act addThrResume
    have hnone : w'.neverRan._queue_map w'.ctid = none := Function.update_self ..
    dsimp only
    rw [hnone, Option.getD_none]
    exact ⟨_, within_eq_some.mpr ⟨rfl, w'.neverRan_fits⟩⟩
  obtain ⟨v, hv⟩ := hgood
  unfold TaskThread.behaviour
  rw [trace, hbad, trace, hv]
  nofun

/-- **The reset is clean exactly** when no coroutine is parked, no id waits in the list of the
thread, and `_freeid` has room for the ids of all coroutines. -/
theorem reset_clean_iff {ctid : ℕ} (hr : Reach TaskThread.step always (.start ctid) w)
    (hcur : w.pool.co.cur = none) :
    (∃ w', w.reset = some w' ∧ w'.Clean) ↔
      w.pool.gfreecovec = [] ∧ (∀ l, w._queue_map w.ctid = some l → l.nodes = []) ∧
        w.pool.co._freeid.length + w.pool.gallcolist.length ≤ svectorRoom := by
  obtain ⟨h, hfit⟩ := Inv.reach hr
  constructor
  · rintro ⟨w', hw', hclean⟩
    have hroom := h.reset_room hfit hcur hw'
    obtain ⟨w₁, hreset, hto⟩ := h.reset hfit hcur hroom
    rw [hw'] at hreset
    obtain rfl := Option.some.inj hreset
    refine ⟨?_, ?_, hroom⟩
    · by_contra hne
      obtain ⟨x, hx⟩ := List.exists_mem_of_ne_nil _ hne
      have hlt : x < w.pool.nwrapper := ((h.sound.pool.inv.wraps.pool.mem x).mp hx).1
      refine hclean.wrappers x ?_ (hto.freed x hlt)
      rw [hto.free]
      exact List.mem_append_left _ hx
    · intro l hl
      by_contra hne
      exact hto.stale hl hne (hclean.same _)
  · rintro ⟨hfree, hlist, hroom⟩
    obtain ⟨w', hreset, hto⟩ := h.reset hfit hcur hroom
    have hlike := hto.like hfree fun l hl => ⟨hlist l hl, h.sound.lists _ l hl⟩
    obtain ⟨ctx, hpool⟩ := hto.pool
    have hstore : w'.pool.store.gfreetaskvec ++ w'.pool.store.gworktasklist = [] := by
      rw [hpool]
      rfl
    have hlists : w'.pool.gfreecovec ++ w'.pool.gallcolist = [] := by
      rw [hpool, hfree]
      rfl
    refine ⟨w', hreset, ?_, ?_, ⟨?_, ?_⟩, fun ops => (hlike.behaviour ops).symm⟩
    · rw [hstore]
      exact fun _ ha => by cases ha
    · rw [hlists]
      exact fun _ hx => by cases hx
    · rw [hto.ring.1.empty_eq]
      rfl
    · intro l hl
      rw [hto.list] at hl
      obtain ⟨m, -, rfl⟩ := Option.map_eq_some_iff.mp hl
      rfl

/-- One task has yielded, and another one waits. -/
theorem reset_clean_iff_yielded : ∃ w : TaskThread, w.pool.gfreecovec = [] ∧
    ((∃ w', w.reset = some w' ∧ w'.Clean) ↔
      w.pool.gfreecovec = [] ∧ (∀ l, w._queue_map w.ctid = some l → l.nodes = []) ∧
        w.pool.co._freeid.length + w.pool.gallcolist.length ≤ svectorRoom) := by
  have hrun : (([.task (.doTaskOf 1 2), .task .taskYield, .task (.addTask 3 4)].foldlM
      TaskThread.step (start 7)).map fun w =>
        decide (w.pool.gfreecovec = [] ∧ w.pool.co.cur = none)) = some true := by
    decide +kernel
  obtain ⟨w, hw, hout⟩ := Option.map_eq_some_iff.mp hrun
  obtain ⟨hfree, hcur⟩ := of_decide_eq_true hout
  exact ⟨w, hfree, reset_clean_iff (Reach.of_foldlM (fun _ _ _ => trivial) hw) hcur⟩

/-- **A task has returned**, and its coroutine is parked. After the reset the first task is given
the freed wrapper. -/
theorem not_reset_clean : ¬ ∀ ctid w, Reach TaskThread.step always (.start ctid) w →
    w.pool.co.cur = none → ∃ w', w.reset = some w' ∧ w'.Clean := by
  intro h
  have hrun : (([.task (.doTaskOf 1 2), .task .taskReturn].foldlM TaskThread.step
      (start 7)).bind fun w => w.reset.map fun w' =>
        decide (w.pool.co.cur = none ∧ w'.behaviour [.task (.doTaskOf 1 2)] = none ∧
          w'.neverRan.behaviour [.task (.doTaskOf 1 2)] =
            some [⟨false, some 0, [(1, 2), (1, 2)]⟩])) = some true := by
    decide +kernel
  obtain ⟨w, hw, hout⟩ := Option.bind_eq_some_iff.mp hrun
  obtain ⟨w', hw', hout⟩ := Option.map_eq_some_iff.mp hout
  obtain ⟨hcur, hreset, hnever⟩ := of_decide_eq_true hout
  obtain ⟨w₁, hw₁, hclean⟩ := h 7 w (Reach.of_foldlM (fun _ _ _ => trivial) hw) hcur
  rw [hw'] at hw₁
  obtain rfl := Option.some.inj hw₁
  have hsame := hclean.same [.task (.doTaskOf 1 2)]
  rw [hreset, hnever] at hsame
  cases hsame

end TaskThread

end Netlib
