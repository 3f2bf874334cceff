import Netlib.Proof.Coroutine
import Netlib.Spec.CoTask
import Mathlib.Data.List.Perm.Basic

/-!
# The task pool runs every task once

The task objects and the wrappers are two pools: a task object is in use while it waits or is
held by a coroutine (`Objects`), a wrapper while its coroutine is inside a task (`Wrappers`).
A coroutine of the pool is parked or inside a task whenever code of the user runs. The lists
of tasks then fit together (`Log`).
-/

namespace Netlib

open Function (update)
open Lib

namespace TaskStore

variable {s : TaskStore} {held held' : ℕ → Prop} {loose : Option ℕ} {a : ℕ} {t : CoTask}

/-- The task objects, as a pool. -/
def objects (s : TaskStore) : Pool := ⟨s.ntask, s.gfreetaskvec⟩

/-- The task objects in use are those in the work list, in the local variable of `doTask`
(`loose`) and in the hands of the coroutines (`held`), each in one place. -/
structure Objects (s : TaskStore) (held : ℕ → Prop) (loose : Option ℕ) : Prop where
  pool : s.objects.Serves fun a =>
    a ∈ s.gworktasklist ∨ loose = some a ∨ held a
  alloc : ∀ a, a < s.ntask → ∃ t, s.tasks a = some t
  nodup : s.gworktasklist.Nodup
  work : ∀ a ∈ s.gworktasklist, loose ≠ some a ∧ ¬ held a
  loose : ∀ a, loose = some a → ¬ held a

theorem Objects.held_alloc (h : s.Objects held loose) (ha : held a) : ∃ t, s.tasks a = some t :=
  h.alloc a (h.pool.below a (.inr (.inr ha)))

theorem Objects.work_alloc (h : s.Objects held loose) (ha : a ∈ s.gworktasklist) :
    ∃ t, s.tasks a = some t :=
  h.alloc a (h.pool.below a (.inl ha))

/-- What `newTask` leaves. -/
structure Made (s : TaskStore) (t : CoTask) (a : ℕ) (s' : TaskStore) : Prop where
  tasks : s'.tasks = update s.tasks a (some t)
  work : s'.gworktasklist = s.gworktasklist
  submitted : s'.submitted = s.submitted ++ [t]
  returned : s'.returned = s.returned
  fresh : a ∉ s.gworktasklist

section Made

variable {s' : TaskStore}

theorem Made.new_task (h : s.Made t a s') : s'.tasks a = some t := by
  rw [h.tasks, Function.update_self]

theorem Made.old_task (h : s.Made t a s') {b : ℕ} (hb : b ≠ a) : s'.tasks b = s.tasks b := by
  rw [h.tasks, Function.update_of_ne hb]

theorem Made.waiting (h : s.Made t a s') : s'.waiting = s.waiting := by
  unfold TaskStore.waiting
  rw [h.work]
  apply List.filterMap_congr
  intro b hb
  apply h.old_task
  rintro rfl
  exact h.fresh hb

theorem Made.waiting_push (h : s.Made t a s') :
    { s' with gworktasklist := s'.gworktasklist ++ [a] }.waiting = s.waiting ++ [t] := by
  rw [← h.waiting]
  unfold TaskStore.waiting
  dsimp only
  rw [List.filterMap_append]
  simp [h.new_task]

end Made

theorem Objects.take_unused (h : s.Objects held none) :
    s.objects.take.1 ∉ s.gworktasklist ∧ ¬ held s.objects.take.1 := by
  have hnot := h.pool.not_live_take
  exact ⟨fun hm => hnot (.inl hm), fun hm => hnot (.inr (.inr hm))⟩

/-- The next object of the pool is in the local variable. -/
theorem Objects.made {s' : TaskStore} (h : s.Objects held none)
    (hm : s.Made t s.objects.take.1 s') (hp : s'.objects = s.objects.take.2) :
    s'.Objects held (some s.objects.take.1) := by
  obtain ⟨hwork, hheld⟩ := h.take_unused
  have hserves := h.pool.take
  rw [← hp] at hserves
  refine ⟨hserves.congr ?_, ?_, by rw [hm.work]; exact h.nodup, ?_, ?_⟩
  · intro b
    rw [Option.some_inj, hm.work]
    constructor
    · rintro (hb | hb | hb)
      · exact .inr (.inl hb)
      · exact .inl hb.symm
      · exact .inr (.inr (.inr hb))
    · rintro (hb | hb | hb | hb)
      · exact .inr (.inl hb.symm)
      · exact .inl hb
      · cases hb
      · exact .inr (.inr hb)
  · intro b hb
    rw [hm.tasks, Function.update_apply]
    split
    · exact ⟨t, rfl⟩
    · rename_i hne
      have htop : s'.ntask = s.objects.take.2.top := congrArg Pool.top hp
      rw [htop] at hb
      exact h.alloc b (Pool.lt_top_of_take hb hne)
  · intro b hb
    rw [hm.work] at hb
    refine ⟨?_, (h.work b hb).2⟩
    intro he
    rw [Option.some.inj he] at hwork
    exact hwork hb
  · intro b he
    rw [← Option.some.inj he]
    exact hheld

/-- **A task object** comes from the free vector or is new, and nobody has it. -/
theorem Objects.newTask (h : s.Objects held none) (func p : ℕ) (queued : Bool) :
    ∃ s' a, s.newTask func p queued = some (s', a) ∧ s'.Objects held (some a) ∧
      s.Made ⟨func, p, s.submitted.length, queued⟩ a s' ∧ ¬ held a := by
  obtain ⟨hwork, hheld⟩ := h.take_unused
  have hmade : ∀ s', s.Made ⟨func, p, s.submitted.length, queued⟩ s.objects.take.1 s' →
      s'.objects = s.objects.take.2 → s'.Objects held (some s.objects.take.1) :=
    fun _ => h.made
  unfold TaskStore.newTask
  cases hf : s.gfreetaskvec with
  | cons a rest =>
    have htake : s.objects.take = (a, ⟨s.ntask, rest⟩) := by
      unfold objects Pool.take
      rw [hf]
    have hlt : a < s.ntask := by
      have hmem : a ∈ s.objects.free := by
        unfold objects
        rw [hf]
        exact List.mem_cons_self
      exact ((h.pool.mem a).mp hmem).1
    obtain ⟨t, ht⟩ := h.alloc a hlt
    rw [htake] at hwork hheld hmade
    dsimp only
    rw [ht, Option.map_some]
    let s' : TaskStore := { s with
      gfreetaskvec := rest
      tasks := update s.tasks a (some ⟨func, p, s.submitted.length, queued⟩)
      submitted := s.submitted ++ [⟨func, p, s.submitted.length, queued⟩] }
    have hm : s.Made ⟨func, p, s.submitted.length, queued⟩ a s' := ⟨rfl, rfl, rfl, rfl, hwork⟩
    exact ⟨s', a, rfl, hmade s' hm rfl, hm, hheld⟩
  | nil =>
    have htake : s.objects.take = (s.ntask, ⟨s.ntask + 1, []⟩) := by
      unfold objects Pool.take
      rw [hf]
    rw [htake] at hwork hheld hmade
    let s' : TaskStore := { s with
      gfreetaskvec := []
      ntask := s.ntask + 1
      tasks := update s.tasks s.ntask (some ⟨func, p, s.submitted.length, queued⟩)
      submitted := s.submitted ++ [⟨func, p, s.submitted.length, queued⟩] }
    have hm : s.Made ⟨func, p, s.submitted.length, queued⟩ s.ntask s' :=
      ⟨rfl, rfl, rfl, rfl, hwork⟩
    exact ⟨s', s.ntask, rfl, hmade s' hm rfl, hm, hheld⟩

theorem Objects.congr (h : s.Objects held loose) (hheld : ∀ a, held' a ↔ held a) :
    s.Objects held' loose := by
  obtain rfl : held' = held := funext fun a => propext (hheld a)
  exact h

/-- The object joins the work list. -/
theorem Objects.enqueue (h : s.Objects held (some a)) (ha : a ∉ s.gworktasklist) :
    { s with gworktasklist := s.gworktasklist ++ [a] }.Objects held none := by
  have hmem : ∀ b, b ∈ s.gworktasklist ++ [a] ↔ b ∈ s.gworktasklist ∨ b = a := by
    intro b
    rw [List.mem_append, List.mem_singleton]
  refine ⟨h.pool.congr ?_, h.alloc, ?_, ?_, ?_⟩
  · intro b
    dsimp only
    rw [hmem, Option.some_inj]
    constructor
    · rintro ((hb | hb) | hb | hb)
      · exact .inl hb
      · exact .inr (.inl hb.symm)
      · cases hb
      · exact .inr (.inr hb)
    · rintro (hb | hb | hb)
      · exact .inl (.inl hb)
      · exact .inl (.inr hb.symm)
      · exact .inr (.inr hb)
  · refine List.nodup_append.mpr ⟨h.nodup, List.nodup_singleton a, ?_⟩
    rintro b hb c hc rfl
    rw [List.mem_singleton] at hc
    exact ha (hc ▸ hb)
  · intro b hb
    refine ⟨(Option.some_ne_none b).symm, ?_⟩
    rcases (hmem b).mp hb with hold | rfl
    · exact (h.work b hold).2
    · exact h.loose b rfl
  · intro b hb
    cases hb

/-- `_get_task` takes the front of the work list. -/
theorem Objects.dequeue {rest : List ℕ} (h : s.Objects held none)
    (hw : s.gworktasklist = a :: rest) :
    { s with gworktasklist := rest }.Objects held (some a) := by
  have hnodup : a ∉ rest ∧ rest.Nodup := List.nodup_cons.mp (hw ▸ h.nodup)
  have hmem : ∀ b, b ∈ s.gworktasklist ↔ b = a ∨ b ∈ rest := by
    intro b
    rw [hw, List.mem_cons]
  refine ⟨h.pool.congr ?_, h.alloc, hnodup.2, ?_, ?_⟩
  · intro b
    dsimp only
    rw [hmem, Option.some_inj]
    constructor
    · rintro (hb | hb | hb)
      · exact .inl (.inr hb)
      · exact .inl (.inl hb.symm)
      · exact .inr (.inr hb)
    · rintro ((hb | hb) | hb | hb)
      · exact .inr (.inl hb.symm)
      · exact .inl hb
      · cases hb
      · exact .inr (.inr hb)
  · intro b hb
    refine ⟨?_, (h.work b ((hmem b).mpr (.inr hb))).2⟩
    intro he
    rw [Option.some.inj he] at hnodup
    exact hnodup.1 hb
  · intro b hb
    rw [← Option.some.inj hb]
    exact (h.work a ((hmem a).mpr (.inl rfl))).2

/-- A coroutine takes the object over. -/
theorem Objects.hold (h : s.Objects held (some a)) :
    s.Objects (fun b => b = a ∨ held b) none := by
  refine ⟨h.pool.congr ?_, h.alloc, h.nodup, ?_, ?_⟩
  · intro b
    rw [Option.some_inj]
    constructor
    · rintro (hb | hb | hb | hb)
      · exact .inl hb
      · cases hb
      · exact .inr (.inl hb.symm)
      · exact .inr (.inr hb)
    · rintro (hb | hb | hb)
      · exact .inl hb
      · exact .inr (.inr (.inl hb.symm))
      · exact .inr (.inr (.inr hb))
  · intro b hb
    have hplace := h.work b hb
    refine ⟨(Option.some_ne_none b).symm, ?_⟩
    rintro (rfl | hheld)
    · exact hplace.1 rfl
    · exact hplace.2 hheld
  · intro b hb
    cases hb

/-- **The end of a task**: its object goes back to the free vector. -/
theorem Objects.pushFree (h : s.Objects held none) (ha : held a) :
    ∃ s' t, s.pushFree a = some s' ∧ s'.Objects (fun b => b ≠ a ∧ held b) none ∧
      s.tasks a = some t ∧ s'.tasks = s.tasks ∧ s'.gworktasklist = s.gworktasklist ∧
      s'.submitted = s.submitted ∧ s'.returned = s.returned ++ [t] := by
  obtain ⟨t, ht⟩ := h.held_alloc ha
  refine ⟨_, t, congrArg (Option.map _) ht, ⟨?_, h.alloc, h.nodup, ?_, ?_⟩, ht, rfl, rfl, rfl, rfl⟩
  · refine Pool.Serves.congr (h.pool.give (.inr (.inr ha))) ?_
    intro b
    constructor
    · rintro (hb | hb | ⟨hne, hb⟩)
      · refine ⟨?_, .inl hb⟩
        rintro rfl
        exact (h.work b hb).2 ha
      · cases hb
      · exact ⟨hne, .inr (.inr hb)⟩
    · rintro ⟨hne, hb | hb | hb⟩
      · exact .inl hb
      · cases hb
      · exact .inr (.inr ⟨hne, hb⟩)
  · intro b hb
    exact ⟨(Option.some_ne_none b).symm, fun hheld => (h.work b hb).2 hheld.2⟩
  · intro b hb
    cases hb

end TaskStore

namespace TaskPool

variable {w w' : TaskPool} {i a : ℕ} {t : CoTask} {c : Coroutine}

/-! ## The wrappers -/

/-- The wrappers, as a pool. -/
def wrapperPool (w : TaskPool) : Pool := ⟨w.nwrapper, w.gfreecovec⟩

/-- The wrapper of a coroutine that is inside a task. -/
def Busy (w : TaskPool) (wrapper : ℕ) : Prop :=
  ∃ i c a, w.co.coAt i = some c ∧ c._data = wrapper ∧ w.pc i = .inTask a

/-- Each wrapper has its coroutine, and each coroutine its wrapper, which is free exactly when
the coroutine is parked. -/
structure Wrappers (w : TaskPool) : Prop where
  pool : w.wrapperPool.Serves w.Busy
  alloc : ∀ x wr, w.wrappers x = some wr → x < w.nwrapper
  own : ∀ x, x < w.nwrapper → ∃ wr i c, w.wrappers x = some wr ∧ wr.co_id = (i : ℕ) ∧
    w.co.coAt i = some c ∧ c._data = x
  back : ∀ i c, w.co.coAt i = some c → c._data < w.nwrapper ∧
    ∃ wr, w.wrappers c._data = some wr ∧ wr.co_id = (i : ℕ)
  state : ∀ i c, w.co.coAt i = some c → (w.pc i = .parked ∧ c._status = .suspend) ∨
    ∃ a, w.pc i = .inTask a ∧ (c._status = .running ∨ c._status = .suspend)
  absent : ∀ i, w.co.coAt i = none → w.pc i = .start

theorem Wrappers.data_inj (h : w.Wrappers) {j : ℕ} {d : Coroutine} (hi : w.co.coAt i = some c)
    (hj : w.co.coAt j = some d) (hd : d._data = c._data) : j = i := by
  obtain ⟨-, wr, hwr, hid⟩ := h.back i c hi
  obtain ⟨-, wr', hwr', hid'⟩ := h.back j d hj
  rw [hd, hwr] at hwr'
  obtain rfl := Option.some.inj hwr'
  rw [hid] at hid'
  exact (Int.ofNat.inj hid').symm

/-- The task objects and the local variable of `doTask` have no part in it. -/
theorem Wrappers.with_store (h : w.Wrappers) (s : TaskStore) (f : Option TaskLocal) :
    { w with store := s, frame := f }.Wrappers :=
  ⟨h.pool, h.alloc, h.own, h.back, h.state, h.absent⟩

section Turn

variable {co : Schedule} {status : CoStatus}

/-- A coroutine after a change of status is one from before, with the same wrapper. -/
theorem turn_old (hc : w.co.coAt i = some c)
    (hco : co.coAt = update w.co.coAt i (some { c with _status := status })) {j : ℕ}
    {d : Coroutine} (hd : co.coAt j = some d) : ∃ d', w.co.coAt j = some d' ∧
      d'._data = d._data ∧ ((j = i ∧ d._status = status) ∨ (j ≠ i ∧ d' = d)) := by
  rw [hco, Function.update_apply] at hd
  split at hd
  · rename_i hj
    rw [← Option.some.inj hd, hj]
    exact ⟨c, hc, rfl, .inl ⟨rfl, rfl⟩⟩
  · rename_i hj
    exact ⟨d, hd, rfl, .inr ⟨hj, rfl⟩⟩

/-- And one from before is still there. -/
theorem turn_new (hc : w.co.coAt i = some c)
    (hco : co.coAt = update w.co.coAt i (some { c with _status := status })) {j : ℕ}
    {d : Coroutine} (hd : w.co.coAt j = some d) :
    ∃ d', co.coAt j = some d' ∧ d'._data = d._data := by
  rw [hco, Function.update_apply]
  split
  · rename_i hj
    rw [hj, hc] at hd
    rw [← Option.some.inj hd]
    exact ⟨_, rfl, rfl⟩
  · exact ⟨d, hd, rfl⟩

theorem turn_none (hco : co.coAt = update w.co.coAt i (some { c with _status := status }))
    {j : ℕ} (hj : co.coAt j = none) : w.co.coAt j = none := by
  rw [hco, Function.update_apply] at hj
  split at hj
  · cases hj
  · exact hj

/-- The coroutine `i` goes on inside its task, or yields there. -/
theorem Wrappers.turn (h : w.Wrappers) (hc : w.co.coAt i = some c) (hpc : w.pc i = .inTask a)
    (hst : status = .running ∨ status = .suspend)
    (hco : co.coAt = update w.co.coAt i (some { c with _status := status })) :
    { w with co := co }.Wrappers := by
  refine ⟨h.pool.congr ?_, h.alloc, ?_, ?_, ?_, ?_⟩
  · intro x
    constructor
    · rintro ⟨j, d, b, hd, hx, hb⟩
      obtain ⟨d', hd', hdat, -⟩ := turn_old hc hco hd
      exact ⟨j, d', b, hd', hdat.trans hx, hb⟩
    · rintro ⟨j, d, b, hd, hx, hb⟩
      obtain ⟨d', hd', hdat⟩ := turn_new hc hco hd
      exact ⟨j, d', b, hd', hdat.trans hx, hb⟩
  · intro x hx
    obtain ⟨wr, j, d, hwr, hid, hd, hdx⟩ := h.own x hx
    obtain ⟨d', hd', hdat⟩ := turn_new hc hco hd
    exact ⟨wr, j, d', hwr, hid, hd', hdat.trans hdx⟩
  · intro j d hd
    obtain ⟨d', hd', hdat, -⟩ := turn_old hc hco hd
    rw [← hdat]
    exact h.back j d' hd'
  · intro j d hd
    obtain ⟨d', hd', -, ⟨rfl, hs⟩ | ⟨-, rfl⟩⟩ := turn_old hc hco hd
    · exact .inr ⟨a, hpc, by rw [hs]; exact hst⟩
    · exact h.state j d' hd'
  · intro j hj
    exact h.absent j (turn_none hco hj)

end Turn

/-- **The end of a task**: its wrapper is free and its coroutine, which has yielded, parked. -/
theorem Wrappers.park (h : w.Wrappers) (hc : w.co.coAt i = some c) (hst : c._status = .suspend)
    (hpc : w.pc i = .inTask a) :
    { w with gfreecovec := c._data :: w.gfreecovec, pc := update w.pc i .parked }.Wrappers := by
  have hbusy : w.Busy c._data := ⟨i, c, a, hc, rfl, hpc⟩
  refine ⟨Pool.Serves.congr (h.pool.give hbusy) ?_, h.alloc, h.own, h.back, ?_, ?_⟩
  · intro x
    constructor
    · rintro ⟨j, d, b, hd, hx, hb⟩
      dsimp only at hd hb
      rw [Function.update_apply] at hb
      split at hb
      · cases hb
      · rename_i hji
        refine ⟨?_, j, d, b, hd, hx, hb⟩
        intro hxc
        exact hji (h.data_inj hc hd (hx.trans hxc))
    · rintro ⟨hne, j, d, b, hd, hx, hb⟩
      refine ⟨j, d, b, hd, hx, ?_⟩
      dsimp only
      rw [Function.update_of_ne]
      · exact hb
      · rintro rfl
        rw [hc] at hd
        rw [Option.some.inj hd] at hne
        exact hne hx.symm
  · intro j d hd
    dsimp only at hd ⊢
    rw [Function.update_apply]
    split
    · rename_i hj
      rw [hj, hc] at hd
      rw [← Option.some.inj hd]
      exact .inl ⟨rfl, hst⟩
    · exact h.state j d hd
  · intro j hj
    dsimp only at hj ⊢
    rw [Function.update_of_ne]
    · exact h.absent j hj
    · rintro rfl
      rw [hc] at hj
      cases hj

/-! ## The start of a task -/

/-- After `_get_co_task_wrapper` in the main context: the wrapper has the coroutine `i`, which
is parked or new. -/
structure Ready (w : TaskPool) (x i : ℕ) (c : Coroutine) (w' : TaskPool) : Prop where
  inv : w'.co.Inv
  opened : w'.co._co.isSome
  main : w'.co._curco = none
  co : w'.co.coAt = update w.co.coAt i (some c)
  data : c._data = x
  wrappers : w'.wrappers = update w.wrappers x (some ⟨i, none⟩)
  take : w.wrapperPool.take = (x, w'.wrapperPool)
  pc : ∀ j, j ≠ i → w'.pc j = w.pc j
  out : ∀ b, w'.pc i ≠ .inTask b
  old : ∀ b, w.pc i ≠ .inTask b
  mine : ∀ d, w.co.coAt i = some d → d._data = x
  others : ∀ j d, j ≠ i → w.co.coAt j = some d → d._data ≠ x
  store : w'.store = w.store
  started : w'.started = w.started

/-- A wrapper from the free vector. -/
theorem Wrappers.get_free (h : w.Wrappers) (hinv : w.co.Inv) (hopen : w.co._co.isSome)
    (hmain : w.co._curco = none) {x : ℕ} {rest : List ℕ} (hf : w.gfreecovec = x :: rest) :
    ∃ w' i c, w._get_co_task_wrapper = some (w', x) ∧ w.Ready x i c w' := by
  have hmem : x ∈ w.wrapperPool.free := by
    unfold wrapperPool
    rw [hf]
    exact List.mem_cons_self
  obtain ⟨hlt, hidle⟩ := (h.pool.mem x).mp hmem
  obtain ⟨wr, i, c, hwr, hid, hc, hdata⟩ := h.own x hlt
  have hparked : w.pc i = .parked := by
    rcases h.state i c hc with ⟨hp, -⟩ | ⟨b, hb, -⟩
    · exact hp
    · exact absurd ⟨i, c, b, hc, hdata, hb⟩ hidle
  have hout : ∀ b, w.pc i ≠ .inTask b := by
    intro b hb
    rw [hparked] at hb
    cases hb
  unfold _get_co_task_wrapper
  rw [hf]
  dsimp only
  rw [hwr, Option.map_some]
  refine ⟨_, i, c, rfl, hinv, hopen, hmain, ?_, hdata, ?_, ?_, fun _ _ => rfl, hout, hout,
    ?_, ?_, rfl, rfl⟩
  · rw [← hc, Function.update_eq_self]
  · rw [hid]
  · unfold wrapperPool Pool.take
    rw [hf]
  · intro d hd
    rw [hc] at hd
    rw [← Option.some.inj hd]
    exact hdata
  · intro j d hj hd hx
    exact hj (h.data_inj hc hd (hx.trans hdata.symm))

/-- A new wrapper with a new coroutine. -/
theorem Wrappers.get_new (h : w.Wrappers) (hinv : w.co.Inv) (hopen : w.co._co.isSome)
    (hmain : w.co._curco = none) (hf : w.gfreecovec = []) :
    ∃ w' i c, w._get_co_task_wrapper = some (w', w.nwrapper) ∧ w.Ready w.nwrapper i c w' := by
  obtain ⟨i, co, hco, hnew, hturn⟩ := hinv.alloc hopen _co_task_func_ w.nwrapper
  have hcreate : w.co.create _co_task_func_ w.nwrapper = some (co, (i : ℤ)) := by
    unfold Schedule.create
    obtain ⟨tab, htab⟩ := Option.isSome_iff_exists.mp hopen
    rw [htab]
    dsimp only
    rw [hco, Option.map_some]
  have hpc : w.pc i = .start := h.absent i hnew
  unfold _get_co_task_wrapper
  rw [hf]
  dsimp only
  rw [hcreate, Option.map_some]
  refine ⟨_, i, _, rfl, hturn.inv, ?_, ?_, hturn.co, rfl, rfl, ?_, ?_, ?_, ?_, ?_, ?_, rfl, rfl⟩
  · rw [hturn.opened, hopen]
  · rw [hturn.curco, hmain]
  · unfold wrapperPool Pool.take
    rw [hf]
  · intro j hj
    dsimp only
    rw [if_neg (by omega), Int.toNat_natCast, Function.update_of_ne hj]
  · intro b hb
    dsimp only at hb
    rw [if_neg (by omega), Int.toNat_natCast, Function.update_self] at hb
    cases hb
  · intro b hb
    rw [hpc] at hb
    cases hb
  · intro d hd
    rw [hnew] at hd
    cases hd
  · intro j d _ hd hx
    have hlt := (h.back j d hd).1
    omega

theorem Wrappers.get (h : w.Wrappers) (hinv : w.co.Inv) (hopen : w.co._co.isSome)
    (hmain : w.co._curco = none) :
    ∃ w' x i c, w._get_co_task_wrapper = some (w', x) ∧ w.Ready x i c w' := by
  cases hf : w.gfreecovec with
  | cons x rest =>
    obtain ⟨w', i, c, hget, hr⟩ := h.get_free hinv hopen hmain hf
    exact ⟨w', x, i, c, hget, hr⟩
  | nil =>
    obtain ⟨w', i, c, hget, hr⟩ := h.get_new hinv hopen hmain hf
    exact ⟨w', w.nwrapper, i, c, hget, hr⟩

/-- What the start of a task leaves: the task is in the hands of the coroutine `i`. -/
structure Launched (w : TaskPool) (a : ℕ) (t : CoTask) (w' : TaskPool) : Prop where
  inv : w'.co.Inv
  opened : w'.co._co.isSome
  wraps : w'.Wrappers
  pc : ∃ i, w'.pc = update w.pc i (.inTask a) ∧ ∀ b, w.pc i ≠ .inTask b
  store : w'.store = w.store
  started : w'.started = w.started ++ [t]

/-- The wrapper `x` is in use, and otherwise those from before. -/
theorem Ready.busy_iff {x y : ℕ} {w₁ : TaskPool} (hr : w.Ready x i c w₁)
    (hco : w'.co.coAt = update w.co.coAt i (some { c with _status := .running }))
    (hpc : w'.pc = update w.pc i (.inTask a)) : w'.Busy y ↔ y = x ∨ w.Busy y := by
  unfold Busy
  rw [hco, hpc]
  constructor
  · rintro ⟨j, d, b, hd, hy, hb⟩
    by_cases hj : j = i
    · rw [hj, Function.update_self] at hd
      rw [← Option.some.inj hd] at hy
      exact .inl (hy.symm.trans hr.data)
    · rw [Function.update_of_ne hj] at hd hb
      exact .inr ⟨j, d, b, hd, hy, hb⟩
  · rintro (rfl | ⟨j, d, b, hd, hy, hb⟩)
    · exact ⟨i, _, a, Function.update_self .., hr.data, Function.update_self ..⟩
    · have hj : j ≠ i := by
        rintro rfl
        exact hr.old b hb
      refine ⟨j, d, b, ?_, hy, ?_⟩
      · rw [Function.update_of_ne hj]
        exact hd
      · rw [Function.update_of_ne hj]
        exact hb

theorem Ready.wrappers_launched {x : ℕ} {w₁ : TaskPool} (h : w.Wrappers) (hr : w.Ready x i c w₁)
    (addr : ℕ) (hco : w'.co.coAt = update w.co.coAt i (some { c with _status := .running }))
    (hw : w'.wrappers = update w.wrappers x (some ⟨i, addr⟩))
    (hpool : w'.wrapperPool = w.wrapperPool.take.2)
    (hpc : w'.pc = update w.pc i (.inTask a)) : w'.Wrappers := by
  have hx : w.wrapperPool.take.1 = x := by
    rw [hr.take]
  have hserves := h.pool.take
  rw [hx, ← hpool] at hserves
  have hself : w'.co.coAt i = some { c with _status := .running } := by
    rw [hco, Function.update_self]
  have hother : ∀ j, j ≠ i → w'.co.coAt j = w.co.coAt j := by
    intro j hj
    rw [hco, Function.update_of_ne hj]
  have hlive : w'.wrapperPool.Serves w'.Busy := hserves.congr fun _ => hr.busy_iff hco hpc
  have htop : w'.nwrapper = w.wrapperPool.take.2.top := by
    rw [← hpool]
    rfl
  have hle : w.nwrapper ≤ w'.nwrapper := by
    rw [htop]
    exact Pool.top_le_take (p := w.wrapperPool)
  have hxlt : x < w'.nwrapper := hserves.below x (.inl rfl)
  refine ⟨hlive, ?_, ?_, ?_, ?_, ?_⟩
  · intro y wr hy
    by_cases hyx : y = x
    · rw [hyx]
      exact hxlt
    · rw [hw, Function.update_of_ne hyx] at hy
      have hlt := h.alloc y wr hy
      omega
  · intro y hy
    by_cases hyx : y = x
    · rw [hyx, hw, Function.update_self]
      exact ⟨_, i, _, rfl, rfl, hself, hr.data⟩
    · rw [htop] at hy
      have hlt : y < w.nwrapper := Pool.lt_top_of_take hy (by rw [hx]; exact hyx)
      obtain ⟨wr, j, d, hwr, hid, hd, hdy⟩ := h.own y hlt
      have hj : j ≠ i := by
        rintro rfl
        exact hyx (hdy.symm.trans (hr.mine d hd))
      rw [hw, Function.update_of_ne hyx]
      exact ⟨wr, j, d, hwr, hid, by rw [hother j hj]; exact hd, hdy⟩
  · intro j d hd
    by_cases hj : j = i
    · rw [hj, hself] at hd
      have hdx : d._data = x := by
        rw [← Option.some.inj hd]
        exact hr.data
      rw [hdx, hw, Function.update_self, hj]
      exact ⟨hxlt, _, rfl, rfl⟩
    · rw [hother j hj] at hd
      obtain ⟨hlt, wr, hwr, hid⟩ := h.back j d hd
      rw [hw, Function.update_of_ne (hr.others j d hj hd)]
      exact ⟨by omega, wr, hwr, hid⟩
  · intro j d hd
    by_cases hj : j = i
    · rw [hj, hself] at hd
      refine .inr ⟨a, ?_, .inl ?_⟩
      · rw [hpc, hj, Function.update_self]
      · rw [← Option.some.inj hd]
    · rw [hother j hj] at hd
      rw [hpc, Function.update_of_ne hj]
      exact h.state j d hd
  · intro j hj
    have hji : j ≠ i := by
      rintro rfl
      rw [hself] at hj
      cases hj
    rw [hother j hji] at hj
    rw [hpc, Function.update_of_ne hji]
    exact h.absent j hj

theorem enter_loop {p : ℕ} (hp : w.co._curco = some p) (hc : w.co.heap p = some c)
    (hpc : ∀ b, w.pc c._id ≠ .inTask b) : w.enter = w.loop c._id c._data := by
  unfold enter
  rw [hp, Option.bind_some, hc, Option.bind_some]
  split
  · rename_i b hb
    exact absurd hb (hpc b)
  · rfl

theorem enter_inTask {p : ℕ} (hp : w.co._curco = some p) (hc : w.co.heap p = some c)
    (hpc : w.pc c._id = .inTask a) : w.enter = some w := by
  unfold enter
  rw [hp, Option.bind_some, hc, Option.bind_some, hpc]

/-- The wrapper points to the local variable of the `doTask` in progress. -/
theorem loop_start {x addr : ℕ} {k : ℤ} (hx : w.wrappers x = some ⟨k, some addr⟩)
    (hf : w.frame = some ⟨addr, some a⟩) (ha : w.store.tasks a = some t) :
    w.loop i x = some { w with pc := update w.pc i (.inTask a), started := w.started ++ [t] } := by
  have hread : w.readLocal addr = some (some a) := by
    unfold readLocal
    rw [hf]
    exact if_pos rfl
  unfold loop
  rw [hx, Option.bind_some]
  dsimp only
  rw [hread, Option.bind_some]
  dsimp only
  rw [ha, Option.map_some]

/-- **The start of a task**: a wrapper is taken, and its coroutine calls the function. -/
theorem Wrappers.launch (h : w.Wrappers) (hinv : w.co.Inv) (hopen : w.co._co.isSome)
    (hmain : w.co._curco = none) (ha : w.store.tasks a = some t) :
    ∃ w', w.launch (some a) = some w' ∧ w.Launched a t w' := by
  obtain ⟨w₁, x, i, c, hget, hr⟩ := h.get hinv hopen hmain
  have hwr : w₁.wrappers x = some ⟨i, none⟩ := by
    rw [hr.wrappers, Function.update_self]
  let w₂ : TaskPool :=
    { w₁ with
      wrappers := update w₁.wrappers x (some ⟨i, some w₁.nframe⟩)
      frame := some ⟨w₁.nframe, some a⟩
      nframe := w₁.nframe + 1 }
  have hset : w₁.setLocal x (some a) = some w₂ := by
    unfold setLocal
    rw [hwr, Option.map_some]
  have hwr₂ : w₂.wrappers x = some ⟨i, some w₁.nframe⟩ := Function.update_self ..
  have hco : w₁.co.coAt i = some c := by
    rw [hr.co, Function.update_self]
  obtain ⟨p, hp, hheap⟩ := Schedule.Table.slot_of_coAt hco
  obtain ⟨co, hres, hinv', hopen', hcoAt, hcurco, hruns⟩ := hr.inv.resume hr.main hp hco
  let w₃ : TaskPool := { w₂ with co := co }
  have hcur : co.cur ≠ w₂.co.cur := by
    have hcur₁ : w₂.co.cur = none := (hr.inv.control.main hr.main).1
    rw [hruns.cur, hcur₁]
    exact Option.some_ne_none p
  have hrunning : co.coAt i = some { c with _status := .running } := by
    rw [hcoAt, Function.update_self]
  obtain ⟨c', hc', hheap', hid⟩ := hinv'.table.coAt_of_slot hruns.slot
  obtain rfl : c' = { c with _status := .running } := Option.some.inj (hc'.symm.trans hrunning)
  have hid' : c._id = i := hid
  have henter : w₃.enter = w₃.loop c._id c._data :=
    enter_loop (w := w₃) (c := { c with _status := .running }) hcurco hheap' (by
      intro b hb
      exact hr.out b (hid' ▸ hb))
  have hloop := loop_start (w := w₃) (i := i) hwr₂ rfl (show w₁.store.tasks a = some t by
    rw [hr.store]
    exact ha)
  have hpc : update w₁.pc i (.inTask a) = update w.pc i (.inTask a) := by
    funext j
    by_cases hj : j = i
    · rw [hj, Function.update_self, Function.update_self]
    · rw [Function.update_of_ne hj, Function.update_of_ne hj, hr.pc j hj]
  have hcoAt' : co.coAt = update w.co.coAt i (some { c with _status := .running }) := by
    rw [hcoAt, hr.co, Function.update_idem]
  have hwraps : update w₁.wrappers x (some ⟨i, some w₁.nframe⟩) =
      update w.wrappers x (some ⟨i, some w₁.nframe⟩) := by
    rw [hr.wrappers, Function.update_idem]
  refine ⟨{ w₃ with pc := update w₁.pc i (.inTask a), started := w₁.started ++ [t] }, ?_,
    hinv', ?_, ?_, ⟨i, hpc, hr.old⟩, hr.store, ?_⟩
  · unfold TaskPool.launch
    rw [hget, Option.bind_some]
    dsimp only
    rw [hset, Option.bind_some, hwr₂, Option.bind_some]
    unfold TaskPool.resume
    have hres' : w₂.co.resume (i : ℤ) = some co := hres
    rw [hres', Option.bind_some, if_neg hcur]
    rw [henter, hid', hr.data]
    exact hloop
  · rw [← hr.opened]
    exact hopen'
  · refine hr.wrappers_launched h w₁.nframe hcoAt' hwraps ?_ hpc
    rw [hr.take]
    rfl
  · dsimp only
    rw [hr.started]

/-! ## The lists of tasks -/

/-- Every task handed in has its own number, and is started or waits; those of `addTask` are
started in order, those of `doTask(func, p)` at once. -/
structure Order (started waiting submitted : List CoTask) : Prop where
  serials : submitted.map (·.serial) = List.range submitted.length
  fifo : started.filter (·.queued) ++ waiting = submitted.filter (·.queued)
  direct : started.filter (!·.queued) = submitted.filter (!·.queued)

section Order

variable {started waiting submitted : List CoTask}

theorem Order.distinct (h : Order started waiting submitted) : submitted.Nodup := by
  apply List.Nodup.of_map (·.serial)
  rw [h.serials]
  exact List.nodup_range

theorem Order.perm (h : Order started waiting submitted) :
    (started ++ waiting).Perm submitted := by
  have hst := List.filter_append_perm (·.queued) started
  have hsub := List.filter_append_perm (·.queued) submitted
  rw [← h.fifo, ← h.direct] at hsub
  refine (hst.symm.append_right waiting).trans (List.Perm.trans ?_ hsub)
  rw [List.append_assoc, List.append_assoc]
  exact List.Perm.append_left _ List.perm_append_comm

theorem Order.nodup (h : Order started waiting submitted) : (started ++ waiting).Nodup :=
  h.perm.nodup_iff.mpr h.distinct

theorem Order.serials_append (h : Order started waiting submitted)
    (ht : t.serial = submitted.length) :
    (submitted ++ [t]).map (·.serial) = List.range (submitted ++ [t]).length := by
  rw [List.map_append, h.serials, List.length_append, List.length_singleton, List.range_succ,
    List.map_singleton, ht]

theorem Order.add (h : Order started waiting submitted) (hs : t.serial = submitted.length)
    (hq : t.queued = true) : Order started (waiting ++ [t]) (submitted ++ [t]) := by
  refine ⟨h.serials_append hs, ?_, ?_⟩
  · rw [← List.append_assoc, h.fifo, List.filter_append, List.filter_singleton, hq]
    rfl
  · rw [h.direct, List.filter_append, List.filter_singleton, hq]
    simp

theorem Order.call (h : Order started waiting submitted) (hs : t.serial = submitted.length)
    (hq : t.queued = false) : Order (started ++ [t]) waiting (submitted ++ [t]) := by
  refine ⟨h.serials_append hs, ?_, ?_⟩
  · rw [List.filter_append, List.filter_append, ← h.fifo, List.filter_singleton, hq]
    simp
  · rw [List.filter_append, List.filter_append, h.direct]

theorem Order.start (h : Order started (t :: waiting) submitted) :
    Order (started ++ [t]) waiting submitted := by
  have hmem : t ∈ submitted.filter (·.queued) := by
    rw [← h.fifo]
    exact List.mem_append_right _ List.mem_cons_self
  have hq : t.queued = true := (List.mem_filter.mp hmem).2
  refine ⟨h.serials, ?_, ?_⟩
  · rw [List.filter_append, List.filter_singleton, hq, ← h.fifo, List.append_assoc]
    rfl
  · rw [List.filter_append, List.filter_singleton, hq, ← h.direct]
    simp

end Order

/-- A started task has been given back once or is held, and by one coroutine. -/
structure Hands (holds : ℕ → CoTask → Prop) (started returned : List CoTask) : Prop where
  done : ∀ t, t ∈ started ↔ t ∈ returned ∨ ∃ i, holds i t
  apart : ∀ i j t, holds i t → holds j t → i = j
  once : returned.Nodup
  gone : ∀ t ∈ returned, ∀ i, ¬ holds i t

section Hands

variable {holds holds' : ℕ → CoTask → Prop} {started returned : List CoTask}

theorem Hands.congr (h : Hands holds started returned)
    (hh : ∀ j u, holds' j u ↔ holds j u) : Hands holds' started returned := by
  obtain rfl : holds' = holds := funext fun j => funext fun u => propext (hh j u)
  exact h

theorem Hands.start (h : Hands holds started returned) (hnew : t ∉ started)
    (hh : ∀ j u, holds' j u ↔ (j = i ∧ u = t) ∨ holds j u) :
    Hands holds' (started ++ [t]) returned := by
  have hfree : ∀ j, ¬ holds j t := fun j hj => hnew ((h.done t).mpr (.inr ⟨j, hj⟩))
  refine ⟨?_, ?_, h.once, ?_⟩
  · intro u
    rw [List.mem_append, List.mem_singleton, h.done u]
    constructor
    · rintro ((hu | ⟨j, hj⟩) | hu)
      · exact .inl hu
      · exact .inr ⟨j, (hh j u).mpr (.inr hj)⟩
      · exact .inr ⟨i, (hh i u).mpr (.inl ⟨rfl, hu⟩)⟩
    · rintro (hu | ⟨j, hj⟩)
      · exact .inl (.inl hu)
      · rcases (hh j u).mp hj with ⟨-, hu⟩ | hj'
        · exact .inr hu
        · exact .inl (.inr ⟨j, hj'⟩)
  · intro j k u hj hk
    rcases (hh j u).mp hj with ⟨rfl, rfl⟩ | hj'
    · rcases (hh k u).mp hk with ⟨rfl, -⟩ | hk'
      · rfl
      · exact absurd hk' (hfree k)
    · rcases (hh k u).mp hk with ⟨-, rfl⟩ | hk'
      · exact absurd hj' (hfree j)
      · exact h.apart j k u hj' hk'
  · intro u hu j hj
    rcases (hh j u).mp hj with ⟨-, rfl⟩ | hj'
    · exact hnew ((h.done u).mpr (.inl hu))
    · exact h.gone u hu j hj'

theorem Hands.finish (h : Hands holds started returned) (ht : ∀ u, holds i u ↔ u = t)
    (hh : ∀ j u, holds' j u ↔ j ≠ i ∧ holds j u) :
    Hands holds' started (returned ++ [t]) := by
  have hmine : holds i t := (ht t).mpr rfl
  refine ⟨?_, ?_, ?_, ?_⟩
  · intro u
    rw [List.mem_append, List.mem_singleton, h.done u]
    constructor
    · rintro (hu | ⟨j, hj⟩)
      · exact .inl (.inl hu)
      · by_cases hji : j = i
        · rw [hji] at hj
          exact .inl (.inr ((ht u).mp hj))
        · exact .inr ⟨j, (hh j u).mpr ⟨hji, hj⟩⟩
    · rintro ((hu | hu) | ⟨j, hj⟩)
      · exact .inl hu
      · exact .inr ⟨i, (ht u).mpr hu⟩
      · exact .inr ⟨j, ((hh j u).mp hj).2⟩
  · intro j k u hj hk
    exact h.apart j k u ((hh j u).mp hj).2 ((hh k u).mp hk).2
  · refine List.nodup_append.mpr ⟨h.once, List.nodup_singleton t, ?_⟩
    rintro u hu v hv rfl
    rw [List.mem_singleton] at hv
    rw [hv] at hu
    exact h.gone t hu i hmine
  · intro u hu j hj
    obtain ⟨hne, hj'⟩ := (hh j u).mp hj
    rcases List.mem_append.mp hu with hold | hnew
    · exact h.gone u hold j hj'
    · rw [List.mem_singleton.mp hnew] at hj'
      exact hne (h.apart j i t hj' hmine)

end Hands

/-! ## The invariant -/

/-- The task objects in the hands of the coroutines. -/
def Held (w : TaskPool) (a : ℕ) : Prop := ∃ i, w.pc i = .inTask a

structure Inv (w : TaskPool) : Prop where
  co : w.co.Inv
  opened : w.co._co.isSome
  wraps : w.Wrappers
  objects : w.store.Objects w.Held none
  order : Order w.started w.store.waiting w.store.submitted
  hands : Hands w.Holds w.started w.store.returned

theorem start_coAt (i : ℕ) : TaskPool.start.co.coAt i = none := by
  obtain ⟨-, hcoAt⟩ := Schedule.Inv.start.initEnv rfl
  have hold : TaskPool.start.co.coAt i = Schedule.start.coAt i := congrFun hcoAt i
  rw [hold]
  unfold Schedule.coAt
  rw [Schedule.slot_shut rfl]
  rfl

theorem start_wrappers : TaskPool.start.Wrappers := by
  have hno : ∀ i c, TaskPool.start.co.coAt i ≠ some c := by
    intro i c hc
    rw [start_coAt] at hc
    cases hc
  refine ⟨Pool.Serves.init.congr ?_, ?_, ?_, ?_, ?_, fun _ _ => rfl⟩
  · intro x
    refine iff_of_false ?_ id
    rintro ⟨i, c, a, hc, -, -⟩
    exact hno i c hc
  · intro x wr hx
    cases hx
  · intro x hx
    cases hx
  · exact fun i c hc => absurd hc (hno i c)
  · exact fun i c hc => absurd hc (hno i c)

theorem not_held_start (a : ℕ) : ¬ TaskPool.start.Held a := by
  rintro ⟨i, hi⟩
  cases hi

theorem start_objects : TaskPool.start.store.Objects TaskPool.start.Held none := by
  refine ⟨Pool.Serves.init.congr ?_, ?_, List.nodup_nil, ?_, ?_⟩
  · intro a
    refine iff_of_false ?_ id
    rintro (ha | ha | ha)
    · cases ha
    · cases ha
    · exact not_held_start a ha
  · intro a ha
    cases ha
  · intro a ha
    cases ha
  · intro a ha
    cases ha

theorem start_hands : Hands TaskPool.start.Holds [] [] := by
  have hno : ∀ i t, ¬ TaskPool.start.Holds i t := by
    rintro i t ⟨a, hi, -⟩
    cases hi
  refine ⟨?_, fun i j t hi => absurd hi (hno i t), List.nodup_nil, fun _ _ i => hno i _⟩
  intro t
  refine iff_of_false List.not_mem_nil ?_
  rintro (ht | ⟨i, hi⟩)
  · cases ht
  · exact hno i t hi

theorem Inv.start : TaskPool.start.Inv :=
  ⟨(Schedule.Inv.start.initEnv rfl).1, rfl, start_wrappers, start_objects, ⟨rfl, rfl, rfl⟩,
    start_hands⟩

theorem Inv.settle (h : w.Inv) : w.settle.Inv := by
  unfold TaskPool.settle
  split
  · exact ⟨h.co, h.opened, h.wraps.with_store w.store none, h.objects, h.order, h.hands⟩
  · exact h

/-- The object that a coroutine is inside is only in its hands. -/
theorem Inv.held_inj (h : w.Inv) {j : ℕ} (hi : w.pc i = .inTask a) (hj : w.pc j = .inTask a) :
    j = i := by
  obtain ⟨t, ht⟩ := h.objects.held_alloc ⟨i, hi⟩
  exact h.hands.apart j i t ⟨a, hj, ht⟩ ⟨a, hi, ht⟩

/-- Where a coroutine is after one more task has been started. -/
theorem held_start {b : ℕ} (hpc : w'.pc = update w.pc i (.inTask a))
    (hold : ∀ b, w.pc i ≠ .inTask b) : w'.Held b ↔ b = a ∨ w.Held b := by
  unfold Held
  rw [hpc]
  constructor
  · rintro ⟨j, hj⟩
    by_cases hji : j = i
    · rw [hji, Function.update_self] at hj
      exact .inl (TaskPc.inTask.inj hj).symm
    · rw [Function.update_of_ne hji] at hj
      exact .inr ⟨j, hj⟩
  · rintro (rfl | ⟨j, hj⟩)
    · exact ⟨i, Function.update_self ..⟩
    · refine ⟨j, ?_⟩
      rw [Function.update_of_ne]
      · exact hj
      · rintro rfl
        exact hold b hj

theorem holds_start (hpc : w'.pc = update w.pc i (.inTask a)) (hold : ∀ b, w.pc i ≠ .inTask b)
    (ha : w'.store.tasks a = some t) (htasks : ∀ b, w.Held b → w'.store.tasks b = w.store.tasks b)
    (j : ℕ) (u : CoTask) : w'.Holds j u ↔ (j = i ∧ u = t) ∨ w.Holds j u := by
  unfold Holds
  rw [hpc]
  constructor
  · rintro ⟨b, hj, hb⟩
    by_cases hji : j = i
    · rw [hji, Function.update_self] at hj
      rw [← TaskPc.inTask.inj hj, ha] at hb
      exact .inl ⟨hji, (Option.some.inj hb).symm⟩
    · rw [Function.update_of_ne hji] at hj
      rw [htasks b ⟨j, hj⟩] at hb
      exact .inr ⟨b, hj, hb⟩
  · rintro (⟨rfl, rfl⟩ | ⟨b, hj, hb⟩)
    · exact ⟨a, Function.update_self .., ha⟩
    · refine ⟨b, ?_, by rw [htasks b ⟨j, hj⟩]; exact hb⟩
      rw [Function.update_of_ne]
      · exact hj
      · rintro rfl
        exact hold b hj

/-- Where a coroutine is after its task has returned. -/
theorem inTask_finish (hpc : w'.pc = update w.pc i .parked) (j b : ℕ) :
    w'.pc j = .inTask b ↔ j ≠ i ∧ w.pc j = .inTask b := by
  rw [hpc, Function.update_apply]
  split
  · rename_i hj
    exact iff_of_false (fun hb => TaskPc.noConfusion hb) fun hb => hb.1 hj
  · rename_i hj
    exact (and_iff_right hj).symm

theorem Inv.held_finish (h : w.Inv) (ha : w.pc i = .inTask a)
    (hpc : w'.pc = update w.pc i .parked) (b : ℕ) : w'.Held b ↔ b ≠ a ∧ w.Held b := by
  constructor
  · rintro ⟨j, hj⟩
    obtain ⟨hne, hold⟩ := (inTask_finish hpc j b).mp hj
    refine ⟨?_, j, hold⟩
    rintro rfl
    exact hne (h.held_inj ha hold)
  · rintro ⟨hne, j, hj⟩
    refine ⟨j, (inTask_finish hpc j b).mpr ⟨?_, hj⟩⟩
    rintro rfl
    rw [ha] at hj
    exact hne (TaskPc.inTask.inj hj).symm

theorem holds_finish (hpc : w'.pc = update w.pc i .parked) (ht : w'.store.tasks = w.store.tasks)
    (j : ℕ) (u : CoTask) : w'.Holds j u ↔ j ≠ i ∧ w.Holds j u := by
  unfold Holds
  rw [ht]
  constructor
  · rintro ⟨b, hb, hu⟩
    obtain ⟨hne, hold⟩ := (inTask_finish hpc j b).mp hb
    exact ⟨hne, b, hold, hu⟩
  · rintro ⟨hne, b, hb, hu⟩
    exact ⟨b, (inTask_finish hpc j b).mpr ⟨hne, hb⟩, hu⟩

/-- A coroutine holds the task it is inside, and no other. -/
theorem holds_iff (ha : w.pc i = .inTask a) (ht : w.store.tasks a = some t) (u : CoTask) :
    w.Holds i u ↔ u = t := by
  constructor
  · rintro ⟨b, hb, hu⟩
    rw [ha] at hb
    rw [← TaskPc.inTask.inj hb, ht] at hu
    exact (Option.some.inj hu).symm
  · rintro rfl
    exact ⟨a, ha, ht⟩

/-! ## The steps -/

theorem Inv.addTask (h : w.Inv) (func p : ℕ) : ∃ w', w.addTask func p = some w' ∧ w'.Inv := by
  obtain ⟨s', a, hs', hobj, hmade, hheld⟩ := h.objects.newTask func p true
  have hfresh : a ∉ s'.gworktasklist := by
    rw [hmade.work]
    exact hmade.fresh
  have hh : ∀ j u, Holds { w with store := { s' with gworktasklist := s'.gworktasklist ++ [a] } }
      j u ↔ w.Holds j u := by
    intro j u
    refine exists_congr fun b => and_congr_right fun hj => ?_
    dsimp only
    rw [hmade.old_task]
    rintro rfl
    exact hheld ⟨j, hj⟩
  refine ⟨_, congrArg (Option.map _) hs', h.co, h.opened, h.wraps.with_store _ w.frame,
    hobj.enqueue hfresh, ?_, ?_⟩
  · dsimp only
    rw [hmade.waiting_push]
    rw [hmade.submitted]
    exact h.order.add rfl rfl
  · dsimp only
    rw [hmade.returned]
    exact h.hands.congr hh

/-- A `doTask` in the main context, when the task has been taken. -/
theorem Inv.launch (h : w.Inv) (hmain : w.co._curco = none) {s : TaskStore}
    (hobj : s.Objects w.Held (some a)) (ha : s.tasks a = some t)
    (htasks : ∀ b, w.Held b → s.tasks b = w.store.tasks b)
    (horder : Order (w.started ++ [t]) s.waiting s.submitted)
    (hret : s.returned = w.store.returned) :
    ∃ w', { w with store := s }.launch (some a) = some w' ∧ w'.Inv ∧
      w'.started = w.started ++ [t] ∧ w'.store = s := by
  have hwraps : ({ w with store := s } : TaskPool).Wrappers := h.wraps.with_store s w.frame
  obtain ⟨w', hw', hl⟩ := hwraps.launch h.co h.opened hmain ha
  obtain ⟨i, hpc, hold⟩ := hl.pc
  have hstore : w'.store = s := hl.store
  have hstarted : w'.started = w.started ++ [t] := hl.started
  have hnew : t ∉ w.started := by
    intro hm
    have hnodup := List.nodup_append.mp horder.nodup
    exact (List.nodup_append.mp hnodup.1).2.2 t hm t List.mem_cons_self rfl
  refine ⟨w', hw', ⟨hl.inv, hl.opened, hl.wraps, ?_, ?_, ?_⟩, hstarted, hstore⟩
  · rw [hstore]
    refine hobj.hold.congr ?_
    intro b
    exact held_start hpc hold
  · rw [hstarted, hstore]
    exact horder
  · rw [hstarted, hstore, hret]
    refine h.hands.start (i := i) hnew ?_
    refine holds_start hpc hold (by rw [hstore]; exact ha) ?_
    intro b hb
    rw [hstore]
    exact htasks b hb

/-- **`doTask()`** in the main context starts the front of the work list. -/
theorem Inv.doTask_main (h : w.Inv) (hmain : w.co._curco = none) {rest : List ℕ}
    (hw : w.store.gworktasklist = a :: rest) :
    ∃ w' t, w.doTask = some w' ∧ w'.Inv ∧ w'.started = w.started ++ [t] ∧
      w.store.waiting = t :: w'.store.waiting := by
  obtain ⟨t, ht⟩ := h.objects.work_alloc (a := a) (by rw [hw]; exact List.mem_cons_self)
  have hwait : w.store.waiting =
      t :: ({ w.store with gworktasklist := rest } : TaskStore).waiting := by
    unfold TaskStore.waiting
    rw [hw, List.filterMap_cons, ht]
  have horder := h.order
  rw [hwait] at horder
  obtain ⟨w', hw', hinv, hst, hstore⟩ := h.launch hmain (h.objects.dequeue hw) ht
    (fun _ _ => rfl) horder.start rfl
  refine ⟨w', t, ?_, hinv, hst, by rw [hstore]; exact hwait⟩
  unfold TaskPool.doTask
  rw [Schedule.curid_main hmain, Option.bind_some, if_pos rfl, hw]
  exact hw'

theorem Inv.doTask (h : w.Inv) : ∃ w', w.doTask = some w' ∧ w'.Inv := by
  rcases h.co.curid_cases with ⟨hmain, hid⟩ | ⟨r, hr, hne⟩
  · cases hw : w.store.gworktasklist with
    | nil =>
      refine ⟨w, ?_, h⟩
      unfold TaskPool.doTask
      rw [hid, Option.bind_some, if_pos rfl, hw]
    | cons a rest =>
      obtain ⟨w', t, hw', hinv, -⟩ := h.doTask_main hmain hw
      exact ⟨w', hw', hinv⟩
  · refine ⟨w, ?_, h⟩
    unfold TaskPool.doTask
    rw [hr, Option.bind_some, if_neg hne]

theorem Inv.doTaskOf (h : w.Inv) (func p : ℕ) : ∃ w', w.doTaskOf func p = some w' ∧ w'.Inv := by
  unfold TaskPool.doTaskOf
  rcases h.co.curid_cases with ⟨hmain, hid⟩ | ⟨r, hr, hne⟩
  · obtain ⟨s', a, hs', hobj, hmade, hheld⟩ := h.objects.newTask func p false
    have horder : Order (w.started ++ [⟨func, p, w.store.submitted.length, false⟩]) s'.waiting
        s'.submitted := by
      rw [hmade.waiting, hmade.submitted]
      exact h.order.call rfl rfl
    have htasks : ∀ b, w.Held b → s'.tasks b = w.store.tasks b := by
      intro b hb
      apply hmade.old_task
      rintro rfl
      exact hheld hb
    obtain ⟨w', hw', hinv, -⟩ :=
      h.launch hmain hobj hmade.new_task htasks horder hmade.returned
    refine ⟨w', ?_, hinv⟩
    rw [hid, Option.bind_some, if_pos rfl, hs', Option.bind_some]
    exact hw'
  · refine ⟨w, ?_, h⟩
    rw [hr, Option.bind_some, if_neg hne]

/-- A coroutine that runs is inside a task. -/
theorem Inv.running (h : w.Inv) (hin : w.co._curco ≠ none) :
    ∃ p i c a, w.co._curco = some p ∧ w.co.RunsAt p i ∧ w.co.coAt i = some c ∧
      w.co.heap p = some c ∧ c._id = i ∧ w.pc i = .inTask a := by
  obtain ⟨p, hp⟩ := Option.ne_none_iff_exists'.mp hin
  obtain ⟨i, c, hr, hc, hheap, hrun, -⟩ := h.co.curid hp
  rcases h.wraps.state i c hc with ⟨-, hsus⟩ | ⟨a, ha, -⟩
  · rw [hrun] at hsus
    cases hsus
  · exact ⟨p, i, c, a, hp, hr, hc, hheap, h.co.table.id_eq hc, ha⟩

theorem Inv.taskYield (h : w.Inv) (hin : w.co._curco ≠ none) :
    ∃ w', w.taskYield = some w' ∧ w'.Inv := by
  obtain ⟨p, i, c, a, hp, hr, hc, -, -, ha⟩ := h.running hin
  obtain ⟨co, hco, hl⟩ := h.co.yield hp hr hc
  refine ⟨_, congrArg (Option.map _) hco, hl.inv, ?_, h.wraps.turn hc ha (.inr rfl) hl.co,
    h.objects, h.order, h.hands⟩
  dsimp only
  rw [hl.opened]
  exact h.opened

theorem Inv.resume (h : w.Inv) {x : ℤ} (hx : w.Issued (.resume x)) :
    ∃ w', w.resume x = some w' ∧ w'.Inv := by
  unfold TaskPool.resume
  rcases h.co.resume_cases x with heq | ⟨hmain, i, p, c, rfl, hi, hc⟩
  · refine ⟨w, ?_, h⟩
    rw [heq, Option.bind_some, if_pos rfl]
  · obtain ⟨a, ha⟩ : ∃ a, w.pc i = .inTask a := by
      have hin : w.inside i := hx.2
      unfold inside at hin
      split at hin
      · rename_i a ha
        exact ⟨a, ha⟩
      · exact hin.elim
    obtain ⟨co, hco, hinv, hopen, hcoAt, hcurco, hruns⟩ := h.co.resume hmain hi hc
    obtain ⟨c', -, hheap, hid⟩ := hinv.table.coAt_of_slot hruns.slot
    have hcur : co.cur ≠ w.co.cur := by
      rw [hruns.cur, (h.co.control.main hmain).1]
      exact Option.some_ne_none p
    refine ⟨{ w with co := co }, ?_, hinv, ?_, h.wraps.turn hc ha (.inl rfl) hcoAt, h.objects,
      h.order, h.hands⟩
    · rw [hco, Option.bind_some, if_neg hcur]
      exact enter_inTask (w := { w with co := co }) hcurco hheap (hid ▸ ha)
    · dsimp only
      rw [hopen]
      exact h.opened

theorem Inv.taskReturn (h : w.Inv) (hin : w.co._curco ≠ none) :
    ∃ w', w.taskReturn = some w' ∧ w'.Inv := by
  obtain ⟨p, i, c, a, hp, hr, hc, hheap, hid, ha⟩ := h.running hin
  obtain ⟨co, hco, hl⟩ := h.co.yield hp hr hc
  obtain ⟨s, t, hs, hobj, ht, htasks, hwork, hsub, hret⟩ := h.objects.pushFree ⟨i, ha⟩
  let w' : TaskPool :=
    { w with
      store := s
      co := co
      gfreecovec := c._data :: w.gfreecovec
      pc := update w.pc i .parked }
  have hpc : w'.pc = update w.pc i .parked := rfl
  refine ⟨w', ?_, hl.inv, ?_, ?_, ?_, ?_, ?_⟩
  · unfold TaskPool.taskReturn
    rw [hp, Option.bind_some, hheap, Option.bind_some, hid, ha]
    dsimp only
    rw [hs, Option.bind_some]
    unfold TaskPool.park
    dsimp only
    rw [hco, Option.map_some]
  · dsimp only [w']
    rw [hl.opened]
    exact h.opened
  · have hturn := h.wraps.turn hc ha (.inr rfl) hl.co
    have hc' : co.coAt i = some { c with _status := .suspend } := by
      rw [hl.co, Function.update_self]
    exact (hturn.park hc' rfl ha).with_store s w.frame
  · exact hobj.congr (h.held_finish ha hpc)
  · have hwait : s.waiting = w.store.waiting := by
      unfold TaskStore.waiting
      rw [hwork, htasks]
    dsimp only [w']
    rw [hwait, hsub]
    exact h.order
  · dsimp only [w']
    rw [hret]
    exact h.hands.finish (holds_iff ha ht) (holds_finish hpc htasks)

/-- **Every step is defined** and keeps the invariant. -/
theorem Inv.step (h : w.Inv) {op : TaskOp} (hop : w.Issued op) :
    ∃ w', w.step op = some w' ∧ w'.Inv := by
  have hsettle : ∀ {r : Option TaskPool}, (∃ w', r = some w' ∧ w'.Inv) →
      ∃ w', r.map TaskPool.settle = some w' ∧ w'.Inv := by
    rintro r ⟨w', rfl, hinv⟩
    exact ⟨w'.settle, rfl, hinv.settle⟩
  have hin : w.co.cur ≠ none → w.co._curco ≠ none :=
    fun hcur hn => hcur (h.co.cur_eq_none_iff.mpr hn)
  cases op with
  | addTask func p => exact hsettle (h.addTask func p)
  | doTask => exact hsettle h.doTask
  | doTaskOf func p => exact hsettle (h.doTaskOf func p)
  | resume x => exact hsettle (h.resume hop)
  | taskYield => exact hsettle (h.taskYield (hin hop))
  | taskReturn => exact hsettle (h.taskReturn (hin hop))

theorem Inv.reach (hr : Reach TaskPool.step Issued .start w) : w.Inv :=
  hr.inv_of_defined Inv.start fun _ _ h hop => h.step hop

/-! ## What is asked of the pool -/

/-- A coroutine inside a task is running or has yielded in it. -/
theorem Inv.status (h : w.Inv) (ha : w.pc i = .inTask a) :
    w.co.statusAt i = some .running ∨ w.co.statusAt i = some .suspend := by
  unfold Schedule.statusAt
  cases hc : w.co.coAt i with
  | none =>
    rw [h.wraps.absent i hc] at ha
    cases ha
  | some c =>
    rw [Option.map_some]
    rcases h.wraps.state i c hc with ⟨hp, -⟩ | ⟨-, -, hst | hst⟩
    · rw [ha] at hp
      cases hp
    · rw [hst]
      exact .inl rfl
    · rw [hst]
      exact .inr rfl

theorem Inv.free_iff (h : w.Inv) (x : ℕ) : x ∈ w.gfreecovec ↔
    ∃ wr i, w.wrappers x = some wr ∧ wr.co_id = (i : ℕ) ∧ w.pc i = .parked ∧
      w.co.statusAt i = some .suspend := by
  have hmem : x ∈ w.gfreecovec ↔ x < w.nwrapper ∧ ¬ w.Busy x := h.wraps.pool.mem x
  rw [hmem]
  constructor
  · rintro ⟨hlt, hidle⟩
    obtain ⟨wr, i, c, hwr, hid, hc, hdata⟩ := h.wraps.own x hlt
    rcases h.wraps.state i c hc with ⟨hp, hst⟩ | ⟨a, ha, -⟩
    · refine ⟨wr, i, hwr, hid, hp, ?_⟩
      unfold Schedule.statusAt
      rw [hc, Option.map_some, hst]
    · exact absurd ⟨i, c, a, hc, hdata, ha⟩ hidle
  · rintro ⟨wr, i, hwr, hid, hp, -⟩
    have hlt := h.wraps.alloc x wr hwr
    refine ⟨hlt, ?_⟩
    rintro ⟨j, d, a, hd, hdata, ha⟩
    obtain ⟨-, wr', hwr', hid'⟩ := h.wraps.back j d hd
    rw [hdata, hwr] at hwr'
    rw [← Option.some.inj hwr', hid] at hid'
    rw [← Int.ofNat.inj hid', hp] at ha
    cases ha

theorem settle_store (w : TaskPool) :
    w.settle.store = w.store ∧ w.settle.started = w.started := by
  unfold settle
  split
  · exact ⟨rfl, rfl⟩
  · exact ⟨rfl, rfl⟩

theorem Inv.progress (h : w.Inv) {rest : List CoTask} (hmain : w.co.cur = none)
    (hwait : w.store.waiting = t :: rest) (hs : w.step .doTask = some w') :
    w'.started = w.started ++ [t] ∧ w'.store.waiting = rest := by
  cases hw : w.store.gworktasklist with
  | nil =>
    unfold TaskStore.waiting at hwait
    rw [hw] at hwait
    cases hwait
  | cons a l =>
    obtain ⟨w₁, u, hw₁, -, hst, hu⟩ := h.doTask_main (h.co.cur_eq_none_iff.mp hmain) hw
    obtain ⟨hut, hrest⟩ := List.cons.inj (hu.symm.trans hwait)
    have hdo : w.step .doTask = some w₁.settle := congrArg (Option.map TaskPool.settle) hw₁
    rw [hs] at hdo
    obtain ⟨hstore, hstarted⟩ := settle_store w₁
    rw [Option.some.inj hdo, hstarted, hstore, hst, hut]
    exact ⟨rfl, hrest⟩

/-- **The task pool is sound** in every state reached. -/
theorem pool_sound (hr : Reach TaskPool.step Issued .start w) : w.Sound := by
  have h := Inv.reach hr
  refine ⟨h.order.distinct, h.order.perm, h.order.fifo, ?_, h.hands.apart, ?_,
    h.wraps.pool.nodup, h.free_iff, h.hands.once, ?_, ?_, ?_, ?_, ?_⟩
  · intro t ht
    rcases (h.hands.done t).mp ht with hret | ⟨i, a, ha, hta⟩
    · exact .inl hret
    · exact .inr ⟨i, ⟨a, ha, hta⟩, h.status ha⟩
  · rintro i t u ⟨a, ha, ht⟩ hu
    exact ((holds_iff ha ht u).mp hu).symm
  · intro t ht
    exact ⟨(h.hands.done t).mpr (.inl ht), h.hands.gone t ht⟩
  · refine List.nodup_append.mpr ⟨h.objects.pool.nodup, h.objects.nodup, ?_⟩
    rintro a ha b hb rfl
    exact ((h.objects.pool.mem a).mp ha).2 (.inl hb)
  · intro i a ha
    refine ⟨?_, ?_⟩
    · intro hfree
      exact ((h.objects.pool.mem a).mp hfree).2 (.inr (.inr ⟨i, ha⟩))
    · intro hwork
      exact (h.objects.work a hwork).2 ⟨i, ha⟩
  · intro op hop
    obtain ⟨w', hs, -⟩ := h.step hop
    rw [hs]
    rfl
  · intro t rest w' hmain hwait hs
    exact h.progress hmain hwait hs

instance (w : TaskPool) (i : ℕ) : Decidable (w.inside i) := by
  unfold inside
  split
  · exact isTrue trivial
  · exact isFalse id

instance (w : TaskPool) : (op : TaskOp) → Decidable (w.Issued op)
  | .resume x => inferInstanceAs (Decidable (0 ≤ x ∧ w.inside x.toNat))
  | .taskYield | .taskReturn => inferInstanceAs (Decidable (w.co.cur ≠ none))
  | .addTask _ _ | .doTask | .doTaskOf _ _ => inferInstanceAs (Decidable True)

/-- A task adds another and yields, a second one runs in a coroutine of its own and returns, the
first is resumed and returns, and the third runs in the coroutine that was parked last. -/
theorem pool_sound_nested : ∃ w : TaskPool,
    (w.started.map (·.serial) = [0, 2, 1] ∧ w.store.returned.map (·.serial) = [2, 0] ∧
      w.nwrapper = 2 ∧ w.gfreecovec = [1] ∧ w.store.gfreetaskvec = [0, 2]) ∧ w.Sound := by
  let ops : List TaskOp := [.addTask 5 6, .doTask, .addTask 7 8, .taskYield, .doTaskOf 9 9,
    .taskReturn, .resume 0, .taskReturn, .doTask]
  have hrun : ((ops.foldlM (fun w op => if Issued w op then step w op else none) start).map
      fun w => decide (w.started.map (·.serial) = [0, 2, 1] ∧
        w.store.returned.map (·.serial) = [2, 0] ∧ w.nwrapper = 2 ∧ w.gfreecovec = [1] ∧
        w.store.gfreetaskvec = [0, 2])) = some true := by
    decide +kernel
  obtain ⟨w, hw, hout⟩ := Option.map_eq_some_iff.mp hrun
  exact ⟨w, of_decide_eq_true hout, pool_sound (Reach.of_checked hw)⟩

end TaskPool

end Netlib
