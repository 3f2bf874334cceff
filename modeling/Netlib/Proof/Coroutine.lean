import Netlib.Spec.Coroutine

/-!
# The coroutine table is sound

The ids are a pool that serves the entries in use (`Table`), and the one coroutine that is
running is `_curco` (`Control`). Each operation is defined, and changes one entry at most:
what it does to the table is said once, by its lemma on `coAt`.
-/

namespace Netlib

open Function (update)
open Lib

namespace Schedule

variable {s s' : Schedule} {t : List (Option ℕ)} {i j p routine data : ℕ} {c : Coroutine}

/-! ## Memory -/

theorem slot_eq (ht : s._co = some t) (i : ℕ) : s.slot i = (t[i]?).join := by
  unfold slot entry
  rw [ht, Option.bind_some]

theorem slot_shut (hs : s._co = none) (i : ℕ) : s.slot i = none := by
  unfold slot entry
  rw [hs]
  rfl

theorem slot_set (ht : s._co = some t) (hi : i < t.length) (e : Option ℕ) :
    { s with _co := some (t.set i e) }.slot = update s.slot i e := by
  funext j
  have hnew : { s with _co := some (t.set i e) }._co = some (t.set i e) := rfl
  rw [slot_eq hnew, Function.update_apply, slot_eq ht, List.getElem?_set]
  by_cases hj : i = j
  · subst hj
    simp [hi]
  · rw [if_neg hj, if_neg (Ne.symm hj)]

theorem setEntry_eq (ht : s._co = some t) (hi : i < t.length) (e : Option ℕ) :
    s.setEntry i e = some { s with _co := some (t.set i e) } := by
  unfold setEntry
  rw [ht]
  exact if_pos hi

theorem free_eq (hp : s.heap p = some c) :
    s.free p = some { s with heap := update s.heap p none } := by
  unfold free
  rw [hp]

theorem setStatus_eq (hp : s.heap p = some c) (status : CoStatus) :
    s.setStatus p status =
      some { s with heap := update s.heap p (some { c with _status := status }) } := by
  unfold setStatus
  rw [hp]

theorem switchBack_live (hctx : s._ctx = some ⟨none, p, i⟩) (hp : s.heap p = some c)
    (hc : c._status ≠ .dead) : s.switchBack = some { s with _curco := none, cur := none } := by
  unfold switchBack
  rw [hctx, Option.bind_some]
  dsimp only
  rw [hp, Option.bind_some, if_neg hc, Option.map_some, ← hctx]

theorem switchBack_dead (hctx : s._ctx = some ⟨none, p, i⟩) (hp : s.heap p = some c)
    (hc : c._status = .dead) :
    s.switchBack = (s.release p i).map fun s => { s with _curco := none, cur := none } := by
  unfold switchBack
  rw [hctx, Option.bind_some]
  dsimp only
  rw [hp, Option.bind_some, if_pos hc]

/-- The table that `realloc` and `memset` make. -/
theorem slot_grow (ht : s._co = some t) (hlen : t.length = s._cap) (cap nco : ℕ) :
    { s with _co := some (t.take s._cap ++ List.replicate s._cap none), _cap := cap,
             _nco := nco }.slot = s.slot := by
  funext j
  rw [slot_eq rfl, slot_eq ht, ← hlen, List.take_length]
  by_cases hj : j < t.length
  · rw [List.getElem?_append_left hj]
  · have hout : t[j]? = none := List.getElem?_eq_none (by omega)
    rw [List.getElem?_append_right (by omega), hout, List.getElem?_replicate]
    split
    · rfl
    · rfl

/-! ## The table -/

/-- The table of an open schedule has `_cap` entries. The pool serves the ids whose entry is
not null, and such an entry points to a coroutine with its id. -/
structure Table (s : Schedule) : Prop where
  shut : s._co = none → s._cap = 0 ∧ s._nco = 0 ∧ s._freeid = []
  size : ∀ t, s._co = some t → t.length = s._cap ∧ 0 < s._cap
  top : s._nco ≤ s._cap
  pool : s.ids.Serves fun i => (s.slot i).isSome
  own : ∀ i p, s.slot i = some p → ∃ c, s.heap p = some c ∧ c._id = i
  fresh : ∀ p c, s.heap p = some c → p < s.fresh

theorem Table.slot_inj (h : s.Table) (hi : s.slot i = some p) (hj : s.slot j = some p) : i = j := by
  obtain ⟨c, hc, rfl⟩ := h.own i p hi
  obtain ⟨d, hd, rfl⟩ := h.own j p hj
  rw [hc] at hd
  rw [Option.some.inj hd]

theorem Table.slot_of_coAt (hc : s.coAt i = some c) : ∃ p, s.slot i = some p ∧ s.heap p = some c :=
  Option.bind_eq_some_iff.mp hc

theorem Table.coAt_of_slot (h : s.Table) (hi : s.slot i = some p) :
    ∃ c, s.coAt i = some c ∧ s.heap p = some c ∧ c._id = i := by
  obtain ⟨c, hc, hid⟩ := h.own i p hi
  refine ⟨c, ?_, hc, hid⟩
  unfold coAt
  rw [hi, Option.bind_some, hc]

theorem Table.coAt_eq_none_iff (h : s.Table) : s.coAt i = none ↔ s.slot i = none := by
  constructor
  · intro hc
    by_contra hne
    obtain ⟨p, hp⟩ := Option.ne_none_iff_exists'.mp hne
    obtain ⟨c, hc', -⟩ := h.coAt_of_slot hp
    rw [hc] at hc'
    cases hc'
  · intro hi
    unfold coAt
    rw [hi, Option.bind_none]

theorem Table.id_eq (h : s.Table) (hc : s.coAt i = some c) : c._id = i := by
  obtain ⟨p, hp, hheap⟩ := Table.slot_of_coAt hc
  obtain ⟨d, hd, hid⟩ := h.own i p hp
  rw [hheap] at hd
  rw [Option.some.inj hd, hid]

/-- An id in use is in the range that `resume` and `destroy` test. -/
theorem Table.lt_cap (h : s.Table) (hi : s.slot i = some p) : i < s._cap := by
  have hlt : i < s._nco := h.pool.below i (by rw [hi]; rfl)
  have htop := h.top
  omega

theorem Table.entry_eq (h : s.Table) (hi : i < s._cap) : s.entry i = some (s.slot i) := by
  cases hco : s._co with
  | none =>
    have hcap := (h.shut hco).1
    omega
  | some t =>
    have hlen : i < t.length := by
      rw [(h.size t hco).1]
      exact hi
    unfold slot entry
    rw [hco, Option.bind_some, List.getElem?_eq_getElem hlen, Option.join_some]

/-- An open table with the entry that is in range. -/
theorem Table.opened (h : s.Table) (hi : i < s._cap) : ∃ t, s._co = some t ∧ i < t.length := by
  cases hco : s._co with
  | none =>
    have hcap := (h.shut hco).1
    omega
  | some t => exact ⟨t, rfl, by rw [(h.size t hco).1]; exact hi⟩

/-- **A new coroutine.** A table in which the next id of the pool gets a new coroutine is
sound. -/
theorem Table.put (h : s.Table) (hsize : ∀ t, s'._co = some t → t.length = s'._cap ∧ 0 < s'._cap)
    (hopen : s'._co ≠ none) (htop : s'._nco ≤ s'._cap) (hids : s'.ids = s.ids.take.2)
    (hslot : s'.slot = update s.slot s.ids.take.1 (some s.fresh))
    (hheap : s'.heap =
      update s.heap s.fresh (some ⟨s.ids.take.1, .ready, routine, data⟩))
    (hfresh : s'.fresh = s.fresh + 1) : s'.Table := by
  refine ⟨fun hco => absurd hco hopen, hsize, htop, ?_, ?_, ?_⟩
  · rw [hids, hslot]
    refine h.pool.take.congr ?_
    intro j
    rw [Function.update_apply]
    split
    · rename_i hj
      simp [hj]
    · rename_i hj
      simp [hj]
  · intro j q hq
    rw [hheap]
    rw [hslot, Function.update_apply] at hq
    split at hq
    · rename_i hj
      rw [← Option.some.inj hq, Function.update_self]
      exact ⟨_, rfl, hj.symm⟩
    · obtain ⟨d, hd, hid⟩ := h.own j q hq
      have hlt := h.fresh q d hd
      rw [Function.update_of_ne (by omega)]
      exact ⟨d, hd, hid⟩
  · intro q d hq
    rw [hheap, Function.update_apply] at hq
    split at hq
    · omega
    · have hlt := h.fresh q d hq
      omega

theorem Table.put_coAt (h : s.Table) (hslot : s'.slot = update s.slot i (some s.fresh))
    (hheap : s'.heap = update s.heap s.fresh (some c)) :
    s'.coAt = update s.coAt i (some c) := by
  funext j
  unfold coAt
  rw [hslot, hheap, Function.update_apply, Function.update_apply]
  split
  · rw [Option.bind_some, Function.update_self]
  · cases hj : s.slot j with
    | none => rfl
    | some q =>
      obtain ⟨d, hd, -⟩ := h.own j q hj
      have hlt := h.fresh q d hd
      rw [Option.bind_some, Option.bind_some, Function.update_of_ne (by omega)]

/-- What `_alloc_co_` leaves. -/
structure Allocated (s : Schedule) (routine data : ℕ) (s' : Schedule) : Prop where
  table : s'.Table
  opened : s'._co.isSome
  slot : s'.slot = update s.slot s.ids.take.1 (some s.fresh)
  co : s'.coAt = update s.coAt s.ids.take.1 (some ⟨s.ids.take.1, .ready, routine, data⟩)
  curco : s'._curco = s._curco
  cur : s'.cur = s.cur
  ctx : s'._ctx = s._ctx

/-- The end that the ways of `_alloc_co_` share: the coroutine is made and entered in a table
with room for it. -/
theorem Table.enter (h : s.Table) (routine data : ℕ) (m : Schedule) (ht : m._co = some t)
    (hlen : t.length = m._cap) (hi : s.ids.take.1 < t.length) (htop : m._nco ≤ m._cap)
    (hids : m.ids = s.ids.take.2) (hslot : m.slot = s.slot) (hheap : m.heap = s.heap)
    (hfresh : m.fresh = s.fresh) (hcurco : m._curco = s._curco) (hcur : m.cur = s.cur)
    (hctx : m._ctx = s._ctx) :
    ∃ s', (m.malloc s.ids.take.1 routine data).setEntry s.ids.take.1 (some s.fresh) = some s' ∧
      s.Allocated routine data s' := by
  have ht' : (m.malloc s.ids.take.1 routine data)._co = some t := ht
  have hslot' := slot_set ht' hi (some s.fresh)
  have hmslot : (m.malloc s.ids.take.1 routine data).slot = m.slot := rfl
  rw [hmslot, hslot] at hslot'
  have hheap' : (m.malloc s.ids.take.1 routine data).heap =
      update s.heap s.fresh (some ⟨s.ids.take.1, .ready, routine, data⟩) := by
    unfold malloc
    rw [hheap, hfresh]
  have hfresh' : (m.malloc s.ids.take.1 routine data).fresh = s.fresh + 1 := by
    unfold malloc
    rw [hfresh]
  refine ⟨_, setEntry_eq ht' hi _, ?_, rfl, hslot', h.put_coAt hslot' hheap', hcurco, hcur, hctx⟩
  refine h.put ?_ (Option.some_ne_none _) htop hids hslot' hheap' hfresh'
  intro t' ht'
  obtain rfl := Option.some.inj ht'
  have hcap : (m.malloc s.ids.take.1 routine data)._cap = m._cap := rfl
  dsimp only
  rw [List.length_set, hcap]
  omega

/-- **The three ways of `_alloc_co_`** all take the next id of the pool. -/
theorem Table._alloc_co_ (h : s.Table) (hopen : s._co.isSome) (routine data : ℕ) :
    ∃ s', s._alloc_co_ routine data = some (s', s.ids.take.1) ∧ s.Allocated routine data s' := by
  obtain ⟨t, ht⟩ := Option.isSome_iff_exists.mp hopen
  obtain ⟨hlen, hpos⟩ := h.size t ht
  have htop := h.top
  unfold Schedule._alloc_co_
  cases hf : s._freeid with
  | cons id rest =>
    have htake : s.ids.take = (id, ⟨s._nco, rest⟩) := by
      unfold ids Pool.take
      rw [hf]
    have hid : id ∈ s.ids.free := by
      unfold ids
      rw [hf]
      exact List.mem_cons_self
    have hlt : id < s._nco := ((h.pool.mem id).mp hid).1
    obtain ⟨s', hs', ha⟩ := h.enter routine data { s with _freeid := rest } ht hlen
      (by rw [htake]; dsimp only; omega) htop (by rw [htake]; rfl)
      rfl rfl rfl rfl rfl rfl
    refine ⟨s', ?_, ha⟩
    rw [htake] at hs' ⊢
    dsimp only at hs' ⊢
    rw [hs', Option.map_some]
  | nil =>
    have htake : s.ids.take = (s._nco, ⟨s._nco + 1, []⟩) := by
      unfold ids Pool.take
      rw [hf]
    have hids : ∀ m : Schedule, m._nco = s._nco + 1 → m._freeid = s._freeid →
        m.ids = s.ids.take.2 := by
      intro m hn hm
      rw [htake]
      unfold ids
      rw [hn, hm, hf]
    dsimp only
    split
    · rename_i hfull
      -- `_nco` is `_cap`, the first new entry
      have hcap : s._nco = s._cap := by omega
      obtain ⟨s', hs', ha⟩ := h.enter routine data
        { s with
          _nco := s._nco + 1
          _co := some (t.take s._cap ++ List.replicate s._cap none)
          _cap := s._cap * 2 } rfl
        (by
          rw [List.length_append, List.length_take, List.length_replicate, hlen]
          dsimp only
          omega)
        (by
          rw [List.length_append, List.length_take, List.length_replicate, hlen, htake]
          dsimp only
          omega)
        (by
          dsimp only
          omega)
        (hids _ rfl rfl) (slot_grow ht hlen _ _) rfl rfl rfl rfl rfl
      refine ⟨s', ?_, ha⟩
      rw [htake] at hs' ⊢
      rw [ht, Option.getD_some]
      dsimp only at hs' ⊢
      rw [← hcap] at hs' ⊢
      rw [hf] at hs'
      rw [hs', Option.map_some]
    · rename_i hroom
      obtain ⟨s', hs', ha⟩ := h.enter routine data { s with _nco := s._nco + 1 } ht hlen
        (by rw [htake]; dsimp only; omega) (by dsimp only; omega)
        (hids _ rfl rfl) rfl rfl rfl rfl rfl rfl
      refine ⟨s', ?_, ha⟩
      rw [htake] at hs' ⊢
      dsimp only at hs' ⊢
      rw [hf] at hs'
      rw [hs', Option.map_some]

/-- What differs only at the entry `i` and in its coroutine is the same at the others. -/
theorem Table.coAt_ne (h : s.Table) (hi : s.slot i = some p) (hj : j ≠ i)
    (hslot : s'.slot j = s.slot j) (hheap : ∀ q, q ≠ p → s'.heap q = s.heap q) :
    s'.coAt j = s.coAt j := by
  unfold coAt
  rw [hslot]
  cases hq : s.slot j with
  | none => rfl
  | some q =>
    have hne : q ≠ p := by
      rintro rfl
      exact hj (h.slot_inj hq hi)
    rw [Option.bind_some, Option.bind_some, hheap q hne]

theorem Table.status (h : s.Table) (hi : s.slot i = some p) (hp : s.heap p = some c)
    (status : CoStatus) (s' : Schedule) (hco : s'._co = s._co) (hcap : s'._cap = s._cap)
    (hids : s'.ids = s.ids) (hfresh : s'.fresh = s.fresh)
    (hheap : s'.heap = update s.heap p (some { c with _status := status })) :
    s'.Table ∧ s'.coAt = update s.coAt i (some { c with _status := status }) := by
  have hslot : s'.slot = s.slot := by
    unfold slot entry
    rw [hco]
  have hnco : s'._nco = s._nco := congrArg Pool.top hids
  have hfree : s'._freeid = s._freeid := congrArg Pool.free hids
  obtain ⟨c', hc', hid⟩ := h.own i p hi
  obtain rfl : c' = c := Option.some.inj (hc'.symm.trans hp)
  refine ⟨⟨?_, ?_, ?_, ?_, ?_, ?_⟩, ?_⟩
  · rw [hco, hcap, hnco, hfree]
    exact h.shut
  · rw [hco, hcap]
    exact h.size
  · rw [hnco, hcap]
    exact h.top
  · rw [hids, hslot]
    exact h.pool
  · intro j q hq
    rw [hslot] at hq
    rw [hheap, Function.update_apply]
    split
    · rename_i hqp
      rw [hqp] at hq
      exact ⟨_, rfl, hid.trans (h.slot_inj hi hq)⟩
    · exact h.own j q hq
  · intro q d hq
    rw [hfresh]
    rw [hheap, Function.update_apply] at hq
    split at hq
    · rename_i hqp
      rw [hqp]
      exact h.fresh p _ hp
    · exact h.fresh q d hq
  · funext j
    rw [Function.update_apply]
    split
    · rename_i hj
      unfold coAt
      rw [hslot, hj, hi, Option.bind_some, hheap, Function.update_self]
    · rename_i hj
      refine h.coAt_ne hi hj (by rw [hslot]) ?_
      intro q hq
      rw [hheap, Function.update_of_ne hq]

/-- **A coroutine less.** A table in which an id is given back and its coroutine freed is
sound. -/
theorem Table.erase (h : s.Table) (hi : s.slot i = some p) (s' : Schedule)
    (hsize : ∀ t, s'._co = some t → t.length = s'._cap ∧ 0 < s'._cap) (hopen : s'._co ≠ none)
    (htop : s'._nco ≤ s'._cap) (hids : s'.ids = s.ids.give i)
    (hslot : s'.slot = update s.slot i none) (hheap : s'.heap = update s.heap p none)
    (hfresh : s'.fresh = s.fresh) : s'.Table ∧ s'.coAt = update s.coAt i none := by
  refine ⟨⟨fun hco => absurd hco hopen, hsize, htop, ?_, ?_, ?_⟩, ?_⟩
  · rw [hids, hslot]
    refine (h.pool.give (by rw [hi]; rfl)).congr ?_
    intro j
    rw [Function.update_apply]
    split
    · rename_i hj
      simp [hj]
    · rename_i hj
      simp [hj]
  · intro j q hq
    rw [hslot, Function.update_apply] at hq
    split at hq
    · cases hq
    · rename_i hj
      have hne : q ≠ p := by
        rintro rfl
        exact hj (h.slot_inj hq hi)
      rw [hheap, Function.update_of_ne hne]
      exact h.own j q hq
  · intro q d hq
    rw [hfresh]
    rw [hheap, Function.update_apply] at hq
    split at hq
    · cases hq
    · exact h.fresh q d hq
  · funext j
    rw [Function.update_apply]
    split
    · rename_i hj
      unfold coAt
      rw [hslot, hj, Function.update_self, Option.bind_none]
    · rename_i hj
      refine h.coAt_ne hi hj (by rw [hslot, Function.update_of_ne hj]) ?_
      intro q hq
      rw [hheap, Function.update_of_ne hq]

/-- What `release` leaves. -/
structure Released (s : Schedule) (i : ℕ) (s' : Schedule) : Prop where
  table : s'.Table
  opened : s'._co.isSome = s._co.isSome
  slot : s'.slot = update s.slot i none
  co : s'.coAt = update s.coAt i none
  curco : s'._curco = s._curco
  cur : s'.cur = s.cur
  ctx : s'._ctx = s._ctx

/-- **A coroutine is freed once**, and its id goes back to the pool. -/
theorem Table.release (h : s.Table) (hi : s.slot i = some p) :
    ∃ s', s.release p i = some s' ∧ s.Released i s' := by
  obtain ⟨c, hp, -⟩ := h.own i p hi
  obtain ⟨t, ht, hlen⟩ := h.opened (h.lt_cap hi)
  have hfreed : { s with heap := update s.heap p none }._co = some t := ht
  have hslot := slot_set (s := { s with heap := update s.heap p none }) hfreed hlen none
  unfold Schedule.release
  rw [free_eq hp, Option.bind_some, setEntry_eq hfreed hlen, Option.map_some]
  refine ⟨_, rfl, ?_⟩
  obtain ⟨htable, hco⟩ := h.erase hi
    { s with heap := update s.heap p none, _co := some (t.set i none), _freeid := i :: s._freeid }
    (by
      intro t' ht'
      obtain rfl := Option.some.inj ht'
      rw [List.length_set]
      exact h.size t ht)
    (Option.some_ne_none _) h.top rfl hslot rfl rfl
  exact ⟨htable, by rw [ht]; rfl, hslot, hco, rfl, rfl, rfl⟩

/-! ## Who runs -/

/-- The coroutine at `p` runs under the id `i`: `resume` of the main context has switched to
it, and no other one is running. -/
structure RunsAt (s : Schedule) (p i : ℕ) : Prop where
  slot : s.slot i = some p
  cur : s.cur = some p
  ctx : s._ctx = some ⟨none, p, i⟩
  running : ∀ j c, s.coAt j = some c → (c._status = .running ↔ j = i)

structure Control (s : Schedule) : Prop where
  alive : ∀ i c, s.coAt i = some c → c._status ≠ .dead
  main : s._curco = none → s.cur = none ∧ ∀ i c, s.coAt i = some c → c._status ≠ .running
  inside : ∀ p, s._curco = some p → ∃ i, s.RunsAt p i

/-- The invariant of a schedule. -/
structure Inv (s : Schedule) : Prop where
  table : s.Table
  control : s.Control

/-- A coroutine in the main context has not started or has yielded. -/
theorem Inv.waits (h : s.Inv) (hmain : s._curco = none) (hc : s.coAt i = some c) :
    c._status = .ready ∨ c._status = .suspend := by
  have hdead := h.control.alive i c hc
  have hrun := (h.control.main hmain).2 i c hc
  cases hst : c._status with
  | ready => exact .inl rfl
  | suspend => exact .inr rfl
  | running => exact absurd hst hrun
  | dead => exact absurd hst hdead

theorem curid_main (hmain : s._curco = none) : s.curid = some (-1) := by
  unfold Schedule.curid
  rw [hmain]

theorem Inv.curid (h : s.Inv) {p : ℕ} (hp : s._curco = some p) :
    ∃ i c, s.RunsAt p i ∧ s.coAt i = some c ∧ s.heap p = some c ∧ c._status = .running ∧
      s.curid = some (i : ℤ) := by
  obtain ⟨i, hr⟩ := h.control.inside p hp
  obtain ⟨c, hc, hheap, hid⟩ := h.table.coAt_of_slot hr.slot
  refine ⟨i, c, hr, hc, hheap, (hr.running i c hc).mpr rfl, ?_⟩
  unfold Schedule.curid
  rw [hp]
  dsimp only
  rw [hheap, Option.map_some, hid]

/-- `curid` is defined, and -1 in the main context only. -/
theorem Inv.curid_cases (h : s.Inv) :
    (s._curco = none ∧ s.curid = some (-1)) ∨ ∃ r, s.curid = some r ∧ r ≠ -1 := by
  cases hco : s._curco with
  | none => exact .inl ⟨rfl, curid_main hco⟩
  | some p =>
    obtain ⟨i, c, -, -, -, -, hid⟩ := h.curid hco
    exact .inr ⟨i, hid, by omega⟩

/-- A schedule without a table is sound in the main context. -/
theorem Inv.shut (hco : s._co = none) (hzero : s._cap = 0 ∧ s._nco = 0 ∧ s._freeid = [])
    (hfresh : ∀ p c, s.heap p = some c → p < s.fresh) (hcur : s.cur = none)
    (hmain : s._curco = none) : s.Inv := by
  obtain ⟨hcap, hnco, hfree⟩ := hzero
  have hslot := slot_shut hco
  have hno : ∀ i c, s.coAt i ≠ some c := by
    intro i c hc
    obtain ⟨p, hp, -⟩ := Table.slot_of_coAt hc
    rw [hslot i] at hp
    cases hp
  refine ⟨⟨fun _ => ⟨hcap, hnco, hfree⟩, ?_, ?_, ?_, ?_, hfresh⟩, ?_, ?_, ?_⟩
  · intro t ht
    rw [hco] at ht
    cases ht
  · omega
  · unfold ids
    rw [hnco, hfree]
    refine Pool.Serves.init.congr ?_
    intro i
    rw [hslot i]
    simp
  · intro i p hp
    rw [hslot i] at hp
    cases hp
  · exact fun i c hc => absurd hc (hno i c)
  · exact fun _ => ⟨hcur, fun i c hc => absurd hc (hno i c)⟩
  · intro p hp
    rw [hmain] at hp
    cases hp

/-! ## The operations -/

/-- From `s` to a sound `s'` the coroutine `i` becomes `v`; the others stay. -/
structure Turns (s : Schedule) (i : ℕ) (v : Option Coroutine) (s' : Schedule) : Prop where
  inv : s'.Inv
  co : s'.coAt = update s.coAt i v
  opened : s'._co.isSome = s._co.isSome
  curco : s'._curco = s._curco

/-- The control is kept where the coroutine that changes is not the running one. -/
theorem Control.congr (h : s.Control) {v : Option Coroutine} (hco : s'.coAt = update s.coAt i v)
    (hv : ∀ c, v = some c → c._status = .ready) (hslot : ∀ j, j ≠ i → s'.slot j = s.slot j)
    (hi : ∀ p, s._curco = some p → s.slot i ≠ some p)
    (hcurco : s'._curco = s._curco) (hcur : s'.cur = s.cur) (hctx : s'._ctx = s._ctx) :
    s'.Control := by
  have hold : ∀ j c, s'.coAt j = some c →
      (j = i ∧ c._status = .ready) ∨ (j ≠ i ∧ s.coAt j = some c) := by
    intro j c hc
    rw [hco, Function.update_apply] at hc
    split at hc
    · rename_i hj
      exact .inl ⟨hj, hv c hc⟩
    · rename_i hj
      exact .inr ⟨hj, hc⟩
  refine ⟨?_, ?_, ?_⟩
  · intro j c hc
    rcases hold j c hc with ⟨-, hst⟩ | ⟨-, hc'⟩
    · rw [hst]
      decide
    · exact h.alive j c hc'
  · rw [hcurco, hcur]
    intro hmain
    refine ⟨(h.main hmain).1, ?_⟩
    intro j c hc
    rcases hold j c hc with ⟨-, hst⟩ | ⟨-, hc'⟩
    · rw [hst]
      decide
    · exact (h.main hmain).2 j c hc'
  · rw [hcurco]
    intro p hp
    obtain ⟨k, hr⟩ := h.inside p hp
    have hne : k ≠ i := by
      rintro rfl
      exact hi p hp hr.slot
    refine ⟨k, by rw [hslot k hne]; exact hr.slot, by rw [hcur]; exact hr.cur,
      by rw [hctx]; exact hr.ctx, ?_⟩
    intro j c hc
    rcases hold j c hc with ⟨hj, hst⟩ | ⟨-, hc'⟩
    · rw [hst, hj]
      exact iff_of_false (by decide) (Ne.symm hne)
    · exact hr.running j c hc'

/-- **`create`** gives an id that no coroutine has. -/
theorem Inv.alloc (h : s.Inv) (hopen : s._co.isSome) (routine data : ℕ) :
    ∃ i s', s._alloc_co_ routine data = some (s', i) ∧ s.coAt i = none ∧
      s.Turns i (some ⟨i, .ready, routine, data⟩) s' := by
  obtain ⟨s', hs', ha⟩ := h.table._alloc_co_ hopen routine data
  have hnew : s.slot s.ids.take.1 = none := by
    have hnot := h.table.pool.not_live_take
    exact Option.not_isSome_iff_eq_none.mp hnot
  refine ⟨_, s', hs', h.table.coAt_eq_none_iff.mpr hnew, ⟨ha.table, ?_⟩, ha.co, ?_, ha.curco⟩
  · refine h.control.congr ha.co ?_ ?_ ?_ ha.curco ha.cur ha.ctx
    · intro c hc
      rw [← Option.some.inj hc]
    · intro j hj
      rw [ha.slot, Function.update_of_ne hj]
    · intro p _ hp
      rw [hnew] at hp
      cases hp
  · rw [ha.opened, hopen]

/-- **`destroy`** frees a coroutine that is not the running one. -/
theorem Inv.release (h : s.Inv) (hi : s.slot i = some p) (hne : s._curco ≠ some p) :
    ∃ s', s.release p i = some s' ∧ s.Turns i none s' := by
  obtain ⟨s', hs', hr⟩ := h.table.release hi
  refine ⟨s', hs', ⟨hr.table, ?_⟩, hr.co, hr.opened, hr.curco⟩
  refine h.control.congr hr.co ?_ ?_ ?_ hr.curco hr.cur hr.ctx
  · intro c hc
    cases hc
  · intro j hj
    rw [hr.slot, Function.update_of_ne hj]
  · intro q hq hp
    rw [hi] at hp
    rw [hq] at hne
    exact hne hp.symm

/-- **`resume`** of a coroutine that waits: it runs. -/
theorem Inv.resume (h : s.Inv) (hmain : s._curco = none) (hi : s.slot i = some p)
    (hc : s.coAt i = some c) :
    ∃ s', s.resume i = some s' ∧ s'.Inv ∧ s'._co.isSome = s._co.isSome ∧
      s'.coAt = update s.coAt i (some { c with _status := .running }) ∧
      s'._curco = some p ∧ s'.RunsAt p i := by
  have hlt := h.table.lt_cap hi
  obtain ⟨c', hc', hheap, -⟩ := h.table.coAt_of_slot hi
  obtain rfl : c' = c := Option.some.inj (hc'.symm.trans hc)
  have hcur := (h.control.main hmain).1
  have hwait := h.waits hmain hc
  have hset := setStatus_eq hheap .running
  let s' : Schedule :=
    { s with
      heap := update s.heap p (some { c' with _status := .running })
      _curco := some p
      _ctx := some ⟨s.cur, p, i⟩
      cur := some p }
  have heq : s.resume i = some s' := by
    unfold Schedule.resume
    rw [hmain, if_neg (by simp), if_neg (by omega), Int.toNat_natCast, h.table.entry_eq hlt, hi,
      Option.bind_some]
    dsimp only
    rw [hheap, Option.bind_some, hset]
    rcases hwait with hw | hw
    · rw [hw]
      rfl
    · rw [hw]
      rfl
  obtain ⟨htable, hco⟩ := h.table.status hi hheap .running s' rfl rfl rfl rfl rfl
  have hruns : s'.RunsAt p i := by
    refine ⟨hi, rfl, by rw [← hcur], ?_⟩
    intro j d hd
    rw [hco, Function.update_apply] at hd
    split at hd
    · rename_i hj
      rw [← Option.some.inj hd]
      exact iff_of_true rfl hj
    · rename_i hj
      exact iff_of_false ((h.control.main hmain).2 j d hd) hj
  refine ⟨s', heq, ⟨htable, ?_, ?_, ?_⟩, rfl, hco, rfl, hruns⟩
  · intro j d hd
    rw [hco, Function.update_apply] at hd
    split at hd
    · rw [← Option.some.inj hd]
      exact fun he => CoStatus.noConfusion he
    · exact h.control.alive j d hd
  · exact fun hn => absurd hn (Option.some_ne_none p)
  · intro q hq
    rw [← Option.some.inj hq]
    exact ⟨i, hruns⟩

/-- The control after a switch back to the main context. -/
theorem RunsAt.back (h : s.RunsAt p i) {v : Option Coroutine} (hco : s'.coAt = update s.coAt i v)
    (halive : ∀ j c, s.coAt j = some c → c._status ≠ .dead)
    (hv : ∀ c, v = some c → c._status = .suspend) (hcurco : s'._curco = none)
    (hcur : s'.cur = none) : s'.Control := by
  have hold : ∀ j c, s'.coAt j = some c →
      c._status = .suspend ∨ (j ≠ i ∧ s.coAt j = some c) := by
    intro j c hc
    rw [hco, Function.update_apply] at hc
    split at hc
    · exact .inl (hv c hc)
    · rename_i hj
      exact .inr ⟨hj, hc⟩
  refine ⟨?_, ?_, ?_⟩
  · intro j c hc
    rcases hold j c hc with hst | ⟨-, hc'⟩
    · rw [hst]
      decide
    · exact halive j c hc'
  · intro _
    refine ⟨hcur, ?_⟩
    intro j c hc hst
    rcases hold j c hc with hst' | ⟨hj, hc'⟩
    · rw [hst] at hst'
      cases hst'
    · exact hj ((h.running j c hc').mp hst)
  · intro q hq
    rw [hcurco] at hq
    cases hq

/-- From `s`, where the coroutine `i` runs, back to the main context: it has become `v`. -/
structure Leaves (s : Schedule) (i : ℕ) (v : Option Coroutine) (s' : Schedule) : Prop where
  inv : s'.Inv
  co : s'.coAt = update s.coAt i v
  opened : s'._co.isSome = s._co.isSome
  curco : s'._curco = none

/-- **`yield`** inside a coroutine. -/
theorem Inv.yield (h : s.Inv) (hp : s._curco = some p) (hr : s.RunsAt p i)
    (hc : s.coAt i = some c) :
    ∃ s', s.yield = some s' ∧ s.Leaves i (some { c with _status := .suspend }) s' := by
  obtain ⟨c', hc', hheap, -⟩ := h.table.coAt_of_slot hr.slot
  obtain rfl : c' = c := Option.some.inj (hc'.symm.trans hc)
  let s' : Schedule :=
    { s with
      heap := update s.heap p (some { c' with _status := .suspend })
      _curco := none
      cur := none }
  have heq : s.yield = some s' := by
    unfold Schedule.yield
    rw [hp]
    dsimp only
    rw [setStatus_eq hheap, Option.bind_some]
    refine switchBack_live (i := i) hr.ctx (Function.update_self ..) ?_
    exact fun he => CoStatus.noConfusion he
  obtain ⟨htable, hco⟩ := h.table.status hr.slot hheap .suspend s' rfl rfl rfl rfl rfl
  refine ⟨s', heq, ⟨htable, ?_⟩, hco, rfl, rfl⟩
  refine hr.back hco h.control.alive ?_ rfl rfl
  intro d hd
  rw [← Option.some.inj hd]

/-- **The end of a routine**: its coroutine is freed by the `resume` that it goes back to. -/
theorem Inv.finish (h : s.Inv) (hp : s._curco = some p) (hr : s.RunsAt p i)
    (hc : s.coAt i = some c) : ∃ s', s.finish = some s' ∧ s.Leaves i none s' := by
  obtain ⟨c', hc', hheap, -⟩ := h.table.coAt_of_slot hr.slot
  obtain rfl : c' = c := Option.some.inj (hc'.symm.trans hc)
  let d : Schedule := { s with heap := update s.heap p (some { c' with _status := .dead }) }
  have hset : s.setStatus p .dead = some d := setStatus_eq hheap .dead
  obtain ⟨htable, hco⟩ := h.table.status hr.slot hheap .dead d rfl rfl rfl rfl rfl
  have hslot : d.slot i = some p := hr.slot
  obtain ⟨e, he, hrel⟩ := htable.release hslot
  have heq : s.finish = some { e with _curco := none, cur := none } := by
    unfold Schedule.finish
    rw [hp, Option.bind_some, hset, Option.bind_some]
    have hdheap : d.heap p = some { c' with _status := .dead } := Function.update_self ..
    rw [switchBack_dead (s := d) hr.ctx hdheap rfl, he, Option.map_some]
  have hcoAt : e.coAt = update s.coAt i none := by
    rw [hrel.co, hco, Function.update_idem]
  refine ⟨_, heq, ⟨?_, ?_⟩, hcoAt, ?_, rfl⟩
  · obtain ⟨h1, h2, h3, h4, h5, h6⟩ := hrel.table
    exact ⟨h1, h2, h3, h4, h5, h6⟩
  · refine hr.back (v := none) hcoAt h.control.alive ?_ rfl rfl
    intro d hd
    cases hd
  · exact hrel.opened

theorem freeAll_live (hlive : ∀ p, some p ∈ t → s.heap p ≠ none)
    (hdis : t.Pairwise fun a b => ∀ p, a = some p → b ≠ some p) :
    ∃ heap, freeAll t s = some { s with heap := heap } ∧
      ∀ p c, heap p = some c → s.heap p = some c := by
  induction t generalizing s with
  | nil => exact ⟨s.heap, rfl, fun _ _ h => h⟩
  | cons e t ih =>
    obtain ⟨hhead, htail⟩ := List.pairwise_cons.mp hdis
    cases e with
    | none => exact ih (fun p hp => hlive p (List.mem_cons_of_mem none hp)) htail
    | some p =>
      obtain ⟨c, hc⟩ := Option.ne_none_iff_exists'.mp (hlive p List.mem_cons_self)
      obtain ⟨heap, heq, hsub⟩ := ih (s := { s with heap := update s.heap p none })
        (by
          intro q hq
          have hne : q ≠ p := by
            rintro rfl
            exact hhead _ hq q rfl rfl
          dsimp only
          rw [Function.update_of_ne hne]
          exact hlive q (List.mem_cons_of_mem _ hq)) htail
      refine ⟨heap, ?_, ?_⟩
      · unfold freeAll
        rw [free_eq hc, Option.bind_some, heq]
      · intro q d hq
        have hold := hsub q d hq
        dsimp only at hold
        rw [Function.update_apply] at hold
        split at hold
        · cases hold
        · exact hold

theorem Table.live_of_mem (h : s.Table) (ht : s._co = some t) (hp : some p ∈ t) :
    s.heap p ≠ none := by
  obtain ⟨i, hi⟩ := List.mem_iff_getElem?.mp hp
  have hslot : s.slot i = some p := by
    rw [slot_eq ht, hi, Option.join_some]
  obtain ⟨c, hc, -⟩ := h.own i p hslot
  rw [hc]
  exact Option.some_ne_none c

theorem Table.pairwise (h : s.Table) (ht : s._co = some t) :
    t.Pairwise fun a b => ∀ p, a = some p → b ≠ some p := by
  rw [List.pairwise_iff_getElem]
  intro i j hi hj hij p hip hjp
  have hslot : ∀ k (hk : k < t.length), t[k] = some p → s.slot k = some p := by
    intro k hk he
    rw [slot_eq ht, List.getElem?_eq_getElem hk, he, Option.join_some]
  have heq := h.slot_inj (hslot i hi hip) (hslot j hj hjp)
  omega

/-- The loop of `close` frees each coroutine once. -/
theorem Table.freeAll (h : s.Table) :
    ∃ heap, freeAll ((s._co.getD []).take s._cap) s = some { s with heap := heap } ∧
      ∀ p c, heap p = some c → s.heap p = some c := by
  cases ht : s._co with
  | none =>
    have hnil : (Option.getD none []).take s._cap = ([] : List (Option ℕ)) := List.take_nil
    rw [hnil, ← ht]
    exact ⟨s.heap, rfl, fun _ _ h => h⟩
  | some t =>
    have hall : ((some t).getD []).take s._cap = t := by
      rw [Option.getD_some, ← (h.size t ht).1, List.take_length]
    rw [hall, ← ht]
    exact freeAll_live (fun p hp => h.live_of_mem ht hp) (h.pairwise ht)

/-- **`close`** in the main context. -/
theorem Inv.close (h : s.Inv) (hmain : s._curco = none) :
    ∃ s', s.close = some s' ∧ s'.Inv ∧ s'._co = none ∧ s'._curco = none := by
  obtain ⟨heap, heq, hsub⟩ := h.table.freeAll
  refine ⟨({ s with heap := heap } : Schedule).wipe, ?_, ?_, rfl, rfl⟩
  · unfold Schedule.close
    rw [if_pos (by rw [hmain]; rfl), heq, Option.map_some]
  · refine Inv.shut rfl ⟨rfl, rfl, rfl⟩ ?_ (h.control.main hmain).1 rfl
    exact fun p c hc => h.table.fresh p c (hsub p c hc)

theorem Inv.initEnv (h : s.Inv) (hmain : s._curco = none) :
    s.initEnv.Inv ∧ s.initEnv.coAt = s.coAt := by
  cases hco : s._co with
  | some t =>
    have heq : s.initEnv = s := by
      unfold Schedule.initEnv
      rw [hco]
    rw [heq]
    exact ⟨h, rfl⟩
  | none =>
    obtain ⟨hcap, hnco, hfree⟩ := h.table.shut hco
    let s' : Schedule :=
      { s with
        _curco := none
        _cap := DEFAULT_COROUTINE
        _co := some (List.replicate DEFAULT_COROUTINE none) }
    have heq : s.initEnv = s' := by
      unfold Schedule.initEnv
      rw [hco]
    have hslot : s'.slot = s.slot := by
      funext i
      rw [slot_shut hco, slot_eq rfl, List.getElem?_replicate]
      split
      · rfl
      · rfl
    have hcoAt : s'.coAt = s.coAt := by
      unfold coAt
      rw [hslot]
    rw [heq]
    refine ⟨⟨⟨?_, ?_, ?_, ?_, ?_, h.table.fresh⟩, ?_, ?_, ?_⟩, hcoAt⟩
    · exact fun hn => absurd hn (Option.some_ne_none _)
    · intro t ht
      obtain rfl := Option.some.inj ht
      exact ⟨List.length_replicate, Nat.zero_lt_succ 1023⟩
    · have hnco' : s'._nco = 0 := hnco
      rw [hnco']
      exact Nat.zero_le _
    · rw [hslot]
      exact h.table.pool
    · rw [hslot]
      exact h.table.own
    · rw [hcoAt]
      exact h.control.alive
    · rw [hcoAt]
      exact fun _ => h.control.main hmain
    · intro p hp
      cases hp

/-- `resume` does nothing, or finds a coroutine that waits. -/
theorem Inv.resume_cases (h : s.Inv) (x : ℤ) :
    s.resume x = some s ∨
      s._curco = none ∧ ∃ (i p : ℕ) (c : Coroutine), x = i ∧ s.slot i = some p ∧
        s.coAt i = some c := by
  unfold Schedule.resume
  split
  · exact .inl rfl
  · rename_i hcurco
    have hmain : s._curco = none := Option.not_isSome_iff_eq_none.mp hcurco
    split
    · exact .inl rfl
    · have hlt : x.toNat < s._cap := by omega
      rw [h.table.entry_eq hlt, Option.bind_some]
      split
      · exact .inl rfl
      · rename_i p hp
        obtain ⟨c, hc, -⟩ := h.table.coAt_of_slot hp
        exact .inr ⟨hmain, x.toNat, p, c, by omega, hp, hc⟩

/-- `destroy` does nothing, or releases a coroutine that is not the running one. -/
theorem Inv.destroy_cases (h : s.Inv) (x : ℤ) :
    s.destroy x = some s ∨
      ∃ (i p : ℕ), x = i ∧ s.slot i = some p ∧ s._curco ≠ some p ∧
        s.destroy x = s.release p i := by
  obtain ⟨cur, hcur, hself⟩ : ∃ cur, s.curid = some cur ∧
      ∀ p i, s._curco = some p → s.slot i = some p → cur = i := by
    cases hco : s._curco with
    | none =>
      refine ⟨-1, curid_main hco, ?_⟩
      intro p i hp
      cases hp
    | some q =>
      obtain ⟨k, c, hr, -, -, -, hid⟩ := h.curid hco
      refine ⟨k, hid, ?_⟩
      intro p i hp hi
      obtain rfl := Option.some.inj hp
      rw [h.table.slot_inj hr.slot hi]
  unfold Schedule.destroy
  rw [hcur, Option.bind_some]
  split
  · rename_i hother
    split
    · have hlt : x.toNat < s._cap := by omega
      rw [h.table.entry_eq hlt, Option.bind_some]
      split
      · exact .inl rfl
      · rename_i p hp
        refine .inr ⟨x.toNat, p, by omega, hp, ?_, rfl⟩
        intro hrun
        have hx := hself p _ hrun hp
        rcases hother with hnone | hne
        · rw [hrun] at hnone
          cases hnone
        · omega
    · exact .inl rfl
  · exact .inl rfl

/-! ## Runs -/

theorem Inv.start : start.Inv := by
  refine Inv.shut rfl ⟨rfl, rfl, rfl⟩ ?_ rfl rfl
  intro p c hc
  cases hc

theorem Inv.cur_eq_none_iff (h : s.Inv) : s.cur = none ↔ s._curco = none := by
  constructor
  · intro hcur
    by_contra hne
    obtain ⟨p, hp⟩ := Option.ne_none_iff_exists'.mp hne
    obtain ⟨i, hr⟩ := h.control.inside p hp
    rw [hr.cur] at hcur
    cases hcur
  · exact fun hmain => (h.control.main hmain).1

/-- What is defined and leaves a sound schedule, as open as before. -/
def Keeps (s : Schedule) (r : Option Schedule) : Prop :=
  ∃ s', r = some s' ∧ s'.Inv ∧ s'._co.isSome = s._co.isSome

theorem Inv.keeps (h : s.Inv) {r : Option Schedule} (hr : r = some s) : s.Keeps r :=
  ⟨s, hr, h, rfl⟩

theorem Inv.keeps_resume (h : s.Inv) (x : ℤ) : s.Keeps (s.resume x) := by
  rcases h.resume_cases x with heq | ⟨hmain, i, p, c, rfl, hi, hc⟩
  · exact h.keeps heq
  · obtain ⟨s', hs', hinv, hopen, -⟩ := h.resume hmain hi hc
    exact ⟨s', hs', hinv, hopen⟩

theorem Inv.keeps_yield (h : s.Inv) : s.Keeps s.yield := by
  cases hco : s._curco with
  | none =>
    apply h.keeps
    unfold Schedule.yield
    rw [hco]
  | some p =>
    obtain ⟨i, c, hr, hc, -⟩ := h.curid hco
    obtain ⟨s', hs', hl⟩ := h.yield hco hr hc
    exact ⟨s', hs', hl.inv, hl.opened⟩

theorem Inv.keeps_destroy (h : s.Inv) (x : ℤ) : s.Keeps (s.destroy x) := by
  rcases h.destroy_cases x with heq | ⟨i, p, -, hi, hne, heq⟩
  · exact h.keeps heq
  · obtain ⟨s', hs', hturn⟩ := h.release hi hne
    exact ⟨s', heq.trans hs', hturn.inv, hturn.opened⟩

theorem Inv.keeps_finish (h : s.Inv) (hin : s.cur ≠ none) : s.Keeps s.finish := by
  have hne : s._curco ≠ none := fun hn => hin (h.cur_eq_none_iff.mpr hn)
  obtain ⟨p, hp⟩ := Option.ne_none_iff_exists'.mp hne
  obtain ⟨i, c, hr, hc, -⟩ := h.curid hp
  obtain ⟨s', hs', hl⟩ := h.finish hp hr hc
  exact ⟨s', hs', hl.inv, hl.opened⟩

theorem Inv.curid_defined (h : s.Inv) : ∃ r, s.curid = some r := by
  rcases h.curid_cases with ⟨-, hr⟩ | ⟨r, hr, -⟩
  · exact ⟨-1, hr⟩
  · exact ⟨r, hr⟩

/-- **Every call is defined** and keeps the invariant. -/
theorem Inv.call (h : s.Inv) {op : CoOp} (hop : s.Issued op) :
    ∃ s' r, s.call op = some (s', r) ∧ s'.Inv := by
  have hpair : ∀ {r : Option Schedule}, s.Keeps r →
      ∃ s' i, r.map (·, (0 : ℤ)) = some (s', i) ∧ s'.Inv := by
    rintro r ⟨s', rfl, hinv, -⟩
    exact ⟨s', 0, rfl, hinv⟩
  cases op with
  | initEnv granted => exact ⟨_, 0, rfl, (h.initEnv (h.cur_eq_none_iff.mp hop)).1⟩
  | create granted routine data =>
    unfold Schedule.call Schedule.create
    dsimp only
    cases hco : s._co with
    | none => exact ⟨s, -1, rfl, h⟩
    | some t =>
      obtain ⟨i, s', hs', -, hturn⟩ := h.alloc (by rw [hco]; rfl) routine data
      dsimp only
      rw [hs', Option.map_some]
      exact ⟨s', i, rfl, hturn.inv⟩
  | resume x => exact hpair (h.keeps_resume x)
  | yield => exact hpair h.keeps_yield
  | destroy x => exact hpair (h.keeps_destroy x)
  | curid =>
    obtain ⟨r, hr⟩ := h.curid_defined
    exact ⟨s, r, congrArg (Option.map (s, ·)) hr, h⟩
  | close =>
    obtain ⟨s', hs', hinv, -⟩ := h.close (h.cur_eq_none_iff.mp hop)
    exact ⟨s', 0, congrArg (Option.map (·, (0 : ℤ))) hs', hinv⟩
  | finish => exact hpair (h.keeps_finish hop)

/-- A run lemma: the invariant holds of every state reached. -/
theorem Inv.reach (hr : Reach step Issued .start s) : s.Inv := by
  refine hr.inv_of_defined Inv.start ?_
  intro s op h hop
  obtain ⟨s', r, hcall, hinv⟩ := h.call hop
  exact ⟨s', congrArg (Option.map Prod.fst) hcall, hinv⟩

theorem Inv.running_iff (h : s.Inv) (i : ℕ) :
    s.statusAt i = some .running ↔ ∃ p, s._curco = some p ∧ s.slot i = some p := by
  constructor
  · intro hst
    obtain ⟨c, hc, hrun⟩ := Option.map_eq_some_iff.mp hst
    cases hco : s._curco with
    | none => exact absurd hrun ((h.control.main hco).2 i c hc)
    | some p =>
      obtain ⟨k, hr⟩ := h.control.inside p hco
      rw [(hr.running i c hc).mp hrun]
      exact ⟨p, rfl, hr.slot⟩
  · rintro ⟨p, hp, hi⟩
    obtain ⟨k, c, hr, hc, -, hrun, -⟩ := h.curid hp
    rw [h.table.slot_inj hi hr.slot]
    unfold statusAt
    rw [hc, Option.map_some, hrun]

theorem Inv.sound (h : s.Inv) : s.Sound := by
  have hentry : ∀ i p, s.entry i = some (some p) ↔ s.slot i = some p := by
    intro i p
    unfold slot
    exact Option.join_eq_some_iff.symm
  refine ⟨?_, h.table.top, h.table.pool.nodup, ?_, ?_, ?_, ?_, ?_, ?_, ?_⟩
  · intro i p hi
    rw [hentry] at hi
    obtain ⟨c, hc, hid⟩ := h.table.own i p hi
    exact ⟨c, hc, hid, h.table.pool.below i (by rw [hi]; rfl)⟩
  · intro i
    have hmem : i ∈ s._freeid ↔ i < s._nco ∧ ¬ (s.slot i).isSome := h.table.pool.mem i
    have htop := h.table.top
    rw [hmem]
    refine and_congr_right ?_
    intro hlt
    rw [h.table.entry_eq (by omega), Option.not_isSome_iff_eq_none, Option.some_inj]
  · intro i
    rw [h.running_iff]
    simp only [hentry]
  · intro op hop
    obtain ⟨s', r, hs', -⟩ := h.call hop
    rw [hs']
    rfl
  · intro hco routine data
    unfold Schedule.create
    rw [hco]
  · intro hne routine data s' r hs'
    obtain ⟨t, hco⟩ := Option.ne_none_iff_exists'.mp hne
    obtain ⟨i, s₁, hs₁, hnew, hturn⟩ := h.alloc (by rw [hco]; rfl) routine data
    unfold Schedule.create at hs'
    rw [hco] at hs'
    dsimp only at hs'
    rw [hs₁, Option.map_some] at hs'
    cases hs'
    exact ⟨i, rfl, hnew, hturn.co⟩
  · intro x s' hs'
    rcases h.resume_cases x with heq | ⟨hmain, i, p, c, rfl, hi, hc⟩
    · rw [heq] at hs'
      exact .inl (Option.some.inj hs').symm
    · obtain ⟨s₁, hs₁, -, -, hco, -⟩ := h.resume hmain hi hc
      rw [hs₁] at hs'
      obtain rfl := Option.some.inj hs'
      exact .inr ⟨i, c, rfl, hc, h.waits hmain hc, hco⟩
  · intro x s' i hs' hst
    rcases h.destroy_cases x with heq | ⟨j, p, rfl, hj, hne, heq⟩
    · rw [heq] at hs'
      rw [← Option.some.inj hs']
    · obtain ⟨s₁, hs₁, hturn⟩ := h.release hj hne
      rw [heq, hs₁] at hs'
      obtain ⟨q, hq, hi⟩ := (h.running_iff i).mp hst
      have hij : i ≠ j := by
        rintro rfl
        rw [hi] at hj
        exact hne (hq.trans hj)
      rw [← Option.some.inj hs', hturn.co, Function.update_of_ne hij]

/-- **The table is sound** in every state reached. -/
theorem reach_sound (hr : Reach step Issued .start s) : s.Sound := (Inv.reach hr).sound

instance (s : Schedule) (op : CoOp) : Decidable (s.Issued op) := by
  cases op <;> unfold Issued <;> infer_instance

/-- A coroutine that has made a second one and destroyed it. -/
theorem reach_sound_inside : ∃ s : Schedule,
    (s.statusAt 0 = some .running ∧ s._nco = 2 ∧ s._freeid = [1]) ∧ s.Sound := by
  let ops : List CoOp :=
    [.initEnv true, .create true 8 9, .resume 0, .create true 8 9, .destroy 1]
  have hrun : ((ops.foldlM (fun s op => if Issued s op then step s op else none) start).map
      fun s => decide (s.statusAt 0 = some .running ∧ s._nco = 2 ∧ s._freeid = [1])) =
        some true := by
    decide +kernel
  obtain ⟨s, hs, hout⟩ := Option.map_eq_some_iff.mp hrun
  exact ⟨s, of_decide_eq_true hout, reach_sound (Reach.of_checked hs)⟩

end Schedule

end Netlib
