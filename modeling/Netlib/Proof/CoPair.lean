import Netlib.Proof.Coroutine
import Netlib.Spec.CoPair

/-!
# The two systems agree while the calls meet their guards

`close` on Linux tests for a running coroutine before its loop only, and wipes the schedule in
any case; on Windows the test is about all of it. `create` on Windows does not test if there
is a schedule at all. The two have the same schedule as long as no call shows this.
-/

namespace Netlib

open Lib

namespace CoPair

variable {p p' : CoPair} {op : CoOp}

/-- The two have one schedule, and the thread is a fiber exactly when it is open. -/
structure Inv (p : CoPair) : Prop where
  agrees : p.Agrees
  ctx : p.windows._ctx = p.linux._co.isSome
  linux : p.linux.Inv

theorem Inv.windows_eq (h : p.Inv) : p.windows = ⟨p.linux, p.linux._co.isSome⟩ := by
  have hsched := h.agrees.sched
  have hctx := h.ctx
  cases hw : p.windows with
  | mk sched ctx =>
    rw [hw] at hsched hctx
    rw [← hctx, ← hsched]

/-- A coroutine that runs is in a table. -/
theorem Inv.isOpen (h : p.Inv) (hin : p.linux._curco ≠ none) : p.linux._co.isSome := by
  obtain ⟨q, hq⟩ := Option.ne_none_iff_exists'.mp hin
  obtain ⟨i, hr⟩ := h.linux.control.inside q hq
  cases hco : p.linux._co with
  | some t => rfl
  | none =>
    have hslot := hr.slot
    rw [Schedule.slot_shut hco] at hslot
    cases hslot

/-- What both do alike keeps the pair. -/
theorem Inv.next (h : p.Inv) {s : Schedule} {i : ℤ} (hl : p.linux.call op = some (s, i))
    (hw : p.windows.call op = some (⟨s, s._co.isSome⟩, i)) (hs : s.Inv) :
    ∃ p', p.step op = some p' ∧ p'.Inv := by
  refine ⟨⟨s, ⟨s, s._co.isSome⟩, p.ids ++ [(i, i)]⟩, ?_, ⟨?_, rfl⟩, rfl, hs⟩
  · unfold step
    rw [hl, hw]
  · intro a b hab
    rcases List.mem_append.mp hab with hold | hnew
    · exact h.agrees.ids a b hold
    · cases List.mem_singleton.mp hnew
      rfl

/-- The calls that have one text. -/
theorem Inv.same (h : p.Inv) {r : Option Schedule} (hk : p.linux.Keeps r)
    (hl : p.linux.call op = r.map (·, 0))
    (hw : p.windows.call op = r.map fun s => ({ p.windows with sched := s }, 0)) :
    ∃ p', p.step op = some p' ∧ p'.Inv := by
  obtain ⟨s', rfl, hinv, hopen⟩ := hk
  refine h.next hl ?_ hinv
  rw [hw, Option.map_some]
  dsimp only
  rw [h.ctx, ← hopen]

theorem Inv.step_initEnv (h : p.Inv) {granted : Bool} (hg : p.linux._co = none → granted) :
    ∃ p', p.step (.initEnv granted) = some p' ∧ p'.Inv := by
  cases hco : p.linux._co with
  | some t =>
    have hl : p.linux.initEnv = p.linux := by
      unfold Schedule.initEnv
      rw [hco]
    refine h.next (s := p.linux) (i := 0) (congrArg (fun s => some (s, 0)) hl) ?_ h.linux
    have hctx : p.windows._ctx := by
      rw [h.ctx, hco]
      rfl
    have hw : p.windows.initEnv granted = p.windows := if_pos hctx
    rw [← h.windows_eq]
    exact congrArg (fun w => some (w, 0)) hw
  | none =>
    obtain rfl : granted = true := hg hco
    have hmain : p.linux._curco = none := by
      by_contra hin
      have hopen := h.isOpen hin
      rw [hco] at hopen
      cases hopen
    refine h.next (s := p.linux.initEnv) (i := 0) rfl ?_ (h.linux.initEnv hmain).1
    rw [h.windows_eq]
    unfold WinSchedule.call WinSchedule.initEnv Schedule.initEnv
    dsimp only
    rw [hco]
    rfl

theorem Inv.step_create (h : p.Inv) (routine data : ℕ) :
    ∃ p', p.step (.create p.linux._co.isSome routine data) = some p' ∧ p'.Inv := by
  cases hco : p.linux._co with
  | none =>
    refine h.next (s := p.linux) (i := -1) ?_ ?_ h.linux
    · unfold Schedule.call Schedule.create
      rw [hco]
    · rw [← h.windows_eq]
      rfl
  | some t =>
    have hopen : p.linux._co.isSome := by
      rw [hco]
      rfl
    obtain ⟨i, s', hs', -, hturn⟩ := h.linux.alloc hopen routine data
    refine h.next (s := s') (i := i) ?_ ?_ hturn.inv
    · unfold Schedule.call Schedule.create
      rw [hco]
      dsimp only
      rw [hs', Option.map_some]
    · rw [hturn.opened, h.windows_eq]
      unfold WinSchedule.call WinSchedule.create
      dsimp only
      rw [Option.isSome_some, if_pos rfl, hs', Option.map_some]

theorem Inv.step_close (h : p.Inv) (hmain : p.linux._curco = none) :
    ∃ p', p.step .close = some p' ∧ p'.Inv := by
  obtain ⟨s', hs', hinv, hco, -⟩ := h.linux.close hmain
  refine h.next (s := s') (i := 0) (congrArg (Option.map (·, (0 : ℤ))) hs') ?_ hinv
  unfold Schedule.close at hs'
  rw [if_pos (by rw [hmain]; rfl)] at hs'
  obtain ⟨s₁, hs₁, rfl⟩ := Option.map_eq_some_iff.mp hs'
  rw [h.windows_eq]
  unfold WinSchedule.call WinSchedule.close
  dsimp only
  rw [if_pos (by rw [hmain]; rfl), hs₁]
  rfl

/-- **A call that meets the condition** is defined on both and keeps them the same. -/
theorem Inv.step (h : p.Inv) (hop : p.Meets op) : ∃ p', p.step op = some p' ∧ p'.Inv := by
  cases op with
  | initEnv granted => exact h.step_initEnv hop
  | create granted routine data =>
    obtain rfl : granted = p.linux._co.isSome := hop
    exact h.step_create routine data
  | resume x =>
    refine h.same (h.linux.keeps_resume x) rfl ?_
    rw [h.windows_eq]
    rfl
  | yield =>
    refine h.same h.linux.keeps_yield rfl ?_
    have hctx : ¬ (p.linux._curco.isSome ∧ ¬ p.linux._co.isSome) := by
      rintro ⟨hin, hshut⟩
      exact hshut (h.isOpen (Option.isSome_iff_ne_none.mp hin))
    rw [h.windows_eq]
    unfold WinSchedule.call WinSchedule.yield
    dsimp only
    rw [if_neg hctx, Option.map_map]
    rfl
  | destroy x =>
    refine h.same (h.linux.keeps_destroy x) rfl ?_
    rw [h.windows_eq]
    rfl
  | curid =>
    obtain ⟨r, hr⟩ := h.linux.curid_defined
    refine h.next (s := p.linux) (i := r) (congrArg (Option.map (p.linux, ·)) hr) ?_ h.linux
    rw [h.windows_eq]
    exact congrArg (Option.map (_, ·)) hr
  | close => exact h.step_close hop
  | finish =>
    refine h.same (h.linux.keeps_finish hop) rfl ?_
    have hctx : p.linux._co.isSome :=
      h.isOpen fun hn => hop (h.linux.cur_eq_none_iff.mpr hn)
    rw [h.windows_eq]
    unfold WinSchedule.call WinSchedule.finish
    dsimp only
    rw [if_pos hctx, Option.map_map]
    rfl

/-! ## The other calls -/

/-- `close` inside a coroutine: on Linux the schedule is gone, on Windows nothing happens. -/
theorem Inv.not_agrees_close (h : p.Inv) (hin : p.linux._curco ≠ none)
    (hs : p.step .close = some p') : ¬ p'.Agrees := by
  intro hagree
  have hopen := h.isOpen hin
  have hsome : p.linux._curco.isNone = false := Option.isNone_eq_false_iff.mpr
    (Option.isSome_iff_ne_none.mpr hin)
  have hl : p.linux.call .close = some (p.linux.wipe, 0) := by
    unfold Schedule.call Schedule.close
    dsimp only
    rw [hsome, if_neg Bool.false_ne_true, Option.map_some]
  have hw : p.windows.call .close = some (p.windows, 0) := by
    rw [h.windows_eq]
    unfold WinSchedule.call WinSchedule.close
    dsimp only
    rw [hsome, if_neg Bool.false_ne_true, Option.map_some]
  unfold CoPair.step at hs
  rw [hl, hw] at hs
  obtain rfl := Option.some.inj hs
  have hsched : p.windows.sched = p.linux.wipe := hagree.sched
  rw [h.agrees.sched] at hsched
  rw [hsched] at hopen
  cases hopen

/-- Without a schedule `_alloc_co_` writes to a table that has no entry. -/
theorem alloc_shut {s : Schedule} (h : s.Inv) (hco : s._co = none) (routine data : ℕ) :
    s._alloc_co_ routine data = none := by
  obtain ⟨hcap, hnco, hfree⟩ := h.table.shut hco
  unfold Schedule._alloc_co_
  rw [hfree]
  dsimp only
  rw [hcap, if_pos (Nat.zero_le _), hco]
  rfl

theorem Inv.meets_create (h : p.Inv) {granted : Bool} {routine data : ℕ}
    (hs : p.step (.create granted routine data) = some p') (hagree : p'.Agrees) :
    granted = p.linux._co.isSome := by
  cases hco : p.linux._co with
  | none =>
    cases granted with
    | false => rfl
    | true =>
      have hw : p.windows.call (.create true routine data) = none := by
        rw [h.windows_eq]
        unfold WinSchedule.call WinSchedule.create
        dsimp only
        rw [if_pos rfl, alloc_shut h.linux hco, Option.map_none]
      unfold CoPair.step at hs
      rw [hw] at hs
      simp at hs
  | some t =>
    cases granted with
    | true => rfl
    | false =>
      obtain ⟨i, s', hs', -⟩ := h.linux.alloc (by rw [hco]; rfl) routine data
      have hl : p.linux.call (.create false routine data) = some (s', (i : ℤ)) := by
        unfold Schedule.call Schedule.create
        dsimp only
        rw [hco]
        dsimp only
        rw [hs', Option.map_some]
      have hw : p.windows.call (.create false routine data) = some (p.windows, -1) := rfl
      unfold CoPair.step at hs
      rw [hl, hw] at hs
      obtain rfl := Option.some.inj hs
      have hid : (i : ℤ) = -1 := hagree.ids i (-1) (List.mem_append_right _ List.mem_cons_self)
      omega

theorem Inv.meets_initEnv (h : p.Inv) {granted : Bool}
    (hs : p.step (.initEnv granted) = some p') (hagree : p'.Agrees)
    (hco : p.linux._co = none) : granted := by
  cases granted with
  | true => rfl
  | false =>
    have hw : p.windows.call (.initEnv false) = some (p.windows, 0) := by
      rw [h.windows_eq, hco]
      rfl
    have hl : p.linux.initEnv._co.isSome := by
      unfold Schedule.initEnv
      rw [hco]
      rfl
    unfold CoPair.step at hs
    rw [hw] at hs
    obtain rfl := Option.some.inj hs
    have hsched : p.windows.sched = p.linux.initEnv := hagree.sched
    rw [← hsched, h.agrees.sched, hco] at hl
    cases hl

/-- **A call keeps the agreement exactly when it meets the condition.** -/
theorem Inv.meets_iff (h : p.Inv) (hop : p.Issued op) :
    (∃ p', p.step op = some p' ∧ p'.Agrees) ↔ p.Meets op := by
  constructor
  · rintro ⟨p', hs, hagree⟩
    cases op with
    | initEnv granted => exact h.meets_initEnv hs hagree
    | create granted routine data => exact h.meets_create hs hagree
    | resume x => trivial
    | yield => trivial
    | destroy x => trivial
    | curid => trivial
    | close =>
      by_contra hin
      exact h.not_agrees_close hin hs hagree
    | finish => exact hop rfl
  · intro hm
    obtain ⟨p', hs, hinv⟩ := h.step hm
    exact ⟨p', hs, hinv.agrees⟩

theorem Inv.start : start.Inv := by
  refine ⟨⟨?_, rfl⟩, rfl, (Schedule.Inv.start.initEnv rfl).1⟩
  intro i j hij
  cases hij

theorem Inv.reach (hr : Reach CoPair.step Meets .start p) : p.Inv :=
  hr.inv_of_defined Inv.start fun _ _ h hop => h.step hop

/-- **The two systems agree** in every run whose calls meet the condition, and the next call
keeps this exactly when it does too. -/
theorem agrees_reach (hr : Reach CoPair.step Meets start p) :
    p.Agrees ∧ ∀ op, p.Issued op → ((∃ p', p.step op = some p' ∧ p'.Agrees) ↔ p.Meets op) := by
  have h := Inv.reach hr
  exact ⟨h.agrees, fun op hop => h.meets_iff hop⟩

instance (p : CoPair) : (op : CoOp) → Decidable (p.Meets op)
  | .initEnv granted =>
    decidable_of_iff (p.linux._co.isNone = true → granted = true)
      (by rw [Option.isNone_iff_eq_none]; rfl)
  | .create granted _ _ => inferInstanceAs (Decidable (granted = p.linux._co.isSome))
  | .close => inferInstanceAs (Decidable (p.linux._curco = none))
  | .finish => inferInstanceAs (Decidable (p.linux.cur ≠ none))
  | .resume _ | .yield | .destroy _ | .curid => inferInstanceAs (Decidable True)

/-- Of two coroutines the second yields, is resumed and returns; then comes a new schedule. -/
theorem agrees_reach_reopened : ∃ p : CoPair,
    p.ids = [(0, 0), (1, 1), (0, 0), (1, 1), (0, 0), (0, 0), (0, 0), (0, 0), (0, 0)] ∧
      p.Agrees := by
  let ops : List CoOp := [.create true 8 9, .create true 8 9, .resume 1, .curid, .yield,
    .resume 1, .finish, .close, .initEnv true]
  have hrun : ((ops.foldlM (fun p op => if Meets p op then step p op else none) start).map
      fun p => decide (p.ids =
        [(0, 0), (1, 1), (0, 0), (1, 1), (0, 0), (0, 0), (0, 0), (0, 0), (0, 0)])) =
      some true := by
    decide +kernel
  obtain ⟨p, hp, hids⟩ := Option.map_eq_some_iff.mp hrun
  exact ⟨p, of_decide_eq_true hids, (agrees_reach (Reach.of_checked hp)).1⟩

/-- After a `close` inside a coroutine the tables are not the same. -/
theorem not_agrees_reach : ¬ ∀ p, Reach CoPair.step Issued start p →
    (∀ i j, (i, j) ∈ p.ids → i = j) ∧ ∀ i, p.linux.statusAt i = p.windows.sched.statusAt i := by
  intro hall
  let ops : List CoOp := [.create true 8 9, .resume 0, .close]
  have hrun : ((ops.foldlM step start).map
      fun p => (p.linux.statusAt 0, p.windows.sched.statusAt 0)) = some (none, some .running) := by
    decide +kernel
  obtain ⟨p, hp, hout⟩ := Option.map_eq_some_iff.mp hrun
  obtain ⟨hl, hw⟩ := Prod.mk.inj hout
  have hissued : ∀ op ∈ ops, ∀ q : CoPair, q.Issued op := by
    intro op hop q hfin
    rw [hfin] at hop
    simp [ops] at hop
  have htable := (hall p (Reach.of_foldlM hissued hp)).2 0
  rw [hl, hw] at htable
  cases htable

end CoPair

end Netlib
