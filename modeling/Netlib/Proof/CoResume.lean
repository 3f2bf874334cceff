import Netlib.Proof.CoRoom
import Netlib.Proof.CircularQueue
import Netlib.Spec.CoResume
import Mathlib.Data.List.Infix

/-!
# No request is lost while the ring has room

What has been asked for is what has been passed on, followed by what is in the queue: the ring,
or `tmp` and then the list of the thread (`Inv`). A call of `doResume` passes one request on if
there is one, a call of `doThrResume` all that were made before it (`Since`). The ring drops a
request when it has 1024 of them.
-/

namespace Netlib

open Function (update)
open Lib

namespace ResumeWorld

variable {w w' w₀ : ResumeWorld} {l : List ℤ}

/-- What has been asked for and not been passed on is in the queues, in order. -/
structure Queues (w : ResumeWorld) : Prop where
  ring : ∃ xs, w.gresumetaskque.Holds xs ∧ w.asked = w.passed ++ xs
  cap : w.gresumetaskque._cap = 1025
  thr : w.thrAsked w.ctid =
    w.thrPassed ++ (w.tmp.getD [] ++ (w._queue_map w.ctid).getD [])
  count : w.thrCalls = w.thrDone + w.tmp.toList.length

/-- The invariant: a `doThrResume` is in progress only while a coroutine runs. -/
structure Inv (w : ResumeWorld) : Prop where
  co : w.co.Inv
  fits : w.co.Fits
  queues : w.Queues
  idle : w.co._curco = none → w.tmp = none

/-- What has happened since `w₀`. -/
structure Since (w₀ w : ResumeWorld) : Prop where
  ctid : w.ctid = w₀.ctid
  asked : w₀.asked <+: w.asked
  calls : w₀.calls ≤ w.calls
  passed : w₀.asked.length ≤ w.passed.length ∨
    w₀.passed.length + (w.calls - w₀.calls) ≤ w.passed.length
  thrAsked : w₀.thrAsked w₀.ctid <+: w.thrAsked w₀.ctid
  thrTaken : w₀.thrCalls < w.thrCalls →
    (w₀.thrAsked w₀.ctid).length ≤ w.thrPassed.length + (w.tmp.getD []).length
  thrDone : w₀.thrCalls < w.thrDone →
    (w₀.thrAsked w₀.ctid).length ≤ w.thrPassed.length

theorem Since.refl (h : w.Queues) : w.Since w := by
  have hcount := h.count
  refine ⟨rfl, List.prefix_rfl, Nat.le_refl _, .inr ?_, List.prefix_rfl, ?_, ?_⟩
  · omega
  · intro hlt
    omega
  · intro hlt
    omega

/-- What the loop of `doThrResume` leaves, from `w` with the list `l`. -/
structure Drained (w : ResumeWorld) (l : List ℤ) (w' : ResumeWorld) : Prop where
  co : w'.co.Inv
  room : w.co.SameRoom w'.co
  idle : w'.co._curco = none → w'.tmp = none
  passed : w'.thrPassed ++ w'.tmp.getD [] = w.thrPassed ++ l
  mono : w.thrPassed.length ≤ w'.thrPassed.length
  done : w'.thrDone + w'.tmp.toList.length = w.thrDone + 1
  same : ∃ co tmp thrPassed thrDone,
    w' = { w with co := co, tmp := tmp, thrPassed := thrPassed, thrDone := thrDone }

/-- **The loop of `doThrResume`** passes the ids on in order, up to the first that switches to a
coroutine. -/
theorem drain_spec (hinv : w.co.Inv) (hmain : w.co._curco = none) :
    ∃ w', drain l w = some w' ∧ w.Drained l w' := by
  induction l generalizing w with
  | nil =>
    exact ⟨_, rfl, hinv, .refl w.co, fun _ => rfl, rfl, Nat.le_refl _, rfl, w.co, none,
      w.thrPassed, w.thrDone + 1, rfl⟩
  | cons x l ih =>
    have hcur : w.co.cur = none := (hinv.control.main hmain).1
    unfold drain
    rcases hinv.resume_cases x with heq | ⟨-, i, p, c, rfl, hi, hc⟩
    · -- nothing to resume: the loop goes on
      obtain ⟨w', hw', hd⟩ := ih (w := { w with thrPassed := w.thrPassed ++ [x] }) hinv hmain
      obtain ⟨co, tmp, thrPassed, thrDone, hsame⟩ := hd.same
      have hmono := hd.mono
      rw [List.length_append] at hmono
      refine ⟨w', ?_, hd.co, hd.room, hd.idle, ?_, by omega, hd.done, co, tmp, thrPassed, thrDone,
        hsame⟩
      · rw [heq, Option.bind_some, if_pos rfl]
        exact hw'
      · rw [hd.passed, List.append_assoc]
        rfl
    · obtain ⟨co, hco, hinv', -, -, hcurco, hruns⟩ := hinv.resume hmain hi hc
      have hne : co.cur ≠ w.co.cur := by
        rw [hruns.cur, hcur]
        exact Option.some_ne_none p
      refine ⟨_, ?_, hinv', Schedule.resume_room hco, ?_, ?_, ?_, rfl, co, some l,
        w.thrPassed ++ [(i : ℤ)], w.thrDone, rfl⟩
      · rw [hco, Option.bind_some, if_neg hne]
      · intro hn
        rw [hcurco] at hn
        cases hn
      · dsimp only
        rw [List.append_assoc]
        rfl
      · dsimp only
        rw [List.length_append]
        omega

theorem Queues.drained (h : w.Queues) (htmp : w.tmp = some l) (hd : w.Drained l w') :
    w'.Queues := by
  have hcount := h.count
  have hdone := hd.done
  have hpassed := hd.passed
  have hthr := h.thr
  obtain ⟨co, tmp, thrPassed, thrDone, rfl⟩ := hd.same
  refine ⟨h.ring, h.cap, ?_, ?_⟩
  · rw [htmp, Option.getD_some, ← List.append_assoc, ← hpassed, List.append_assoc] at hthr
    exact hthr
  · rw [htmp] at hcount
    simp only [Option.toList_some, List.length_singleton] at hcount
    dsimp only at hdone ⊢
    omega

theorem Since.drained (h : w₀.Since w) (hq : w.Queues) (htmp : w.tmp = some l)
    (hd : w.Drained l w') : w₀.Since w' := by
  have hcount := hq.count
  have hdone := hd.done
  have hmono := hd.mono
  have hlen := congrArg List.length hd.passed
  have htaken := h.thrTaken
  have hold := h.thrDone
  rw [htmp] at hcount htaken
  rw [List.length_append, List.length_append] at hlen
  simp only [Option.toList_some, List.length_singleton, Option.getD_some] at hcount htaken
  obtain ⟨co, tmp, thrPassed, thrDone, rfl⟩ := hd.same
  dsimp only at hdone hmono hlen
  refine ⟨h.ctid, h.asked, h.calls, h.passed, h.thrAsked, ?_, ?_⟩
  · intro hlt
    have hle := htaken hlt
    dsimp only
    omega
  · intro hlt
    dsimp only at hlt ⊢
    cases tmp with
    | none =>
      have hle := htaken (by simp at hdone; omega)
      simp at hlen
      omega
    | some l' =>
      have hle := hold (by simp at hdone; omega)
      omega

/-! ## The steps -/

theorem Queues.addResume (h : w.Queues) (hroom : ¬ w.gresumetaskque.full) (id : ℤ) :
    (w.addResume id).Queues := by
  obtain ⟨xs, hxs, hasked⟩ := h.ring
  obtain ⟨q, hq, hholds, hcap⟩ := hxs.push_back hroom id
  refine ⟨⟨xs ++ [id], ?_, ?_⟩, ?_, h.thr, h.count⟩
  · unfold ResumeWorld.addResume
    dsimp only
    rw [hq]
    exact hholds
  · unfold ResumeWorld.addResume
    dsimp only
    rw [hasked, List.append_assoc]
  · unfold ResumeWorld.addResume
    dsimp only
    rw [hq, hcap]
    exact h.cap

theorem Since.addResume (h : w₀.Since w) (id : ℤ) : w₀.Since (w.addResume id) :=
  ⟨h.ctid, h.asked.trans (List.prefix_append _ _), h.calls, h.passed, h.thrAsked, h.thrTaken,
    h.thrDone⟩

theorem Queues.addThrResume (h : w.Queues) (thrid : ℕ) (co_id : ℤ) :
    (w.addThrResume thrid co_id).Queues := by
  refine ⟨h.ring, h.cap, ?_, h.count⟩
  have hthr := h.thr
  unfold ResumeWorld.addThrResume
  dsimp only
  by_cases hme : w.ctid = thrid
  · subst hme
    rw [Function.update_self, Function.update_self, hthr]
    cases w._queue_map w.ctid with
    | some l => simp
    | none => simp
  · rw [Function.update_of_ne hme, Function.update_of_ne hme, hthr]

theorem Since.addThrResume (h : w₀.Since w) (thrid : ℕ) (co_id : ℤ) :
    w₀.Since (w.addThrResume thrid co_id) := by
  refine ⟨h.ctid, h.asked, h.calls, h.passed, ?_, h.thrTaken, h.thrDone⟩
  unfold ResumeWorld.addThrResume
  dsimp only
  by_cases hme : w₀.ctid = thrid
  · subst hme
    rw [Function.update_self]
    exact h.thrAsked.trans (List.prefix_append _ _)
  · rw [Function.update_of_ne hme]
    exact h.thrAsked

/-- A step of a sound thread: it is defined, keeps the thread sound, and what has happened since
an earlier state goes on to hold. -/
def Goes (w : ResumeWorld) (r : Option ResumeWorld) : Prop :=
  ∃ w', r = some w' ∧ w'.Inv ∧ ∀ w₀ : ResumeWorld, w₀.Since w → w₀.Since w'

theorem Inv.stay (h : w.Inv) {r : Option ResumeWorld} (hr : r = some w) : w.Goes r :=
  ⟨w, hr, h, fun _ hs => hs⟩

theorem Inv.addResume (h : w.Inv) (hroom : ¬ w.gresumetaskque.full) (id : ℤ) :
    w.Goes (some (w.addResume id)) :=
  ⟨_, rfl, ⟨h.co, h.fits, h.queues.addResume hroom id, h.idle⟩, fun _ hs => hs.addResume id⟩

theorem Inv.addThrResume (h : w.Inv) (thrid : ℕ) (co_id : ℤ) :
    w.Goes (some (w.addThrResume thrid co_id)) :=
  ⟨_, rfl, ⟨h.co, h.fits, h.queues.addThrResume thrid co_id, h.idle⟩,
    fun _ hs => hs.addThrResume thrid co_id⟩

/-- A call of `doResume` in the main context where the ring is empty. -/
theorem Since.called (h : w₀.Since w) (hall : w.asked = w.passed) :
    w₀.Since { w with calls := w.calls + 1 } := by
  have hcalls := h.calls
  have hlen := h.asked.length_le
  refine ⟨h.ctid, h.asked, ?_, .inl ?_, h.thrAsked, h.thrTaken, h.thrDone⟩
  · dsimp only
    omega
  · dsimp only
    rw [← hall]
    exact hlen

/-- **`doResume`** in the main context passes the first request on, if there is one. -/
theorem Inv.doResume (h : w.Inv) : w.Goes w.doResume := by
  unfold ResumeWorld.doResume
  rcases h.co.curid_cases with ⟨hmain, hid⟩ | ⟨r, hr, hne⟩
  · rw [hid, Option.bind_some, if_pos rfl]
    obtain ⟨xs, hxs, hasked⟩ := h.queues.ring
    cases xs with
    | nil =>
      have hempty : w.gresumetaskque.empty = true := beq_iff_eq.mpr (hxs.empty_iff.mpr rfl)
      rw [List.append_nil] at hasked
      rw [hempty, if_pos rfl]
      refine ⟨_, rfl, ⟨h.co, h.fits, ⟨⟨[], hxs, ?_⟩, h.queues.cap, h.queues.thr, h.queues.count⟩,
        h.idle⟩, fun _ hs => hs.called hasked⟩
      rw [List.append_nil]
      exact hasked
    | cons x xs =>
      have hempty : ¬ w.gresumetaskque.empty = true := by
        intro he
        cases hxs.empty_iff.mp (beq_iff_eq.mp he)
      obtain ⟨q, hq, hholds, hcap⟩ := hxs.pop_front
      obtain ⟨co, hco, hinv, -⟩ := h.co.keeps_resume x
      rw [if_neg hempty, hq]
      dsimp only
      rw [hco, Option.map_some]
      refine ⟨_, rfl, ⟨hinv, (Schedule.resume_room hco).fits_iff.mpr h.fits, ⟨⟨xs, hholds, ?_⟩,
        hcap.trans h.queues.cap, h.queues.thr, h.queues.count⟩, fun _ => h.idle hmain⟩, ?_⟩
      · dsimp only
        rw [hasked, List.append_assoc]
        rfl
      · intro w₀ hs
        have hpassed := hs.passed
        have hcalls := hs.calls
        refine ⟨hs.ctid, hs.asked, ?_, ?_, hs.thrAsked, hs.thrTaken, hs.thrDone⟩
        · dsimp only
          omega
        · dsimp only
          rw [List.length_append, List.length_singleton]
          omega
  · rw [hr, Option.bind_some, if_neg hne]
    exact h.stay rfl

/-- The loop of `doThrResume`, from a state in which it has the list `l`. -/
theorem drained (hinv : w.co.Inv) (hfit : w.co.Fits) (hmain : w.co._curco = none) (hq : w.Queues)
    (htmp : w.tmp = some l) : w.Goes (drain l w) := by
  obtain ⟨w', hw', hd⟩ := drain_spec hinv hmain
  exact ⟨w', hw', ⟨hd.co, hd.room.fits_iff.mpr hfit, hq.drained htmp hd, hd.idle⟩,
    fun w₀ hs => hs.drained hq htmp hd⟩

/-- The list of the thread has been joined to a new `tmp`. -/
theorem Inv.joined (h : w.Inv) (hmain : w.co._curco = none) {map : ℕ → Option (List ℤ)}
    (hl : (w._queue_map w.ctid).getD [] = l) (hmap : (map w.ctid).getD [] = []) :
    w.Goes (drain l { w with thrCalls := w.thrCalls + 1, tmp := some l, _queue_map := map }) := by
  have htmp := h.idle hmain
  have hthr := h.queues.thr
  have hcount := h.queues.count
  rw [htmp] at hthr hcount
  rw [Option.getD_none, List.nil_append, hl] at hthr
  simp only [Option.toList_none, List.length_nil, Nat.add_zero] at hcount
  have hqueues : { w with thrCalls := w.thrCalls + 1, tmp := some l,
                          _queue_map := map }.Queues := by
    refine ⟨h.queues.ring, h.queues.cap, ?_, ?_⟩
    · dsimp only
      rw [hmap, Option.getD_some, List.append_nil]
      exact hthr
    · dsimp only
      rw [hcount]
      rfl
  obtain ⟨w', hw', hinv, hgoes⟩ := drained (w := { w with
    thrCalls := w.thrCalls + 1, tmp := some l, _queue_map := map }) h.co h.fits hmain hqueues rfl
  refine ⟨w', hw', hinv, ?_⟩
  intro w₀ hs
  apply hgoes
  have hlen := hs.thrAsked.length_le
  rw [← hs.ctid, hthr, List.length_append] at hlen
  refine ⟨hs.ctid, hs.asked, hs.calls, hs.passed, hs.thrAsked, ?_, hs.thrDone⟩
  intro _
  dsimp only
  rw [← hs.ctid, Option.getD_some]
  exact hlen

/-- **`doThrResume`** in the main context takes the whole list. -/
theorem Inv.doThrResume (h : w.Inv) : w.Goes w.doThrResume := by
  unfold ResumeWorld.doThrResume
  rcases h.co.curid_cases with ⟨hmain, hid⟩ | ⟨r, hr, hne⟩
  · rw [hid, Option.bind_some, if_pos rfl]
    dsimp only
    cases hl : w._queue_map w.ctid with
    | some l => exact h.joined hmain (by rw [hl]; rfl) (by rw [Function.update_self]; rfl)
    | none => exact h.joined hmain (by rw [hl]; rfl) (by rw [hl]; rfl)
  · rw [hr, Option.bind_some, if_neg hne]
    exact h.stay rfl

/-- A coroutine call, and the loop of `doThrResume` where it goes on. -/
theorem Inv.callCo (h : w.Inv) {op : CoOp} (hop : w.co.Issued op) (hroom : w.co.Roomy op) :
    w.Goes (w.callCo op) := by
  obtain ⟨co, hstep, hinv, hfit⟩ := h.co.step_within h.fits hop hroom
  have hqueues : { w with co := co }.Queues :=
    ⟨h.queues.ring, h.queues.cap, h.queues.thr, h.queues.count⟩
  have hsince : ∀ w₀ : ResumeWorld, w₀.Since w → w₀.Since { w with co := co } :=
    fun w₀ hs => ⟨hs.ctid, hs.asked, hs.calls, hs.passed, hs.thrAsked, hs.thrTaken, hs.thrDone⟩
  unfold ResumeWorld.callCo
  rw [hstep, Option.bind_some]
  split
  · rename_i l hcur htmp
    obtain ⟨w', hw', hinv', hgoes⟩ := drained (w := { w with co := co }) hinv hfit
      (hinv.cur_eq_none_iff.mp hcur) hqueues htmp
    exact ⟨w', hw', hinv', fun w₀ hs => hgoes w₀ (hsince w₀ hs)⟩
  · rename_i hnot
    refine ⟨_, rfl, ⟨hinv, hfit, hqueues, ?_⟩, hsince⟩
    intro hmain
    have hcur := (hinv.control.main hmain).1
    cases htmp : w.tmp with
    | none => rfl
    | some l => exact absurd htmp (hnot l hcur)

theorem Inv.step (h : w.Inv) {op : ResumeOp} (hop : w.Meets op) : w.Goes (w.step op) := by
  cases op with
  | addResume id => exact h.addResume hop id
  | addThrResume thrid co_id => exact h.addThrResume thrid co_id
  | doResume => exact h.doResume
  | doThrResume => exact h.doThrResume
  | co op => exact h.callCo hop.1 hop.2

/-! ## Runs -/

theorem Inv.start (ctid : ℕ) : (ResumeWorld.start ctid).Inv :=
  ⟨Schedule.Inv.start, Schedule.start_fits,
    ⟨⟨[], CircularQueue.Holds.new 1024, rfl⟩, rfl, rfl, rfl⟩, fun _ => rfl⟩

/-- A later state of a run is sound, and knows what has happened since. -/
theorem Inv.later (h : w.Inv) (hr : Reach ResumeWorld.step Meets w w') : w'.Inv ∧ w.Since w' := by
  refine hr.inv_of_defined (I := fun w' => w'.Inv ∧ w.Since w') ⟨h, Since.refl h.queues⟩ ?_
  rintro v op ⟨hv, hsince⟩ hop
  obtain ⟨v', hs, hinv, hgoes⟩ := hv.step hop
  exact ⟨v', hs, hinv, hgoes w hsince⟩

theorem Inv.reach {ctid : ℕ} (hr : Reach ResumeWorld.step Meets (.start ctid) w) : w.Inv :=
  ((Inv.start ctid).later hr).1

/-- **No request is lost** in the runs in which the ring has room for each, and `_freeid` for each
id that is given back; every step of them is defined. -/
theorem requests_served {ctid : ℕ} (hr : Reach ResumeWorld.step Meets (.start ctid) w)
    (hr' : Reach ResumeWorld.step Meets w w') :
    w.Served w' ∧ ∀ op, w'.Meets op → (w'.step op).isSome := by
  obtain ⟨hinv, hsince⟩ := (Inv.reach hr).later hr'
  obtain ⟨xs, -, hasked⟩ := hinv.queues.ring
  have horder : w'.passed <+: w'.asked := by
    rw [hasked]
    exact List.prefix_append _ _
  have hthr : w'.thrPassed <+: w'.thrAsked w'.ctid := by
    rw [hinv.queues.thr]
    exact List.prefix_append _ _
  refine ⟨⟨horder, hthr, ?_, ?_⟩, ?_⟩
  · intro hcalls
    have hlen : w.asked.length ≤ w'.passed.length := by
      have hpassed := hsince.passed
      omega
    exact List.prefix_of_prefix_length_le hsince.asked horder hlen
  · intro hdone
    rw [hsince.ctid] at hthr
    exact List.prefix_of_prefix_length_le hsince.thrAsked hthr (hsince.thrDone hdone)
  · intro op hop
    obtain ⟨w₁, hw₁, -⟩ := hinv.step hop
    rw [hw₁]
    rfl

instance (w : ResumeWorld) : (op : ResumeOp) → Decidable (w.Meets op)
  | .addResume _ => inferInstanceAs (Decidable (¬ w.gresumetaskque.full))
  | .co op => inferInstanceAs (Decidable (w.co.Issued op ∧ w.co.Roomy op))
  | .addThrResume _ _ | .doResume | .doThrResume => inferInstanceAs (Decidable True)

/-- Two coroutines are asked for by both ways; the first asks for the second again. -/
theorem requests_served_both : ∃ w w' : ResumeWorld,
    (w.asked = [1, 0] ∧ w.thrAsked 5 = [0, 1] ∧ w'.passed = [1, 0, 1] ∧ w'.thrPassed = [0, 1]) ∧
      w.Served w' := by
  let first : List ResumeOp := [.co (.initEnv true), .co (.create true 8 9),
    .co (.create true 8 9), .addResume 1, .addThrResume 5 0, .addResume 0, .addThrResume 5 1]
  let second : List ResumeOp := [.doThrResume, .addResume 1, .co .yield, .co .yield, .doResume,
    .co .yield, .doResume, .co .finish, .doResume]
  have hrun : ((first.foldlM (fun w op => if Meets w op then step w op else none) (start 5)).bind
      fun w => (second.foldlM (fun w op => if Meets w op then step w op else none) w).map
        fun w' => decide (w.asked = [1, 0] ∧ w.thrAsked 5 = [0, 1] ∧ w'.passed = [1, 0, 1] ∧
          w'.thrPassed = [0, 1])) = some true := by
    decide +kernel
  obtain ⟨w, hw, hrest⟩ := Option.bind_eq_some_iff.mp hrun
  obtain ⟨w', hw', hout⟩ := Option.map_eq_some_iff.mp hrest
  exact ⟨w, w', of_decide_eq_true hout,
    (requests_served (Reach.of_checked hw) (Reach.of_checked hw')).1⟩

/-! ## The full ring -/

theorem Queues.full_iff (h : w.Queues) :
    w.gresumetaskque.full = true ↔ w.asked.length = w.passed.length + 1024 := by
  obtain ⟨xs, hxs, hasked⟩ := h.ring
  rw [hxs.full_iff, h.cap, hasked, List.length_append]
  omega

/-- **A full ring drops the request.** -/
theorem addResume_full (h : w.gresumetaskque.full = true) (id : ℤ) :
    w.addResume id = { w with asked := w.asked ++ [id] } := by
  unfold addResume
  rw [CircularQueue.push_back_full h]

theorem Issued.of_meets {op : ResumeOp} (h : w.Meets op) : w.Issued op := by
  cases op with
  | co op => exact h.1
  | addResume id => trivial
  | addThrResume thrid co_id => trivial
  | doResume => trivial
  | doThrResume => trivial

/-- `n` requests for a coroutine that does not exist. -/
theorem filled {n : ℕ} (hn : n ≤ 1024) : ∃ w, Reach step Meets (start 0) w ∧
    w.co = .start ∧ w.asked.length = n ∧ w.passed = [] ∧ w.calls = 0 := by
  induction n with
  | zero => exact ⟨start 0, .refl, rfl, rfl, rfl, rfl⟩
  | succ n ih =>
    obtain ⟨w, hr, hco, hasked, hpassed, hcalls⟩ := ih (by omega)
    have hroom : ¬ w.gresumetaskque.full := by
      rw [(Inv.reach hr).queues.full_iff, hasked, hpassed, List.length_nil]
      omega
    have hmeets : w.Meets (.addResume 7) := hroom
    refine ⟨w.addResume 7, .next hr hmeets rfl, hco, ?_, hpassed, hcalls⟩
    unfold addResume
    dsimp only
    rw [List.length_append, List.length_singleton, hasked]

/-- `doResume` where there is no coroutine. It does not read what has been asked for. -/
theorem doResume_idle (h : w.Inv) (hco : w.co = .start) : ∃ w', w.doResume = some w' ∧
    w'.co = .start ∧ w'.asked = w.asked ∧ w'.calls = w.calls + 1 ∧
    ∀ asked, { w with asked := asked }.doResume = some { w' with asked := asked } := by
  have hid : w.co.curid = some (-1) := by
    rw [hco]
    rfl
  have hres : ∀ x, w.co.resume x = some w.co := by
    intro x
    rcases h.co.resume_cases x with heq | ⟨-, i, p, c, -, hi, -⟩
    · exact heq
    · rw [hco, Schedule.slot_shut rfl] at hi
      cases hi
  unfold ResumeWorld.doResume
  dsimp only
  rw [hid, Option.bind_some, if_pos rfl]
  by_cases hempty : w.gresumetaskque.empty = true
  · refine ⟨{ w with calls := w.calls + 1 }, if_pos hempty, hco, rfl, rfl, ?_⟩
    intro asked
    rw [Option.bind_some, if_pos rfl, if_pos hempty]
  · obtain ⟨xs, hxs, -⟩ := h.queues.ring
    cases xs with
    | nil => exact absurd (beq_iff_eq.mpr (hxs.empty_iff.mpr rfl)) hempty
    | cons x xs =>
      obtain ⟨q, hq, -⟩ := hxs.pop_front
      rw [if_neg hempty, hq]
      dsimp only
      rw [hres, Option.map_some]
      refine ⟨_, rfl, hco, rfl, rfl, ?_⟩
      intro asked
      rw [Option.bind_some, if_pos rfl, if_neg hempty, Option.map_some]

/-- `n` calls of `doResume` where there is no coroutine. -/
theorem spent (h : w.Inv) (hco : w.co = .start) (asked : List ℤ) (n : ℕ) :
    ∃ w' : ResumeWorld, w'.Inv ∧ w'.co = .start ∧ w'.asked = w.asked ∧ w'.calls = w.calls + n ∧
      Reach step Issued { w with asked := asked } { w' with asked := asked } := by
  induction n with
  | zero => exact ⟨w, h, hco, rfl, rfl, .refl⟩
  | succ n ih =>
    obtain ⟨w', hinv, hco', hasked, hcalls, hr⟩ := ih
    obtain ⟨w₁, hw₁, hco₁, hasked₁, hcalls₁, hshadow⟩ := doResume_idle hinv hco'
    obtain ⟨w₂, hw₂, hinv₂, -⟩ := hinv.doResume
    rw [hw₁] at hw₂
    rw [← Option.some.inj hw₂] at hinv₂
    have hissued : Issued { w' with asked := asked } .doResume := trivial
    exact ⟨w₁, hinv₂, hco₁, hasked₁.trans hasked, by omega, .next hr hissued (hshadow asked)⟩

/-- Of 1025 requests one is never passed on, in 1025 calls of `doResume`. -/
theorem not_requests_served : ¬ ∀ w w', Reach step Issued (start 0) w →
    Reach step Issued w w' → w.Served w' := by
  intro hall
  obtain ⟨w, hr, hco, hasked, hpassed, hcalls⟩ := filled (Nat.le_refl 1024)
  have hinv := Inv.reach hr
  have hfull : w.gresumetaskque.full = true := by
    rw [hinv.queues.full_iff, hasked, hpassed]
    rfl
  have hdrop := addResume_full hfull 7
  have hmore : Issued w (.addResume 7) := trivial
  have hr₁ : Reach step Issued (start 0) (w.addResume 7) :=
    .next (hr.mono fun _ _ => Issued.of_meets) hmore rfl
  obtain ⟨w', hinv', -, hasked', hcalls', hr'⟩ := spent hinv hco (w.asked ++ [7]) 1025
  rw [← hdrop] at hr'
  have hserved := (hall _ _ hr₁ hr').all
  rw [hdrop] at hserved
  obtain ⟨xs, -, hkept⟩ := hinv'.queues.ring
  have hprefix := (hserved (by
    dsimp only
    rw [List.length_append, List.length_singleton]
    omega)).length_le
  have hlen := congrArg List.length (hasked'.symm.trans hkept)
  rw [List.length_append] at hlen
  dsimp only at hprefix
  rw [List.length_append, List.length_singleton] at hprefix
  omega

end ResumeWorld

end Netlib
