import Netlib.Spec.NetIo
import Netlib.Proof.Services
import Netlib.Lib.Progress
import Mathlib.Algebra.Order.BigOperators.Group.List
import Mathlib.Data.List.ReduceOption

/-!
# Start and Stop do what they say

The threads of the list are the only ones in the service, so that `Start` sees by their number that
all of them run (`all_looping`). `Stop` then tells every one of them (`postAll_spec`), and each
leaves in a fixed order of steps (`ThreadOk`). The head of the list can always go on
(`progress`), and no step of another thread sets it back (`steady`).
-/

namespace Netlib

open Lib
open Function (update)

/-! ## The steps of a thread -/

namespace ServiceWorld

variable {w w' : ServiceWorld} {i fd : ℕ}

theorem step_enter (h : w.step (.enter i fd) = some w') : w.reg.loop i = .outside ∧
    w.reg.Enters i w'.reg ∧
      (w.reg._handler i = none → fd ≠ 0 → w'.reg.loop i = .looping) := by
  cases step_did h with | enter hl =>
  refine ⟨hl, w.reg.createIoImpl_enters hl, ?_⟩
  intro hnone hfd
  unfold setReg Registry._createIoImpl Registry.getServiceImpl
  dsimp only
  rw [if_pos hnone]
  dsimp only
  rw [Function.update_self]
  dsimp only
  rw [if_neg hfd]
  unfold Registry.register
  dsimp only
  rw [Function.update_self]

theorem step_leave (h : w.step (.leave i) = some w') : w.reg.loop i = .looping ∧
    w'.reg.loop = update w.reg.loop i .left ∧ w'.reg._handler = w.reg._handler := by
  cases step_did h with | leave hl => exact ⟨hl, rfl, rfl⟩

theorem step_closeHandler (h : w.step (.closeHandler i fd) = some w') : w.reg.loop i = .left ∧
    w'.reg.loop = update w.reg.loop i .releasing ∧
      ∀ j, j ≠ i → w'.reg._handler j = w.reg._handler j := by
  cases step_did h with | closeHandler hl =>
  exact ⟨hl, rfl, fun j hj => Function.update_of_ne hj _ _⟩

theorem step_erase (h : w.step (.erase i) = some w') : w.reg.loop i = .releasing ∧
    w'.reg.loop = update w.reg.loop i .outside ∧ w'.reg._handler = w.reg._handler := by
  cases step_did h with | erase hl => exact ⟨hl, rfl, rfl⟩

/-- What is done on sockets leaves the threads as they are. -/
theorem step_onSockets {a : ServiceAction} (ha : a.onSockets = true) (h : w.step a = some w') :
    w'.reg.loop = w.reg.loop ∧ w'.reg._handler = w.reg._handler := by
  cases step_did h with
  | opens => exact ⟨rfl, rfl⟩
  | enter => cases ha
  | leave => cases ha
  | closeHandler => cases ha
  | erase => cases ha
  | @call s a o =>
    obtain ⟨idx, bound, heq⟩ := w.called_eq s o
    rw [heq]
    exact ⟨rfl, rfl⟩
  | @report i s a o =>
    obtain ⟨worker, ran, heq⟩ := w.report_eq i s a o
    rw [heq]
    exact ⟨rfl, rfl⟩
  | finish => exact ⟨rfl, rfl⟩
  | close =>
    dsimp only
    unfold Registry.close
    dsimp only
    split
    · exact ⟨rfl, rfl⟩
    · exact ⟨rfl, rfl⟩
  | enqueue => exact ⟨rfl, rfl⟩
  | doClose hreqs hr heq =>
    subst heq
    exact ⟨rfl, rfl⟩

end ServiceWorld

/-! ## One thread -/

namespace NetThread

variable {t t' : NetThread}

/-- What holds of a thread at all times. -/
structure Sane (t : NetThread) : Prop where
  handler : t.exited = false → t.loop = .outside → t.handler = none
  exited : t.exited = true → t.loop = .outside

/-- What holds of a thread of the list, by what the caller is doing. -/
def Ok (t : NetThread) : Caller → Prop
  | .idle => t.loop = .looping ∧ t.brk = false ∧ t.finish = []
  | .starting => (t.loop = .outside ∨ t.loop = .looping) ∧ t.exited = false ∧ t.brk = false ∧
      t.finish = []
  | .joining => t.exited = false →
      t.loop ≠ .outside ∧ (t.loop = .looping → t.brk = true ∨ t.finish ≠ [])

/-- While `Start` waits, no thread has left its loop. -/
theorem Ok.starting_loop (h : t.Ok .starting) : t.loop ≠ .left ∧ t.loop ≠ .releasing := by
  obtain ⟨hl | hl, -⟩ := h
  · rw [hl]
    exact ⟨by decide, by decide⟩
  · rw [hl]
    exact ⟨by decide, by decide⟩

theorem Sane.of_running (h : t.exited = false) (hl : t.loop ≠ .outside) : t.Sane := by
  refine ⟨fun _ hout => absurd hout hl, fun hex => ?_⟩
  rw [h] at hex
  cases hex

theorem Sane.running (h : t.Sane) (hl : t.loop ≠ .outside) : t.exited = false := by
  cases hex : t.exited with
  | false => rfl
  | true => exact absurd (h.exited hex) hl

/-- **A step of a thread**, by where it was. -/
inductive Moves (t t' : NetThread) : Prop
  | enter (hl : t.loop = .outside) (hex : t.exited = false) (hl' : t'.loop = .looping)
      (hex' : t'.exited = false) (hbrk : t'.brk = t.brk) (hfin : t'.finish = t.finish)
  | wait (hl : t.loop = .looping) (hbrk : t.brk = false) (hfin : t.finish ≠ [])
      (hl' : t'.loop = .looping) (hex' : t'.exited = t.exited) (hbrk' : t'.brk = true)
  | leave (hl : t.loop = .looping) (hbrk : t.brk = true) (hl' : t'.loop = .left)
      (hex' : t'.exited = t.exited)
  | closeHandler (hl : t.loop = .left) (hl' : t'.loop = .releasing) (hex' : t'.exited = t.exited)
  | erase (hl : t.loop = .releasing) (hl' : t'.loop = .outside) (hex' : t'.exited = true)

theorem Moves.sane (h : t.Moves t') (ht : t.Sane) : t'.Sane := by
  cases h with
  | enter hl hex hl' hex' hbrk hfin => exact .of_running hex' (by rw [hl']; decide)
  | wait hl hbrk hfin hl' hex' hbrk' =>
    have hex := ht.running (by rw [hl]; decide)
    exact .of_running (hex'.trans hex) (by rw [hl']; decide)
  | leave hl hbrk hl' hex' =>
    have hex := ht.running (by rw [hl]; decide)
    exact .of_running (hex'.trans hex) (by rw [hl']; decide)
  | closeHandler hl hl' hex' =>
    have hex := ht.running (by rw [hl]; decide)
    exact .of_running (hex'.trans hex) (by rw [hl']; decide)
  | erase hl hl' hex' =>
    refine ⟨fun hex => ?_, fun _ => hl'⟩
    rw [hex'] at hex
    cases hex

/-- A thread that has returned takes no step. -/
theorem Moves.not_exited (h : t.Moves t') (ht : t.Sane) : t.exited = false := by
  cases h with
  | enter hl hex hl' hex' hbrk hfin => exact hex
  | wait hl hbrk hfin hl' hex' hbrk' => exact ht.running (by rw [hl]; decide)
  | leave hl hbrk hl' hex' => exact ht.running (by rw [hl]; decide)
  | closeHandler hl hl' hex' => exact ht.running (by rw [hl]; decide)
  | erase hl hl' hex' => exact ht.running (by rw [hl]; decide)

theorem Moves.ok (h : t.Moves t') {c : Caller} (ht : t.Ok c) : t'.Ok c := by
  cases h with
  | enter hl hex hl' hex' hbrk hfin =>
    cases c with
    | idle =>
      rw [ht.1] at hl
      cases hl
    | starting => exact ⟨.inr hl', hex', hbrk.trans ht.2.2.1, hfin.trans ht.2.2.2⟩
    | joining => exact absurd hl (ht hex).1
  | wait hl hbrk hfin hl' hex' hbrk' =>
    cases c with
    | idle => exact absurd ht.2.2 hfin
    | starting => exact absurd ht.2.2.2 hfin
    | joining =>
      intro _
      rw [hl']
      exact ⟨by decide, fun _ => .inl hbrk'⟩
  | leave hl hbrk hl' hex' =>
    cases c with
    | idle =>
      rw [ht.2.1] at hbrk
      cases hbrk
    | starting =>
      rw [ht.2.2.1] at hbrk
      cases hbrk
    | joining =>
      intro _
      rw [hl']
      exact ⟨by decide, fun hl => Loop.noConfusion hl⟩
  | closeHandler hl hl' hex' =>
    cases c with
    | idle =>
      rw [ht.1] at hl
      cases hl
    | starting => exact absurd hl ht.starting_loop.1
    | joining =>
      intro _
      rw [hl']
      exact ⟨by decide, fun hl => Loop.noConfusion hl⟩
  | erase hl hl' hex' =>
    cases c with
    | idle =>
      rw [ht.1] at hl
      cases hl
    | starting => exact absurd hl ht.starting_loop.2
    | joining =>
      intro hex
      rw [hex'] at hex
      cases hex

/-- A step takes a thread further, when the caller waits for it. -/
theorem Moves.stage_lt (h : t.Moves t') {c : Caller} (hc : c ≠ .idle) (hs : t.Sane) (ht : t.Ok c) :
    t'.stage c < t.stage c := by
  cases h with
  | enter hl hex hl' hex' hbrk hfin =>
    cases c with
    | idle => exact absurd rfl hc
    | starting => simp [stage, hl, hl']
    | joining => exact absurd hl (ht hex).1
  | wait hl hbrk hfin hl' hex' hbrk' =>
    have hex := hs.running (by rw [hl]; decide)
    cases c with
    | idle => exact absurd rfl hc
    | starting => exact absurd ht.2.2.2 hfin
    | joining => simp [stage, hl, hex, hbrk, hl', hex', hbrk']
  | leave hl hbrk hl' hex' =>
    have hex := hs.running (by rw [hl]; decide)
    cases c with
    | idle => exact absurd rfl hc
    | starting =>
      rw [ht.2.2.1] at hbrk
      cases hbrk
    | joining => simp [stage, hl, hex, hbrk, hl', hex']
  | closeHandler hl hl' hex' =>
    have hex := hs.running (by rw [hl]; decide)
    cases c with
    | idle => exact absurd rfl hc
    | starting => exact absurd hl ht.starting_loop.1
    | joining => simp [stage, hl, hex, hl', hex']
  | erase hl hl' hex' =>
    have hex := hs.running (by rw [hl]; decide)
    cases c with
    | idle => exact absurd rfl hc
    | starting => exact absurd hl ht.starting_loop.2
    | joining => simp [stage, hl, hex, hex']

end NetThread

/-- The steps of the caller. -/
def NetIoAction.isCaller : NetIoAction → Bool
  | .start _ | .started | .stop _ | .join | .stopped => true
  | _ => false

namespace NetIoWorld

variable {w w' : NetIoWorld} {opened : List ℕ}

/-! ## What Stop posts -/

theorem postFinish_eq (w : NetIoWorld) (i : ℕ) (fd : Option ℕ) : ∃ svc finish deleted,
    w.postFinish i fd = { w with
      svc := svc
      finish := finish
      posted := w.posted + 1
      deleted := deleted } ∧
    svc.reg.loop = w.svc.reg.loop ∧ svc.reg._handler = w.svc.reg._handler := by
  cases fd with
  | some fd => exact ⟨_, _, _, rfl, rfl, rfl⟩
  | none => exact ⟨_, _, _, rfl, rfl, rfl⟩

/-- What `Stop` does before it joins. -/
structure Posts (is : List ℕ) (fds : List (Option ℕ)) (w w' : NetIoWorld) : Prop where
  list : w'._threadlist = w._threadlist
  made : w'.made = w.made
  exited : w'.exited = w.exited
  brk : w'.brk = w.brk
  loop : w'.svc.reg.loop = w.svc.reg.loop
  handler : w'.svc.reg._handler = w.svc.reg._handler
  more : ∀ i, w.finish i ≠ [] → w'.finish i ≠ []
  other : ∀ i, i ∉ is → w'.finish i = w.finish i
  told : none ∉ fds → fds.length = is.length → ∀ i ∈ is, w'.finish i ≠ []

/-- **Stop tells every thread that is in the service.** -/
theorem postAll_spec (is : List ℕ) : ∀ (fds : List (Option ℕ)) (w : NetIoWorld),
    Posts is fds w (postAll is fds w) := by
  induction is with
  | nil =>
    intro fds w
    refine ⟨rfl, rfl, rfl, rfl, rfl, rfl, fun _ h => h, fun _ _ => rfl, ?_⟩
    intro _ _ i hi
    cases hi
  | cons i is ih =>
    intro fds w
    cases fds with
    | nil =>
      refine ⟨rfl, rfl, rfl, rfl, rfl, rfl, fun _ h => h, fun _ _ => rfl, ?_⟩
      intro _ hlen
      cases hlen
    | cons fd fds =>
      have hrest := ih fds (w.postFinish i fd)
      obtain ⟨svc, finish, deleted, heq, hloop, hhandler⟩ := w.postFinish_eq i fd
      have hfinish : ∀ j, (w.postFinish i fd).finish j = w.finish j ∨
          j = i ∧ (w.postFinish i fd).finish j ≠ [] := by
        intro j
        cases fd with
        | none => exact .inl rfl
        | some fd =>
          unfold postFinish
          dsimp only
          by_cases hj : j = i
          · subst hj
            rw [Function.update_self]
            exact .inr ⟨rfl, List.append_ne_nil_of_right_ne_nil _ (List.cons_ne_nil _ _)⟩
          · rw [Function.update_of_ne hj]
            exact .inl rfl
      unfold postAll
      refine ⟨hrest.list.trans ?_, hrest.made.trans ?_, hrest.exited.trans ?_, hrest.brk.trans ?_,
        hrest.loop.trans ?_, hrest.handler.trans ?_, ?_, ?_, ?_⟩
      · rw [heq]
      · rw [heq]
      · rw [heq]
      · rw [heq]
      · rw [heq]
        exact hloop
      · rw [heq]
        exact hhandler
      · intro j hj
        refine hrest.more j ?_
        rcases hfinish j with hsame | ⟨-, hne⟩
        · rw [hsame]
          exact hj
        · exact hne
      · intro j hj
        rw [List.mem_cons, not_or] at hj
        rw [hrest.other j hj.2]
        rcases hfinish j with hsame | ⟨hji, -⟩
        · exact hsame
        · exact absurd hji hj.1
      · intro hnone hlen j hj
        rw [List.mem_cons, not_or] at hnone
        rcases List.mem_cons.mp hj with rfl | hj
        · refine hrest.more j ?_
          cases fd with
          | none => exact absurd rfl hnone.1
          | some fd =>
            unfold postFinish
            dsimp only
            rw [Function.update_self]
            exact List.append_ne_nil_of_right_ne_nil _ (List.cons_ne_nil _ _)
        · exact hrest.told hnone.2 (Nat.succ.inj hlen) j hj

/-- The sockets that `Stop` adds are descriptors that are opened. -/
theorem postAll_reach (is : List ℕ) : ∀ (fds : List (Option ℕ)) (w : NetIoWorld),
    fds.reduceOption.Nodup → (∀ fd ∈ fds.reduceOption, fd ∉ w.svc.reg.opened) →
    Reach ServiceWorld.step ServiceWorld.Stays w.svc (postAll is fds w).svc := by
  induction is with
  | nil => exact fun _ _ _ _ => .refl
  | cons i is ih =>
    intro fds w hnd hfresh
    cases fds with
    | nil => exact .refl
    | cons fd fds =>
      unfold postAll
      cases fd with
      | none => exact ih fds (w.postFinish i none) hnd hfresh
      | some fd =>
        rw [List.reduceOption_cons_of_some] at hnd hfresh
        obtain ⟨hnotin, hnd⟩ := List.nodup_cons.mp hnd
        have hone : Reach ServiceWorld.step ServiceWorld.Stays w.svc (w.postFinish i (some fd)).svc :=
          Reach.single (a := .opens fd) trivial (if_pos (hfresh fd List.mem_cons_self))
        refine hone.trans (ih fds _ hnd ?_)
        intro fd' hfd' hmem
        rcases List.mem_cons.mp hmem with rfl | hmem
        · exact hnotin hfd'
        · exact hfresh fd' (List.mem_cons_of_mem fd hfd') hmem

/-- **The service of a `NetIo` is a service**: each step is a run of it. -/
theorem svc_step {a : NetIoAction} (hs : w.step a = some w') :
    Reach ServiceWorld.step always w.svc w'.svc := by
  cases a with
  | start n =>
    obtain ⟨-, hs⟩ := Option.ite_none_right_eq_some.mp hs
    cases hs
    unfold NetIoWorld.start
    split <;> exact .refl
  | started =>
    obtain ⟨-, hs⟩ := Option.ite_none_right_eq_some.mp hs
    cases hs
    exact .refl
  | stop fds =>
    obtain ⟨⟨-, -, hnd, hfresh⟩, hs⟩ := Option.ite_none_right_eq_some.mp hs
    cases hs
    exact (postAll_reach _ fds w hnd hfresh).mono fun _ _ _ => trivial
  | join =>
    unfold NetIoWorld.step at hs
    dsimp only at hs
    split at hs
    · obtain ⟨-, hs⟩ := Option.ite_none_right_eq_some.mp hs
      cases hs
      exact .refl
    · cases hs
  | stopped =>
    obtain ⟨-, hs⟩ := Option.ite_none_right_eq_some.mp hs
    cases hs
    exact .refl
  | enter i fd =>
    obtain ⟨-, hs⟩ := Option.ite_none_right_eq_some.mp hs
    obtain ⟨svc, hsvc, rfl⟩ := Option.map_eq_some_iff.mp hs
    exact .single trivial hsvc
  | wait i fin others =>
    obtain ⟨-, hs⟩ := Option.ite_none_right_eq_some.mp hs
    cases hs
    exact .refl
  | fail i =>
    obtain ⟨-, hs⟩ := Option.ite_none_right_eq_some.mp hs
    obtain ⟨svc, hsvc, rfl⟩ := Option.map_eq_some_iff.mp hs
    exact .single trivial hsvc
  | leave i =>
    obtain ⟨-, hs⟩ := Option.ite_none_right_eq_some.mp hs
    obtain ⟨svc, hsvc, rfl⟩ := Option.map_eq_some_iff.mp hs
    exact .single trivial hsvc
  | closeHandler i fd =>
    obtain ⟨svc, hsvc, rfl⟩ := Option.map_eq_some_iff.mp hs
    exact .single trivial hsvc
  | erase i =>
    obtain ⟨svc, hsvc, rfl⟩ := Option.map_eq_some_iff.mp hs
    exact .single trivial hsvc
  | svc a =>
    obtain ⟨-, hs⟩ := Option.ite_none_right_eq_some.mp hs
    obtain ⟨svc, hsvc, rfl⟩ := Option.map_eq_some_iff.mp hs
    exact .single trivial hsvc

/-! ## All the threads -/

/-- **The list has all the threads that run.** -/
structure Inv (opened : List ℕ) (w : NetIoWorld) : Prop where
  reach : Reach ServiceWorld.step always (.start opened) w.svc
  nodup : w._threadlist.Nodup
  lt : ∀ i ∈ w._threadlist, i < w.made
  sane : ∀ i, (w.thread i).Sane
  fresh : ∀ i, w.made ≤ i → w.thread i = .fresh
  joined : ∀ i, i < w.made → i ∉ w._threadlist → (w.thread i).exited = true
  ok : ∀ i ∈ w._threadlist, (w.thread i).Ok w.caller

theorem Inv.reg (h : w.Inv opened) : w.svc.reg.Inv := (ServiceWorld.reach_inv h.reach).reg

/-- A thread in the service is one of the list. -/
theorem Inv.listed (h : w.Inv opened) {i : ℕ} (hl : w.svc.reg.loop i ≠ .outside) :
    i < w.made ∧ i ∈ w._threadlist := by
  have hlt : i < w.made := by
    by_contra hge
    have hfresh := h.fresh i (Nat.le_of_not_lt hge)
    exact hl (congrArg NetThread.loop hfresh)
  refine ⟨hlt, ?_⟩
  by_contra hnot
  exact hl ((h.sane i).exited (h.joined i hlt hnot))

/-- The threads stay as they are. -/
structure Same (w w' : NetIoWorld) : Prop where
  list : w'._threadlist = w._threadlist
  made : w'.made = w.made
  caller : w'.caller = w.caller
  thread : ∀ i, w'.thread i = w.thread i

/-- One thread takes a step. -/
structure MovesAt (i : ℕ) (w w' : NetIoWorld) : Prop where
  list : w'._threadlist = w._threadlist
  made : w'.made = w.made
  caller : w'.caller = w.caller
  lt : i < w.made
  moves : (w.thread i).Moves (w'.thread i)
  other : ∀ j, j ≠ i → w'.thread j = w.thread j

theorem thread_congr {i : ℕ} (hl : w'.svc.reg.loop i = w.svc.reg.loop i)
    (hh : w'.svc.reg._handler i = w.svc.reg._handler i) (he : w'.exited i = w.exited i)
    (hb : w'.brk i = w.brk i) (hf : w'.finish i = w.finish i) : w'.thread i = w.thread i := by
  unfold thread
  rw [hl, hh, he, hb, hf]

/-- **What the threads do.** -/
theorem Inv.thread_step (h : w.Inv opened) {a : NetIoAction} (ha : w.NoFail a)
    (hcaller : a.isCaller = false) (hs : w.step a = some w') :
    if a.isOther then w.Same w' else ∃ i, w.MovesAt i w' := by
  cases a with
  | start n => cases hcaller
  | started => cases hcaller
  | stop fds => cases hcaller
  | join => cases hcaller
  | stopped => cases hcaller
  | fail i => exact absurd ha id
  | enter i fd =>
    obtain ⟨⟨hlt, hex⟩, hs⟩ := Option.ite_none_right_eq_some.mp hs
    obtain ⟨svc, hsvc, rfl⟩ := Option.map_eq_some_iff.mp hs
    obtain ⟨hl, henters, hlooping⟩ := ServiceWorld.step_enter hsvc
    have hl' := hlooping ((h.sane i).handler hex hl) ha
    refine ⟨i, rfl, rfl, rfl, hlt, .enter hl hex hl' ?_ rfl rfl, ?_⟩
    · unfold thread
      dsimp only
      rw [Function.update_self, hl']
      rfl
    · intro j hj
      exact thread_congr (henters.loop j hj) (henters.handler j hj) (Function.update_of_ne hj _ _) rfl rfl
  | wait i fin others =>
    obtain ⟨⟨hl, hbrk, hle, -⟩, hs⟩ := Option.ite_none_right_eq_some.mp hs
    cases hs
    cases fin with
    | zero =>
      refine ⟨rfl, rfl, rfl, fun j => ?_⟩
      refine thread_congr rfl rfl rfl ?_ ?_
      · unfold NetIoWorld.wait
        dsimp only
        by_cases hj : j = i
        · subst hj
          rw [Function.update_self, hbrk]
          rfl
        · exact Function.update_of_ne hj _ _
      · unfold NetIoWorld.wait
        dsimp only
        by_cases hj : j = i
        · subst hj
          rw [Function.update_self, List.drop_zero]
        · exact Function.update_of_ne hj _ _
    | succ fin =>
      have hfin : w.finish i ≠ [] := by
        intro hnil
        rw [hnil] at hle
        exact absurd hle (Nat.not_succ_le_zero fin)
      refine ⟨i, rfl, rfl, rfl, (h.listed (by rw [hl]; decide)).1, .wait hl hbrk hfin hl rfl ?_, ?_⟩
      · exact Function.update_self _ _ _
      · intro j hj
        exact thread_congr rfl rfl rfl (Function.update_of_ne hj _ _) (Function.update_of_ne hj _ _)
  | leave i =>
    obtain ⟨hbrk, hs⟩ := Option.ite_none_right_eq_some.mp hs
    obtain ⟨svc, hsvc, rfl⟩ := Option.map_eq_some_iff.mp hs
    obtain ⟨hl, hl', hh⟩ := ServiceWorld.step_leave hsvc
    refine ⟨i, rfl, rfl, rfl, (h.listed (by rw [hl]; decide)).1, .leave hl hbrk ?_ rfl, ?_⟩
    · exact (congrFun hl' i).trans (Function.update_self _ _ _)
    · intro j hj
      exact thread_congr ((congrFun hl' j).trans (Function.update_of_ne hj _ _)) (congrFun hh j) rfl rfl
        rfl
  | closeHandler i fd =>
    obtain ⟨svc, hsvc, rfl⟩ := Option.map_eq_some_iff.mp hs
    obtain ⟨hl, hl', hh⟩ := ServiceWorld.step_closeHandler hsvc
    refine ⟨i, rfl, rfl, rfl, (h.listed (by rw [hl]; decide)).1, .closeHandler hl ?_ rfl, ?_⟩
    · exact (congrFun hl' i).trans (Function.update_self _ _ _)
    · intro j hj
      exact thread_congr ((congrFun hl' j).trans (Function.update_of_ne hj _ _)) (hh j hj) rfl rfl
        (Function.update_of_ne hj _ _)
  | erase i =>
    obtain ⟨svc, hsvc, rfl⟩ := Option.map_eq_some_iff.mp hs
    obtain ⟨hl, hl', hh⟩ := ServiceWorld.step_erase hsvc
    refine ⟨i, rfl, rfl, rfl, (h.listed (by rw [hl]; decide)).1, .erase hl ?_ ?_, ?_⟩
    · exact (congrFun hl' i).trans (Function.update_self _ _ _)
    · exact Function.update_self _ _ _
    · intro j hj
      exact thread_congr ((congrFun hl' j).trans (Function.update_of_ne hj _ _)) (congrFun hh j)
        (Function.update_of_ne hj _ _) rfl rfl
  | svc a =>
    obtain ⟨hsock, hs⟩ := Option.ite_none_right_eq_some.mp hs
    obtain ⟨svc, hsvc, rfl⟩ := Option.map_eq_some_iff.mp hs
    obtain ⟨hl, hh⟩ := ServiceWorld.step_onSockets hsock hsvc
    exact ⟨rfl, rfl, rfl, fun j => thread_congr (congrFun hl j) (congrFun hh j) rfl rfl rfl⟩

theorem Inv.same (h : w.Inv opened) (hs : w.Same w')
    (hreach : Reach ServiceWorld.step always (.start opened) w'.svc) : w'.Inv opened := by
  obtain ⟨hlist, hmade, hcaller, hthread⟩ := hs
  refine ⟨hreach, ?_, ?_, ?_, ?_, ?_, ?_⟩
  · rw [hlist]
    exact h.nodup
  · rw [hlist, hmade]
    exact h.lt
  · intro i
    rw [hthread i]
    exact h.sane i
  · intro i hi
    rw [hthread i]
    exact h.fresh i (hmade ▸ hi)
  · intro i hi hnot
    rw [hthread i]
    exact h.joined i (hmade ▸ hi) (hlist ▸ hnot)
  · intro i hi
    rw [hthread i, hcaller]
    exact h.ok i (hlist ▸ hi)

theorem Inv.movesAt {i : ℕ} (h : w.Inv opened) (hs : w.MovesAt i w')
    (hreach : Reach ServiceWorld.step always (.start opened) w'.svc) : w'.Inv opened := by
  obtain ⟨hlist, hmade, hcaller, hlt, hmoves, hother⟩ := hs
  refine ⟨hreach, ?_, ?_, ?_, ?_, ?_, ?_⟩
  · rw [hlist]
    exact h.nodup
  · rw [hlist, hmade]
    exact h.lt
  · intro j
    by_cases hj : j = i
    · subst hj
      exact hmoves.sane (h.sane j)
    · rw [hother j hj]
      exact h.sane j
  · intro j hj
    rw [hmade] at hj
    rw [hother j (by omega)]
    exact h.fresh j hj
  · intro j hjlt hnot
    rw [hmade] at hjlt
    rw [hlist] at hnot
    have hj : j ≠ i := by
      rintro rfl
      exact absurd (h.joined j hjlt hnot) (by rw [hmoves.not_exited (h.sane j)]; decide)
    rw [hother j hj]
    exact h.joined j hjlt hnot
  · intro j hmem
    rw [hlist] at hmem
    rw [hcaller]
    by_cases hj : j = i
    · subst hj
      exact hmoves.ok (h.ok j hmem)
    · rw [hother j hj]
      exact h.ok j hmem

/-- **By their number, all of them run.** -/
theorem Inv.all_looping (h : w.Inv opened)
    (hcnt : w.svc.reg._implcnt = w._threadlist.length) :
    ∀ i ∈ w._threadlist, w.svc.reg.loop i ≠ .outside := by
  have hsub : w.svc.reg._implvector ⊆ w._threadlist := fun i hi =>
    (h.listed ((h.reg.mem i).mp hi)).2
  have hlen : w._threadlist.length ≤ w.svc.reg._implvector.length := by
    have hcnt' := h.reg.cnt
    omega
  have hperm := (h.reg.nodup.subperm hsub).perm_of_length_le hlen
  exact fun i hi => (h.reg.mem i).mp (hperm.mem_iff.mpr hi)

theorem Inv.start (h : w.Inv opened) (hidle : w.caller = .idle) (n : ℕ) :
    (w.start n).Inv opened := by
  unfold NetIoWorld.start
  split
  · rename_i hnil
    refine ⟨h.reach, List.nodup_range', ?_, h.sane, ?_, ?_, ?_⟩
    · intro i hi
      rw [List.mem_range'_1] at hi
      exact hi.2
    · exact fun i hi => h.fresh i (Nat.le_of_add_right_le hi)
    · intro i hi hnot
      refine h.joined i ?_ (by rw [hnil]; exact List.not_mem_nil)
      rw [List.mem_range'_1] at hnot
      dsimp only at hi
      omega
    · intro i hi
      rw [List.mem_range'_1] at hi
      have hfresh := h.fresh i hi.1
      have hthread : (w.thread i).Ok .starting := by
        rw [hfresh]
        exact ⟨.inl rfl, rfl, rfl, rfl⟩
      exact hthread
  · refine ⟨h.reach, h.nodup, h.lt, h.sane, h.fresh, h.joined, ?_⟩
    intro i hi
    have hok : (w.thread i).Ok w.caller := h.ok i hi
    rw [hidle] at hok
    obtain ⟨hl, hbrk, hfin⟩ := hok
    exact ⟨.inr hl, (h.sane i).running (by rw [hl]; decide), hbrk, hfin⟩

theorem Inv.stop (h : w.Inv opened) (hidle : w.caller = .idle) {fds : List (Option ℕ)}
    (hnone : none ∉ fds) (hlen : fds.length = w.svc.reg._implvector.length)
    (hreach : Reach ServiceWorld.step always (.start opened) (w.stop fds).svc) :
    (w.stop fds).Inv opened := by
  have hposts := postAll_spec w.svc.reg._implvector fds w
  unfold NetIoWorld.stop at hreach ⊢
  rw [if_neg hnone] at hreach ⊢
  generalize postAll w.svc.reg._implvector fds w = w' at hposts hreach
  have hother : ∀ i, w.svc.reg.loop i = .outside → w'.thread i = w.thread i := by
    intro i hl
    have hnot : i ∉ w.svc.reg._implvector := fun hmem => (h.reg.mem i).mp hmem hl
    exact thread_congr (congrFun hposts.loop i) (congrFun hposts.handler i)
      (congrFun hposts.exited i) (congrFun hposts.brk i) (hposts.other i hnot)
  refine ⟨hreach, ?_, ?_, ?_, ?_, ?_, ?_⟩
  · dsimp only
    rw [hposts.list]
    exact h.nodup
  · dsimp only
    rw [hposts.list, hposts.made]
    exact h.lt
  · intro i
    have hsane := h.sane i
    refine ⟨?_, ?_⟩
    · intro hex hl
      unfold thread at hex hl ⊢
      dsimp only at hex hl ⊢
      rw [hposts.exited] at hex
      rw [hposts.loop] at hl
      rw [hposts.handler]
      exact hsane.handler hex hl
    · intro hex
      unfold thread at hex ⊢
      dsimp only at hex ⊢
      rw [hposts.exited] at hex
      rw [hposts.loop]
      exact hsane.exited hex
  · intro i hi
    dsimp only at hi
    rw [hposts.made] at hi
    have hfresh := h.fresh i hi
    exact (hother i (congrArg NetThread.loop hfresh)).trans hfresh
  · intro i hi hnot
    dsimp only at hi hnot
    rw [hposts.made] at hi
    rw [hposts.list] at hnot
    exact (congrFun hposts.exited i).trans (h.joined i hi hnot)
  · intro i hi
    dsimp only at hi ⊢
    rw [hposts.list] at hi
    have hok : (w.thread i).Ok w.caller := h.ok i hi
    rw [hidle] at hok
    obtain ⟨hl, -, -⟩ := hok
    intro _
    refine ⟨?_, ?_⟩
    · unfold thread
      dsimp only
      rw [hposts.loop]
      exact fun hout => absurd (hl.symm.trans hout) (by decide)
    · intro _
      have hmem : i ∈ w.svc.reg._implvector := (h.reg.mem i).mpr (fun hout =>
        absurd (hl.symm.trans hout) (by decide))
      exact .inr (hposts.told hnone hlen i hmem)

/-- The invariant is kept, as long as the system refuses nothing. -/
theorem Inv.step {a : NetIoAction} (h : w.Inv opened) (ha : w.NoFail a) (hs : w.step a = some w') :
    w'.Inv opened := by
  have hreach := h.reach.trans (svc_step hs)
  by_cases hcaller : a.isCaller = false
  · have hthread := h.thread_step ha hcaller hs
    split at hthread
    · exact h.same hthread hreach
    · obtain ⟨i, hmoves⟩ := hthread
      exact h.movesAt hmoves hreach
  · cases a with
    | start n =>
      obtain ⟨hidle, hs⟩ := Option.ite_none_right_eq_some.mp hs
      cases hs
      exact h.start hidle n
    | started =>
      obtain ⟨⟨hstarting, hcnt⟩, hs⟩ := Option.ite_none_right_eq_some.mp hs
      cases hs
      refine ⟨h.reach, h.nodup, h.lt, h.sane, h.fresh, h.joined, ?_⟩
      intro i hi
      have hok : (w.thread i).Ok w.caller := h.ok i hi
      rw [hstarting] at hok
      obtain ⟨hl, -, hbrk, hfin⟩ := hok
      exact ⟨hl.resolve_left (h.all_looping hcnt i hi), hbrk, hfin⟩
    | stop fds =>
      obtain ⟨⟨hidle, hlen, -⟩, hs⟩ := Option.ite_none_right_eq_some.mp hs
      cases hs
      exact h.stop hidle ha hlen hreach
    | join =>
      unfold NetIoWorld.step at hs
      dsimp only at hs
      split at hs
      · rename_i i is hlist
        obtain ⟨⟨hjoining, hex⟩, hs⟩ := Option.ite_none_right_eq_some.mp hs
        cases hs
        have hnd := h.nodup
        rw [hlist] at hnd
        refine ⟨h.reach, (List.nodup_cons.mp hnd).2, ?_, h.sane, h.fresh, ?_, ?_⟩
        · intro j hj
          exact h.lt j (by rw [hlist]; exact List.mem_cons_of_mem i hj)
        · intro j hj hnot
          by_cases hji : j = i
          · subst hji
            exact hex
          · refine h.joined j hj ?_
            rw [hlist, List.mem_cons, not_or]
            exact ⟨hji, hnot⟩
        · intro j hj
          exact h.ok j (by rw [hlist]; exact List.mem_cons_of_mem i hj)
      · cases hs
    | stopped =>
      obtain ⟨⟨-, hnil⟩, hs⟩ := Option.ite_none_right_eq_some.mp hs
      cases hs
      refine ⟨h.reach, h.nodup, h.lt, h.sane, h.fresh, h.joined, ?_⟩
      intro i hi
      dsimp only at hi
      rw [hnil] at hi
      cases hi
    | enter i fd => exact absurd rfl hcaller
    | wait i fin others => exact absurd rfl hcaller
    | fail i => exact absurd rfl hcaller
    | leave i => exact absurd rfl hcaller
    | closeHandler i fd => exact absurd rfl hcaller
    | erase i => exact absurd rfl hcaller
    | svc a => exact absurd rfl hcaller

/-- Every set has one owner at most. -/
structure Sets (w : NetIoWorld) : Prop where
  nodup : w.deleted.Nodup
  old : ∀ n ∈ w.deleted, n < w.posted
  own : ∀ i, (w.finish i).Nodup
  lt : ∀ i, ∀ n ∈ w.finish i, n < w.posted
  apart : ∀ i, ∀ n ∈ w.finish i, n ∉ w.deleted
  disjoint : ∀ i j n, n ∈ w.finish i → n ∈ w.finish j → i = j

theorem Sets.congr (h : w.Sets) (hf : w'.finish = w.finish) (hp : w'.posted = w.posted)
    (hd : w'.deleted = w.deleted) : w'.Sets := by
  refine ⟨?_, ?_, ?_, ?_, ?_, ?_⟩
  · rw [hd]
    exact h.nodup
  · rw [hd, hp]
    exact h.old
  · rw [hf]
    exact h.own
  · rw [hf, hp]
    exact h.lt
  · rw [hf, hd]
    exact h.apart
  · rw [hf]
    exact h.disjoint

/-- A thread loses sets. -/
theorem Sets.takes {i : ℕ} {l : List ℕ} (h : w.Sets) (hsub : l.Sublist (w.finish i))
    {svc : ServiceWorld} : Sets { w with svc := svc, finish := update w.finish i l } := by
  have hmem : ∀ j, ∀ n ∈ update w.finish i l j, n ∈ w.finish j := by
    intro j n hn
    by_cases hj : j = i
    · subst hj
      rw [Function.update_self] at hn
      exact hsub.subset hn
    · rwa [Function.update_of_ne hj] at hn
  refine ⟨h.nodup, h.old, ?_, fun j n hn => h.lt j n (hmem j n hn),
    fun j n hn => h.apart j n (hmem j n hn),
    fun j k n hj hk => h.disjoint j k n (hmem j n hj) (hmem k n hk)⟩
  intro j
  dsimp only
  by_cases hj : j = i
  · subst hj
    rw [Function.update_self]
    exact hsub.nodup (h.own j)
  · rw [Function.update_of_ne hj]
    exact h.own j

theorem Sets.wait (h : w.Sets) (i fin : ℕ) : (w.wait i fin).Sets := by
  have htake : ∀ n ∈ (w.finish i).take fin, n ∈ w.finish i := fun n hn => List.mem_of_mem_take hn
  have hless : Sets { w with svc := w.svc, finish := update w.finish i ((w.finish i).drop fin) } :=
    h.takes (List.drop_sublist fin (w.finish i))
  refine ⟨?_, ?_, hless.own, hless.lt, ?_, hless.disjoint⟩
  · refine List.Nodup.append h.nodup ((List.take_sublist fin _).nodup (h.own i)) ?_
    exact fun n hold hn => h.apart i n (htake n hn) hold
  · intro n hn
    rcases List.mem_append.mp hn with hn | hn
    · exact h.old n hn
    · exact h.lt i n (htake n hn)
  · intro j n hn hdel
    rcases List.mem_append.mp hdel with hdel | hdel
    · exact hless.apart j n hn hdel
    · unfold NetIoWorld.wait at hn
      dsimp only at hn
      by_cases hj : j = i
      · subst hj
        rw [Function.update_self] at hn
        exact List.disjoint_take_drop (h.own j) le_rfl hdel hn
      · rw [Function.update_of_ne hj] at hn
        exact hj (h.disjoint j i n hn (htake n hdel))

theorem Sets.postFinish (h : w.Sets) (i : ℕ) (fd : Option ℕ) : (w.postFinish i fd).Sets := by
  cases fd with
  | none =>
    refine ⟨?_, ?_, h.own, fun j n hn => Nat.lt_succ_of_lt (h.lt j n hn), ?_, h.disjoint⟩
    · refine List.Nodup.append h.nodup (List.nodup_singleton _) ?_
      intro n hn hnew
      rw [List.mem_singleton.mp hnew] at hn
      exact Nat.lt_irrefl _ (h.old _ hn)
    · intro n hn
      rcases List.mem_append.mp hn with hn | hn
      · exact Nat.lt_succ_of_lt (h.old n hn)
      · rw [List.mem_singleton.mp hn]
        exact Nat.lt_succ_self _
    · intro j n hn hdel
      rcases List.mem_append.mp hdel with hdel | hdel
      · exact h.apart j n hn hdel
      · rw [List.mem_singleton.mp hdel] at hn
        exact Nat.lt_irrefl _ (h.lt j _ hn)
  | some fd =>
    -- the new set is the thread's, and no other's
    have hmem : ∀ j n, n ∈ Function.update w.finish i (w.finish i ++ [w.posted]) j →
        n ∈ w.finish j ∨ j = i ∧ n = w.posted := by
      intro j n hn
      by_cases hj : j = i
      · subst hj
        rw [Function.update_self] at hn
        rcases List.mem_append.mp hn with hn | hn
        · exact .inl hn
        · exact .inr ⟨rfl, List.mem_singleton.mp hn⟩
      · rw [Function.update_of_ne hj] at hn
        exact .inl hn
    refine ⟨h.nodup, fun n hn => Nat.lt_succ_of_lt (h.old n hn), ?_, ?_, ?_, ?_⟩
    · intro j
      unfold NetIoWorld.postFinish
      dsimp only
      by_cases hj : j = i
      · subst hj
        rw [Function.update_self]
        refine List.Nodup.append (h.own j) (List.nodup_singleton _) ?_
        intro n hn hnew
        rw [List.mem_singleton.mp hnew] at hn
        exact Nat.lt_irrefl _ (h.lt j _ hn)
      · rw [Function.update_of_ne hj]
        exact h.own j
    · intro j n hn
      rcases hmem j n hn with hn | ⟨-, rfl⟩
      · exact Nat.lt_succ_of_lt (h.lt j n hn)
      · exact Nat.lt_succ_self _
    · intro j n hn hdel
      rcases hmem j n hn with hn | ⟨-, rfl⟩
      · exact h.apart j n hn hdel
      · exact Nat.lt_irrefl _ (h.old _ hdel)
    · intro j k n hj hk
      rcases hmem j n hj with hj' | ⟨hji, hnew⟩
      · rcases hmem k n hk with hk' | ⟨-, hnew⟩
        · exact h.disjoint j k n hj' hk'
        · exact absurd hnew (Nat.ne_of_lt (h.lt j n hj'))
      · rcases hmem k n hk with hk' | ⟨hki, -⟩
        · exact absurd hnew (Nat.ne_of_lt (h.lt k n hk'))
        · exact hji.trans hki.symm

theorem Sets.postAll (is : List ℕ) : ∀ (fds : List (Option ℕ)) (w : NetIoWorld), w.Sets →
    (postAll is fds w).Sets := by
  induction is with
  | nil => exact fun _ _ h => h
  | cons i is ih =>
    intro fds w h
    cases fds with
    | nil => exact h
    | cons fd fds => exact ih fds _ (h.postFinish i fd)

theorem Sets.step {a : NetIoAction} (h : w.Sets) (hs : w.step a = some w') : w'.Sets := by
  cases a with
  | start n =>
    obtain ⟨-, hs⟩ := Option.ite_none_right_eq_some.mp hs
    cases hs
    unfold NetIoWorld.start
    split
    · exact h.congr rfl rfl rfl
    · exact h.congr rfl rfl rfl
  | started =>
    obtain ⟨-, hs⟩ := Option.ite_none_right_eq_some.mp hs
    cases hs
    exact h.congr rfl rfl rfl
  | stop fds =>
    obtain ⟨-, hs⟩ := Option.ite_none_right_eq_some.mp hs
    cases hs
    exact (Sets.postAll _ fds w h).congr rfl rfl rfl
  | join =>
    unfold NetIoWorld.step at hs
    dsimp only at hs
    split at hs
    · obtain ⟨-, hs⟩ := Option.ite_none_right_eq_some.mp hs
      cases hs
      exact h.congr rfl rfl rfl
    · cases hs
  | stopped =>
    obtain ⟨-, hs⟩ := Option.ite_none_right_eq_some.mp hs
    cases hs
    exact h.congr rfl rfl rfl
  | enter i fd =>
    obtain ⟨-, hs⟩ := Option.ite_none_right_eq_some.mp hs
    obtain ⟨svc, -, rfl⟩ := Option.map_eq_some_iff.mp hs
    exact h.congr rfl rfl rfl
  | wait i fin others =>
    obtain ⟨-, hs⟩ := Option.ite_none_right_eq_some.mp hs
    cases hs
    exact h.wait i fin
  | fail i =>
    obtain ⟨-, hs⟩ := Option.ite_none_right_eq_some.mp hs
    obtain ⟨svc, -, rfl⟩ := Option.map_eq_some_iff.mp hs
    exact h.congr rfl rfl rfl
  | leave i =>
    obtain ⟨-, hs⟩ := Option.ite_none_right_eq_some.mp hs
    obtain ⟨svc, -, rfl⟩ := Option.map_eq_some_iff.mp hs
    exact h.congr rfl rfl rfl
  | closeHandler i fd =>
    obtain ⟨svc, -, rfl⟩ := Option.map_eq_some_iff.mp hs
    exact h.takes (List.nil_sublist _)
  | erase i =>
    obtain ⟨svc, -, rfl⟩ := Option.map_eq_some_iff.mp hs
    exact h.congr rfl rfl rfl
  | svc a =>
    obtain ⟨-, hs⟩ := Option.ite_none_right_eq_some.mp hs
    obtain ⟨svc, -, rfl⟩ := Option.map_eq_some_iff.mp hs
    exact h.congr rfl rfl rfl

theorem remaining_idle (h : w.caller = .idle) : w.remaining = 0 := by
  unfold remaining
  rw [h]
  simp [NetThread.stage]

theorem remaining_pos (h : w.caller ≠ .idle) : 0 < w.remaining := by
  unfold remaining
  rw [if_neg h]
  exact Nat.succ_pos _

theorem Same.remaining (h : w.Same w') : w'.remaining = w.remaining := by
  have hstage : (fun i => (w'.thread i).stage w'.caller) = fun i => (w.thread i).stage w.caller := by
    funext i
    rw [h.thread i, h.caller]
  unfold NetIoWorld.remaining
  rw [hstage, h.list, h.caller]

theorem MovesAt.remaining_lt {i : ℕ} (h : w.Inv opened) (hs : w.MovesAt i w')
    (hcaller : w.caller ≠ .idle) : w'.remaining < w.remaining := by
  have hmem : i ∈ w._threadlist := by
    by_contra hnot
    have hex := h.joined i hs.lt hnot
    rw [hs.moves.not_exited (h.sane i)] at hex
    cases hex
  have hlt : (w'.thread i).stage w.caller < (w.thread i).stage w.caller :=
    hs.moves.stage_lt hcaller (h.sane i) (h.ok i hmem)
  have hsum : (w._threadlist.map fun j => (w'.thread j).stage w.caller).sum <
      (w._threadlist.map fun j => (w.thread j).stage w.caller).sum := by
    refine List.sum_lt_sum _ _ ?_ ⟨i, hmem, hlt⟩
    intro j _
    by_cases hj : j = i
    · subst hj
      exact Nat.le_of_lt hlt
    · rw [hs.other j hj]
  unfold remaining
  rw [hs.list, hs.caller]
  omega

/-- **Every step that has to do with it is one step further.** -/
theorem Inv.closer {a : NetIoAction} (h : w.Inv opened) (hcaller : w.caller ≠ .idle)
    (ha : w.NoFail a) (hs : w.step a = some w') :
    if a.isOther then w'.remaining = w.remaining else w'.remaining < w.remaining := by
  by_cases hthread : a.isCaller = false
  · have hstep := h.thread_step ha hthread hs
    split at hstep
    · rename_i hother
      rw [if_pos hother]
      exact hstep.remaining
    · rename_i hother
      rw [if_neg hother]
      obtain ⟨i, hmoves⟩ := hstep
      exact hmoves.remaining_lt h hcaller
  · cases a with
    | start n =>
      obtain ⟨hidle, -⟩ := Option.ite_none_right_eq_some.mp hs
      exact absurd hidle hcaller
    | started =>
      obtain ⟨-, hs⟩ := Option.ite_none_right_eq_some.mp hs
      cases hs
      exact lt_of_eq_of_lt (remaining_idle rfl) (remaining_pos hcaller)
    | stop fds =>
      obtain ⟨⟨hidle, -⟩, -⟩ := Option.ite_none_right_eq_some.mp hs
      exact absurd hidle hcaller
    | join =>
      unfold NetIoWorld.step at hs
      dsimp only at hs
      split at hs
      · rename_i i is hlist
        obtain ⟨⟨hjoining, hex⟩, hs⟩ := Option.ite_none_right_eq_some.mp hs
        cases hs
        have hstage : (w.thread i).stage .joining = 1 := if_pos hex
        have hrest : NetIoWorld.remaining { w with _threadlist := is } =
            (is.map fun j => (w.thread j).stage w.caller).sum + if w.caller = .idle then 0 else 1 := rfl
        rw [if_neg hcaller] at hrest
        refine lt_of_eq_of_lt hrest ?_
        unfold remaining
        rw [hlist, List.map_cons, List.sum_cons, if_neg hcaller, hjoining, hstage]
        omega
      · cases hs
    | stopped =>
      obtain ⟨-, hs⟩ := Option.ite_none_right_eq_some.mp hs
      cases hs
      exact lt_of_eq_of_lt (remaining_idle rfl) (remaining_pos hcaller)
    | enter i fd => exact absurd rfl hthread
    | wait i fin others => exact absurd rfl hthread
    | fail i => exact absurd rfl hthread
    | leave i => exact absurd rfl hthread
    | closeHandler i fd => exact absurd rfl hthread
    | erase i => exact absurd rfl hthread
    | svc a => exact absurd rfl hthread

/-- **Some such step can be taken.** -/
theorem Inv.progress (h : w.Inv opened) (hcaller : w.caller ≠ .idle) :
    ∃ a, w.NoFail a ∧ a.isOther = false ∧ (w.step a).isSome := by
  obtain ⟨fd, hfresh⟩ := Infinite.exists_notMem_finset (0 :: w.svc.reg.opened).toFinset
  rw [List.mem_toFinset, List.mem_cons, not_or] at hfresh
  obtain ⟨hne, hfresh⟩ := hfresh
  cases hc : w.caller with
  | idle => exact absurd hc hcaller
  | starting =>
    by_cases hall : ∀ i ∈ w._threadlist, w.svc.reg.loop i ≠ .outside
    · have hsub : w._threadlist ⊆ w.svc.reg._implvector := fun i hi =>
        (h.reg.mem i).mpr (hall i hi)
      have hsup : w.svc.reg._implvector ⊆ w._threadlist := fun i hi =>
        (h.listed ((h.reg.mem i).mp hi)).2
      have hle := (h.nodup.subperm hsub).length_le
      have hge := (h.reg.nodup.subperm hsup).length_le
      have hcnt : w.svc.reg._implcnt = w._threadlist.length := by
        rw [h.reg.cnt]
        omega
      exact ⟨.started, trivial, rfl, Option.isSome_of_eq_some (if_pos ⟨hc, hcnt⟩)⟩
    · obtain ⟨i, hi, hl⟩ : ∃ i ∈ w._threadlist, w.svc.reg.loop i = .outside := by
        by_contra hno
        exact hall fun i hi hl => hno ⟨i, hi, hl⟩
      have hok : (w.thread i).Ok w.caller := h.ok i hi
      rw [hc] at hok
      have hreg : w.svc.step (.enter i fd) = some (w.svc.setReg (w.svc.reg._createIoImpl i fd)) :=
        congrArg (Option.map w.svc.setReg) (if_pos ⟨hl, hfresh⟩)
      refine ⟨.enter i fd, hne, rfl, ?_⟩
      unfold NetIoWorld.step
      dsimp only
      rw [if_pos ⟨h.lt i hi, hok.2.1⟩, hreg]
      rfl
  | joining =>
    cases hlist : w._threadlist with
    | nil => exact ⟨.stopped, trivial, rfl, Option.isSome_of_eq_some (if_pos ⟨hc, hlist⟩)⟩
    | cons i is =>
      have hi : i ∈ w._threadlist := by
        rw [hlist]
        exact List.mem_cons_self
      cases hex : w.exited i with
      | true =>
        refine ⟨.join, trivial, rfl, ?_⟩
        unfold NetIoWorld.step
        dsimp only
        rw [hlist]
        exact Option.isSome_of_eq_some (if_pos ⟨hc, hex⟩)
      | false =>
        have hok : (w.thread i).Ok w.caller := h.ok i hi
        rw [hc] at hok
        obtain ⟨hin, htold⟩ := hok hex
        cases hl : w.svc.reg.loop i with
        | outside => exact absurd hl hin
        | looping =>
          cases hbrk : w.brk i with
          | true =>
            have hreg : w.svc.step (.leave i) = some _ :=
              congrArg (Option.map w.svc.setReg) (if_pos hl)
            refine ⟨.leave i, trivial, rfl, ?_⟩
            unfold NetIoWorld.step
            dsimp only
            rw [if_pos hbrk, hreg]
            rfl
          | false =>
            have hfin : w.finish i ≠ [] := by
              rcases htold hl with hb | hfin
              · exact absurd (hb.symm.trans hbrk) (by decide)
              · exact hfin
            -- as many sets as go into one batch
            have hpos : 0 < (w.finish i).length := List.length_pos_iff.mpr hfin
            have hmax : 0 < IoRun.maxEvents := by decide
            refine ⟨.wait i (min (w.finish i).length IoRun.maxEvents) 0, trivial, ?_, ?_⟩
            · exact decide_eq_false (by omega)
            · exact Option.isSome_of_eq_some (if_pos ⟨hl, hbrk, Nat.min_le_left _ _, Nat.min_le_right _ _,
                by omega⟩)
        | left =>
          have hhandled := (ServiceWorld.reach_inv h.reach).handled i (by rw [hl]; decide)
          cases hhandler : w.svc.reg._handler i with
          | none => exact absurd hhandler hhandled
          | some hd =>
            have hfd : fd ∉ w.svc.reg.opened.erase hd := fun hmem => hfresh (List.mem_of_mem_erase hmem)
            have hreg : w.svc.step (.closeHandler i fd) =
                some (w.svc.setReg (w.svc.reg.closeHandler i hd fd)) := by
              unfold ServiceWorld.step Registry.step
              dsimp only
              rw [hhandler]
              exact congrArg (Option.map w.svc.setReg) (if_pos ⟨hl, hfd⟩)
            refine ⟨.closeHandler i fd, trivial, rfl, ?_⟩
            unfold NetIoWorld.step
            dsimp only
            rw [hreg]
            rfl
        | releasing =>
          have hreg : w.svc.step (.erase i) = some _ :=
            congrArg (Option.map w.svc.setReg) (if_pos hl)
          refine ⟨.erase i, trivial, rfl, ?_⟩
          unfold NetIoWorld.step
          dsimp only
          rw [hreg]
          rfl

/-- `Stop` returns only when the list is empty. -/
theorem Inv.joining_step {a : NetIoAction} (h : w.Inv opened) (hjoining : w.caller = .joining)
    (ha : w.NoFail a) (hs : w.step a = some w') :
    w'.caller = .joining ∨ w'.caller = .idle ∧ w'._threadlist = [] := by
  by_cases hthread : a.isCaller = false
  · have hstep := h.thread_step ha hthread hs
    split at hstep
    · exact .inl (hstep.caller.trans hjoining)
    · obtain ⟨i, hmoves⟩ := hstep
      exact .inl (hmoves.caller.trans hjoining)
  · cases a with
    | start n =>
      obtain ⟨hidle, -⟩ := Option.ite_none_right_eq_some.mp hs
      rw [hjoining] at hidle
      cases hidle
    | started =>
      obtain ⟨⟨hstarting, -⟩, -⟩ := Option.ite_none_right_eq_some.mp hs
      rw [hjoining] at hstarting
      cases hstarting
    | stop fds =>
      obtain ⟨⟨hidle, -⟩, -⟩ := Option.ite_none_right_eq_some.mp hs
      rw [hjoining] at hidle
      cases hidle
    | join =>
      unfold NetIoWorld.step at hs
      dsimp only at hs
      split at hs
      · obtain ⟨-, hs⟩ := Option.ite_none_right_eq_some.mp hs
        cases hs
        exact .inl hjoining
      · cases hs
    | stopped =>
      obtain ⟨⟨-, hnil⟩, hs⟩ := Option.ite_none_right_eq_some.mp hs
      cases hs
      exact .inr ⟨rfl, hnil⟩
    | enter i fd => exact absurd rfl hthread
    | wait i fin others => exact absurd rfl hthread
    | fail i => exact absurd rfl hthread
    | leave i => exact absurd rfl hthread
    | closeHandler i fd => exact absurd rfl hthread
    | erase i => exact absurd rfl hthread
    | svc a => exact absurd rfl hthread

/-- What `Stop` waits for. -/
def Awaits (c : Caller) (w : NetIoWorld) : Prop :=
  c = .joining → w.caller = .joining ∨ w.caller = .idle ∧ w._threadlist = []

theorem Awaits.step {c : Caller} {a : NetIoAction} (hw : w.Awaits c) (h : w.Inv opened)
    (hwaits : w.caller ≠ .idle) (ha : w.NoFail a) (hs : w.step a = some w') : w'.Awaits c := by
  intro hc
  rcases hw hc with hcaller | ⟨hcaller, -⟩
  · exact h.joining_step hcaller ha hs
  · exact absurd hcaller hwaits

/-- `Start` and `Stop` can return. -/
theorem Inv.returns (h : w.Inv opened) : ∃ w', Reach NetIoWorld.step NoFail w w' ∧ w'.caller = .idle ∧
    (w.caller = .joining → w'._threadlist = []) := by
  have hstep : ∀ v : NetIoWorld, v.Inv opened ∧ v.Awaits w.caller → ¬ v.caller = .idle →
      ∃ a v', (v.NoFail a ∧ v.caller ≠ .idle) ∧ v.step a = some v' ∧ v'.remaining < v.remaining := by
    rintro v ⟨hv, -⟩ hwaits
    obtain ⟨a, ha, hother, hsome⟩ := hv.progress hwaits
    obtain ⟨v', hs⟩ := Option.isSome_iff_exists.mp hsome
    have hcloser := hv.closer hwaits ha hs
    rw [hother] at hcloser
    exact ⟨a, v', ⟨ha, hwaits⟩, hs, hcloser⟩
  obtain ⟨w', hreach, ⟨-, hawaits⟩, hdone⟩ := Reach.comes_to_end
    (C := fun v a => v.NoFail a ∧ v.caller ≠ .idle)
    (I := fun v => v.Inv opened ∧ v.Awaits w.caller) remaining
    (fun v a v' hv hc hs => ⟨hv.1.step hc.1 hs, hv.2.step hv.1 hc.2 hc.1 hs⟩) hstep
    ⟨h, fun hjoining => .inl hjoining⟩
  refine ⟨w', hreach.mono fun _ _ hc => hc.1, hdone, fun hjoining => ?_⟩
  rcases hawaits hjoining with hcaller | ⟨-, hnil⟩
  · rw [hdone] at hcaller
    cases hcaller
  · exact hnil

/-- When the list is empty no thread is in the service. -/
theorem Inv.gone (h : w.Inv opened) (hnil : w._threadlist = []) :
    w.svc.reg._implvector = [] ∧ w.svc.reg._implcnt = 0 ∧ ∀ i, w.svc.reg.loop i = .outside := by
  have hout : ∀ i, w.svc.reg.loop i = .outside := by
    intro i
    by_contra hl
    have hmem := (h.listed hl).2
    rw [hnil] at hmem
    cases hmem
  have hvec : w.svc.reg._implvector = [] :=
    List.eq_nil_iff_forall_not_mem.mpr fun i hi => (h.reg.mem i).mp hi (hout i)
  refine ⟨hvec, ?_, hout⟩
  rw [h.reg.cnt, hvec]
  rfl

/-- While `Stop` joins, a thread of the list that runs its loop has been told. -/
theorem Inv.told (h : w.Inv opened) (hjoining : w.caller = .joining) {i : ℕ}
    (hi : i ∈ w._threadlist) (hl : w.svc.reg.loop i = .looping) : w.brk i ∨ w.finish i ≠ [] := by
  have hok : (w.thread i).Ok w.caller := h.ok i hi
  rw [hjoining] at hok
  exact (hok ((h.sane i).running (fun hout => absurd (hl.symm.trans hout) (by decide)))).2 hl

end NetIoWorld

end Netlib
