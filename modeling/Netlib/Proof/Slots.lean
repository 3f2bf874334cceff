import Netlib.Spec.Epoll
import Netlib.Lib.Run

/-!
# Rejected calls and the slots

A call that returns an error leaves the pending operations alone exactly when its slot
was free and `epoll_ctl` did not fail under another pending operation
(`untouched_iff`). In a run of such calls every accepted operation is completed once
with its own handler and buffer (`rejects`).
-/

namespace Netlib

open Lib

variable {η : Type*}

namespace Core

variable {c : Core η} {d : Dir}

/-! ## Fields -/

@[simp] theorem oper_setOper (o : RwOperation η) (d : Dir) : (c.setOper o d).oper d = o := by
  cases d <;> rfl

@[simp] theorem oper_setOper_other (o : RwOperation η) (d : Dir) :
    (c.setOper o d).oper d.other = c.oper d.other := by
  cases d <;> rfl

@[simp] theorem setOper_setOper (o o' : RwOperation η) (d : Dir) :
    (c.setOper o d).setOper o' d = c.setOper o' d := by
  cases d <;> rfl

@[simp] theorem flag_setOper (o : RwOperation η) (d d' : Dir) : (c.setOper o d).flag d' = c.flag d' := by
  cases d <;> cases d' <;> rfl

section Unpost

variable (c : Core η) (d : Dir)

theorem unpost_other : (c.unpost d).oper d.other = c.oper d.other := by
  cases d <;> rfl

theorem unpost_flag (d' : Dir) : (c.unpost d).flag d' = if d' = d then false else c.flag d' := by
  cases d <;> cases d' <;> rfl

theorem unpost_cop : (c.unpost d)._cop = c._cop := by
  cases d <;> rfl

theorem unpost_aop : (c.unpost d)._aop = c._aop := by
  cases d <;> rfl

theorem unpost_type : (c.unpost d)._type = c._type := by
  cases d <;> rfl

theorem unpost_bind : (c.unpost d)._state.bind = false := by
  cases d <;> rfl

end Unpost

theorem dir_eq (d d' : Dir) : d' = d ∨ d' = d.other := by
  cases d <;> cases d' <;> simp [Dir.other]

/-! ## What a call does -/

theorem setNonblock_error {env : Env} {e : SockError} (h : c.setNonblock env = .error e) :
    c._state.block = true ∧ env.nonblock ≠ none := by
  unfold setNonblock at h
  split at h
  · rename_i hb
    cases hn : env.nonblock with
    | none => rw [hn] at h; cases h
    | some _ => exact ⟨hb, Option.some_ne_none _⟩
  · cases h

theorem setNonblock_ok {env : Env} {c₁ : Core η} (h : c.setNonblock env = .ok c₁) :
    (c._state.block = true → env.nonblock = none) ∧
      c₁ = { c with _state := { c._state with block := false } } := by
  unfold setNonblock at h
  split at h
  · cases hn : env.nonblock with
    | none => rw [hn] at h; cases h; exact ⟨fun _ => rfl, rfl⟩
    | some _ => rw [hn] at h; cases h
  · rename_i hb
    cases h
    refine ⟨fun h => absurd h hb, ?_⟩
    rw [Bool.not_eq_true] at hb
    rw [← hb]

/-- `CtlEpoll` changes only the epoll handle and the interest. -/
theorem ctlEpoll_core (c : Core η) (env : Env) (ctl : EpollCtl) (ev : EpollEvents) :
    ∃ ep ev', (c.ctlEpoll env ctl ev).2 = { c with _epoll := ep, interest := ev' } := by
  unfold ctlEpoll
  generalize (if ctl = .add ∧ c._epoll = none then env.service else c._epoll) = ep
  dsimp only
  split
  · exact ⟨_, _, rfl⟩
  · split <;> exact ⟨_, _, rfl⟩

theorem ctlEpoll_fails (c : Core η) (env : Env) (ctl : EpollCtl) (ev : EpollEvents) :
    (c.ctlEpoll env ctl ev).1 ≠ none ↔
      env.ctl ≠ none ∨ c._epoll = none ∧ (ctl = .mod ∨ env.service = none) := by
  unfold ctlEpoll
  cases ctl <;> cases hep : c._epoll <;> cases hs : env.service <;> cases hc : env.ctl <;>
    simp

/-- **What a call can do**: it is refused before it changes anything but its slot, or
`epoll_ctl` fails, or the operation is in its slot. The other slots stay. -/
inductive Outcome (c : Core η) (d : Dir) (op : RwOperation η) (env : Env) :
    Option SockError × Core η → Prop
  | refused (e : SockError) : ¬ c.CtlFails d env → Outcome c d op env (some e, c.setOper .clear d)
  | failed (e : SockError) (c' : Core η) : c.CtlFails d env → c'.oper d = .clear →
      c'.oper d.other = c.oper d.other → c'._cop = c._cop → c'._aop = c._aop →
      (∀ d', c'.flag d' = c.flag d') → c'._type = c.postType d → c'._state.bind = false →
      Outcome c d op env (some e, c')
  | posted (c' : Core η) : c'.oper d = op → c'.oper d.other = c.oper d.other →
      Outcome c d op env (none, c')

/-- What a call has done before `CtlEpoll`, which finds these bits. -/
structure PostKeeps (c : Core η) (d : Dir) (op : RwOperation η) (c' : Core η) : Prop where
  own : c'.oper d = op
  other : c'.oper d.other = c.oper d.other
  cop : c'._cop = c._cop
  aop : c'._aop = c._aop
  type : c'._type = c.postType d
  flag : ∀ d', d' ≠ d → c'.flag d' = c.flag d'
  epoll : c'._epoll = c._epoll

theorem post_keeps {c c₁ : Core η} {d : Dir} {op : RwOperation η} {env : Env}
    (hn : (c.setOper op d).setNonblock env = .ok c₁) : c.PostKeeps d op (c₁.post d) := by
  obtain ⟨-, hc₁⟩ := setNonblock_ok hn
  rw [hc₁]
  cases d with
  | read =>
    refine ⟨rfl, rfl, rfl, rfl, rfl, ?_, rfl⟩
    intro d' hd'
    cases d' with
    | read => exact absurd rfl hd'
    | write => rfl
  | write =>
    refine ⟨rfl, rfl, rfl, rfl, rfl, ?_, rfl⟩
    intro d' hd'
    cases d' with
    | read => rfl
    | write => exact absurd rfl hd'

theorem asyncSome_outcome (c : Core η) (d : Dir) (posted : SockError) (data size : ℕ) (hander : η)
    (env : Env) :
    Outcome c d ⟨data, size, true, some hander⟩ env (c.asyncSome d posted data size hander env) := by
  unfold asyncSome
  set op : RwOperation η := ⟨data, size, true, some hander⟩
  obtain ⟨c₀, hc₀⟩ : ∃ c₀, c₀ = c.setOper op d := ⟨_, rfl⟩
  have hfd : c₀._fd = c._fd := by rw [hc₀]; cases d <;> rfl
  have hstate : c₀._state = c._state := by rw [hc₀]; cases d <;> rfl
  have hflag : ∀ d', c₀.flag d' = c.flag d' := by rw [hc₀]; exact flag_setOper op d
  have hclear : c₀.setOper .clear d = c.setOper .clear d := by rw [hc₀, setOper_setOper]
  rw [← hc₀]
  dsimp only
  -- the tests in the order of the source
  by_cases h1 : c₀._fd = none
  · rw [if_pos h1, hclear]
    exact .refused _ fun h => h.1 (hfd ▸ h1)
  rw [if_neg h1]
  by_cases h2 : c₀.flag d = true
  · rw [if_pos h2, hclear]
    refine .refused _ fun h => ?_
    have hno := h.2.1
    rw [← hflag, h2] at hno
    exact Bool.noConfusion hno
  rw [if_neg h2]
  cases hn : c₀.setNonblock env with
  | error e =>
    obtain ⟨hb, hne⟩ := setNonblock_error hn
    rw [hclear]
    exact .refused _ fun h => hne (h.2.2.1 (hstate ▸ hb))
  | ok c₁ =>
    obtain ⟨hb, hc₁⟩ := setNonblock_ok hn
    dsimp only
    have hbind : c₁._state.bind = c._state.bind := by rw [hc₁, ← hstate]
    have hkeeps : c.PostKeeps d op (c₁.post d) := post_keeps (hc₀ ▸ hn)
    obtain ⟨ctl, hctl⟩ : ∃ ctl, ctl = if c₁._state.bind = true then EpollCtl.mod else .add := ⟨_, rfl⟩
    rw [← hctl]
    obtain ⟨ep, ev, hcore⟩ := ctlEpoll_core (c₁.post d) env ctl (.of d (c₁.flag d.other))
    have hfails := ctlEpoll_fails (c₁.post d) env ctl (.of d (c₁.flag d.other))
    have hmod : ctl = .mod ↔ c._state.bind = true := by
      rw [hctl, hbind]
      split <;> simp_all
    rw [hkeeps.epoll, hmod] at hfails
    cases hr : (c₁.post d).ctlEpoll env ctl (.of d (c₁.flag d.other)) with
    | mk error c₂ =>
      rw [hr] at hcore hfails
      dsimp only at hcore hfails ⊢
      subst hcore
      cases error with
      | none =>
        exact .posted _ hkeeps.own hkeeps.other
      | some e =>
        have hcf : c.CtlFails d env :=
          ⟨hfd ▸ h1, (hflag d).symm.trans (Bool.not_eq_true _ ▸ h2),
            fun h => hb (hstate ▸ h), hfails.mp (Option.some_ne_none _)⟩
        refine .failed _ _ hcf (oper_setOper _ _) ?_ ?_ ?_ ?_ ?_ ?_
        · rw [unpost_other]
          exact hkeeps.other
        · rw [unpost_cop]
          exact hkeeps.cop
        · rw [unpost_aop]
          exact hkeeps.aop
        · intro d'
          rw [unpost_flag]
          split
          · rename_i hd'
            rw [hd']
            exact hcf.2.1.symm
          · rename_i hd'
            exact hkeeps.flag d' hd'
        · rw [unpost_type]
          exact hkeeps.type
        · exact unpost_bind _ _

theorem async_outcome (c : Core η) (d : Dir) (data size : ℕ) (hander : η) (env : Env) :
    Outcome c d ⟨data, size, true, some hander⟩ env (c.async d data size hander env) := by
  cases d
  · exact asyncSome_outcome c .read .postedRead data size hander env
  · exact asyncSome_outcome c .write .postedWrite data size hander env

/-- **Exactly when a rejected call leaves the pending operations alone.** -/
theorem untouched_iff {data size : ℕ} {hander : η} {env : Env}
    (h : (c.async d data size hander env).1 ≠ none) :
    Untouched c (c.async d data size hander env).2 ↔ c.CallOk d env := by
  have hout := async_outcome c d data size hander env
  generalize c.async d data size hander env = r at h hout
  cases hout with
  | refused e hno =>
    refine ⟨fun hu => ⟨?_, fun hf => absurd hf hno⟩, fun hok => ⟨?_, ?_, ?_, ?_⟩⟩
    · -- the slot was cleared, so it held no operation
      by_contra hne
      have hop := hu.oper d hne
      dsimp only at hop
      rw [oper_setOper] at hop
      exact hne (hop ▸ rfl)
    · intro d' hd'
      obtain rfl | rfl := dir_eq d d'
      · exact absurd hok.1 hd'
      · exact oper_setOper_other _ d
    · intro _; cases d <;> rfl
    · intro _; cases d <;> rfl
    · intro _
      exact ⟨fun d' => flag_setOper _ d d', by cases d <;> rfl, by cases d <;> rfl⟩
  | failed e c' hf hop hoth hcop haop hflag htype hbind =>
    dsimp only
    refine ⟨fun hu => ⟨?_, ?_⟩, fun hok => ⟨?_, fun _ => hcop, fun _ => haop, ?_⟩⟩
    · by_contra hne
      have hop' := hu.oper d hne
      rw [hop] at hop'
      exact hne (hop' ▸ rfl)
    · intro _ hp
      -- the failed call has set the type bits and cleared the bound bit
      have hany : (∃ d, (c.oper d)._handler ≠ none) ∨ c._cop._handler ≠ none ∨
          c._aop._handler ≠ none := by
        obtain hp | hp := hp
        · exact .inl ⟨_, hp⟩
        · exact .inr hp
      obtain ⟨-, ht, hb⟩ := hu.bits hany
      exact ⟨ht.symm.trans htype, hb.symm.trans hbind⟩
    · intro d' hd'
      obtain rfl | rfl := dir_eq d d'
      · exact absurd hok.1 hd'
      · exact hoth
    · intro hany
      have hp : c.PendingBut d := by
        obtain ⟨d', hd'⟩ | hp := hany
        · obtain rfl | rfl := dir_eq d d'
          · exact absurd hok.1 hd'
          · exact .inl hd'
        · exact .inr hp
      obtain ⟨ht, hb⟩ := hok.2 hf hp
      exact ⟨hflag, htype.trans ht.symm, hbind.trans hb.symm⟩
  | posted c' => exact absurd rfl h

/-! ## The other steps leave the read and write slots alone -/

theorem ctlEpoll_oper (c : Core η) (env : Env) (ctl : EpollCtl) (ev : EpollEvents) (d : Dir) :
    (c.ctlEpoll env ctl ev).2.oper d = c.oper d := by
  obtain ⟨ep, ev', h⟩ := ctlEpoll_core c env ctl ev
  rw [h]
  cases d <;> rfl

theorem locked_oper (c : Core η) (ctl : Option ℕ) (d d' : Dir) :
    (c.locked ctl d).2.2.oper d' = c.oper d' := by
  cases d with
  | read =>
    unfold locked readLocked
    dsimp only
    split
    · rfl
    · exact (ctlEpoll_oper _ _ _ _ _).trans (by cases d' <;> rfl)
  | write =>
    unfold locked writeLocked
    dsimp only
    split
    · cases d' <;> rfl
    · exact (ctlEpoll_oper _ _ _ _ _).trans (by cases d' <;> rfl)

theorem setNonblock_oper {env : Env} {c₁ : Core η} (h : c.setNonblock env = .ok c₁) (d : Dir) :
    c₁.oper d = c.oper d := by
  obtain ⟨-, rfl⟩ := setNonblock_ok h
  cases d <;> rfl

theorem bindEpoll_oper (c : Core η) (env : Env) (ev : EpollEvents) (d : Dir) :
    (c.bindEpoll env ev).2.oper d = c.oper d := by
  unfold bindEpoll
  split
  · rfl
  · exact (ctlEpoll_oper _ _ _ _ _).trans (by cases d <;> rfl)

theorem asyncConnect_oper (c : Core η) (valid : Bool) (connect : Option ℕ) (handler : η) (env : Env)
    (d : Dir) : (c.asyncConnect valid connect handler env).2.oper d = c.oper d := by
  unfold asyncConnect
  split_ifs
  · rfl
  · rfl
  · rfl
  · cases hn : c.setNonblock env with
    | error e => rfl
    | ok c₁ =>
      rw [← setNonblock_oper hn d]
      cases connect with
      | some e => rfl
      | none =>
        dsimp only
        split
        · exact (bindEpoll_oper _ _ _ d).trans (by cases d <;> rfl)
        · exact .trans (by cases d <;> rfl) ((bindEpoll_oper _ env ⟨false, true, true⟩ d).trans
            (by cases d <;> rfl))

theorem asyncAccept_oper (c : Core η) (cli : ℕ) (handler : η) (env : Env) (d : Dir) :
    (c.asyncAccept cli handler env).2.oper d = c.oper d := by
  unfold asyncAccept
  split_ifs
  · rfl
  · rfl
  · cases hn : c.setNonblock env with
    | error e => rfl
    | ok c₁ =>
      rw [← setNonblock_oper hn d]
      dsimp only
      split
      · exact (bindEpoll_oper _ _ _ d).trans (by cases d <;> rfl)
      · exact .trans (by cases d <;> rfl) ((bindEpoll_oper _ env ⟨true, false, false⟩ d).trans
          (by cases d <;> rfl))

theorem close_oper (c : Core η) (d : Dir) : c.close.oper d = c.oper d := by
  unfold close
  split_ifs <;> cases d <;> rfl

theorem openFd_oper (c : Core η) (fd : ℕ) (d : Dir) : (c.openFd fd).oper d = c.oper d := by
  unfold openFd
  split_ifs <;> cases d <;> rfl

end Core

/-! ## Runs -/

namespace OpWorld

open Netlib.Core

variable {w w' : OpWorld η}

structure Inv (w : OpWorld η) : Prop where
  conserved : w.Conserved
  impl : ∀ d, (w.core.oper d)._impl = true → (w.core.oper d)._handler ≠ none
  completing : ∀ d n e, w.completing = some (d, n, e) → (w.core.oper d)._handler ≠ none

theorem pending_none {d : Dir} (h : (w.core.oper d)._handler = none) : w.pending d = [] := if_pos h

theorem pending_some {d : Dir} (h : (w.core.oper d)._handler ≠ none) :
    w.pending d = [w.core.oper d] := if_neg h

/-- A step that leaves the slots alone. -/
theorem Inv.same (h : w.Inv) (ha : w'.accepted = w.accepted) (hf : w'.finished = w.finished)
    (hc : w'.completing = w.completing) (ho : ∀ d, w'.core.oper d = w.core.oper d) : w'.Inv where
  conserved d := by rw [ha, hf, h.conserved d, pending, pending, ho]
  impl d := by rw [ho]; exact h.impl d
  completing d n e := by rw [ho, hc]; exact h.completing d n e

/-- A call of `AsyncRecvSome` or `AsyncSendSome` on a free slot. -/
theorem Inv.async {d : Dir} {data size : ℕ} {hander : η} {env : Env} (h : w.Inv)
    (hfree : (w.core.oper d)._handler = none)
    (hs : w.step (.async d data size hander env) = some w') : w'.Inv := by
  have hout := async_outcome w.core d data size hander env
  simp only [step] at hs
  generalize w.core.async d data size hander env = r at hs hout
  -- an operation that is being completed is the other one
  have hcomp : ∀ d' n e, w.completing = some (d', n, e) → d' = d.other := by
    intro d' n e hd'
    obtain rfl | hd := dir_eq d d'
    · exact absurd hfree (h.completing _ n e hd')
    · exact hd
  -- a refused or failed call clears the slot
  have hcleared : ∀ (e : SockError) (c' : Core η), r = (some e, c') → c'.oper d = .clear →
      c'.oper d.other = w.core.oper d.other → w'.Inv := by
    intro e c' hr hop hoth
    rw [hr] at hs
    obtain rfl := Option.some.inj hs
    refine ⟨?_, ?_, ?_⟩
    · intro d'
      have hold := h.conserved d'
      dsimp only
      obtain rfl | rfl := dir_eq d d'
      · rw [pending_none hfree] at hold
        rw [if_neg (Option.some_ne_none e), hold, pending_none (by exact hop ▸ rfl)]
      · rw [if_neg (Option.some_ne_none e), hold, pending, pending]
        dsimp only
        rw [hoth]
    · intro d'
      dsimp only
      obtain rfl | rfl := dir_eq d d'
      · rw [hop]
        intro himpl
        exact Bool.noConfusion himpl
      · rw [hoth]
        exact h.impl _
    · intro d' n e hd'
      obtain rfl := hcomp d' n e hd'
      exact hoth ▸ h.completing _ n e hd'
  cases hout with
  | refused e hno => exact hcleared e _ rfl (oper_setOper _ _) (oper_setOper_other _ _)
  | failed e c' hf hop hoth => exact hcleared e c' rfl hop hoth
  | posted c' hop hoth =>
    obtain rfl := Option.some.inj hs
    refine ⟨?_, ?_, ?_⟩
    · intro d'
      have hold := h.conserved d'
      dsimp only
      rw [if_pos rfl]
      obtain rfl | rfl := dir_eq d d'
      · rw [pending_none hfree, List.append_nil] at hold
        rw [Function.update_self, hold, pending_some (by rw [hop]; exact Option.some_ne_none _)]
        dsimp only
        rw [hop]
      · rw [Function.update_of_ne (by cases d <;> decide), hold, pending, pending]
        dsimp only
        rw [hoth]
    · intro d'
      dsimp only
      obtain rfl | rfl := dir_eq d d'
      · rw [hop]
        intro _
        exact Option.some_ne_none _
      · rw [hoth]
        exact h.impl _
    · intro d' n e hd'
      obtain rfl := hcomp d' n e hd'
      exact hoth ▸ h.completing _ n e hd'

/-- The end of a completion. -/
theorem Inv.finish {ret : ℤ} {so : Option ℕ} (h : w.Inv) (hs : w.step (.finish ret so) = some w') :
    w'.Inv := by
  simp only [step] at hs
  split at hs
  · cases hs
  · rename_i d notify error hc
    obtain rfl := Option.some.inj hs
    have hne := h.completing d notify error hc
    refine ⟨?_, ?_, ?_⟩
    · intro d'
      have hold := h.conserved d'
      dsimp only
      obtain rfl | rfl := dir_eq d d'
      · rw [pending_some hne] at hold
        rw [Function.update_self, hold, List.map_append, List.append_assoc,
          pending_none (by exact congrArg RwOperation._handler (oper_setOper _ _))]
        rfl
      · rw [Function.update_of_ne (by cases d <;> decide), hold, pending, pending]
        dsimp only
        rw [oper_setOper_other]
    · intro d'
      dsimp only
      obtain rfl | rfl := dir_eq d d'
      · rw [oper_setOper]
        intro himpl
        exact Bool.noConfusion himpl
      · rw [oper_setOper_other]
        exact h.impl _
    · intro d' n e hd'
      cases hd'

/-- The start of a completion. -/
theorem Inv.lock {d : Dir} {ctl : Option ℕ} (h : w.Inv) (hs : w.step (.lock d ctl) = some w') :
    w'.Inv := by
  simp only [OpWorld.step] at hs
  obtain ⟨hen, hs⟩ := Option.ite_none_right_eq_some.mp hs
  cases hs
  refine ⟨?_, ?_, ?_⟩
  · intro d'
    rw [h.conserved d', pending, pending]
    dsimp only
    rw [locked_oper]
  · intro d'
    dsimp only
    rw [locked_oper]
    exact h.impl d'
  · intro d' n e hd'
    simp only [Option.some.injEq, Prod.mk.injEq] at hd'
    obtain ⟨rfl, -⟩ := hd'
    dsimp only
    rw [locked_oper]
    exact h.impl _ hen.2.2.2.2

theorem Inv.step (h : w.Inv) {a : OpAction η} (ha : w.StepOk a) (hs : w.step a = some w') : w'.Inv := by
  cases a with
  | async d data size hander env => exact h.async ha.1 hs
  | lock d ctl => exact h.lock hs
  | finish ret so => exact h.finish hs
  | asyncConnect valid connect handler env =>
    obtain rfl := Option.some.inj hs
    exact h.same rfl rfl rfl fun d => asyncConnect_oper _ _ _ _ _ d
  | asyncAccept cli handler env =>
    obtain rfl := Option.some.inj hs
    exact h.same rfl rfl rfl fun d => asyncAccept_oper _ _ _ _ d
  | connectComplete =>
    obtain ⟨-, hs⟩ := Option.ite_none_right_eq_some.mp hs
    cases hs
    exact h.same rfl rfl rfl fun d => by cases d <;> rfl
  | acceptComplete =>
    obtain ⟨-, hs⟩ := Option.ite_none_right_eq_some.mp hs
    cases hs
    exact h.same rfl rfl rfl fun d => by cases d <;> rfl
  | openFd fd =>
    obtain rfl := Option.some.inj hs
    exact h.same rfl rfl rfl fun d => openFd_oper _ _ d
  | close =>
    obtain rfl := Option.some.inj hs
    exact h.same rfl rfl rfl fun d => close_oper _ d
  | doClose =>
    obtain rfl := Option.some.inj hs
    exact h.same rfl rfl rfl fun d => by cases d <;> rfl

theorem start_inv : (start : OpWorld η).Inv := by
  refine ⟨?_, ?_, ?_⟩
  · intro d
    cases d <;> rfl
  · intro d
    cases d <;> exact fun h => Bool.noConfusion h
  · intro d n e h
    cases h

/-- The invariant along the runs whose calls meet the condition. -/
theorem reach_inv (h : Reach step StepOk start w) : w.Inv :=
  h.inv start_inv fun _ _ _ hi ha hs => hi.step ha hs

/-- **Rejected calls.** In every reachable state a call that returns an error leaves the
pending operations alone exactly when it meets the condition, and in a run whose calls
meet it every accepted operation is completed once with its own handler and buffer or is
still pending. -/
theorem rejects :
    (∀ w : OpWorld η, Reach step always start w → ∀ d data size hander env,
      (w.core.async d data size hander env).1 ≠ none →
        (w.core.Untouched (w.core.async d data size hander env).2 ↔ w.core.CallOk d env)) ∧
    ∀ w : OpWorld η, Reach step StepOk start w → w.Conserved :=
  ⟨fun _ _ _ _ _ _ _ herr => untouched_iff herr, fun _ h => (reach_inv h).conserved⟩

/-- The system answers every request. -/
def fine : Env := ⟨none, some 1, none⟩

/-- A socket with a pending read. -/
def reading : OpWorld ℕ where
  core := (((Core.init.openFd 3).asyncRecvSome 100 10 7 fine).2 : Core ℕ)
  completing := none
  accepted := Function.update (fun _ => []) .read [⟨100, 10, true, some 7⟩]
  finished := fun _ => []

theorem reading_reach (C : OpWorld ℕ → OpAction ℕ → Prop) (ho : C start (.openFd 3))
    (hr : C { start with core := Core.init.openFd 3 } (.async .read 100 10 7 fine)) :
    Reach step C start reading :=
  .next (.next .refl ho rfl) hr rfl

/-- A second read while one is pending. -/
theorem rejects_reading :
    (reading.core.Untouched (reading.core.async .read 200 20 8 fine).2 ↔
      reading.core.CallOk .read fine) ∧ reading.Conserved :=
  ⟨rejects.1 reading (reading_reach always trivial trivial) .read 200 20 8 fine (by decide),
    rejects.2 reading <|
      reading_reach StepOk trivial ⟨rfl, fun hf => absurd hf.2.2.2 (by decide)⟩⟩

/-- It destroys the pending one. -/
theorem not_rejects : ¬ ∀ w : OpWorld ℕ, Reach step always start w →
    w.Conserved ∧ ∀ d data size hander env, (w.core.async d data size hander env).1 ≠ none →
      w.core.Untouched (w.core.async d data size hander env).2 := by
  intro h
  have hu := (h reading (reading_reach always trivial trivial)).2 .read 200 20 8 fine (by decide)
  have hop := hu.oper .read (by decide)
  exact absurd hop (by decide)

end OpWorld

end Netlib
