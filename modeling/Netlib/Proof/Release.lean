import Netlib.Spec.Release
import Netlib.Proof.Slots

/-!
# Closed sockets hold no operations when nothing was pending

An operation is accepted only on an open descriptor, and the call makes it non-blocking
(`asyncSome_live`, `asyncConnect_live`, `asyncAccept_live`). So a socket that is closed or in
blocking mode has only slots that are being completed, as long as `_DoClose` finds it so.
-/

namespace Netlib

open Lib

variable {η : Type*}

theorem RwOperation.empty_clear : (RwOperation.clear : RwOperation η).Empty := ⟨rfl, rfl⟩

theorem ConnectOperation.empty_clear : (ConnectOperation.clear : ConnectOperation η).Empty :=
  ⟨rfl, rfl⟩

theorem AcceptOperation.empty_clear : (AcceptOperation.clear : AcceptOperation η).Empty :=
  ⟨rfl, rfl, rfl⟩

namespace Core

variable {c c' : Core η}

/-- The descriptor is open and the block bit is clear. -/
structure Live (c : Core η) : Prop where
  fd : c._fd ≠ none
  block : c._state.block = false

theorem Live.congr (h : c.Live) (hfd : c'._fd = c._fd) (hb : c'._state.block = c._state.block) :
    c'.Live := by
  refine ⟨?_, ?_⟩
  · rw [hfd]
    exact h.fd
  · rw [hb]
    exact h.block

theorem Live.setOper (h : c.Live) (o : RwOperation η) (d : Dir) : (c.setOper o d).Live := by
  cases d <;> exact h.congr rfl rfl

theorem Live.post (h : c.Live) (d : Dir) : (c.post d).Live := by
  cases d <;> exact h.congr rfl rfl

theorem Live.unpost (h : c.Live) (d : Dir) : (c.unpost d).Live := by
  cases d <;> exact h.congr rfl rfl

theorem Live.ctlEpoll (h : c.Live) (env : Env) (ctl : EpollCtl) (ev : EpollEvents) :
    (c.ctlEpoll env ctl ev).2.Live := by
  obtain ⟨ep, ev', hc⟩ := ctlEpoll_core c env ctl ev
  rw [hc]
  exact h.congr rfl rfl

theorem Live.bindEpoll (h : c.Live) (env : Env) (ev : EpollEvents) :
    (c.bindEpoll env ev).2.Live := by
  unfold Core.bindEpoll
  split
  · exact h
  · have hb : (c.setBind true).Live := h.congr rfl rfl
    exact hb.ctlEpoll env .add ev

theorem live_setNonblock {env : Env} (hfd : c._fd ≠ none) (h : c.setNonblock env = .ok c') :
    c'.Live := by
  obtain ⟨-, rfl⟩ := setNonblock_ok h
  exact ⟨hfd, rfl⟩

theorem Live.locked (h : c.Live) (ctl : Option ℕ) (d : Dir) : (c.locked ctl d).2.2.Live := by
  cases d with
  | read =>
    have hlive : ((c.setFlag false .read).setType { c._type with read := false }).Live :=
      h.congr rfl rfl
    unfold Core.locked readLocked
    dsimp only
    rw [if_neg h.fd]
    exact hlive.ctlEpoll _ _ _
  | write =>
    have hlive : ((c.setType { c._type with write := false }).setFlag false .write).Live :=
      h.congr rfl rfl
    have hfd : (c.setType { c._type with write := false })._fd ≠ none := h.fd
    unfold Core.locked writeLocked
    dsimp only
    rw [if_neg hfd]
    exact hlive.ctlEpoll _ _ _

/-! ## The calls -/

/-- **A call of `AsyncRecvSome` or `AsyncSendSome`** is refused and clears its slot, or the
descriptor is open and non-blocking after it. -/
theorem asyncSome_live (d : Dir) (posted : SockError) (data size : ℕ) (hander : η) (env : Env) :
    (c.asyncSome d posted data size hander env).2 = c.setOper .clear d ∨
      (c.asyncSome d posted data size hander env).2.Live := by
  unfold asyncSome
  obtain ⟨c₀, hc₀⟩ : ∃ c₀, c₀ = c.setOper ⟨data, size, true, some hander⟩ d := ⟨_, rfl⟩
  have hclear : c₀.setOper .clear d = c.setOper .clear d := by rw [hc₀, setOper_setOper]
  rw [← hc₀]
  dsimp only
  by_cases hfd : c₀._fd = none
  · rw [if_pos hfd]
    exact .inl hclear
  rw [if_neg hfd]
  split
  · exact .inl hclear
  cases hn : c₀.setNonblock env with
  | error e => exact .inl hclear
  | ok c₁ =>
    refine .inr ?_
    have hlive := (live_setNonblock hfd hn).post d
    dsimp only
    generalize (if c₁._state.bind = true then EpollCtl.mod else .add) = ctl
    have hctl := hlive.ctlEpoll env ctl (.of d (c₁.flag d.other))
    generalize (c₁.post d).ctlEpoll env ctl (.of d (c₁.flag d.other)) = r at hctl
    obtain ⟨error, c₂⟩ := r
    cases error with
    | some e => exact hctl.unpost d
    | none => exact hctl

theorem async_live (d : Dir) (data size : ℕ) (hander : η) (env : Env) :
    (c.async d data size hander env).2 = c.setOper .clear d ∨
      (c.async d data size hander env).2.Live := by
  cases d
  · exact asyncSome_live .read .postedRead data size hander env
  · exact asyncSome_live .write .postedWrite data size hander env

/-- `AsyncConnect` is refused, or the descriptor is open and non-blocking after it. -/
theorem asyncConnect_live (valid : Bool) (connect : Option ℕ) (handler : η) (env : Env) :
    (c.asyncConnect valid connect handler env).2 = c ∨
      (c.asyncConnect valid connect handler env).2.Live := by
  unfold asyncConnect
  by_cases hfd : c._fd = none
  · rw [if_pos hfd]
    exact .inl rfl
  rw [if_neg hfd]
  split
  · exact .inl rfl
  split
  · exact .inl rfl
  cases hn : c.setNonblock env with
  | error e => exact .inl rfl
  | ok c₁ =>
    have hlive := live_setNonblock hfd hn
    refine .inr ?_
    cases connect with
    | some e => exact hlive
    | none =>
      have hpost : ({ c₁ with
          _state := { c₁._state with connect := true }
          _type := { OpType.none with connect := true }
          _cop := ⟨true, some handler⟩ } : Core η).Live := hlive.congr rfl rfl
      have hbind := hpost.bindEpoll env ⟨false, true, true⟩
      dsimp only
      split
      · exact hbind
      · exact hbind.congr rfl rfl

theorem asyncAccept_live (cli : ℕ) (handler : η) (env : Env) :
    (c.asyncAccept cli handler env).2 = c ∨ (c.asyncAccept cli handler env).2.Live := by
  unfold asyncAccept
  by_cases hfd : c._fd = none
  · rw [if_pos hfd]
    exact .inl rfl
  rw [if_neg hfd]
  split
  · exact .inl rfl
  cases hn : c.setNonblock env with
  | error e => exact .inl rfl
  | ok c₁ =>
    have hlive := live_setNonblock hfd hn
    refine .inr ?_
    have hpost : ({ c₁ with
        _state := { c₁._state with accept := true }
        _type := { OpType.none with accept := true }
        _aop := ⟨true, some cli, some handler⟩ } : Core η).Live := hlive.congr rfl rfl
    have hbind := hpost.bindEpoll env ⟨true, false, false⟩
    dsimp only
    split
    · exact hbind
    · exact hbind.congr rfl rfl

end Core

namespace OpWorld

open Netlib.Core

variable {w w' : OpWorld η}

/-! ## Runs -/

/-- The descriptor is open and non-blocking, or every operation in a slot is being completed. -/
def Settled (w : OpWorld η) : Prop := w.core.Live ∨ w.Quiet

theorem Quiet.congr (h : w.Quiet) (ho : ∀ d, w'.core.oper d = w.core.oper d)
    (hc : w'.core._cop = w.core._cop) (ha : w'.core._aop = w.core._aop)
    (hw : w'.completing = w.completing) : w'.Quiet := by
  refine ⟨?_, ?_, ?_⟩
  · intro d
    unfold Completing
    rw [ho, hw]
    exact h.oper d
  · rw [hc]
    exact h.cop
  · rw [ha]
    exact h.aop

/-- Nothing is being completed: the slots are empty. -/
theorem Quiet.holdsNone (h : w.Quiet) (hw : w.completing = none) : w.core.HoldsNone := by
  refine ⟨?_, h.cop, h.aop⟩
  intro d
  rcases h.oper d with hd | ⟨n, e, hd⟩
  · exact hd
  · rw [hw] at hd
    cases hd

theorem quiet_of_holdsNone (h : w.core.HoldsNone) : w.Quiet :=
  ⟨fun d => .inl (h.oper d), h.cop, h.aop⟩

/-- A slot is cleared. -/
theorem Quiet.clear (h : w.Quiet) (d : Dir) : { w with core := w.core.setOper .clear d }.Quiet := by
  refine ⟨?_, ?_, ?_⟩
  · intro d'
    obtain rfl | rfl := dir_eq d d'
    · refine .inl ?_
      dsimp only
      rw [oper_setOper]
      exact RwOperation.empty_clear
    · dsimp only
      rw [oper_setOper_other]
      exact h.oper _
  · have hcop : (w.core.setOper .clear d)._cop = w.core._cop := by cases d <;> rfl
    exact hcop.symm ▸ h.cop
  · have haop : (w.core.setOper .clear d)._aop = w.core._aop := by cases d <;> rfl
    exact haop.symm ▸ h.aop

theorem Settled.async (h : w.Settled) {d : Dir} {data size : ℕ} {hander : η} {env : Env}
    (hs : w.step (.async d data size hander env) = some w') : w'.Settled := by
  have hout := async_live (c := w.core) d data size hander env
  simp only [step] at hs
  generalize w.core.async d data size hander env = r at hs hout
  obtain ⟨error, c⟩ := r
  obtain rfl := Option.some.inj hs
  rcases hout with rfl | hlive
  · rcases h with hl | hq
    · exact .inl (hl.setOper _ d)
    · exact .inr ((hq.clear d).congr (fun _ => rfl) rfl rfl rfl)
  · exact .inl hlive

/-- **The start of a completion** finds a live socket: elsewhere no slot is filled. -/
theorem Settled.lock (h : w.Settled) {d : Dir} {ctl : Option ℕ}
    (hs : w.step (.lock d ctl) = some w') : w'.Settled := by
  simp only [step] at hs
  obtain ⟨hen, hs⟩ := Option.ite_none_right_eq_some.mp hs
  cases hs
  rcases h with hl | hq
  · exact .inl (hl.locked ctl d)
  · have hempty := ((hq.holdsNone hen.1).oper d).impl
    rw [hen.2.2.2.2] at hempty
    cases hempty

theorem Settled.finish (h : w.Settled) {ret : ℤ} {so : Option ℕ}
    (hs : w.step (.finish ret so) = some w') : w'.Settled := by
  simp only [step] at hs
  split at hs
  · cases hs
  · rename_i d notify error hc
    obtain rfl := Option.some.inj hs
    rcases h with hl | hq
    · exact .inl (hl.setOper _ d)
    · -- only the slot of `d` may be filled
      have hclear := hq.clear d
      refine .inr (quiet_of_holdsNone ⟨?_, hclear.cop, hclear.aop⟩)
      intro d'
      obtain rfl | rfl := dir_eq d d'
      · dsimp only
        rw [oper_setOper]
        exact RwOperation.empty_clear
      · dsimp only
        rw [oper_setOper_other]
        rcases hq.oper d.other with hd | ⟨n, e, hd⟩
        · exact hd
        · rw [hc] at hd
          cases d <;> cases hd

theorem Settled.close (h : w.Settled) : ({ w with core := w.core.close } : OpWorld η).Settled := by
  unfold Core.close
  split
  · split
    · rename_i hb
      rcases h with hl | hq
      · rw [hl.block] at hb
        cases hb
      · exact .inr (hq.congr (fun d => by cases d <;> rfl) rfl rfl rfl)
    · rcases h with hl | hq
      · exact .inl (hl.congr rfl rfl)
      · exact .inr (hq.congr (fun d => by cases d <;> rfl) rfl rfl rfl)
  · exact h

theorem Settled.step (h : w.Settled) {a : OpAction η} (ha : w.QuietClose a)
    (hs : w.step a = some w') : w'.Settled := by
  cases a with
  | async d data size hander env => exact h.async hs
  | lock d ctl => exact h.lock hs
  | finish ret so => exact h.finish hs
  | asyncConnect valid connect handler env =>
    obtain rfl := Option.some.inj hs
    rcases asyncConnect_live (c := w.core) valid connect handler env with heq | hlive
    · rw [heq]
      exact h
    · exact .inl hlive
  | asyncAccept cli handler env =>
    obtain rfl := Option.some.inj hs
    rcases asyncAccept_live (c := w.core) cli handler env with heq | hlive
    · rw [heq]
      exact h
    · exact .inl hlive
  | connectComplete =>
    obtain ⟨-, hs⟩ := Option.ite_none_right_eq_some.mp hs
    cases hs
    rcases h with hl | hq
    · exact .inl (hl.congr rfl rfl)
    · exact .inr ⟨hq.oper, ConnectOperation.empty_clear, hq.aop⟩
  | acceptComplete =>
    obtain ⟨-, hs⟩ := Option.ite_none_right_eq_some.mp hs
    cases hs
    rcases h with hl | hq
    · exact .inl (hl.congr rfl rfl)
    · exact .inr ⟨hq.oper, hq.cop, AcceptOperation.empty_clear⟩
  | openFd fd =>
    obtain rfl := Option.some.inj hs
    unfold Core.openFd
    split
    · rename_i hfd
      rcases h with hl | hq
      · exact absurd hfd hl.fd
      · exact .inr (hq.congr (fun d => by cases d <;> rfl) rfl rfl rfl)
    · exact h
  | close =>
    obtain rfl := Option.some.inj hs
    exact h.close
  | doClose =>
    obtain rfl := Option.some.inj hs
    have hq : w.Quiet := ha
    exact .inr (hq.congr (fun d => by cases d <;> rfl) rfl rfl rfl)

theorem settled_start : (start : OpWorld η).Settled := by
  refine .inr (quiet_of_holdsNone ⟨?_, ConnectOperation.empty_clear, AcceptOperation.empty_clear⟩)
  intro d
  cases d <;> exact RwOperation.empty_clear

theorem Settled.released (h : w.Settled) : w.Released := by
  intro hfd hw
  rcases h with hl | hq
  · exact absurd hfd hl.fd
  · exact hq.holdsNone hw

/-- `_DoClose` while no `Complete` is executing. -/
theorem released_doClose_iff (hw : w.completing = none)
    (hs : w.step .doClose = some w') : w'.Released ↔ w.Quiet := by
  obtain rfl := Option.some.inj hs
  refine ⟨?_, ?_⟩
  · intro h
    have hnone := quiet_of_holdsNone (h rfl hw)
    exact hnone.congr (fun d => by cases d <;> rfl) rfl rfl rfl
  · intro hq _ _
    have hnone := hq.holdsNone hw
    refine ⟨?_, hnone.cop, hnone.aop⟩
    intro d
    cases d
    · exact hnone.oper .read
    · exact hnone.oper .write

/-- **Closed sockets hold no operations** in every run where `_DoClose` finds no pending operation
but one that is being completed; a `_DoClose` that finds another one leaves it in its slot. -/
theorem closed_holds_none (h : Reach step QuietClose (start : OpWorld η) w) :
    w.Released ∧ ∀ w', w.completing = none → w.step .doClose = some w' → (w'.Released ↔ w.Quiet) := by
  have hsettled : w.Settled := h.inv settled_start fun _ _ _ hi ha hs => hi.step ha hs
  exact ⟨hsettled.released, fun w' hw hs => released_doClose_iff hw hs⟩

/-- A read completes, then the socket is closed. -/
theorem closed_holds_none_idle : ∃ w : OpWorld ℕ, w.core._fd = none ∧ w.accepted .read ≠ [] ∧ w.Released := by
  have hread : Reach step QuietClose (start : OpWorld ℕ) _ :=
    Reach.of_foldlM (l := [.openFd 3, .async .read 100 10 7 fine, .lock .read none, .finish 10 none,
      .close]) (by simp [QuietClose]) rfl
  refine ⟨_, rfl, ?_, (closed_holds_none (hread.next (a := .doClose) ?_ rfl)).1⟩
  · exact List.cons_ne_nil _ _
  · refine quiet_of_holdsNone ⟨?_, ⟨rfl, rfl⟩, ⟨rfl, rfl, rfl⟩⟩
    intro d
    cases d <;> exact ⟨rfl, rfl⟩

/-- A read is pending when the socket is closed: the core keeps itself and the handler alive. -/
theorem not_closed_holds_none : ¬ ∀ w : OpWorld ℕ, Reach step always start w → w.Released := by
  intro h
  have hrun : Reach step always (start : OpWorld ℕ) _ :=
    Reach.of_foldlM (l := [.openFd 3, .async .read 100 10 7 fine, .close, .doClose])
      (fun _ _ _ => trivial) rfl
  have hread := ((h _ hrun rfl rfl).oper .read).impl
  cases hread

end OpWorld

end Netlib
