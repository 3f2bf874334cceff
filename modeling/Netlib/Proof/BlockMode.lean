import Netlib.Spec.BlockMode
import Netlib.Proof.Release

/-!
# The block bit tells the truth on a first descriptor

What an asynchronous call does to the bit and what it does to the mode are two functions
(`async_mode`, `asyncConnect_mode`, `asyncAccept_mode` for the bit); on a valid descriptor they
agree. A new descriptor and a `Connect` with a time-out agree with the bit exactly when it is
set before (`truth_step_iff`).
-/

namespace Netlib

open Lib

variable {η : Type*}

namespace Core

variable {c c' c'' : Core η}

/-- The descriptor and the block bit stay. -/
structure SameMode (c c' : Core η) : Prop where
  fd : c'._fd = c._fd
  block : c'._state.block = c._state.block

theorem SameMode.refl : SameMode c c := ⟨rfl, rfl⟩

theorem SameMode.trans (h : SameMode c c') (h' : SameMode c' c'') : SameMode c c'' :=
  ⟨h'.fd.trans h.fd, h'.block.trans h.block⟩

theorem sameMode_setOper (o : RwOperation η) (d : Dir) : SameMode c (c.setOper o d) := by
  cases d <;> exact ⟨rfl, rfl⟩

theorem sameMode_post (d : Dir) : SameMode c (c.post d) := by
  cases d <;> exact ⟨rfl, rfl⟩

theorem sameMode_unpost (d : Dir) : SameMode c (c.unpost d) := by
  cases d <;> exact ⟨rfl, rfl⟩

theorem sameMode_ctlEpoll (env : Env) (ctl : EpollCtl) (ev : EpollEvents) :
    SameMode c (c.ctlEpoll env ctl ev).2 := by
  obtain ⟨ep, ev', h⟩ := ctlEpoll_core c env ctl ev
  rw [h]
  exact ⟨rfl, rfl⟩

theorem sameMode_bindEpoll (env : Env) (ev : EpollEvents) : SameMode c (c.bindEpoll env ev).2 := by
  unfold bindEpoll
  split
  · exact .refl
  · have hbind : SameMode c (c.setBind true) := ⟨rfl, rfl⟩
    exact hbind.trans (sameMode_ctlEpoll env .add ev)

theorem sameMode_locked (ctl : Option ℕ) (d : Dir) : SameMode c (c.locked ctl d).2.2 := by
  cases d with
  | read =>
    unfold locked readLocked
    dsimp only
    split
    · exact .refl
    · have hset : SameMode c ((c.setFlag false .read).setType { c._type with read := false }) :=
        ⟨rfl, rfl⟩
      exact hset.trans (sameMode_ctlEpoll _ _ _)
  | write =>
    unfold locked writeLocked
    dsimp only
    split
    · exact ⟨rfl, rfl⟩
    · have hset : SameMode c ((c.setType { c._type with write := false }).setFlag false .write) :=
        ⟨rfl, rfl⟩
      exact hset.trans (sameMode_ctlEpoll _ _ _)

/-! ## The bit after an asynchronous call -/

/-- The descriptor stays, and the bit goes when the call passes its tests. -/
structure PostMode (c : Core η) (posts : Bool) (c' : Core η) : Prop where
  fd : c'._fd = c._fd
  block : c'._state.block = if posts then false else c._state.block

theorem postMode_refused {posts : Bool} (h : SameMode c c') (hp : posts = false) :
    PostMode c posts c' := by
  rw [hp]
  exact ⟨h.fd, h.block⟩

theorem postMode_passed {env : Env} {c₁ : Core η} {posts : Bool} (hp : posts = true)
    (hn : c.setNonblock env = .ok c₁) (h : SameMode c₁ c') : PostMode c posts c' := by
  obtain ⟨-, rfl⟩ := setNonblock_ok hn
  rw [hp]
  exact ⟨h.fd, h.block⟩

theorem setNonblock_some {env : Env} (henv : env.nonblock = none) :
    ∃ c₁, c.setNonblock env = .ok c₁ := by
  unfold setNonblock
  rw [henv]
  split
  · exact ⟨_, rfl⟩
  · exact ⟨_, rfl⟩

theorem asyncSome_mode (d : Dir) (posted : SockError) (data size : ℕ) (hander : η) {env : Env}
    (henv : env.nonblock = none) :
    PostMode c (decide (c._fd ≠ none ∧ c.flag d = false))
      (c.asyncSome d posted data size hander env).2 := by
  have hset := sameMode_setOper (c := c) ⟨data, size, true, some hander⟩ d
  have hflag : (c.setOper ⟨data, size, true, some hander⟩ d).flag d = c.flag d := flag_setOper _ d d
  unfold asyncSome
  generalize c.setOper ⟨data, size, true, some hander⟩ d = c₀ at hset hflag
  dsimp only
  rw [← hflag, ← hset.fd]
  by_cases hfd : c₀._fd = none
  · rw [if_pos hfd]
    exact postMode_refused (hset.trans (sameMode_setOper _ d)) (by simp [hfd])
  rw [if_neg hfd]
  cases hp : c₀.flag d with
  | true => exact postMode_refused (hset.trans (sameMode_setOper _ d)) (by simp)
  | false =>
    obtain ⟨c₁, hn⟩ := setNonblock_some (c := c₀) henv
    rw [if_neg Bool.false_ne_true, hn]
    have hdec : decide (c₀._fd ≠ none ∧ false = false) = true := by simp [hfd]
    suffices hpost : PostMode c₀ (decide (c₀._fd ≠ none ∧ false = false)) _ by
      refine ⟨hpost.fd.trans hset.fd, ?_⟩
      rw [← hset.block]
      exact hpost.block
    refine postMode_passed hdec hn ?_
    dsimp only
    generalize (if c₁._state.bind = true then EpollCtl.mod else .add) = ctl
    have hctl := (sameMode_post (c := c₁) d).trans
      (sameMode_ctlEpoll env ctl (.of d (c₁.flag d.other)))
    generalize (c₁.post d).ctlEpoll env ctl (.of d (c₁.flag d.other)) = r at hctl
    obtain ⟨error, c₂⟩ := r
    cases error with
    | some e => exact hctl.trans (sameMode_unpost d)
    | none => exact hctl

theorem async_mode (d : Dir) (data size : ℕ) (hander : η) {env : Env} (henv : env.nonblock = none) :
    PostMode c (decide (c._fd ≠ none ∧ c.flag d = false)) (c.async d data size hander env).2 := by
  cases d
  · exact asyncSome_mode .read .postedRead data size hander henv
  · exact asyncSome_mode .write .postedWrite data size hander henv

theorem asyncConnect_mode (valid : Bool) (connect : Option ℕ) (handler : η) {env : Env}
    (henv : env.nonblock = none) :
    PostMode c (decide (c._fd ≠ none ∧ c._state.connect = false ∧ valid = true))
      (c.asyncConnect valid connect handler env).2 := by
  unfold asyncConnect
  by_cases hfd : c._fd = none
  · rw [if_pos hfd]
    exact postMode_refused .refl (by simp [hfd])
  rw [if_neg hfd]
  cases hc : c._state.connect with
  | true => exact postMode_refused .refl (by simp)
  | false =>
    rw [if_neg Bool.false_ne_true]
    cases valid with
    | false => exact postMode_refused .refl (by simp)
    | true =>
      obtain ⟨c₁, hn⟩ := setNonblock_some (c := c) henv
      have hvalid : ¬ (!true) = true := by decide
      refine postMode_passed (by simp [hfd]) hn ?_
      rw [if_neg hvalid, hn]
      cases connect with
      | some e => exact .refl
      | none =>
        have hpost : SameMode c₁ { c₁ with
            _state := { c₁._state with connect := true }
            _type := { OpType.none with connect := true }
            _cop := ⟨true, some handler⟩ } := ⟨rfl, rfl⟩
        have hbind := hpost.trans (sameMode_bindEpoll env ⟨false, true, true⟩)
        dsimp only
        split
        · exact hbind
        · exact hbind.trans ⟨rfl, rfl⟩

theorem asyncAccept_mode (cli : ℕ) (handler : η) {env : Env} (henv : env.nonblock = none) :
    PostMode c (decide (c._fd ≠ none ∧ c._state.accept = false))
      (c.asyncAccept cli handler env).2 := by
  unfold asyncAccept
  by_cases hfd : c._fd = none
  · rw [if_pos hfd]
    exact postMode_refused .refl (by simp [hfd])
  rw [if_neg hfd]
  cases hc : c._state.accept with
  | true => exact postMode_refused .refl (by simp)
  | false =>
    obtain ⟨c₁, hn⟩ := setNonblock_some (c := c) henv
    refine postMode_passed (by simp [hfd]) hn ?_
    rw [if_neg Bool.false_ne_true, hn]
    have hpost : SameMode c₁ { c₁ with
        _state := { c₁._state with accept := true }
        _type := { OpType.none with accept := true }
        _aop := ⟨true, some cli, some handler⟩ } := ⟨rfl, rfl⟩
    have hbind := hpost.trans (sameMode_bindEpoll env ⟨true, false, false⟩)
    dsimp only
    split
    · exact hbind
    · exact hbind.trans ⟨rfl, rfl⟩

/-! ## `Connect` -/

/-- A blocking socket keeps its mode through `Connect`, or is closed. -/
theorem connect_block (hb : c._state.block = true) (timed : Bool) (res : ConnectResult) :
    (c.connect timed res)._fd = none ∨ (c.connect timed res)._state.block = true := by
  have hset : (c.setConnectFlag true)._state.block = true := hb
  unfold connect
  dsimp only
  split
  · unfold close
    rw [if_pos hset]
    split
    · exact .inl rfl
    · exact .inr hb
  · exact .inr hb

/-- A non-blocking one stays open, and keeps its bit. -/
theorem connect_nonblock (hfd : c._fd ≠ none) (hb : c._state.block = false) (timed : Bool)
    (res : ConnectResult) :
    (c.connect timed res)._fd ≠ none ∧ (c.connect timed res)._state.block = false := by
  have hset : ¬ (c.setConnectFlag true)._state.block = true := by
    rw [Bool.not_eq_true]
    exact hb
  unfold connect
  dsimp only
  split
  · unfold close
    rw [if_neg hset]
    split
    · exact ⟨hfd, hb⟩
    · exact ⟨hfd, hb⟩
  · exact ⟨hfd, hb⟩

end Core

namespace ModeWorld

open Netlib.Core

variable {w w' : ModeWorld η}

/-- An asynchronous call sets the bit and the mode together. -/
theorem truth_posted (h : w.Truth) {posts : Bool} (hp : PostMode w.op.core posts w'.op.core)
    (hm : w'.blocking = if posts ∧ w.op.core._state.block then false else w.blocking) :
    w'.Truth := by
  intro hfd
  rw [hp.fd] at hfd
  have htruth := h hfd
  rw [hm, hp.block]
  cases posts with
  | false => simpa using htruth
  | true =>
    cases hb : w.op.core._state.block with
    | true => simp
    | false =>
      rw [hb] at htruth
      simpa using htruth

/-- A step that changes neither the descriptor nor the bit. -/
theorem truth_same (h : w.Truth) (hs : SameMode w.op.core w'.op.core)
    (hm : w'.blocking = w.blocking) : w'.Truth := by
  intro hfd
  rw [hs.fd] at hfd
  rw [hs.block, hm]
  exact h hfd

theorem truth_closed (h : w.op.core._fd = none) : w.Truth := fun hfd => absurd h hfd

/-- A new descriptor. -/
theorem truth_fresh (hfd : w.op.core._fd ≠ none) (hm : w.blocking = true) :
    w.Truth ↔ w.op.core._state.block = true := by
  unfold Truth
  rw [hm]
  simp [hfd]

theorem step_op {a : OpAction η} (hs : w.step (.op a) = some w') :
    a.nonblock = none ∧ w.op.step a = some w'.op ∧ w'.blocking = w.opMode a := by
  unfold step at hs
  dsimp only at hs
  obtain ⟨henv, hs⟩ := Option.ite_none_right_eq_some.mp hs
  obtain ⟨op, hop, rfl⟩ := Option.map_eq_some_iff.mp hs
  exact ⟨henv, hop, rfl⟩

theorem truth_open_iff {fd : ℕ} (h : w.Truth) (hcore : w'.op.core = w.op.core.openFd fd)
    (hm : w'.blocking = w.opMode (.openFd fd)) : w'.Truth ↔ w.StepOk (.op (.openFd fd)) := by
  unfold Core.openFd at hcore
  unfold opMode at hm
  unfold StepOk
  by_cases hfd : w.op.core._fd = none
  · rw [if_pos hfd] at hcore hm
    have hfd' : w'.op.core._fd ≠ none := by
      rw [hcore]
      exact Option.some_ne_none fd
    rw [truth_fresh hfd' hm, hcore]
    exact ⟨fun hb _ => hb, fun hb => hb hfd⟩
  · rw [if_neg hfd] at hcore hm
    refine iff_of_true (truth_same h ?_ hm) fun hnone => absurd hnone hfd
    rw [hcore]
    exact .refl

/-- A close leaves no descriptor, or the bit as it was. -/
theorem truth_close (h : w.Truth) (hcore : w'.op.core = w.op.core.close)
    (hm : w'.blocking = w.blocking) : w'.Truth := by
  unfold Core.close at hcore
  split at hcore
  · split at hcore
    · refine truth_closed ?_
      rw [hcore]
      rfl
    · refine truth_same h ?_ hm
      rw [hcore]
      exact ⟨rfl, rfl⟩
  · refine truth_same h ?_ hm
    rw [hcore]
    exact .refl

/-- **An operation keeps the bit true**, but for an `Open` that finds the bit cleared. -/
theorem truth_op_iff {a : OpAction η} (h : w.Truth) (hs : w.step (.op a) = some w') :
    w'.Truth ↔ w.StepOk (.op a) := by
  obtain ⟨henv, hop, hm⟩ := step_op hs
  cases a with
  | async d data size hander env =>
    refine iff_of_true (truth_posted h ?_ hm) trivial
    have hcore := congrArg OpWorld.core (Option.some.inj hop)
    rw [← hcore]
    exact async_mode d data size hander henv
  | asyncConnect valid connect handler env =>
    refine iff_of_true (truth_posted h ?_ hm) trivial
    have hcore := congrArg OpWorld.core (Option.some.inj hop)
    rw [← hcore]
    exact asyncConnect_mode valid connect handler henv
  | asyncAccept cli handler env =>
    refine iff_of_true (truth_posted h ?_ hm) trivial
    have hcore := congrArg OpWorld.core (Option.some.inj hop)
    rw [← hcore]
    exact asyncAccept_mode cli handler henv
  | lock d ctl =>
    simp only [OpWorld.step] at hop
    obtain ⟨-, hop⟩ := Option.ite_none_right_eq_some.mp hop
    refine iff_of_true (truth_same h ?_ hm) trivial
    rw [← congrArg OpWorld.core (Option.some.inj hop)]
    exact sameMode_locked ctl d
  | finish ret so =>
    simp only [OpWorld.step] at hop
    split at hop
    · cases hop
    · rename_i d notify error hc
      refine iff_of_true (truth_same h ?_ hm) trivial
      rw [← congrArg OpWorld.core (Option.some.inj hop)]
      exact sameMode_setOper _ d
  | connectComplete =>
    obtain ⟨-, hop⟩ := Option.ite_none_right_eq_some.mp hop
    refine iff_of_true (truth_same h ?_ hm) trivial
    rw [← congrArg OpWorld.core (Option.some.inj hop)]
    exact ⟨rfl, rfl⟩
  | acceptComplete =>
    obtain ⟨-, hop⟩ := Option.ite_none_right_eq_some.mp hop
    refine iff_of_true (truth_same h ?_ hm) trivial
    rw [← congrArg OpWorld.core (Option.some.inj hop)]
    exact ⟨rfl, rfl⟩
  | openFd fd => exact truth_open_iff h (congrArg OpWorld.core (Option.some.inj hop)).symm hm
  | close =>
    exact iff_of_true (truth_close h (congrArg OpWorld.core (Option.some.inj hop)).symm hm) trivial
  | doClose =>
    refine iff_of_true (truth_closed ?_) trivial
    rw [← congrArg OpWorld.core (Option.some.inj hop)]
    rfl

/-- **`Connect`** sets the mode and not the bit: with a time-out the bit must have been set, and
without one it has been tested. -/
theorem truth_connect_iff {valid timed : Bool} {res : ConnectResult} (h : w.Truth)
    (hs : w.step (.connect valid timed res) = some w') :
    w'.Truth ↔ w.StepOk (.connect valid timed res) := by
  unfold step at hs
  dsimp only at hs
  by_cases href : w.op.core.connectRefusal valid timed = none
  · rw [if_pos href] at hs
    obtain rfl := Option.some.inj hs
    have hfd : w.op.core._fd ≠ none := by
      intro hnone
      unfold connectRefusal at href
      rw [if_pos hnone] at href
      cases href
    cases hb : w.op.core._state.block with
    | true =>
      have hok : w.StepOk (.connect valid timed res) := by
        cases timed with
        | true => exact fun _ => hb
        | false => trivial
      refine iff_of_true ?_ hok
      rcases connect_block hb timed res with hclosed | hblock
      · exact truth_closed hclosed
      · intro hopen
        have hopen' : (w.op.core.connect timed res)._fd ≠ none := hopen
        have hmode : (w.connect timed res).blocking = true := if_neg hopen'
        exact iff_of_true hblock hmode
    | false =>
      obtain ⟨hopen, hblock⟩ := connect_nonblock hfd hb timed res
      have hmode : (w.connect timed res).blocking = true := if_neg hopen
      have hno : ¬ (w.connect timed res).Truth := by
        rw [truth_fresh hopen hmode]
        change ¬ (w.op.core.connect timed res)._state.block = true
        rw [hblock]
        exact Bool.false_ne_true
      refine iff_of_false hno ?_
      cases timed with
      | true =>
        intro hok
        rw [hok href] at hb
        cases hb
      | false =>
        -- the test of `Connect` without a time-out
        unfold connectRefusal at href
        rw [if_neg hfd, hb] at href
        split at href
        · cases href
        split at href
        · cases href
        rw [if_pos ⟨rfl, rfl⟩] at href
        cases href
  · rw [if_neg href] at hs
    obtain rfl := Option.some.inj hs
    refine iff_of_true h ?_
    cases timed with
    | true => exact fun hnone => absurd hnone href
    | false => trivial

/-- **Exactly the steps that meet the condition keep the bit true.** -/
theorem truth_step_iff {a : ModeAction η} (h : w.Truth) (hs : w.step a = some w') :
    w'.Truth ↔ w.StepOk a := by
  cases a with
  | op a => exact truth_op_iff h hs
  | connect valid timed res => exact truth_connect_iff h hs
  | accept =>
    obtain rfl := Option.some.inj hs
    exact iff_of_true h trivial
  | accepted fd =>
    obtain rfl := Option.some.inj hs
    cases fd with
    | none => exact iff_of_true (truth_closed rfl) trivial
    | some fd => exact truth_fresh (Option.some_ne_none fd) rfl

/-! ## Pending operations -/

end ModeWorld

namespace Core

variable {c c' : Core η}

theorem HoldsNone.congr (h : c.HoldsNone) (ho : ∀ d, c'.oper d = c.oper d)
    (hc : c'._cop = c._cop) (ha : c'._aop = c._aop) : c'.HoldsNone := by
  refine ⟨?_, ?_, ?_⟩
  · intro d
    rw [ho]
    exact h.oper d
  · rw [hc]
    exact h.cop
  · rw [ha]
    exact h.aop

theorem HoldsNone.clear (h : c.HoldsNone) (d : Dir) : (c.setOper .clear d).HoldsNone := by
  refine ⟨?_, ?_, ?_⟩
  · intro d'
    obtain rfl | rfl := dir_eq d d'
    · rw [oper_setOper]
      exact RwOperation.empty_clear
    · rw [oper_setOper_other]
      exact h.oper _
  · cases d <;> exact h.cop
  · cases d <;> exact h.aop

/-- No slot of a blocking socket is filled. -/
def Calm (c : Core η) : Prop := c._state.block = true → c.HoldsNone

theorem Live.calm (h : c.Live) : c.Calm := by
  intro hb
  rw [h.block] at hb
  cases hb

theorem Calm.same (h : c.Calm) (hb : c'._state.block = c._state.block)
    (ho : ∀ d, c'.oper d = c.oper d) (hc : c'._cop = c._cop) (ha : c'._aop = c._aop) : c'.Calm := by
  intro hblock
  rw [hb] at hblock
  exact (h hblock).congr ho hc ha

theorem Calm.clear (h : c.Calm) (d : Dir) : (c.setOper .clear d).Calm := by
  intro hb
  rw [(sameMode_setOper (c := c) .clear d).block] at hb
  exact (h hb).clear d

theorem calm_invalidate : c.invalidate.Calm := by
  intro hb
  cases hb

theorem Calm.setConnectFlag (h : c.Calm) (b : Bool) : (c.setConnectFlag b).Calm :=
  h.same rfl (fun d => by cases d <;> rfl) rfl rfl

theorem Calm.close (h : c.Calm) : c.close.Calm := by
  unfold Core.close
  split
  · split
    · exact calm_invalidate
    · exact h.same rfl (fun d => by cases d <;> rfl) rfl rfl
  · exact h

theorem Calm.connect (h : c.Calm) (timed : Bool) (res : ConnectResult) :
    (c.connect timed res).Calm := by
  unfold Core.connect
  dsimp only
  split
  · exact (h.setConnectFlag true).close.setConnectFlag false
  · exact (h.setConnectFlag true).setConnectFlag false

/-- **A step of the operations** fills a slot only on a live socket. -/
theorem Calm.op {w w' : OpWorld η} {a : OpAction η} (h : w.core.Calm) (hs : w.step a = some w') :
    w'.core.Calm := by
  cases a with
  | async d data size hander env =>
    have hout := async_live (c := w.core) d data size hander env
    simp only [OpWorld.step] at hs
    generalize w.core.async d data size hander env = r at hs hout
    obtain ⟨error, c⟩ := r
    obtain rfl := Option.some.inj hs
    rcases hout with rfl | hlive
    · exact h.clear d
    · exact hlive.calm
  | asyncConnect valid connect handler env =>
    obtain rfl := Option.some.inj hs
    rcases asyncConnect_live (c := w.core) valid connect handler env with heq | hlive
    · rw [heq]
      exact h
    · exact hlive.calm
  | asyncAccept cli handler env =>
    obtain rfl := Option.some.inj hs
    rcases asyncAccept_live (c := w.core) cli handler env with heq | hlive
    · rw [heq]
      exact h
    · exact hlive.calm
  | lock d ctl =>
    simp only [OpWorld.step] at hs
    obtain ⟨hen, hs⟩ := Option.ite_none_right_eq_some.mp hs
    cases hs
    intro hb
    -- the slot that is to be completed is filled
    have hblock := (sameMode_locked (c := w.core) ctl d).block.symm.trans hb
    have himpl := ((h hblock).oper d).impl
    rw [hen.2.2.2.2] at himpl
    cases himpl
  | finish ret so =>
    simp only [OpWorld.step] at hs
    split at hs
    · cases hs
    · rename_i d notify error hc
      obtain rfl := Option.some.inj hs
      exact h.clear d
  | connectComplete =>
    obtain ⟨-, hs⟩ := Option.ite_none_right_eq_some.mp hs
    cases hs
    intro hb
    exact ⟨(h hb).oper, ConnectOperation.empty_clear, (h hb).aop⟩
  | acceptComplete =>
    obtain ⟨-, hs⟩ := Option.ite_none_right_eq_some.mp hs
    cases hs
    intro hb
    exact ⟨(h hb).oper, (h hb).cop, AcceptOperation.empty_clear⟩
  | openFd fd =>
    obtain rfl := Option.some.inj hs
    unfold Core.openFd
    split
    · exact h.same rfl (fun d => by cases d <;> rfl) rfl rfl
    · exact h
  | close =>
    obtain rfl := Option.some.inj hs
    exact h.close
  | doClose =>
    obtain rfl := Option.some.inj hs
    exact calm_invalidate

end Core

namespace ModeWorld

open Netlib.Core

variable {w w' : ModeWorld η}

theorem calm_step {a : ModeAction η} (h : w.op.core.Calm) (hs : w.step a = some w') :
    w'.op.core.Calm := by
  cases a with
  | op a => exact h.op (step_op hs).2.1
  | connect valid timed res =>
    unfold step at hs
    dsimp only at hs
    split at hs
    · obtain rfl := Option.some.inj hs
      exact h.connect timed res
    · obtain rfl := Option.some.inj hs
      exact h
  | accept =>
    obtain rfl := Option.some.inj hs
    exact h
  | accepted fd =>
    obtain rfl := Option.some.inj hs
    exact h.same rfl (fun d => by cases d <;> rfl) rfl rfl

/-! ## Runs -/

theorem Truth.nonblock (h : w.Truth) (hfd : w.op.core._fd ≠ none)
    (hb : w.op.core._state.block = false) : w.blocking = false := by
  have htruth := h hfd
  rw [hb] at htruth
  rw [← Bool.not_eq_true]
  exact fun hm => Bool.false_ne_true (htruth.mpr hm)

/-- **What the bit is used for.** -/
theorem Truth.honest (h : w.Truth) (hc : w.op.core.Calm) : w.Honest := by
  refine ⟨h, ?_, ?_, ?_⟩
  · intro posted href
    unfold syncRefusal at href
    split at href
    · cases href
    rename_i hfd
    split at href
    · cases href
    split at href
    · rename_i hb
      exact h.nonblock hfd hb
    · cases href
  · intro valid timed href
    unfold connectRefusal at href
    split at href
    · cases href
    rename_i hfd
    split at href
    · cases href
    split at href
    · cases href
    split at href
    · rename_i hb
      exact h.nonblock hfd hb.2
    · cases href
  · intro hfd hfilled
    refine h.nonblock hfd ?_
    rw [← Bool.not_eq_true]
    exact fun hb => hfilled (hc hb)

/-- **The block bit tells the truth** in every run whose steps meet the condition, and a step from
such a state keeps it true exactly when it meets the condition. -/
theorem block_bit_honest (h : Reach step StepOk (start : ModeWorld η) w) :
    w.Honest ∧ ∀ a w', w.step a = some w' → (w'.Truth ↔ w.StepOk a) := by
  have hinv : w.Truth ∧ w.op.core.Calm := by
    refine h.inv (I := fun w => w.Truth ∧ w.op.core.Calm) ⟨truth_closed rfl, ?_⟩ ?_
    · intro _
      refine ⟨?_, ConnectOperation.empty_clear, AcceptOperation.empty_clear⟩
      intro d
      cases d <;> exact RwOperation.empty_clear
    · intro w a w' hi hok hs
      exact ⟨(truth_step_iff hi.1 hs).mpr hok, calm_step hi.2 hs⟩
  exact ⟨hinv.1.honest hinv.2, fun a w' hs => truth_step_iff hinv.1 hs⟩

/-- A connect with a time-out on a fresh socket, then a read. -/
theorem block_bit_honest_read : ∃ w : ModeWorld ℕ,
    [.op (.openFd 3), .connect true true (.selected true),
      .op (.async .read 100 10 7 OpWorld.fine)].foldlM step start = some w ∧ w.Honest := by
  have hopen : StepOk (start : ModeWorld ℕ) (.op (.openFd 3)) := fun _ => rfl
  have hrun : Reach step StepOk (start : ModeWorld ℕ) _ := .next
    (.next (.single hopen rfl) (a := .connect true true (.selected true)) (fun _ => rfl) rfl)
    (a := .op (.async .read 100 10 7 OpWorld.fine)) trivial rfl
  exact ⟨_, rfl, (block_bit_honest hrun).1⟩

/-- After a `Close` the bit is clear: a re-opened descriptor is blocking, and every synchronous
call on it is refused. -/
theorem not_block_bit_honest : ¬ ∀ w : ModeWorld ℕ, Reach step always start w → w.Truth := by
  intro h
  have hrun : Reach step always (start : ModeWorld ℕ) _ := Reach.of_foldlM
    (l := [.op (.openFd 3), .op .close, .op (.openFd 4)]) (fun _ _ _ => trivial) rfl
  have htruth := (h _ hrun (Option.some_ne_none _)).mpr rfl
  cases htruth

end ModeWorld

end Netlib
