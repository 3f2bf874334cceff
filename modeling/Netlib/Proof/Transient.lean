import Netlib.Proof.Interest
import Netlib.Proof.Callbacks
import Netlib.Spec.Transient

/-!
# Transient conditions

Along a run every handler is told what happened, and the socket leaves `E_STATE_START` only
for a cause, exactly when each failed `recv` or `send` finds an error pending
(`leaves_for_cause_iff`). A `recv` that would block finds none, and closes the socket. No
operation is posted twice (`CbWorld.Turns`), so that a refused post has a real error.
-/

namespace Netlib

open Lib

namespace Core

variable {η : Type*} {c c' : Core η} {d : Dir}

/-! ## The flags of the operations -/

theorem asyncSome_flag (posted : SockError) (data size : ℕ) (hander : η) (env : Env) (d' : Dir) :
    (c.asyncSome d posted data size hander env).2.flag d' = c.flag d' ∨
      (c.asyncSome d posted data size hander env).1 = none ∧ d' = d := by
  have hout := asyncSome_outcome c d posted data size hander env
  have hposted : (c.asyncSome d posted data size hander env).1 = none →
      Posted c d (c.asyncSome d posted data size hander env).2 := asyncSome_posted
  generalize c.asyncSome d posted data size hander env = r at hout hposted
  cases hout with
  | refused e hno => exact .inl (flag_setOper _ d d')
  | failed e c' hf hop hoth hcop haop hflag => exact .inl (hflag d')
  | posted c' hop hoth =>
    have hflag := (hposted rfl).flag d'
    by_cases hd : d' = d
    · exact .inr ⟨rfl, hd⟩
    · rw [if_neg hd] at hflag
      exact .inl hflag

theorem setNonblock_real {env : Env} {e : SockError} (h : c.setNonblock env = .error e) : e.Real := by
  unfold setNonblock at h
  split at h
  · split at h
    · obtain rfl := Except.error.inj h
      trivial
    · cases h
  · cases h

theorem ctlEpoll_real {env : Env} {ctl : EpollCtl} {ev : EpollEvents} {e : SockError}
    (h : (c.ctlEpoll env ctl ev).1 = some e) : e.Real := by
  unfold ctlEpoll at h
  generalize (if ctl = .add ∧ c._epoll = none then env.service else c._epoll) = epoll at h
  dsimp only at h
  split at h
  · obtain rfl := Option.some.inj h
    trivial
  · split at h
    · obtain rfl := Option.some.inj h
      trivial
    · cases h

/-- A call that finds its operation free is refused by the system only. -/
theorem asyncSome_real {posted e : SockError} {data size : ℕ} {hander : η} {env : Env}
    (hflag : c.flag d = false) (h : (c.asyncSome d posted data size hander env).1 = some e) :
    e.Real := by
  unfold asyncSome at h
  have hflag₀ := flag_setOper (c := c) ⟨data, size, true, some hander⟩ d d
  generalize c.setOper ⟨data, size, true, some hander⟩ d = c₀ at h hflag₀
  dsimp only at h
  split at h
  · obtain rfl := Option.some.inj h
    trivial
  rw [if_neg (by rw [hflag₀, hflag]; decide)] at h
  cases hn : c₀.setNonblock env with
  | error e' =>
    rw [hn] at h
    obtain rfl := Option.some.inj h
    exact setNonblock_real hn
  | ok c₁ =>
    rw [hn] at h
    dsimp only at h
    generalize (if c₁._state.bind = true then EpollCtl.mod else .add) = ctl at h
    cases hr : (c₁.post d).ctlEpoll env ctl (.of d (c₁.flag d.other)) with
    | mk error c₂ =>
      rw [hr] at h
      cases error with
      | none => cases h
      | some e' =>
        obtain rfl := Option.some.inj h
        exact ctlEpoll_real (congrArg Prod.fst hr)

theorem ctlEpoll_flag (env : Env) (ctl : EpollCtl) (ev : EpollEvents) (d : Dir) :
    (c.ctlEpoll env ctl ev).2.flag d = c.flag d := by
  obtain ⟨ep, ev', h⟩ := ctlEpoll_core c env ctl ev
  rw [h]
  cases d <;> rfl

/-- A completion that will call its handler has taken the flag of its operation. -/
theorem locked_flag (ctl : Option ℕ) (d d' : Dir) :
    (c.locked ctl d).2.2.flag d' = c.flag d' ∧ (c.locked ctl d).1 = false ∨
      (c.locked ctl d).2.2.flag d' = if d' = d then false else c.flag d' := by
  cases d with
  | read =>
    unfold locked readLocked
    dsimp only
    split
    · exact .inl ⟨rfl, rfl⟩
    · refine .inr ?_
      rw [ctlEpoll_flag]
      cases d' <;> rfl
  | write =>
    unfold locked writeLocked
    dsimp only
    split
    · exact .inl ⟨by cases d' <;> rfl, rfl⟩
    · refine .inr ?_
      rw [ctlEpoll_flag]
      cases d' <;> rfl

theorem bindEpoll_flag (env : Env) (ev : EpollEvents) (d : Dir) :
    (c.bindEpoll env ev).2.flag d = c.flag d := by
  unfold bindEpoll
  split
  · rfl
  · rw [ctlEpoll_flag]
    cases d <;> rfl

theorem asyncConnect_flag (valid : Bool) (connect : Option ℕ) (handler : η) (env : Env) (d : Dir) :
    (c.asyncConnect valid connect handler env).2.flag d = c.flag d := by
  unfold asyncConnect
  split_ifs
  · rfl
  · rfl
  · rfl
  · cases hn : c.setNonblock env with
    | error e => rfl
    | ok c₁ =>
      have h1 : c₁.flag d = c.flag d := by
        obtain ⟨-, rfl⟩ := setNonblock_ok hn
        cases d <;> rfl
      cases connect with
      | some e => exact h1
      | none =>
        dsimp only
        rw [← h1]
        split
        · exact (bindEpoll_flag env ⟨false, true, true⟩ d).trans (by cases d <;> rfl)
        · exact .trans (by cases d <;> rfl) ((bindEpoll_flag env ⟨false, true, true⟩ d).trans
            (by cases d <;> rfl))

theorem close_flag (h : c.close.flag d = true) : c.flag d = true := by
  unfold close at h
  split_ifs at h
  · cases d <;> cases h
  · cases d <;> exact h
  · exact h

theorem invalidate_flag (d : Dir) : c.invalidate.flag d = false := by cases d <;> rfl

theorem openFd_flag (fd : ℕ) (d : Dir) : (c.openFd fd).flag d = c.flag d := by
  unfold openFd
  split_ifs <;> cases d <;> rfl

end Core

namespace CbWorld

variable {w w' : CbWorld}

/-- A step of a socket is one of its callbacks' model, or a connector begins to connect again. -/
theorem socketStep_cases {a : CbAction} (hs : w.socketStep a = some w') :
    (w.connector = true ∧ ∃ fd, a = .openFd fd ∧ w' = { w with core := w.core.openFd fd }) ∨
    (w.connector = true ∧ ∃ valid connect env, a = .asyncConnect valid connect env ∧
      w' = { w with
        core := (w.core.asyncConnect valid connect () env).2
        starter := if (w.core.asyncConnect valid connect () env).1 = none ∧
          w.starter.running = false then .waiting else w.starter }) ∨
    w.step a = some w' := by
  unfold socketStep at hs
  split at hs
  · rename_i hcon
    cases a with
    | openFd fd => exact .inl ⟨hcon, fd, rfl, (Option.some.inj hs).symm⟩
    | asyncConnect valid connect env =>
      exact .inr (.inl ⟨hcon, valid, connect, env, rfl, (Option.some.inj hs).symm⟩)
    | accept fd => exact .inr (.inr hs)
    | connectComplete so => exact .inr (.inr hs)
    | connectHandler endpoints => exact .inr (.inr hs)
    | onConnected => exact .inr (.inr hs)
    | afterConnected env => exact .inr (.inr hs)
    | lock d ctl => exact .inr (.inr hs)
    | finish ret so data len env => exact .inr (.inr hs)
    | onReceiveData => exact .inr (.inr hs)
    | afterReceive cut env => exact .inr (.inr hs)
    | send data len env => exact .inr (.inr hs)
    | close => exact .inr (.inr hs)
    | enqueue => exact .inr (.inr hs)
    | doClose => exact .inr (.inr hs)
    | closeHandler => exact .inr (.inr hs)
    | createIo i => exact .inr (.inr hs)
  · exact .inr (.inr hs)

/-! ## Operations take turns with their handlers -/

/-- **No operation is posted twice.** A write that is posted, or whose handler will run, is
`writing`; the flag of an operation is free while its handler runs. A connector is started on
the thread of the service, and an accepted socket reads nothing before `Init` has ended. -/
structure Turns (w : CbWorld) : Prop where
  flag : w.core.flag .write = true → w.writing = true
  posted : w.core._wop._impl = true → w.writing = true
  writes : ∀ n e, w.thread = .completing .write n e → w.writing = true
  completing : ∀ d e, w.thread = .completing d true e → w.core.flag d = false
  receiving : w.thread = .receiving → w.core.flag .read = false
  starts : w.connector = true → w.starter.running = true → w.thread = .idle
  waits : w.connector = false → w.core._cop._impl = false
  unflagged : w.connector = false → w.starter ≠ .finished → w.core.flag .read = false
  unposted : w.connector = false → w.starter ≠ .finished → w.core._rop._impl = false
  unread : w.connector = false → w.starter ≠ .finished →
    w.thread ≠ .receiving ∧ ∀ n e, w.thread ≠ .completing .read n e

theorem start_turns (connector : Bool) (readbuf : ℕ) (implmap : List ℕ) :
    (start connector readbuf implmap).Turns where
  flag := nofun
  posted := nofun
  writes := nofun
  completing := nofun
  receiving := nofun
  starts _ _ := rfl
  waits _ := rfl
  unflagged _ _ := rfl
  unposted _ _ := rfl
  unread _ _ := ⟨nofun, nofun⟩

/-- A core that has lost some of its operations. -/
structure Less (c c' : Core Unit) : Prop where
  flag : ∀ d, c'.flag d = true → c.flag d = true
  oper : ∀ d, (c'.oper d)._impl = true → (c.oper d)._impl = true
  cop : c'._cop._impl = true → c._cop._impl = true

theorem Less.refl {c : Core Unit} : Less c c := ⟨fun _ => id, fun _ => id, id⟩

theorem less_close (c : Core Unit) : Less c c.close where
  flag _ := Core.close_flag
  oper d h := by rwa [Core.close_oper] at h
  cop h := by rwa [Core.close_cop] at h

theorem less_invalidate (c : Core Unit) : Less c c.invalidate where
  flag d h := by rw [Core.invalidate_flag] at h; cases h
  oper d h := by cases d <;> exact h
  cop := id

theorem less_clear (c : Core Unit) (d : Dir) : Less c (c.setOper .clear d) where
  flag d' h := by rwa [Core.flag_setOper] at h
  oper d' h := by
    rcases Core.dir_eq d d' with rfl | rfl
    · rw [Core.oper_setOper] at h
      cases h
    · rwa [Core.oper_setOper_other] at h
  cop h := by rwa [(Core.setOper_frame _ d).cop] at h

theorem not_of_imp {a b : Bool} (h : a = true → b = true) (hb : b = false) : a = false := by
  cases a
  · rfl
  · rw [h rfl] at hb
    cases hb

theorem asyncSendSome_eq (c : Core Unit) (data len : ℕ) (env : Env) :
    c.asyncSendSome data len () env = c.asyncSome .write .postedWrite data len () env := rfl

namespace Turns

/-- The flags and slots of the core may be cleared. -/
theorem less {c : Core Unit} (h : w.Turns) (hc : Less w.core c) :
    { w with core := c }.Turns where
  flag hf := h.flag (hc.flag _ hf)
  posted hp := h.posted (hc.oper .write hp)
  writes := h.writes
  completing d e hth := not_of_imp (hc.flag d) (h.completing d e hth)
  receiving hth := not_of_imp (hc.flag .read) (h.receiving hth)
  starts := h.starts
  waits hcon := not_of_imp hc.cop (h.waits hcon)
  unflagged hcon hst := not_of_imp (hc.flag .read) (h.unflagged hcon hst)
  unposted hcon hst := not_of_imp (hc.oper .read) (h.unposted hcon hst)
  unread := h.unread

theorem setFlag {f : Flag} (h : w.Turns) : { w with _flag := f }.Turns := { h with }

/-- The thread of the service is free for something else than a completion. -/
theorem setThread {t : Thread} (h : w.Turns) (hd : ∀ d n e, t ≠ .completing d n e)
    (hr : t = .receiving → w.core.flag .read = false ∧
      (w.connector = false → w.starter = .finished))
    (hs : t = .idle ∨ (w.connector = true → w.starter.running = false)) :
    { w with thread := t }.Turns where
  flag := h.flag
  posted := h.posted
  writes n e hth := absurd hth (hd _ _ _)
  completing d e hth := absurd hth (hd _ _ _)
  receiving hth := (hr hth).1
  starts hcon hrun := by
    rcases hs with hs | hs
    · exact hs
    · rw [hs hcon] at hrun
      cases hrun
  waits := h.waits
  unflagged := h.unflagged
  unposted := h.unposted
  unread hcon hst := ⟨fun hth => hst ((hr hth).2 hcon), fun n e => hd _ n e⟩

theorem socketClose (h : w.Turns) : w.socketClose.Turns := by
  unfold CbWorld.socketClose
  split
  · exact { h.less (less_close w.core) with }
  · exact h

theorem close (h : w.Turns) : w._close.Turns := by
  unfold _close
  split_ifs
  · exact h
  · exact h.setFlag
  · exact h.setFlag.socketClose

/-- A read is posted when none is. -/
theorem recv (env : Env) (h : w.Turns) (hth : w.thread = .idle ∨ w.connector = false ∧
    w.thread ≠ .receiving ∧ ∀ n e, w.thread ≠ .completing .read n e)
    (hst : w.connector = false → w.starter = .finished) :
    { w with core := (w.core.asyncRecvSome w.readbuf socketReadSize () env).2 }.Turns := by
  have hflag := Core.asyncSome_flag (c := w.core) (d := .read) .postedRead w.readbuf
    socketReadSize () env
  have hoth := Core.asyncSome_other (c := w.core) .read .postedRead w.readbuf socketReadSize () env
  have hframe := Core.asyncSome_frame (c := w.core) .read .postedRead w.readbuf socketReadSize () env
  have hwrite := (hflag .write).resolve_right (by rintro ⟨-, hd⟩; cases hd)
  have hnot : w.thread ≠ .receiving ∧ ∀ n e, w.thread ≠ .completing .read n e := by
    rcases hth with hth | ⟨-, hth⟩
    · rw [hth]
      exact ⟨nofun, nofun⟩
    · exact hth
  refine ⟨?_, ?_, h.writes, ?_, fun hf => absurd hf hnot.1, h.starts, ?_, ?_, ?_, ?_⟩
  · intro hf
    exact h.flag (hwrite ▸ hf)
  · intro hp
    exact h.posted ((congrArg RwOperation._impl hoth).symm.trans hp)
  · intro d e hc
    cases d with
    | read => exact absurd hc (hnot.2 _ _)
    | write => exact hwrite.trans (h.completing _ e hc)
  · intro hcon
    exact (congrArg ConnectOperation._impl hframe.cop).trans (h.waits hcon)
  · exact fun hcon hne => absurd (hst hcon) hne
  · exact fun hcon hne => absurd (hst hcon) hne
  · exact fun hcon hne => absurd (hst hcon) hne

theorem tryRecvData {env : Env} (h : w.Turns) (hth : w.thread = .idle ∨ w.connector = false ∧
    w.thread ≠ .receiving ∧ ∀ n e, w.thread ≠ .completing .read n e)
    (hst : w.connector = false → w.starter = .finished) : (w._tryRecvData env).Turns := by
  unfold _tryRecvData
  dsimp only
  have hr := h.recv env hth hst
  split_ifs
  · exact hr
  · exact hr.close

theorem sent (data len : ℕ) (env : Env) (h : w.Turns) (hwr : w.writing = false) :
    { w with
      core := (w.core.asyncSendSome data len () env).2
      writing := (w.core.asyncSendSome data len () env).1.isNone }.Turns := by
  have hflag := Core.asyncSome_flag (c := w.core) (d := .write) .postedWrite data len () env
  have hout := Core.asyncSome_outcome w.core .write .postedWrite data len () env
  have hoth := Core.asyncSome_other (c := w.core) .write .postedWrite data len () env
  have hframe := Core.asyncSome_frame (c := w.core) .write .postedWrite data len () env
  have hread := (hflag .read).resolve_right (by rintro ⟨-, hd⟩; cases hd)
  have hthread : ∀ n e, w.thread ≠ .completing .write n e := by
    intro n e hth
    rw [h.writes n e hth] at hwr
    cases hwr
  refine ⟨?_, ?_, fun n e hth => absurd hth (hthread n e), ?_, ?_, h.starts, ?_, ?_, ?_, h.unread⟩
  · intro hf
    rcases hflag .write with heq | ⟨hnone, -⟩
    · exact absurd (h.flag (heq ▸ hf)) (by rw [hwr]; decide)
    · rw [asyncSendSome_eq, hnone]
      rfl
  · intro hp
    dsimp only at hp ⊢
    rw [asyncSendSome_eq] at hp ⊢
    generalize w.core.asyncSome .write .postedWrite data len () env = r at hout hp
    cases hout with
    | refused e _ => cases hp
    | failed e c' _ hown =>
      have hown : c'._wop = .clear := hown
      rw [hown] at hp
      cases hp
    | posted c' _ _ => rfl
  · intro d e hth
    cases d with
    | write => exact absurd hth (hthread _ _)
    | read => exact hread.trans (h.completing _ e hth)
  · exact fun hth => hread.trans (h.receiving hth)
  · exact fun hcon => (congrArg ConnectOperation._impl hframe.cop).trans (h.waits hcon)
  · exact fun hcon hst => hread.trans (h.unflagged hcon hst)
  · exact fun hcon hst => (congrArg RwOperation._impl hoth).trans (h.unposted hcon hst)

theorem trySendData (data len : ℕ) (env : Env) (h : w.Turns) :
    (w._trySendData data len env).2.Turns := by
  unfold _trySendData
  dsimp only
  split_ifs with hwr hlen herr
  · exact h
  · exact h
  · have hs := h.sent data len env (Bool.eq_false_iff.mpr hwr)
    rw [herr] at hs
    exact hs
  · have hs := h.sent data len env (Bool.eq_false_iff.mpr hwr)
    rw [Option.isNone_eq_false_iff.mpr (Option.isSome_iff_ne_none.mpr herr),
      ← Bool.eq_false_iff.mpr hwr] at hs
    exact hs.close

theorem send {data len : ℕ} {env : Env} (h : w.Turns) : (w.send data len env).Turns := by
  unfold CbWorld.send
  split_ifs
  · exact h.trySendData data len env
  · exact h

/-- The write handler runs: the write that is completed was the only one. -/
theorem writeHandler {n : ℕ} {error : Option SockError} {data len : ℕ} {env : Env} (h : w.Turns)
    (hf : w.core.flag .write = false) (hp : w.core._wop._impl = false) (hth : w.thread = .idle) :
    (w._writeHandler n error data len env).Turns := by
  unfold _writeHandler
  dsimp only
  have h' : { w with writing := false }.Turns :=
    { h with
      flag := fun hfl => absurd hfl (by rw [hf]; decide)
      posted := fun hpo => absurd hpo (by rw [hp]; decide)
      writes := fun n e hc => by rw [hth] at hc; cases hc }
  have hs := h'.trySendData data len env
  split_ifs
  · exact h'.close
  · exact hs.close
  · exact hs

theorem readHandler {n : ℕ} {error : Option SockError} (h : w.Turns)
    (hf : w.core.flag .read = false)
    (hcon : w.connector = false → w.starter = .finished)
    (hrun : w.connector = true → w.starter.running = false) :
    (w._readHandler n error).Turns := by
  unfold _readHandler
  split_ifs
  · exact h.close
  · exact h.setThread nofun (fun _ => ⟨hf, hcon⟩) (.inr hrun)

theorem finish {d : Dir} {notify : Bool} {error : Option SockError} {ret : ℤ} {so : Option ℕ}
    {data len : ℕ} {env : Env} (h : w.Turns) (hth : w.thread = .completing d notify error) :
    (w.finish d notify error ret so data len env).Turns := by
  have hclear : ({ w with core := w.core.setOper .clear d, thread := .idle } : CbWorld).Turns :=
    (h.less (less_clear w.core d)).setThread nofun nofun (.inl rfl)
  unfold CbWorld.finish
  dsimp only
  split_ifs with hn
  · exact hclear
  · have hn : notify = true := by
      cases notify
      · exact absurd rfl hn
      · rfl
    subst hn
    have hflag : (w.core.setOper .clear d).flag d = false := by
      rw [Core.flag_setOper]
      exact h.completing d error hth
    cases d with
    | read =>
      refine hclear.readHandler hflag ?_ ?_
      · intro hcon
        by_contra hst
        exact (h.unread hcon hst).2 _ _ hth
      · intro hcon
        by_contra hrun
        have := h.starts hcon (Bool.not_eq_false _ ▸ hrun)
        rw [hth] at this
        cases this
    | write => exact hclear.writeHandler hflag rfl rfl

theorem afterReceive {cut : Bool} {env : Env} (h : w.Turns) (hth : w.thread = .receiving) :
    ((w.setThread .idle).afterReceive cut env).Turns := by
  have hidle : (w.setThread .idle).Turns := h.setThread nofun nofun (.inl rfl)
  unfold CbWorld.afterReceive
  split_ifs
  · refine hidle.tryRecvData (.inl rfl) fun hcon => ?_
    by_contra hst
    exact (h.unread hcon hst).1 hth
  · exact hidle.close

/-- Another stage of the start. -/
theorem setStarter {s : Starter} (h : w.Turns)
    (hs : w.connector = true → s.running = true → w.thread = .idle)
    (hu : w.connector = false → s ≠ .finished → w.starter ≠ .finished) :
    { w with starter := s }.Turns :=
  { h with
    starts := hs
    unflagged := fun hcon hst => h.unflagged hcon (hu hcon hst)
    unposted := fun hcon hst => h.unposted hcon (hu hcon hst)
    unread := fun hcon hst => h.unread hcon (hu hcon hst) }

/-- The next stage of a handler that runs. -/
theorem advance {s : Starter} (h : w.Turns) (hrun : w.starter.running = true) :
    { w with starter := s }.Turns := by
  refine h.setStarter (fun hcon _ => h.starts hcon hrun) fun _ _ hst => ?_
  rw [hst] at hrun
  cases hrun

theorem connectHandler {error : Option SockError} {endpoints : Bool} (h : w.Turns)
    (hst : w.starter = .entered error) : (w._connectHandler error endpoints).Turns := by
  have hrun : w.starter.running = true := by rw [hst]; rfl
  unfold _connectHandler
  split_ifs
  · exact { h.advance hrun with }
  · exact { h.advance hrun with }
  · exact h.advance hrun

theorem afterConnected {error : Option SockError} {env : Env} (h : w.Turns)
    (hst : w.starter = .called error) : (w.afterConnected error env).Turns := by
  have hrun : w.starter.running = true := by rw [hst]; rfl
  have hfin : { w with starter := .finished }.Turns := h.advance hrun
  unfold CbWorld.afterConnected
  dsimp only
  split_ifs with herr hcon
  · exact hfin
  · exact hfin.recv env (.inl (h.starts hcon hrun)) fun _ => rfl
  · have hcon : w.connector = false := Bool.eq_false_iff.mpr hcon
    have hne : w.starter ≠ .finished := by rw [hst]; nofun
    exact hfin.tryRecvData (.inr ⟨hcon, h.unread hcon hne⟩) fun _ => rfl

theorem lock {d : Dir} {ctl : Option ℕ} (h : w.Turns) (hfree : w.Free)
    (himpl : (w.core.oper d)._impl = true) :
    { w with
      core := (w.core.locked ctl d).2.2
      thread := .completing d (w.core.locked ctl d).1 (w.core.locked ctl d).2.1 }.Turns := by
  have hflag := Core.locked_flag (c := w.core) ctl d
  have hle : Less w.core (w.core.locked ctl d).2.2 := by
    refine ⟨fun d' hf => ?_, fun d' hp => ?_, fun hc => ?_⟩
    · rcases hflag d' with ⟨heq, -⟩ | heq
      · rwa [heq] at hf
      · rw [heq] at hf
        split_ifs at hf
        exact hf
    · rwa [Core.locked_oper] at hp
    · rwa [(Core.locked_frame ctl d).cop] at hc
  have hless := h.less hle
  refine
    { hless with
      writes := fun n e hth => ?_
      completing := fun d' e hth => ?_
      receiving := nofun
      starts := fun hcon hrun => ?_
      unread := fun hcon hst => ⟨nofun, fun n e hth => ?_⟩ }
  · obtain ⟨rfl, -⟩ := Thread.completing.inj hth
    exact h.posted himpl
  · obtain ⟨rfl, hn, -⟩ := Thread.completing.inj hth
    rcases hflag d with ⟨-, hno⟩ | heq
    · rw [hno] at hn
      cases hn
    · rw [if_pos rfl] at heq
      exact heq
  · have hno := hfree.2 hcon
    rw [hrun] at hno
    cases hno
  · obtain ⟨rfl, -⟩ := Thread.completing.inj hth
    exact Bool.noConfusion (himpl.symm.trans (h.unposted hcon hst))

/-- A connect that waits runs no handler. -/
theorem waiting_running {P : Prop} [Decidable P] {s : Starter}
    (h : (if P then Starter.waiting else s).running = true) : s.running = true := by
  split_ifs at h
  · cases h
  · exact h

theorem connect {valid : Bool} {connect : Option ℕ} {env : Env} {s : Starter} (h : w.Turns)
    (hcon : w.connector = true) (hs : s.running = true → w.starter.running = true) :
    { w with core := (w.core.asyncConnect valid connect () env).2, starter := s }.Turns := by
  have hno : ∀ {P : Prop}, w.connector = false → P := fun hf => by rw [hcon] at hf; cases hf
  exact
    { flag := fun hf => h.flag ((Core.asyncConnect_flag valid connect () env .write).symm.trans hf)
      posted := fun hp => h.posted ((congrArg RwOperation._impl
        (Core.asyncConnect_oper w.core valid connect () env .write)).symm.trans hp)
      writes := h.writes
      completing := fun d e hth =>
        (Core.asyncConnect_flag valid connect () env d).trans (h.completing d e hth)
      receiving := fun hth =>
        (Core.asyncConnect_flag valid connect () env .read).trans (h.receiving hth)
      starts := fun _ hrun => h.starts hcon (hs hrun)
      waits := fun hf => hno hf
      unflagged := fun hf => hno hf
      unposted := fun hf => hno hf
      unread := fun hf => hno hf }

theorem openFd {fd : ℕ} (h : w.Turns) : { w with core := w.core.openFd fd }.Turns := by
  refine h.less ⟨fun d hf => ?_, fun d hp => ?_, fun hc => ?_⟩
  · rwa [Core.openFd_flag] at hf
  · rwa [Core.openFd_oper] at hp
  · rwa [Core.openFd_cop] at hc

theorem connectComplete {so : Option ℕ} (h : w.Turns) (hfree : w.Free)
    (himpl : w.core._cop._impl = true) :
    { w with
      core := w.core.connectComplete
      starter := if w.core._fd = none then .finished
        else .entered (Core.connectError so) }.Turns := by
  have hless : { w with core := w.core.connectComplete }.Turns :=
    h.less ⟨fun d hf => by cases d <;> exact hf, fun d hp => by cases d <;> exact hp, nofun⟩
  refine hless.setStarter (fun _ _ => hfree.1) fun hcon => ?_
  exact absurd (h.waits hcon) (by rw [himpl]; decide)

theorem step {a : CbAction} (h : w.Turns) (hs : w.step a = some w') : w'.Turns := by
  cases a with
  | openFd fd =>
    obtain ⟨-, hs⟩ := Option.ite_none_right_eq_some.mp hs
    cases hs
    exact h.openFd
  | asyncConnect valid connect env =>
    obtain ⟨hen, hs⟩ := Option.ite_none_right_eq_some.mp hs
    cases hs
    exact h.connect hen.1 fun hrun => hen.2 ▸ waiting_running hrun
  | accept fd =>
    obtain ⟨hen, hs⟩ := Option.ite_none_right_eq_some.mp hs
    cases hs
    have hcon : w.connector = false := by
      simpa using hen.1
    have hfd : { w with core := { w.core with _fd := some fd } }.Turns :=
      h.less ⟨fun d hf => by cases d <;> exact hf, fun d hp => by cases d <;> exact hp, id⟩
    refine hfd.setStarter (fun hc => ?_) fun _ _ hst => ?_
    · rw [hcon] at hc
      cases hc
    · rw [hen.2] at hst
      cases hst
  | connectComplete so =>
    obtain ⟨hen, hs⟩ := Option.ite_none_right_eq_some.mp hs
    cases hs
    exact h.connectComplete hen.1 hen.2.2
  | connectHandler endpoints =>
    unfold CbWorld.step at hs
    dsimp only at hs
    split at hs
    · rename_i error hst
      cases hs
      exact h.connectHandler hst
    · cases hs
  | onConnected =>
    obtain ⟨hst, hs⟩ := Option.ite_none_right_eq_some.mp hs
    cases hs
    exact { h.advance (by rw [hst]; rfl) with }
  | afterConnected env =>
    unfold CbWorld.step at hs
    dsimp only at hs
    split at hs
    · rename_i error hst
      cases hs
      exact h.afterConnected hst
    · cases hs
  | lock d ctl =>
    obtain ⟨hen, hs⟩ := Option.ite_none_right_eq_some.mp hs
    cases hs
    exact h.lock hen.1 hen.2.2.2.2
  | finish ret so data len env =>
    unfold CbWorld.step at hs
    dsimp only at hs
    split at hs
    · rename_i d n error hth
      cases hs
      exact h.finish hth
    · cases hs
  | onReceiveData =>
    obtain ⟨-, hs⟩ := Option.ite_none_right_eq_some.mp hs
    cases hs
    exact { h with }
  | afterReceive cut env =>
    obtain ⟨hth, hs⟩ := Option.ite_none_right_eq_some.mp hs
    cases hs
    exact h.afterReceive hth
  | send data len env =>
    obtain ⟨-, hs⟩ := Option.ite_none_right_eq_some.mp hs
    cases hs
    exact h.send
  | close =>
    obtain ⟨-, hs⟩ := Option.ite_none_right_eq_some.mp hs
    cases hs
    exact h.close
  | enqueue =>
    obtain ⟨-, hs⟩ := Option.ite_none_right_eq_some.mp hs
    cases hs
    exact { h with }
  | doClose =>
    obtain ⟨hen, hs⟩ := Option.ite_none_right_eq_some.mp hs
    cases hs
    have hinv := (h.less (less_invalidate w.core)).setThread (t := .closing) nofun nofun
      (.inr hen.1.2)
    exact { hinv with }
  | closeHandler =>
    obtain ⟨-, hs⟩ := Option.ite_none_right_eq_some.mp hs
    cases hs
    exact { h.setThread (t := .idle) nofun nofun (.inl rfl) with }
  | createIo i =>
    cases hs
    exact { h with }

theorem socketStep {a : CbAction} (h : w.Turns) (hs : w.socketStep a = some w') : w'.Turns := by
  rcases socketStep_cases hs with ⟨hcon, fd, -, rfl⟩ | ⟨hcon, valid, connect, env, -, rfl⟩ | hs
  · exact h.openFd
  · exact h.connect hcon waiting_running
  · exact h.step hs

end Turns

/-! ## Leaving `E_STATE_START` -/

/-- The read that cannot be posted. -/
theorem tryRecvData_leaves {env : Env} (hf : w.core.flag .read = false)
    (hne : (w._tryRecvData env)._flag ≠ w._flag) :
    ∃ e, (w.core.asyncRecvSome w.readbuf socketReadSize () env).1 = some e ∧ e.Real := by
  unfold _tryRecvData at hne
  dsimp only at hne
  split_ifs at hne with herr
  · exact absurd rfl hne
  · obtain ⟨e, he⟩ := Option.ne_none_iff_exists'.mp herr
    exact ⟨e, he, Core.asyncSome_real hf he⟩

/-- The write that cannot be posted. -/
theorem trySendData_leaves {data len : ℕ} {env : Env}
    (hf : w.writing = false → w.core.flag .write = false)
    (hne : (w._trySendData data len env).2._flag ≠ w._flag) :
    ∃ e, (w.core.asyncSendSome data len () env).1 = some e ∧ e.Real := by
  unfold _trySendData at hne
  dsimp only at hne
  split_ifs at hne with hwr hlen herr
  · exact absurd rfl hne
  · exact absurd rfl hne
  · exact absurd rfl hne
  · obtain ⟨e, he⟩ := Option.ne_none_iff_exists'.mp herr
    exact ⟨e, he, Core.asyncSome_real (hf (Bool.eq_false_iff.mpr hwr)) he⟩

theorem writeHandler_leaves {n : ℕ} {error : Option SockError} {data len : ℕ} {env : Env}
    (hf : w.core.flag .write = false) (hstart : w._flag = .start)
    (hne : (w._writeHandler n error data len env)._flag ≠ .start) :
    error ≠ none ∨ n = 0 ∨
      0 < n ∧ ∃ e, (w.core.asyncSendSome data len () env).1 = some e ∧ e.Real := by
  unfold _writeHandler at hne
  dsimp only at hne
  split_ifs at hne with hend hrest
  · exact hend.imp_right .inl
  · have hleft := hrest.2
    rw [not_or] at hend
    exact .inr (.inr ⟨Nat.pos_of_ne_zero hend.2, trySendData_leaves
      (w := { w with writing := false }) (fun _ => hf) fun heq => hleft (heq.trans hstart)⟩)
  · rw [not_or] at hend
    exact .inr (.inr ⟨Nat.pos_of_ne_zero hend.2, trySendData_leaves
      (w := { w with writing := false }) (fun _ => hf) fun heq => hne (heq.trans hstart)⟩)

theorem readHandler_leaves {n : ℕ} {error : Option SockError} (hstart : w._flag = .start)
    (hne : (w._readHandler n error)._flag ≠ .start) : error ≠ none ∨ n = 0 := by
  unfold _readHandler at hne
  split_ifs at hne with hend
  · rcases hend with herr | hzero | hstop
    · exact .inl herr
    · exact .inr hzero
    · exact absurd hstart hstop
  · exact absurd hstart hne

/-- No error is found: no completion has one, or none is pending. -/
theorem rwError_none_iff {d : Dir} {error : Option SockError} {ret : ℤ} {so : Option ℕ}
    (hret : ret ≤ 0) : Core.rwError d error ret so = none ↔ error = none ∧ so = some 0 := by
  constructor
  · intro h
    unfold Core.rwError at h
    rw [if_pos hret] at h
    split at h
    · rename_i e
      split_ifs at h with he
      exact ⟨rfl, congrArg some he⟩
    · cases h
  · rintro ⟨rfl, rfl⟩
    unfold Core.rwError
    rw [if_pos hret]
    rfl

/-- The error of a completion comes from `epoll_ctl`, or from the socket when `recv` or `send`
has no bytes. -/
theorem rwError_ne {d : Dir} {error : Option SockError} {ret : ℤ} {so : Option ℕ}
    (h : Core.rwError d error ret so ≠ none) : error ≠ none ∨ ret ≤ 0 ∧ so ≠ some 0 := by
  by_cases hret : ret ≤ 0
  · rw [Ne, rwError_none_iff hret, Classical.not_and_iff_not_or_not] at h
    exact h.imp_right fun hso => ⟨hret, hso⟩
  · unfold Core.rwError at h
    rw [if_neg hret] at h
    exact .inl h

/-- A completion that leaves `E_STATE_START`. -/
theorem finish_leaves {d : Dir} {notify : Bool} {error : Option SockError} {ret : ℤ}
    {so : Option ℕ} {data len : ℕ} {env : Env} (hth : w.thread = .completing d notify error)
    (ht : w.Turns) (hok : w.ErrorPending (.finish ret so data len env)) (hstart : w._flag = .start)
    (hne : (w.finish d notify error ret so data len env)._flag ≠ .start) :
    w.Cause (.finish ret so data len env) := by
  unfold CbWorld.finish at hne
  dsimp only at hne
  split_ifs at hne with hn
  · exact absurd hstart hne
  have hn : notify = true := by
    cases notify
    · exact absurd rfl hn
    · rfl
  subst hn
  -- no bytes: the condition gives the error, or the peer has shut down
  have hend : Core.rwError d error ret so ≠ none ∨ ret.toNat = 0 →
      w.Cause (.finish ret so data len env) := by
    intro hcase
    by_cases herr : error ≠ none ∨ ret ≤ 0 ∧ so ≠ some 0
    · exact .failed hth herr
    · rcases hcase with hcase | hcase
      · exact absurd (rwError_ne hcase) herr
      · have hret : ret ≤ 0 := by omega
        rw [not_or, not_not] at herr
        obtain ⟨rfl, hso⟩ := herr
        have hso : ¬ so ≠ some 0 := fun h => hso ⟨hret, h⟩
        have hno := mt (hok d hth) hso
        rw [not_or] at hno
        obtain rfl : ret = 0 := by omega
        cases d with
        | read => exact .shutdown hth
        | write => exact absurd ⟨rfl, rfl⟩ hno.2
  cases d with
  | read => exact hend (readHandler_leaves (by exact hstart) hne)
  | write =>
    have hflag : (w.core.setOper .clear .write).flag .write = false := by
      rw [Core.flag_setOper]
      exact ht.completing .write error hth
    dsimp only at hne
    rcases writeHandler_leaves (by exact hflag) (by exact hstart) hne with
      herr | hzero | ⟨hpos, e, he, hreal⟩
    · exact hend (.inl herr)
    · exact hend (.inr hzero)
    · refine .refused (e := e) ?_ hreal
      have hret : 0 < ret := by omega
      unfold refusal
      rw [hth]
      dsimp only
      rw [if_pos hret]
      exact he

/-- **What a step can do to `_flag`**: it leaves `E_STATE_START` for a cause. -/
theorem step_leaves {a : CbAction} (ht : w.Turns) (hok : w.ErrorPending a)
    (hs : w.step a = some w') (hstart : w._flag = .start) (hne : w'._flag ≠ .start) :
    w.Cause a := by
  cases a with
  | close => exact .close
  | finish ret so data len env =>
    unfold CbWorld.step at hs
    dsimp only at hs
    split at hs
    · rename_i d n error hth
      cases hs
      exact finish_leaves hth ht hok hstart hne
    · cases hs
  | afterReceive cut env =>
    obtain ⟨hth, hs⟩ := Option.ite_none_right_eq_some.mp hs
    cases hs
    cases cut with
    | false => exact .malformed
    | true =>
      obtain ⟨e, he, hreal⟩ := tryRecvData_leaves (w := w.setThread .idle) (ht.receiving hth)
        (fun heq => hne (heq.trans hstart))
      exact .refused he hreal
  | afterConnected env =>
    unfold CbWorld.step at hs
    dsimp only at hs
    split at hs
    · rename_i error hst
      cases hs
      unfold CbWorld.afterConnected at hne
      dsimp only at hne
      split_ifs at hne with herr hcon
      · exact absurd hstart hne
      · exact absurd hstart hne
      · have hflag := ht.unflagged (Bool.eq_false_iff.mpr hcon) (by rw [hst]; nofun)
        obtain ⟨e, he, hreal⟩ := tryRecvData_leaves (w := { w with starter := .finished }) hflag
          (fun heq => hne (heq.trans hstart))
        exact .refused he hreal
    · cases hs
  | send data len env =>
    obtain ⟨-, hs⟩ := Option.ite_none_right_eq_some.mp hs
    cases hs
    rw [CbWorld.send, if_pos hstart] at hne
    have hflag : w.writing = false → w.core.flag .write = false := not_of_imp ht.flag
    obtain ⟨e, he, hreal⟩ := trySendData_leaves hflag fun heq => hne (heq.trans hstart)
    exact .refused he hreal
  | connectHandler endpoints =>
    unfold CbWorld.step at hs
    dsimp only at hs
    split at hs
    · rename_i error hst
      cases hs
      unfold _connectHandler at hne
      split_ifs at hne
      · exact absurd hstart hne
      · exact absurd rfl hne
      · exact absurd hstart hne
    · cases hs
  | openFd fd =>
    obtain ⟨-, hs⟩ := Option.ite_none_right_eq_some.mp hs
    cases hs
    exact absurd hstart hne
  | asyncConnect valid connect env =>
    obtain ⟨-, hs⟩ := Option.ite_none_right_eq_some.mp hs
    cases hs
    exact absurd hstart hne
  | accept fd =>
    obtain ⟨-, hs⟩ := Option.ite_none_right_eq_some.mp hs
    cases hs
    exact absurd hstart hne
  | connectComplete so =>
    obtain ⟨-, hs⟩ := Option.ite_none_right_eq_some.mp hs
    cases hs
    exact absurd hstart hne
  | onConnected =>
    obtain ⟨-, hs⟩ := Option.ite_none_right_eq_some.mp hs
    cases hs
    exact absurd hstart hne
  | lock d ctl =>
    obtain ⟨-, hs⟩ := Option.ite_none_right_eq_some.mp hs
    cases hs
    exact absurd hstart hne
  | onReceiveData =>
    obtain ⟨-, hs⟩ := Option.ite_none_right_eq_some.mp hs
    cases hs
    exact absurd hstart hne
  | enqueue =>
    obtain ⟨-, hs⟩ := Option.ite_none_right_eq_some.mp hs
    cases hs
    exact absurd hstart hne
  | doClose =>
    obtain ⟨-, hs⟩ := Option.ite_none_right_eq_some.mp hs
    cases hs
    exact absurd hstart hne
  | closeHandler =>
    obtain ⟨-, hs⟩ := Option.ite_none_right_eq_some.mp hs
    cases hs
    exact absurd hstart hne
  | createIo i =>
    cases hs
    exact absurd hstart hne

/-! ## What a handler is told -/

/-- A handler is told what happened when a failure finds an error pending, and only then. -/
theorem told_iff (a : CbAction) : w.Told a ↔ w.ErrorPending a := by
  cases a with
  | finish ret so data len env =>
    constructor
    · intro h d hth hbad hso
      have hcall : w.call (.finish ret so data len env) =
          some (d, ret, ⟨ret.toNat, Core.rwError d none ret so⟩) := by
        unfold call
        rw [hth]
      have hret : ret ≤ 0 := by omega
      have hnone : Core.rwError d none ret so = none := (rwError_none_iff hret).mpr ⟨rfl, hso⟩
      obtain ⟨hzero, hneg⟩ := h _ _ _ hcall
      rcases hbad with hbad | ⟨rfl, rfl⟩
      · exact hneg hbad hnone
      · cases (hzero ⟨rfl, hnone⟩).1
    · intro h d ret' n hcall
      unfold call at hcall
      dsimp only at hcall
      split at hcall
      · rename_i d error hth
        obtain ⟨rfl, rfl, rfl⟩ : d = _ ∧ ret = _ ∧ _ = n := by
          simpa only [Option.some.injEq, Prod.mk.injEq] using hcall
        -- no error is found only where none is pending
        have hno : ret ≤ 0 → Core.rwError d error ret so = none → ¬ (ret < 0 ∨ ret = 0 ∧ d = .write) := by
          intro hret hnone hbad
          obtain ⟨rfl, hso⟩ := (rwError_none_iff hret).mp hnone
          exact h d hth hbad hso
        refine ⟨fun ⟨hzero, hnone⟩ => ?_, fun hneg hnone => ?_⟩
        · have hret : ret ≤ 0 := by
            dsimp only at hzero
            omega
          have hgood := hno hret hnone
          rw [not_or] at hgood
          have heq : ret = 0 := by omega
          cases d with
          | read => exact ⟨rfl, heq⟩
          | write => exact absurd ⟨heq, rfl⟩ hgood.2
        · exact hno (Int.le_of_lt hneg) hnone (.inl hneg)
      · cases hcall
  | _ => exact ⟨fun _ => trivial, fun _ _ _ _ hcall => nomatch hcall⟩

/-- **Transient conditions**: along every run each handler is told what happened and the socket
leaves `E_STATE_START` only for a cause, exactly when each failed `recv` or `send` finds an
error pending. -/
theorem leaves_for_cause_iff (connector : Bool) (readbuf : ℕ) (implmap : List ℕ)
    (as : List CbAction) :
    Every socketStep Steady (start connector readbuf implmap) as ↔
      Every socketStep (fun w a _ => w.ErrorPending a) (start connector readbuf implmap) as := by
  refine every_iff (I := Turns) (fun _ _ _ hi hs => hi.socketStep hs) ?_ as _ (start_turns _ _ _)
  intro w a w' hi hs
  refine ⟨fun h => (told_iff a).mp h.told, fun hok => ⟨(told_iff a).mpr hok, ?_⟩⟩
  intro hstart hne
  rcases socketStep_cases hs with ⟨-, fd, rfl, rfl⟩ | ⟨-, valid, connect, env, rfl, rfl⟩ | hs
  · exact absurd hstart hne
  · exact absurd hstart hne
  · exact step_leaves hi hok hs hstart hne

/-- A connector that reads. -/
def reads : List CbAction :=
  [.openFd 3, .asyncConnect true none ready, .connectComplete (some 0), .connectHandler true,
    .onConnected, .afterConnected ready, .lock .read none]

/-- `recv` that would block, with no error pending: the socket closes without a cause. -/
theorem not_leaves_for_cause : ¬ ∀ (connector : Bool) (readbuf : ℕ) (implmap : List ℕ)
    (as : List CbAction), Every socketStep Steady (start connector readbuf implmap) as := by
  intro h
  have hrun : ∃ w, reads.foldlM socketStep (start true 0 [1]) = some w ∧ w._flag = .start ∧
      w.thread = .completing .read true none ∧
      w.refusal (.finish (-1) (some 0) 0 0 ready) = none ∧
      ∃ w', w.socketStep (.finish (-1) (some 0) 0 0 ready) = some w' ∧ w'._flag = .close := by
    exact ⟨_, rfl, rfl, rfl, by decide, _, rfl, by decide⟩
  obtain ⟨w, hw, hstart, hth, hpost, w', hs, hclosed⟩ := hrun
  have hsteady := (h true 0 [1] (reads ++ [.finish (-1) (some 0) 0 0 ready])).last hw hs
  have hcause := hsteady.cause hstart (by rw [hclosed]; decide)
  cases hcause with
  | failed hc hno =>
    rw [hth] at hc
    obtain ⟨-, -, rfl⟩ := Thread.completing.inj hc
    rcases hno with hno | ⟨-, hno⟩
    · exact hno rfl
    · exact hno rfl
  | refused hr _ =>
    rw [hpost] at hr
    cases hr

end CbWorld

end Netlib
