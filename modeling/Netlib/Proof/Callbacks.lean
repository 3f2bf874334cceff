import Netlib.Proof.Slots
import Netlib.Spec.Callbacks

/-!
# The order of the callbacks

In a run where no `Close` makes a request before `OnConnected`, the callbacks come in the
promised order; a `Close` that does can be followed by `OnDisconnected` alone
(`callbacks_ordered`). A socket spends its one close request at most once, and only after
the handler that calls `OnConnected` has begun (`CbWorld.Inv`).
-/

namespace Netlib

open Lib

namespace Core

variable {η : Type*} {c c' c'' : Core η}

/-- The descriptor, the close bit, and the flag and the slot of the connect stay. -/
structure Frame (c c' : Core η) : Prop where
  fd : c'._fd = c._fd
  close : c'._state.close = c._state.close
  connect : c'._state.connect = c._state.connect
  cop : c'._cop = c._cop

theorem Frame.refl : Frame c c := ⟨rfl, rfl, rfl, rfl⟩

theorem Frame.trans (h : Frame c c') (h' : Frame c' c'') : Frame c c'' :=
  ⟨h'.fd.trans h.fd, h'.close.trans h.close, h'.connect.trans h.connect, h'.cop.trans h.cop⟩

theorem setOper_frame (o : RwOperation η) (d : Dir) : Frame c (c.setOper o d) := by
  cases d <;> exact ⟨rfl, rfl, rfl, rfl⟩

theorem post_frame (d : Dir) : Frame c (c.post d) := by
  cases d <;> exact ⟨rfl, rfl, rfl, rfl⟩

theorem unpost_frame (d : Dir) : Frame c (c.unpost d) := by
  cases d <;> exact ⟨rfl, rfl, rfl, rfl⟩

theorem setNonblock_frame {env : Env} (h : c.setNonblock env = .ok c') : Frame c c' := by
  obtain ⟨-, rfl⟩ := setNonblock_ok h
  exact ⟨rfl, rfl, rfl, rfl⟩

theorem ctlEpoll_frame (env : Env) (ctl : EpollCtl) (ev : EpollEvents) :
    Frame c (c.ctlEpoll env ctl ev).2 := by
  obtain ⟨ep, ev', h⟩ := ctlEpoll_core c env ctl ev
  rw [h]
  exact ⟨rfl, rfl, rfl, rfl⟩

theorem asyncSome_frame (d : Dir) (posted : SockError) (data size : ℕ) (hander : η) (env : Env) :
    Frame c (c.asyncSome d posted data size hander env).2 := by
  unfold asyncSome
  have h0 : Frame c (c.setOper ⟨data, size, true, some hander⟩ d) := setOper_frame _ d
  generalize c.setOper ⟨data, size, true, some hander⟩ d = c₀ at h0
  dsimp only
  split_ifs
  · exact h0.trans (setOper_frame _ d)
  · exact h0.trans (setOper_frame _ d)
  · cases hn : c₀.setNonblock env with
    | error e => exact h0.trans (setOper_frame _ d)
    | ok c₁ =>
      have h2 := (h0.trans (setNonblock_frame hn)).trans (post_frame d)
      dsimp only
      generalize (if c₁._state.bind = true then EpollCtl.mod else .add) = ctl
      have h3 := ctlEpoll_frame (c := c₁.post d) env ctl (.of d (c₁.flag d.other))
      generalize (c₁.post d).ctlEpoll env ctl (.of d (c₁.flag d.other)) = r at h3
      obtain ⟨error, c₂⟩ := r
      cases error with
      | some e => exact (h2.trans h3).trans (unpost_frame d)
      | none => exact h2.trans h3

theorem asyncSome_other (d : Dir) (posted : SockError) (data size : ℕ) (hander : η) (env : Env) :
    (c.asyncSome d posted data size hander env).2.oper d.other = c.oper d.other := by
  have hout := asyncSome_outcome c d posted data size hander env
  generalize c.asyncSome d posted data size hander env = r at hout
  cases hout with
  | refused e hno => exact oper_setOper_other _ d
  | failed e c' hf hop hoth => exact hoth
  | posted c' hop hoth => exact hoth

theorem locked_frame (ctl : Option ℕ) (d : Dir) : Frame c (c.locked ctl d).2.2 := by
  cases d with
  | read =>
    unfold locked readLocked
    dsimp only
    split
    · exact .refl
    · dsimp only
      refine .trans ?_ (ctlEpoll_frame _ _ _)
      exact ⟨rfl, rfl, rfl, rfl⟩
  | write =>
    unfold locked writeLocked
    dsimp only
    split
    · exact ⟨rfl, rfl, rfl, rfl⟩
    · dsimp only
      refine .trans ?_ (ctlEpoll_frame _ _ _)
      exact ⟨rfl, rfl, rfl, rfl⟩

/-- A completion on a closed descriptor calls no handler. -/
theorem locked_notify (ctl : Option ℕ) (d : Dir) : (c.locked ctl d).1 = true → c._fd ≠ none := by
  intro h hfd
  cases d with
  | read => rw [locked, readLocked, if_pos hfd] at h; cases h
  | write =>
    unfold locked writeLocked at h
    dsimp only [setType] at h
    rw [if_pos hfd] at h
    cases h

theorem openFd_cop (fd : ℕ) : (c.openFd fd)._cop = c._cop := by
  unfold openFd
  split_ifs <;> rfl

/-- An `AsyncConnect` that fails leaves no new operation. -/
theorem asyncConnect_cop (valid : Bool) (connect : Option ℕ) (handler : η) (env : Env)
    (h : (c.asyncConnect valid connect handler env).1 ≠ none) :
    (c.asyncConnect valid connect handler env).2._cop = c._cop ∨
      (c.asyncConnect valid connect handler env).2._cop = .clear := by
  unfold asyncConnect at h ⊢
  split_ifs at h ⊢
  · exact .inl rfl
  · exact .inl rfl
  · exact .inl rfl
  · cases hn : c.setNonblock env with
    | error e => exact .inl rfl
    | ok c₁ =>
      have h1 := setNonblock_frame hn
      rw [hn] at h
      cases connect with
      | some e => exact .inl h1.cop
      | none =>
        dsimp only at h ⊢
        split at h
        · exact absurd rfl h
        · rename_i hfail
          rw [if_neg hfail]
          exact .inr rfl

theorem close_cop : c.close._cop = c._cop := by
  unfold close
  split_ifs <;> rfl

theorem close_done (hfd : c._fd ≠ none) (hcl : c._state.close = false) :
    c.close._fd = none ∨ c.close._state.close = true := by
  rw [close, if_pos ⟨hfd, hcl⟩]
  split
  · exact .inl rfl
  · exact .inr rfl

end Core

/-- The handler has not called `OnConnected` or given up. -/
def Starter.before : Starter → Bool
  | called _ | finished => false
  | idle | waiting | entered _ | started => true

/-- The requests that the thread of the service has taken. -/
def Thread.taken : Thread → ℕ
  | closing => 1
  | idle | completing _ _ _ | receiving => 0

theorem Thread.taken_of_ne {t : Thread} (h : t ≠ .closing) : t.taken = 0 := by
  cases t with
  | closing => exact absurd rfl h
  | idle => rfl
  | completing d n e => rfl
  | receiving => rfl

namespace CbWorld

open Netlib.Core

variable {w : CbWorld}

/-! ## The order -/

/-- Between `OnConnected` and `OnDisconnected`. -/
theorem Ordered.receiving {t : List Callback} (h : Ordered t) (hne : t ≠ [])
    (hd : Callback.onDisconnected ∉ t) : ∃ n, t = .onConnected :: List.replicate n .onReceiveData := by
  obtain ⟨n, hn⟩ := h
  cases t with
  | nil => exact absurd rfl hne
  | cons cb l =>
    obtain ⟨rfl, hl⟩ := List.cons_prefix_cons.mp hn
    -- all of `OnReceiveData* OnDisconnected`, or a part of the first
    rw [List.prefix_concat_iff] at hl
    obtain hl | hl := hl
    · refine absurd ?_ hd
      rw [hl]
      simp
    · obtain ⟨m, -, rfl⟩ : ∃ m, m ≤ n ∧ l = List.replicate m .onReceiveData := by
        have := List.prefix_iff_eq_take.mp hl
        rw [List.take_replicate] at this
        exact ⟨_, Nat.min_le_right _ _, this⟩
      exact ⟨m, rfl⟩

theorem ordered_nil : Ordered [] := ⟨0, List.nil_prefix⟩

theorem ordered_connected : Ordered [.onConnected] := ⟨0, [.onDisconnected], rfl⟩

theorem Ordered.receive {t : List Callback} (h : Ordered t) (hne : t ≠ [])
    (hd : Callback.onDisconnected ∉ t) : Ordered (t ++ [.onReceiveData]) := by
  obtain ⟨n, rfl⟩ := h.receiving hne hd
  refine ⟨n + 1, [.onDisconnected], ?_⟩
  rw [List.replicate_succ', List.cons_append, List.cons_append, List.append_assoc]

theorem Ordered.disconnect {t : List Callback} (h : Ordered t) (hne : t ≠ [])
    (hd : Callback.onDisconnected ∉ t) : Ordered (t ++ [.onDisconnected]) := by
  obtain ⟨n, rfl⟩ := h.receiving hne hd
  exact ⟨n, List.prefix_rfl⟩

theorem not_ordered_disconnected : ¬ Ordered [.onDisconnected] := by
  rintro ⟨n, hn⟩
  cases (List.cons_prefix_cons.mp hn).1

/-! ## The invariant -/

/-- The handler that calls `OnConnected` has begun on the thread of the service, or is done. -/
def Begun (w : CbWorld) : Prop :=
  w.trace ≠ [] ∨ w.connector = true ∧ w.starter.certain = true

/-- The close requests of the socket, waiting, in service and served. -/
def spent (w : CbWorld) : ℕ :=
  w.inflight + w._closereqs + w.thread.taken + w.trace.count .onDisconnected

structure Inv (w : CbWorld) : Prop where
  ordered : Ordered w.trace
  before : w.starter.before = true → w.trace = []
  called : ∀ e, w.starter = .called e → w.trace ≠ []
  flag : w._flag = .start → w.trace ≠ [] ∨ w.starter = .started
  reads : w.core._rop._impl = true → w.trace ≠ []
  writes : w.core._wop._impl = true → w.Begun
  connects : w.core._cop._impl = true → w.starter = .waiting
  thread : w.thread ≠ .idle → w.trace ≠ []
  once : w.spent ≤ 1
  used : 0 < w.spent → w.core._fd = none ∨ w.core._state.close = true
  begun : 0 < w.spent → w.Begun
  gone : w.thread = .closing ∨ .onDisconnected ∈ w.trace → w.core._fd = none
  receives : w.thread = .receiving ∨ (∃ d e, w.thread = .completing d true e) →
    .onDisconnected ∉ w.trace

theorem socketClose_trace (w : CbWorld) : w.socketClose.trace = w.trace := by
  unfold socketClose
  split <;> rfl

theorem close_trace (w : CbWorld) : w._close.trace = w.trace := by
  unfold _close
  split_ifs
  · rfl
  · rfl
  · exact socketClose_trace _

theorem trySendData_trace (w : CbWorld) (data len : ℕ) (env : Env) :
    (w._trySendData data len env).2.trace = w.trace := by
  unfold _trySendData
  split_ifs
  · rfl
  · rfl
  · dsimp only
    split
    · rfl
    · exact close_trace _

namespace Inv

/-- A step on the core that keeps the descriptor and the close bit. -/
theorem setCore {c : Core Unit} (h : w.Inv) (hf : Frame w.core c)
    (hr : c._rop._impl = true → w.core._rop._impl = true ∨ w.trace ≠ [])
    (hw : c._wop._impl = true → w.core._wop._impl = true ∨ w.Begun) :
    { w with core := c }.Inv where
  ordered := h.ordered
  before := h.before
  called := h.called
  flag := h.flag
  reads hi := (hr hi).elim h.reads id
  writes hi := (hw hi).elim h.writes id
  connects hi := h.connects (hf.cop ▸ hi)
  thread := h.thread
  once := h.once
  used hs := by
    rw [hf.fd, hf.close]
    exact h.used hs
  begun := h.begun
  gone hg := hf.fd.trans (h.gone hg)
  receives := h.receives

theorem setFlag {f : Flag} (h : w.Inv) (hf : f ≠ .start) : { w with _flag := f }.Inv :=
  { h with flag := fun hs => absurd hs hf }

theorem setWriting {b : Bool} (h : w.Inv) : { w with writing := b }.Inv := { h with }

theorem not_spent (h : w.Inv) (hb : ¬ w.Begun) : w.spent = 0 := by
  by_contra hs
  exact hb (h.begun (Nat.pos_of_ne_zero hs))

/-- Nothing has happened before the handler begins. -/
theorem unbegun (h : w.Inv) (hb : w.starter.before = true) (hc : w.starter.certain = false) :
    w.trace = [] ∧ ¬ w.Begun := by
  have ht := h.before hb
  refine ⟨ht, ?_⟩
  rintro (hne | ⟨-, hc'⟩)
  · exact hne ht
  · rw [hc] at hc'
    cases hc'

/-- A close of an open socket, with `n` requests in flight after it. -/
theorem closeCore {n : ℕ} (h : w.Inv) (hfd : w.core._fd ≠ none) (hcl : w.core._state.close = false)
    (hn : n ≤ w.inflight + 1) (hb : w.inflight < n → w.Begun) :
    { w with core := w.core.close, inflight := n }.Inv := by
  -- an open socket that is not closing has spent no request
  have hs : w.spent = 0 := by
    by_contra hs
    obtain hfd' | hcl' := h.used (Nat.pos_of_ne_zero hs)
    · exact hfd hfd'
    · rw [hcl] at hcl'
      cases hcl'
  have hs' : { w with core := w.core.close, inflight := n }.spent + w.inflight = w.spent + n := by
    unfold spent
    dsimp only
    omega
  exact {
    ordered := h.ordered
    before := h.before
    called := h.called
    flag := h.flag
    reads := fun hi =>
      h.reads <| (congrArg RwOperation._impl (close_oper w.core .read)).symm.trans hi
    writes := fun hi =>
      h.writes <| (congrArg RwOperation._impl (close_oper w.core .write)).symm.trans hi
    connects := fun hi => h.connects (close_cop (c := w.core) ▸ hi)
    thread := h.thread
    once := by omega
    used := fun _ => close_done hfd hcl
    begun := fun hpos => hb (by omega)
    gone := fun hg => absurd (h.gone hg) hfd
    receives := h.receives }

theorem busy {t : Thread} (h : w.Inv) (hth : w.thread = t) (ht : t ≠ .idle) : w.trace ≠ [] :=
  h.thread (hth ▸ ht)

theorem socketClose (h : w.Inv) (hb : w.core._getIoServiceImpl w._implmap ≠ none →
    w.core._fd ≠ none → w.core._state.close = false → w.Begun) : w.socketClose.Inv := by
  unfold CbWorld.socketClose
  split
  · rename_i hopen
    cases hsvc : w.core._getIoServiceImpl w._implmap with
    | none =>
      -- without a service there is no request
      exact h.closeCore hopen.1 hopen.2 (Nat.le_succ _) fun hlt => absurd hlt (Nat.lt_irrefl _)
    | some i =>
      exact h.closeCore hopen.1 hopen.2 (Nat.le_refl _) fun _ =>
        hb (hsvc ▸ Option.some_ne_none i) hopen.1 hopen.2
  · exact h

/-- `_Close`, when the handler has begun or no request is made. -/
theorem close (h : w.Inv) (hb : w.Requests → w.Begun) : w._close.Inv := by
  unfold _close
  split_ifs with hf hw
  · exact h
  · exact h.setFlag (by decide)
  · exact (h.setFlag (by decide)).socketClose fun hsvc hfd hcl =>
      hb ⟨hf, (Bool.not_eq_true _).mp hw, hfd, hcl, hsvc⟩

theorem tryRecvData {env : Env} (h : w.Inv) (ht : w.trace ≠ []) : (w._tryRecvData env).Inv := by
  have hc : { w with core := (w.core.asyncRecvSome w.readbuf socketReadSize () env).2 }.Inv := by
    refine h.setCore (asyncSome_frame _ _ _ _ _ _) (fun _ => .inr ht) fun hi => ?_
    exact .inr (.inl ht)
  unfold _tryRecvData
  dsimp only
  split
  · exact hc
  · exact hc.close fun _ => .inl ht

theorem trySendData {data len : ℕ} {env : Env} (h : w.Inv) (hb : w.Begun) :
    (w._trySendData data len env).2.Inv := by
  unfold _trySendData
  split_ifs
  · exact h
  · exact h
  · have hc : { w with core := (w.core.asyncSendSome data len () env).2 }.Inv := by
      refine h.setCore (asyncSome_frame _ _ _ _ _ _) (fun hi => .inl ?_) fun _ => .inr hb
      have hother := asyncSome_other (c := w.core) .write .postedWrite data len () env
      exact (congrArg RwOperation._impl hother).symm.trans hi
    dsimp only
    split
    · exact hc.setWriting
    · exact hc.close fun _ => hb

/-! ## Steps -/

/-- `OnConnected` by a handler that has not called it. -/
theorem connected {error : Option SockError} (h : w.Inv) (hb : w.starter.before = true)
    (hc : w.starter ≠ .waiting) :
    ({ w with starter := .called error }.notify .onConnected).Inv := by
  have ht := h.before hb
  have ht' : ({ w with starter := .called error }.notify .onConnected).trace = [.onConnected] := by
    rw [notify, ht]
    rfl
  have hne : ({ w with starter := .called error }.notify .onConnected).trace ≠ [] := by
    rw [ht']
    exact List.cons_ne_nil _ _
  have hidle : w.thread = .idle := by
    by_contra hth
    exact h.thread hth ht
  have hs : ({ w with starter := .called error }.notify .onConnected).spent = w.spent := by
    unfold spent
    rw [ht', ht]
    rfl
  exact {
    ordered := ht' ▸ ordered_connected
    before := nofun
    called := fun _ _ => hne
    flag := fun _ => .inl hne
    reads := fun _ => hne
    writes := fun _ => .inl hne
    connects := fun hi => absurd (h.connects hi) hc
    thread := fun _ => hne
    once := hs ▸ h.once
    used := fun hpos => h.used (hs ▸ hpos)
    begun := fun _ => .inl hne
    gone := by
      rw [ht']
      rintro (hcl | hmem)
      · exact Thread.noConfusion (hidle.symm.trans hcl)
      · exact absurd hmem (by decide)
    receives := by
      rw [ht']
      exact fun _ => by decide }

theorem not_start (h : w.Inv) (hb : w.starter.before = true) (hc : w.starter.certain = false) :
    w._flag ≠ .start := by
  intro hf
  obtain ht | hs := h.flag hf
  · exact ht (h.before hb)
  · rw [hs] at hc
    cases hc

/-- A step before the handler has begun, or its step to `_flag = E_STATE_START`. -/
theorem early {c : Core Unit} {f : Flag} {s : Starter} (h : w.Inv) (hb : w.starter.before = true)
    (hc : w.starter.certain = false) (hcore : ∀ d, c.oper d = w.core.oper d)
    (hcop : c._cop._impl = true → s = .waiting) (hcall : ∀ e, s ≠ .called e)
    (hf : f = .start → s = .started) :
    { w with core := c, _flag := f, starter := s }.Inv := by
  obtain ⟨ht, hnb⟩ := h.unbegun hb hc
  have hs : { w with core := c, _flag := f, starter := s }.spent = 0 := h.not_spent hnb
  have hidle : w.thread = .idle := by
    by_contra hth
    exact h.thread hth ht
  exact {
    ordered := h.ordered
    before := fun _ => ht
    called := fun e he => absurd he (hcall e)
    flag := fun hfs => .inr (hf hfs)
    reads := fun hi => h.reads <| (congrArg RwOperation._impl (hcore .read)).symm.trans hi
    writes := fun hi =>
      absurd (h.writes <| (congrArg RwOperation._impl (hcore .write)).symm.trans hi) hnb
    connects := hcop
    thread := h.thread
    once := by omega
    used := fun hpos => by omega
    begun := fun hpos => by omega
    gone := by
      rintro (hcl | hmem)
      · exact Thread.noConfusion (hidle.symm.trans hcl)
      · dsimp only at hmem
        rw [ht] at hmem
        cases hmem
    receives := h.receives }

theorem openFd {fd : ℕ} (h : w.Inv) (hs : w.starter = .idle) :
    { w with core := w.core.openFd fd }.Inv := by
  have hb : w.starter.before = true := by rw [hs]; rfl
  have hc : w.starter.certain = false := by rw [hs]; rfl
  refine h.early (s := w.starter) hb hc (openFd_oper _ _) ?_ ?_
    fun hf => absurd hf (h.not_start hb hc)
  · intro hi
    exact h.connects (openFd_cop (c := w.core) fd ▸ hi)
  · intro e he
    rw [hs] at he
    cases he

theorem asyncConnect {valid : Bool} {connect : Option ℕ} {env : Env} (h : w.Inv)
    (hs : w.starter = .idle) :
    { w with
      core := (w.core.asyncConnect valid connect () env).2
      starter := if (w.core.asyncConnect valid connect () env).1 = none then .waiting
        else .idle }.Inv := by
  have hb : w.starter.before = true := by rw [hs]; rfl
  have hc : w.starter.certain = false := by rw [hs]; rfl
  refine h.early hb hc (asyncConnect_oper _ _ _ _ _) ?_ ?_ fun hf => absurd hf (h.not_start hb hc)
  · intro hi
    by_cases hok : (w.core.asyncConnect valid connect () env).1 = none
    · exact if_pos hok
    · -- a call that fails leaves no operation
      obtain hcop | hcop := asyncConnect_cop valid connect () env hok
      · have hw := h.connects (hcop ▸ hi)
        rw [hs] at hw
        cases hw
      · rw [hcop] at hi
        cases hi
  · intro e he
    split at he <;> cases he

theorem accept {fd : ℕ} (h : w.Inv) (hs : w.starter = .idle) :
    { w with core := { w.core with _fd := some fd }, starter := .entered none }.Inv := by
  have hb : w.starter.before = true := by rw [hs]; rfl
  have hc : w.starter.certain = false := by rw [hs]; rfl
  refine h.early hb hc (fun d => by cases d <;> rfl) ?_ ?_
    fun hf => absurd hf (h.not_start hb hc)
  · intro hi
    have hw := h.connects hi
    rw [hs] at hw
    cases hw
  · intro e he
    cases he

theorem connectComplete {so : Option ℕ} (h : w.Inv) (hi : w.core._cop._impl = true) :
    { w with
      core := w.core.connectComplete
      starter := if w.core._fd = none then .finished
        else .entered (Core.connectError so) }.Inv := by
  have hs := h.connects hi
  have hb : w.starter.before = true := by rw [hs]; rfl
  have hc : w.starter.certain = false := by rw [hs]; rfl
  refine h.early hb hc (fun d => by cases d <;> rfl) nofun
    ?_ fun hf => absurd hf (h.not_start hb hc)
  intro e he
  split at he <;> cases he

theorem connectHandler {error : Option SockError} {endpoints : Bool} (h : w.Inv)
    (hs : w.starter = .entered error) : (w._connectHandler error endpoints).Inv := by
  have hb : w.starter.before = true := by rw [hs]; rfl
  have hw : w.starter ≠ .waiting := by rw [hs]; nofun
  unfold _connectHandler
  cases error with
  | some e => exact h.connected hb hw
  | none =>
    -- no callback yet: `_flag = E_STATE_START`, or `RemoteEndPoint` throws
    have hc : w.starter.certain = false := by rw [hs]; rfl
    rw [if_neg (fun hne => hne rfl)]
    split
    · exact h.early hb hc (fun _ => rfl) (fun hi => absurd (h.connects hi) hw)
        nofun fun _ => rfl
    · exact h.early hb hc (fun _ => rfl) (fun hi => absurd (h.connects hi) hw)
        nofun fun hf => absurd hf (h.not_start hb hc)

theorem finished {s : Starter} (h : w.Inv) (ht : w.trace ≠ []) (hs : s = .finished)
    (hw : w.starter ≠ .waiting) : { w with starter := s }.Inv := by
  subst hs
  exact { h with
    before := nofun
    called := nofun
    flag := fun _ => .inl ht
    writes := fun _ => .inl ht
    connects := fun hi => absurd (h.connects hi) hw
    begun := fun _ => .inl ht }

theorem afterConnected {error : Option SockError} {env : Env} (h : w.Inv)
    (hs : w.starter = .called error) : (w.afterConnected error env).Inv := by
  have ht := h.called error hs
  have h' : { w with starter := .finished }.Inv :=
    h.finished ht rfl (by rw [hs]; nofun)
  unfold CbWorld.afterConnected
  dsimp only
  split_ifs
  · exact h'
  · exact h'.setCore (asyncSome_frame _ _ _ _ _ _) (fun _ => .inr ht) fun _ => .inr (.inl ht)
  · exact h'.tryRecvData ht

/-- The thread of the service goes on with the socket, and takes no request. -/
theorem setThread {t : Thread} (h : w.Inv) (hold : w.thread ≠ .closing) (hnew : t ≠ .closing)
    (ht : w.trace ≠ [])
    (hr : t = .receiving ∨ (∃ d e, t = .completing d true e) → .onDisconnected ∉ w.trace) :
    (w.setThread t).Inv := by
  have hs : (w.setThread t).spent = w.spent := by
    unfold spent
    dsimp only [CbWorld.setThread]
    rw [Thread.taken_of_ne hold, Thread.taken_of_ne hnew]
  exact { h with
    thread := fun _ => ht
    once := hs ▸ h.once
    used := fun hpos => h.used (hs ▸ hpos)
    begun := fun hpos => h.begun (hs ▸ hpos)
    gone := fun hg => h.gone (.inr (hg.resolve_left hnew))
    receives := hr }

/-- What has begun has called `OnConnected` when the thread of the service is free. -/
theorem connected_of_free (hfree : w.Free) (hb : w.Begun) : w.trace ≠ [] := by
  obtain ht | ⟨hconn, hc⟩ := hb
  · exact ht
  · -- a handler that has begun keeps the thread of the service until it returns
    have hrun := hfree.2 hconn
    cases hs : w.starter with
    | entered error => rw [hs] at hrun; cases hrun
    | started => rw [hs] at hrun; cases hrun
    | called error => rw [hs] at hrun; cases hrun
    | idle => rw [hs] at hc; cases hc
    | waiting => rw [hs] at hc; cases hc
    | finished => rw [hs] at hc; cases hc

theorem lock {d : Dir} {ctl : Option ℕ} (h : w.Inv) (hfree : w.Free)
    (himpl : (w.core.oper d)._impl = true) :
    { w with
      core := (w.core.locked ctl d).2.2
      thread := .completing d (w.core.locked ctl d).1 (w.core.locked ctl d).2.1 }.Inv := by
  have ht : w.trace ≠ [] := by
    cases d with
    | read => exact h.reads himpl
    | write => exact connected_of_free hfree (h.writes himpl)
  have hcore : { w with core := (w.core.locked ctl d).2.2 }.Inv :=
    h.setCore (locked_frame ctl d) (fun _ => .inr ht) fun _ => .inr (.inl ht)
  refine hcore.setThread (by rw [hfree.1]; decide) nofun ht ?_
  rintro (hf | ⟨d', e, hf⟩)
  · cases hf
  · -- the handler will be called, so the descriptor is open
    intro hmem
    have hn : (w.core.locked ctl d).1 = true := by
      injection hf
    exact locked_notify ctl d hn (h.gone (.inr hmem))

theorem writeHandler {tran_byte : ℕ} {error : Option SockError} {data len : ℕ} {env : Env}
    (h : w.Inv) (ht : w.trace ≠ []) : (w._writeHandler tran_byte error data len env).Inv := by
  have h' : { w with writing := false }.Inv := h.setWriting
  unfold _writeHandler
  dsimp only
  split
  · exact h'.close fun _ => .inl ht
  · have hsent : ({ w with writing := false }._trySendData data len env).2.Inv :=
      h'.trySendData (.inl ht)
    have htrace := trySendData_trace { w with writing := false } data len env
    split
    · exact hsent.close fun _ => .inl (by rw [htrace]; exact ht)
    · exact hsent

theorem finish {d : Dir} {n : Bool} {error : Option SockError} {ret : ℤ} {so : Option ℕ}
    {data len : ℕ} {env : Env} (h : w.Inv) (hth : w.thread = .completing d n error) :
    (w.finish d n error ret so data len env).Inv := by
  have ht : w.trace ≠ [] := h.busy hth nofun
  have hcore : { w with core := w.core.setOper .clear d }.Inv :=
    h.setCore (setOper_frame _ d) (fun _ => .inr ht) fun _ => .inr (.inl ht)
  have hidle : { w with core := w.core.setOper .clear d, thread := .idle }.Inv := by
    refine hcore.setThread (by rw [hth]; nofun) (by decide) ht ?_
    rintro (hf | ⟨d', e, hf⟩) <;> cases hf
  unfold CbWorld.finish
  dsimp only
  cases n with
  | false => exact hidle
  | true =>
    cases d with
    | read =>
      dsimp only [Bool.not_true]
      rw [if_neg (by decide)]
      unfold _readHandler
      split
      · exact hidle.close fun _ => .inl ht
      · exact hidle.setThread nofun nofun ht
          fun _ => h.receives (.inr ⟨_, _, hth⟩)
    | write => exact hidle.writeHandler ht

theorem onReceiveData (h : w.Inv) (hth : w.thread = .receiving) :
    (w.notify .onReceiveData).Inv := by
  have ht : w.trace ≠ [] := h.busy hth nofun
  have hd : .onDisconnected ∉ w.trace := h.receives (.inl hth)
  have hne : w.trace ++ [.onReceiveData] ≠ [] := List.append_ne_nil_of_left_ne_nil ht _
  have hd' : .onDisconnected ∉ w.trace ++ [.onReceiveData] := by
    rw [List.mem_append]
    rintro (hmem | hmem)
    · exact hd hmem
    · exact absurd hmem (by decide)
  have hcount : (w.trace ++ [Callback.onReceiveData]).count Callback.onDisconnected =
      w.trace.count .onDisconnected := List.count_append
  have hs : (w.notify .onReceiveData).spent = w.spent := by
    unfold spent notify
    rw [hcount]
  exact { h with
    ordered := h.ordered.receive ht hd
    before := fun hb => absurd (h.before hb) ht
    called := fun _ _ => hne
    flag := fun _ => .inl hne
    reads := fun _ => hne
    writes := fun _ => .inl hne
    thread := fun _ => hne
    once := hs ▸ h.once
    used := fun hpos => h.used (hs ▸ hpos)
    begun := fun _ => .inl hne
    gone := by
      rintro (hcl | hmem)
      · exact h.gone (.inl hcl)
      · exact absurd hmem hd'
    receives := fun _ => hd' }

theorem afterReceive {cut : Bool} {env : Env} (h : w.Inv) (hth : w.thread = .receiving) :
    ((w.setThread .idle).afterReceive cut env).Inv := by
  have ht : w.trace ≠ [] := h.busy hth nofun
  have hidle : (w.setThread .idle).Inv := by
    refine h.setThread (by rw [hth]; decide) (by decide) ht ?_
    rintro (hf | ⟨d', e, hf⟩) <;> cases hf
  unfold CbWorld.afterReceive
  split
  · exact hidle.tryRecvData ht
  · exact hidle.close fun _ => .inl ht

/-- The user has the object, and `OnConnected` is certain. -/
theorem begun_of_announced (hown : w.Owned) (ha : w.Announced) : w.Begun := by
  obtain ht | hc := ha
  · exact .inl ht
  · obtain hconn | ht := hown
    · exact .inr ⟨hconn, hc⟩
    · exact .inl ht

theorem send {data len : ℕ} {env : Env} (h : w.Inv) (hown : w.Owned) : (w.send data len env).Inv := by
  unfold CbWorld.send
  split
  · rename_i hf
    refine h.trySendData (begun_of_announced hown ?_)
    obtain ht | hs := h.flag hf
    · exact .inl ht
    · exact .inr (by rw [hs]; rfl)
  · exact h

theorem enqueue (h : w.Inv) (hpos : 0 < w.inflight) :
    { w with inflight := w.inflight - 1, _closereqs := w._closereqs + 1 }.Inv := by
  have hs : { w with inflight := w.inflight - 1, _closereqs := w._closereqs + 1 }.spent =
      w.spent := by
    unfold spent
    dsimp only
    omega
  exact { h with
    once := hs ▸ h.once
    used := fun hpos => h.used (hs ▸ hpos)
    begun := fun hpos => h.begun (hs ▸ hpos) }

theorem doClose (h : w.Inv) (hfree : w.Free) (hq : 0 < w._closereqs) :
    { w with
      core := w.core.invalidate
      _closereqs := w._closereqs - 1
      thread := .closing }.Inv := by
  have hpos : 0 < w.spent := by
    unfold spent
    omega
  have ht := connected_of_free hfree (h.begun hpos)
  have hs : { w with
      core := w.core.invalidate, _closereqs := w._closereqs - 1, thread := .closing }.spent =
      w.spent := by
    unfold spent
    rw [hfree.1]
    dsimp only [Thread.taken]
    omega
  exact { h with
    thread := fun _ => ht
    once := hs ▸ h.once
    used := fun _ => .inl rfl
    begun := fun _ => .inl ht
    gone := fun _ => rfl
    receives := by rintro (hf | ⟨d, e, hf⟩) <;> cases hf }

theorem closeHandler (h : w.Inv) (hth : w.thread = .closing) :
    ((w.setThread .idle).notify .onDisconnected).Inv := by
  have ht : w.trace ≠ [] := h.busy hth nofun
  -- the request in service is the only one
  have hd : .onDisconnected ∉ w.trace := by
    intro hmem
    have hone := h.once
    have hcount := List.count_pos_iff.mpr hmem
    unfold spent at hone
    rw [hth] at hone
    dsimp only [Thread.taken] at hone
    omega
  have hne : w.trace ++ [.onDisconnected] ≠ [] := List.append_ne_nil_of_left_ne_nil ht _
  have hs : ((w.setThread .idle).notify .onDisconnected).spent = w.spent := by
    unfold spent notify CbWorld.setThread
    rw [hth, List.count_append]
    dsimp only [Thread.taken]
    rw [List.count_singleton_self]
    omega
  exact { h with
    ordered := h.ordered.disconnect ht hd
    before := fun hb => absurd (h.before hb) ht
    called := fun _ _ => hne
    flag := fun _ => .inl hne
    reads := fun _ => hne
    writes := fun _ => .inl hne
    thread := fun _ => hne
    once := hs ▸ h.once
    used := fun hpos => h.used (hs ▸ hpos)
    begun := fun _ => .inl hne
    gone := fun _ => h.gone (.inl hth)
    receives := by rintro (hf | ⟨d, e, hf⟩) <;> cases hf }

theorem step {w' : CbWorld} {a : CbAction} (h : w.Inv) (ha : w.StepOk a)
    (hs : w.step a = some w') : w'.Inv := by
  cases a with
  | openFd fd =>
    obtain ⟨hen, hs⟩ := Option.ite_none_right_eq_some.mp hs
    cases hs
    exact h.openFd hen.2
  | asyncConnect valid connect env =>
    obtain ⟨hen, hs⟩ := Option.ite_none_right_eq_some.mp hs
    cases hs
    exact h.asyncConnect hen.2
  | accept fd =>
    obtain ⟨hen, hs⟩ := Option.ite_none_right_eq_some.mp hs
    cases hs
    exact h.accept hen.2
  | connectComplete so =>
    obtain ⟨hen, hs⟩ := Option.ite_none_right_eq_some.mp hs
    cases hs
    exact h.connectComplete hen.2.2
  | connectHandler endpoints =>
    simp only [CbWorld.step] at hs
    split at hs
    · rename_i error hst
      cases hs
      exact h.connectHandler hst
    · cases hs
  | onConnected =>
    obtain ⟨hst, hs⟩ := Option.ite_none_right_eq_some.mp hs
    cases hs
    exact h.connected (by rw [hst]; rfl) (by rw [hst]; nofun)
  | afterConnected env =>
    simp only [CbWorld.step] at hs
    split at hs
    · rename_i error hst
      cases hs
      exact h.afterConnected hst
    · cases hs
  | lock d ctl =>
    obtain ⟨hen, hs⟩ := Option.ite_none_right_eq_some.mp hs
    cases hs
    exact h.lock hen.1 hen.2.2.2.2
  | finish ret so data len env =>
    simp only [CbWorld.step] at hs
    split at hs
    · rename_i d n error hth
      cases hs
      exact h.finish hth
    · cases hs
  | onReceiveData =>
    obtain ⟨hth, hs⟩ := Option.ite_none_right_eq_some.mp hs
    cases hs
    exact h.onReceiveData hth
  | afterReceive cut env =>
    obtain ⟨hth, hs⟩ := Option.ite_none_right_eq_some.mp hs
    cases hs
    exact h.afterReceive hth
  | send data len env =>
    obtain ⟨hown, hs⟩ := Option.ite_none_right_eq_some.mp hs
    cases hs
    exact h.send hown
  | close =>
    obtain ⟨hown, hs⟩ := Option.ite_none_right_eq_some.mp hs
    cases hs
    exact h.close fun hreq => begun_of_announced hown (ha hreq)
  | enqueue =>
    obtain ⟨hpos, hs⟩ := Option.ite_none_right_eq_some.mp hs
    cases hs
    exact h.enqueue hpos
  | doClose =>
    obtain ⟨hen, hs⟩ := Option.ite_none_right_eq_some.mp hs
    cases hs
    exact h.doClose hen.1 hen.2
  | closeHandler =>
    obtain ⟨hth, hs⟩ := Option.ite_none_right_eq_some.mp hs
    cases hs
    exact h.closeHandler hth
  | createIo i =>
    cases hs
    exact { h with }

end Inv

theorem start_inv (connector : Bool) (readbuf : ℕ) (implmap : List ℕ) :
    (start connector readbuf implmap).Inv where
  ordered := ordered_nil
  before _ := rfl
  called := nofun
  flag := nofun
  reads := nofun
  writes := nofun
  connects := nofun
  thread hf := absurd rfl hf
  once := Nat.zero_le _
  used hf := absurd hf (Nat.lt_irrefl _)
  begun hf := absurd hf (Nat.lt_irrefl _)
  gone _ := rfl
  receives _ hf := List.not_mem_nil hf

/-- The invariant along the runs where no `Close` makes a request before `OnConnected`. -/
theorem reach_inv {connector : Bool} {readbuf : ℕ} {implmap : List ℕ}
    (h : Reach step StepOk (start connector readbuf implmap) w) : w.Inv :=
  h.inv (start_inv _ _ _) fun _ _ _ hi ha hs => hi.step ha hs

/-! ## A `Close` before `OnConnected` -/

theorem requests_close (h : w.Requests) :
    w._close = { w with _flag := .close, core := w.core.close, inflight := w.inflight + 1 } := by
  obtain ⟨i, hi⟩ := Option.ne_none_iff_exists'.mp h.service
  rw [_close, if_neg h.flag, if_neg (by rw [h.writing]; decide), socketClose, if_pos ⟨h.fd, h.close⟩]
  dsimp only
  rw [hi]

/-- A request that is served before `OnConnected`. -/
theorem serve (ht : w.trace = []) (hth : w.thread = .idle) (hr : w.starter.running = false)
    (hi : 0 < w.inflight) : ∃ w', Reach step always w w' ∧ ¬ Ordered w'.trace := by
  have h1 : w.step .enqueue =
      some { w with inflight := w.inflight - 1, _closereqs := w._closereqs + 1 } := if_pos hi
  have h2 : { w with inflight := w.inflight - 1, _closereqs := w._closereqs + 1 }.step .doClose =
      some { w with
        inflight := w.inflight - 1
        core := w.core.invalidate
        _closereqs := w._closereqs
        thread := .closing } := if_pos ⟨⟨hth, fun _ => hr⟩, Nat.succ_pos _⟩
  refine ⟨_, .next (.next (.next .refl trivial h1) trivial h2) (a := .closeHandler) trivial rfl, ?_⟩
  dsimp only [notify, setThread]
  rw [ht]
  exact not_ordered_disconnected

/-- A close that does not meet the condition can be served before `OnConnected`. -/
theorem Inv.disordered {w' : CbWorld} {a : CbAction} (h : w.Inv) (ha : ¬ w.StepOk a)
    (hs : w.step a = some w') : ∃ w'', Reach CbWorld.step always w' w'' ∧ ¬ Ordered w''.trace := by
  cases a with
  | close =>
    simp only [StepOk, Classical.not_imp, Announced, not_or, not_not] at ha
    obtain ⟨hreq, ht, hc⟩ := ha
    obtain ⟨-, hs⟩ := Option.ite_none_right_eq_some.mp hs
    cases hs
    rw [requests_close hreq]
    have hidle : w.thread = .idle := by
      by_contra hth
      exact h.thread hth ht
    -- where the handler is when the request is served before it
    cases hst : w.starter with
    | idle => exact serve ht hidle rfl (Nat.succ_pos _)
    | waiting => exact serve ht hidle rfl (Nat.succ_pos _)
    | finished => exact serve ht hidle rfl (Nat.succ_pos _)
    | started => exact absurd (by rw [hst]; rfl) hc
    | called e => exact absurd ht (h.called e hst)
    | entered error =>
      cases error with
      | some e => exact absurd (by rw [hst]; rfl) hc
      | none =>
        -- `RemoteEndPoint` throws, and the handler returns without the callback
        obtain ⟨w'', hr, ho⟩ := serve (w := { w with
          _flag := .close
          core := w.core.close
          starter := .finished
          inflight := w.inflight + 1 }) ht hidle rfl (Nat.succ_pos _)
        exact ⟨w'', (Reach.single (a := .connectHandler false) trivial rfl).trans hr, ho⟩
  | _ => exact absurd trivial ha

/-- **The order of the callbacks.** In every run where no `Close` makes a request before
`OnConnected`, the callbacks come in the promised order; and every `Close` that does can
be followed by callbacks that do not. -/
theorem callbacks_ordered (connector : Bool) (readbuf : ℕ) (implmap : List ℕ) :
    (∀ w, Reach step StepOk (start connector readbuf implmap) w → Ordered w.trace) ∧
    ∀ w a w', Reach step StepOk (start connector readbuf implmap) w → ¬ w.StepOk a →
      w.step a = some w' → ∃ w'', Reach step always w' w'' ∧ ¬ Ordered w''.trace :=
  ⟨fun _ h => (reach_inv h).ordered, fun _ _ _ h ha hs => (reach_inv h).disordered ha hs⟩

/-- The system answers every request. -/
def ready : Env := ⟨none, some 1, none⟩

/-- A connector that gets one message, and then the end of the stream. -/
def served : List CbAction :=
  [.openFd 3, .asyncConnect true none ready, .connectComplete (some 0), .connectHandler true,
    .onConnected, .afterConnected ready, .lock .read none, .finish 10 none 0 0 ready,
    .onReceiveData, .afterReceive true ready, .lock .read none, .finish 0 (some 0) 0 0 ready,
    .enqueue, .doClose, .closeHandler]

def disconnected : CbWorld :=
  { start true 0 [1] with
    _flag := .close
    core := { (Core.init : Core Unit) with
      _epoll := some 1
      _state := .zero
      interest := some ⟨false, false, false⟩ }
    starter := .finished
    trace := [.onConnected, .onReceiveData, .onDisconnected] }

theorem served_run : served.foldlM step (start true 0 [1]) = some disconnected := by decide

/-- A connector that connects. -/
def connecting : CbWorld :=
  { start true 0 [1] with
    core := ((Core.init.openFd 3).asyncConnect true none () ready).2
    starter := .waiting }

theorem connecting_reach (C : CbWorld → CbAction → Prop) (ho : ∀ w, C w (.openFd 3))
    (hc : ∀ w, C w (.asyncConnect true none ready)) :
    Reach step C (start true 0 [1]) connecting :=
  .next (.next .refl (ho _) rfl) (hc _) rfl

theorem callbacks_ordered_served :
    Ordered disconnected.trace ∧
      ∃ w, Reach step always connecting._close w ∧ ¬ Ordered w.trace := by
  refine ⟨(callbacks_ordered true 0 [1]).1 _ (.of_foldlM ?_ served_run), ?_⟩
  · intro a ha w
    simp only [served, List.mem_cons, List.not_mem_nil, or_false] at ha
    obtain rfl | rfl | rfl | rfl | rfl | rfl | rfl | rfl | rfl | rfl | rfl | rfl | rfl | rfl |
      rfl := ha <;> trivial
  · have hok : ¬ connecting.StepOk .close := fun hok =>
      absurd (hok ⟨by decide, by decide, by decide, by decide, by decide⟩) (by
        rintro (ht | hc)
        · exact ht rfl
        · cases hc)
    exact (callbacks_ordered true 0 [1]).2 connecting .close _
      (connecting_reach _ (fun _ => trivial) fun _ => trivial) hok rfl

/-- `Close` right after `AsyncConnect`: `OnDisconnected` alone. -/
theorem not_callbacks_ordered : ¬ ∀ (connector : Bool) (readbuf : ℕ) (implmap : List ℕ) (w : CbWorld),
    Reach step always (start connector readbuf implmap) w → Ordered w.trace := by
  intro h
  have hr : Reach step always (start true 0 [1]) connecting :=
    connecting_reach _ (fun _ => trivial) fun _ => trivial
  have hclosed : Reach step always connecting
      { connecting with
        _flag := .close
        core := connecting.core.close.invalidate
        trace := [.onDisconnected] } :=
    .of_foldlM (l := [.close, .enqueue, .doClose, .closeHandler]) (fun _ _ _ => trivial) rfl
  exact not_ordered_disconnected (h true 0 [1] _ (hr.trans hclosed))

end CbWorld

end Netlib
