import Netlib.Proof.BlockMode
import Netlib.Proof.Transient
import Netlib.Spec.Armed

/-!
# A connect that is armed

Every `AsyncConnect` that returns no error is armed, and after every other one a later call is
possible, exactly when no call comes past `connect` with the bound bit set and the registration
spent, and none finds a connect that cannot be completed (`connects_armed_iff`). The second is so as
long as nothing disturbs the connects (`Intact`). `asyncConnect_outcome` says once what a call can do.
-/

namespace Netlib

open Lib

namespace Core

variable {η : Type*} {c c' : Core η}

/-- **What `AsyncConnect` can do**: it is refused because one is posted; it fails and no connect is
posted; it is posted, and the descriptor was bound before or is registered now. -/
inductive ConnectOutcome (c : Core η) (valid : Bool) (connect : Option ℕ) (env : Env) :
    Option SockError × Core η → Prop
  | posted : c._fd ≠ none → c._state.connect = true →
    ConnectOutcome c valid connect env (some .postedConnect, c)
  | failed (e : SockError) (c' : Core η) : e ≠ .postedConnect → c'._fd = c._fd →
    (c._fd = none ∨ c'._state.connect = false) →
    (c._fd = none → c'._state.connect = c._state.connect) →
    (c.ConnectPosts valid connect env → c._state.bind = false) →
    ConnectOutcome c valid connect env (some e, c')
  | bound (c' : Core η) : c.ConnectPosts valid connect env → c._state.bind = true →
    c'._fd = c._fd → c'._state.connect = true → c'._type = { OpType.none with connect := true } →
    c'._cop._impl = true → ConnectOutcome c valid connect env (none, c')
  | added (c' : Core η) : c.ConnectPosts valid connect env → c._state.bind = false →
    c'._fd = c._fd → c'._state.connect = true → c'._type = { OpType.none with connect := true } →
    c'._cop._impl = true → c'.interest = some ⟨false, true, true⟩ →
    ConnectOutcome c valid connect env (none, c')

theorem real_ne_posted {e : SockError} (h : e.Real) : e ≠ .postedConnect := by
  rintro rfl
  exact h

/-- The end of the call, from the core `c'` that has the operation. -/
theorem bindConnect_outcome {valid : Bool} {connect : Option ℕ} {env : Env}
    (hposts : c.ConnectPosts valid connect env) (hfd : c'._fd = c._fd)
    (hbind : c'._state.bind = c._state.bind) (hflag : c'._state.connect = true)
    (htype : c'._type = { OpType.none with connect := true }) (hcop : c'._cop._impl = true) :
    ConnectOutcome c valid connect env
      (let (error, c'') := c'.bindEpoll env ⟨false, true, true⟩
      if error = none then (none, c'')
      else
        (error, { c'' with
          _state := { c''._state with connect := false, bind := false }
          _cop := .clear })) := by
  unfold bindEpoll
  cases hb : c'._state.bind with
  | true =>
    rw [if_pos rfl]
    exact .bound _ hposts (hbind.symm.trans hb) hfd hflag htype hcop
  | false =>
    rw [if_neg Bool.false_ne_true]
    have hunbound : c._state.bind = false := hbind.symm.trans hb
    cases hr : (c'.setBind true).ctlEpoll env .add ⟨false, true, true⟩ with
    | mk error c₂ =>
      cases error with
      | none =>
        obtain ⟨ep, hep⟩ := ctlEpoll_none (congrArg Prod.fst hr)
        rw [hr] at hep
        cases hep
        exact .added _ hposts hunbound hfd hflag htype hcop rfl
      | some e =>
        have hfd₂ := ctlEpoll_fd (c'.setBind true) env .add ⟨false, true, true⟩
        rw [hr] at hfd₂
        exact .failed _ _ (real_ne_posted (ctlEpoll_real (congrArg Prod.fst hr)))
          (hfd₂.trans hfd) (.inr rfl) (fun h => absurd h hposts.fd) fun _ => hunbound

theorem asyncConnect_outcome (c : Core η) (valid : Bool) (connect : Option ℕ) (handler : η)
    (env : Env) :
    ConnectOutcome c valid connect env (c.asyncConnect valid connect handler env) := by
  unfold asyncConnect
  by_cases hfd : c._fd = none
  · rw [if_pos hfd]
    exact .failed _ _ nofun rfl (.inl hfd) (fun _ => rfl) fun h => absurd hfd h.fd
  rw [if_neg hfd]
  cases hflag : c._state.connect with
  | true => exact .posted hfd hflag
  | false =>
    rw [if_neg Bool.false_ne_true]
    cases hvalid : valid with
    | false => exact .failed _ _ nofun rfl (.inr hflag) (fun _ => rfl) fun h => nomatch h.valid
    | true =>
      rw [if_neg (by decide)]
      cases hn : c.setNonblock env with
      | error e =>
        obtain ⟨hb, hne⟩ := setNonblock_error hn
        exact .failed _ _ (real_ne_posted (setNonblock_real hn)) rfl (.inr hflag) (fun _ => rfl)
          fun h => absurd (h.nonblock hb) hne
      | ok c₁ =>
        obtain ⟨hb, rfl⟩ := setNonblock_ok hn
        cases hconnect : connect with
        | some e => exact .failed _ _ nofun rfl (.inr hflag) (fun _ => rfl) fun h => nomatch h.connect
        | none =>
          have hposts : c.ConnectPosts true none env := ⟨hfd, hflag, rfl, hb, rfl⟩
          exact bindConnect_outcome hposts rfl rfl rfl rfl rfl

/-! ## The connect flag of a socket without a descriptor -/

/-- A socket without a descriptor has no connect posted. -/
def Unposted (c : Core η) : Prop := c._fd = none → c._state.connect = false

theorem Unposted.frame (h : c.Unposted) (hf : Frame c c') : c'.Unposted := by
  intro hfd
  rw [hf.connect]
  exact h (hf.fd ▸ hfd)

theorem bindEpoll_frame (env : Env) (ev : EpollEvents) : Frame c (c.bindEpoll env ev).2 := by
  unfold bindEpoll
  split
  · exact .refl
  · have hbind : Frame c (c.setBind true) := ⟨rfl, rfl, rfl, rfl⟩
    exact hbind.trans (ctlEpoll_frame env .add ev)

theorem asyncAccept_frame (cli : ℕ) (handler : η) (env : Env) :
    Frame c (c.asyncAccept cli handler env).2 := by
  unfold asyncAccept
  split_ifs
  · exact .refl
  · exact .refl
  · cases hn : c.setNonblock env with
    | error e => exact .refl
    | ok c₁ =>
      have h1 : Frame c { c₁ with
          _state := { c₁._state with accept := true }
          _type := { OpType.none with accept := true }
          _aop := ⟨true, some cli, some handler⟩ } :=
        (setNonblock_frame hn).trans ⟨rfl, rfl, rfl, rfl⟩
      have h2 := h1.trans (bindEpoll_frame env ⟨true, false, false⟩)
      dsimp only
      split
      · exact h2
      · exact h2.trans ⟨rfl, rfl, rfl, rfl⟩

theorem Unposted.close (h : c.Unposted) : c.close.Unposted := by
  unfold Core.close
  split_ifs
  · exact fun _ => rfl
  · exact h
  · exact h

theorem Unposted.async (h : c.Unposted) (d : Dir) (data size : ℕ) (hander : η) (env : Env) :
    (c.async d data size hander env).2.Unposted := by
  cases d <;> exact h.frame (asyncSome_frame _ _ data size hander env)

theorem Unposted.asyncConnect (h : c.Unposted) (valid : Bool) (connect : Option ℕ) (handler : η)
    (env : Env) : (c.asyncConnect valid connect handler env).2.Unposted := by
  have hout := asyncConnect_outcome c valid connect handler env
  generalize c.asyncConnect valid connect handler env = r at hout ⊢
  cases hout with
  | posted hfd hflag => exact h
  | failed e c' hne hfd hflag hsame hbind =>
    intro hfd'
    have hnone : c._fd = none := hfd ▸ hfd'
    exact (hsame hnone).trans (h hnone)
  | bound c' hposts hbind hfd => exact fun hfd' => absurd (hfd ▸ hfd') hposts.fd
  | added c' hposts hbind hfd => exact fun hfd' => absurd (hfd ▸ hfd') hposts.fd

/-- A connect may be posted when none is. -/
theorem connectable (h : c._state.connect = false) : c.Connectable := by
  intro fd service handler
  have hfd : (c.openFd fd)._fd ≠ none := by
    unfold openFd
    split_ifs with hnone
    · exact Option.some_ne_none fd
    · exact hnone
  have hflag : (c.openFd fd)._state.connect = false := by
    unfold openFd
    split_ifs <;> exact h
  generalize c.openFd fd = c₀ at hfd hflag
  obtain ⟨c₁, hn⟩ : ∃ c₁, c₀.setNonblock ⟨none, some service, none⟩ = .ok c₁ :=
    setNonblock_some rfl
  unfold Core.asyncConnect
  rw [if_neg hfd, hflag, if_neg Bool.false_ne_true, if_neg (by decide), hn]
  dsimp only
  have hbind : ∀ c : Core η, (c.bindEpoll ⟨none, some service, none⟩ ⟨false, true, true⟩).1 = none := by
    intro c
    unfold bindEpoll ctlEpoll
    split
    · rfl
    · dsimp only
      rw [if_neg]
      split_ifs with hep
      · exact not_false
      · exact fun hnone => hep ⟨rfl, hnone⟩
  rw [if_pos (hbind _)]

theorem asyncConnect_posted {valid : Bool} {connect : Option ℕ} {handler : η} {env : Env}
    (hfd : c._fd ≠ none) (h : c._state.connect = true) :
    c.asyncConnect valid connect handler env = (some .postedConnect, c) := by
  unfold asyncConnect
  rw [if_neg hfd, if_pos h]

/-- None may be posted when one is. -/
theorem not_connectable (hfd : c._fd ≠ none) (h : c._state.connect = true) (handler : η) :
    ¬ c.Connectable := by
  intro hc
  have hnone := hc 0 0 handler
  unfold Core.openFd at hnone
  rw [if_neg hfd, asyncConnect_posted hfd h] at hnone
  cases hnone

end Core

namespace ArmWorld

variable {η : Type*} {w w' : ArmWorld η}

theorem Armed.enabled (h : w.Armed) : w.entry.any (·.enabled) = true := by
  unfold Armed at h
  cases he : w.entry with
  | none =>
    rw [he] at h
    cases h
  | some e =>
    rw [he] at h
    exact (Bool.and_eq_true_iff.mp h).1

theorem event_step (h : w.entry.any (·.enabled) = true) :
    ∃ w₁, w.step .event = some w₁ ∧ w₁.op = w.op ∧ w₁.reported = true := ⟨_, if_pos h, rfl, rfl⟩

theorem connectComplete_step (hreported : w.reported = true) (htype : w.op.core._type.connect = true)
    (hcop : w.op.core._cop._impl = true) :
    ∃ w₁, w.step (.op .connectComplete) = some w₁ ∧ w₁.op.core = w.op.core.connectComplete := by
  have hop : w.op.step .connectComplete = some { w.op with core := w.op.core.connectComplete } :=
    if_pos ⟨htype, hcop⟩
  unfold step
  dsimp only
  rw [if_pos (fun _ => hreported), hop]
  exact ⟨_, rfl, rfl⟩

/-- A connect that is posted and armed completes after the next report. -/
theorem awaits (hflag : w.op.core._state.connect = true)
    (htype : w.op.core._type = { OpType.none with connect := true })
    (hcop : w.op.core._cop._impl = true) (harmed : w.Armed) : w.Awaits := by
  refine ⟨hflag, htype, harmed, ?_⟩
  obtain ⟨w₁, h₁, hop, hreported⟩ := event_step harmed.enabled
  obtain ⟨w₂, h₂, -⟩ := connectComplete_step (w := w₁) hreported (by rw [hop, htype]) (by rw [hop, hcop])
  exact ⟨w₁, w₂, h₁, h₂⟩

theorem step_op {a : OpAction η} (hs : w.step (.op a) = some w') :
    ∃ op, w.op.step a = some op ∧
      w' = { w with op := op, entry := w.opEntry a op.core, due := w.due && op.core._type.connect } := by
  unfold step at hs
  dsimp only at hs
  obtain ⟨-, hs⟩ := Option.ite_none_right_eq_some.mp hs
  obtain ⟨op, hop, rfl⟩ := Option.map_eq_some_iff.mp hs
  exact ⟨op, hop, rfl⟩

/-- The entry after an `AsyncConnect` that finds the descriptor bound. -/
theorem opEntry_bound {valid : Bool} {connect : Option ℕ} {handler : η} {env : Env} {c' : Core η}
    (hr : w.op.core.asyncConnect valid connect handler env = (none, c'))
    (hfd : w.op.core._fd ≠ none) (hfd' : c'._fd = w.op.core._fd)
    (hbind : w.op.core._state.bind = true) :
    w.opEntry (.asyncConnect valid connect handler env) c' = w.entry := by
  have hgiven : OpAction.given w.op.core (.asyncConnect valid connect handler env) = none := by
    unfold OpAction.given
    dsimp only
    rw [hr, if_neg (fun h => by rw [hbind] at h; cases h.2)]
  unfold opEntry
  rw [if_neg (not_or.mpr ⟨hfd, hfd' ▸ hfd⟩), hgiven]

/-- The entry after an `AsyncConnect` that registers the descriptor. -/
theorem opEntry_added {valid : Bool} {connect : Option ℕ} {handler : η} {env : Env} {c' : Core η}
    (hr : w.op.core.asyncConnect valid connect handler env = (none, c'))
    (hfd : w.op.core._fd ≠ none) (hfd' : c'._fd = w.op.core._fd)
    (hbind : w.op.core._state.bind = false) {events : EpollEvents}
    (hint : c'.interest = some events) :
    w.opEntry (.asyncConnect valid connect handler env) c' = some ⟨events, true⟩ := by
  have hgiven : OpAction.given w.op.core (.asyncConnect valid connect handler env) =
      some events := by
    unfold OpAction.given
    dsimp only
    rw [hr, if_pos ⟨rfl, hbind⟩]
    exact hint
  unfold opEntry
  rw [if_neg (not_or.mpr ⟨hfd, hfd' ▸ hfd⟩), hgiven]

/-! ## A connect that is posted already -/

/-- A step of the service thread cannot complete a connect that is not completable. -/
theorem completes_stuck {a : ArmAction η} (hc : w.Connecting) (hno : ¬ w.Completable)
    (ha : a.completes = true) (hs : w.step a = some w') : w'.Connecting ∧ ¬ w'.Completable := by
  cases a with
  | event =>
    obtain ⟨henabled, hs⟩ := Option.ite_none_right_eq_some.mp hs
    obtain rfl := Option.some.inj hs
    exact ⟨hc, fun h => hno ⟨h.1, h.2.1, .inr henabled⟩⟩
  | op a =>
    cases a with
    | connectComplete =>
      unfold step at hs
      dsimp only at hs
      obtain ⟨hreported, hs⟩ := Option.ite_none_right_eq_some.mp hs
      obtain ⟨op, hop, -⟩ := Option.map_eq_some_iff.mp hs
      obtain ⟨⟨htype, himpl⟩, -⟩ := Option.ite_none_right_eq_some.mp hop
      exact absurd ⟨htype, himpl, .inl (hreported rfl)⟩ hno
    | _ => cases ha
  | _ => cases ha

/-- The completion of a connect that is completable. -/
theorem Completable.complete (h : w.Completable) : ∃ (as : List (ArmAction η)) (w' : ArmWorld η),
    (∀ a ∈ as, a.completes = true) ∧ as.foldlM step w = some w' ∧
      w'.op.core = w.op.core.connectComplete := by
  obtain ⟨htype, himpl, hreported | henabled⟩ := h
  · obtain ⟨w', hs, hcore⟩ := connectComplete_step hreported htype himpl
    refine ⟨[.op .connectComplete], w', ?_, ?_, hcore⟩
    · intro a ha
      rw [List.mem_singleton.mp ha]
      rfl
    · rw [List.foldlM_cons, hs]
      rfl
  · obtain ⟨w₁, h₁, hop, hreported⟩ := event_step henabled
    obtain ⟨w', hs, hcore⟩ := connectComplete_step (w := w₁) hreported (by rw [hop, htype])
      (by rw [hop, himpl])
    refine ⟨[.event, .op .connectComplete], w', ?_, ?_, by rw [hcore, hop]⟩
    · intro a ha
      rcases List.mem_cons.mp ha with rfl | ha
      · rfl
      · rw [List.mem_singleton.mp ha]
        rfl
    · rw [List.foldlM_cons, h₁]
      change List.foldlM step w₁ [ArmAction.op .connectComplete] = _
      rw [List.foldlM_cons, hs]
      rfl

/-- **While a connect is posted** another one is possible again exactly when it can be completed. -/
theorem again_iff (hc : w.Connecting) (handler : η) : w.Again ↔ w.Completable := by
  constructor
  · rintro ⟨as, w', has, hrun, hconn⟩
    by_contra hno
    have hstuck : w'.Connecting ∧ ¬ w'.Completable := by
      clear hconn
      induction as generalizing w with
      | nil =>
        obtain rfl := Option.some.inj hrun
        exact ⟨hc, hno⟩
      | cons a as ih =>
        rw [List.foldlM_cons, Option.bind_eq_bind, Option.bind_eq_some_iff] at hrun
        obtain ⟨w₁, hs, hrun⟩ := hrun
        obtain ⟨hc₁, hno₁⟩ := completes_stuck hc hno (has a List.mem_cons_self) hs
        exact ih hc₁ (fun b hb => has b (List.mem_cons_of_mem a hb)) hrun hno₁
    exact Core.not_connectable hstuck.1.1 hstuck.1.2 handler hconn
  · intro h
    obtain ⟨as, w', has, hrun, hcore⟩ := h.complete
    refine ⟨as, w', has, hrun, ?_⟩
    rw [hcore]
    refine Core.connectable ?_
    obtain ⟨fd, hfd⟩ := Option.ne_none_iff_exists'.mp hc.1
    rw [Core.connectComplete, hfd]
    exact Bool.and_false _

theorem unposted_op {a : OpAction η} {op : OpWorld η} (h : w.op.core.Unposted)
    (hs : w.op.step a = some op) : op.core.Unposted := by
  cases a with
  | async d data size hander env =>
    obtain rfl := Option.some.inj hs
    exact h.async d data size hander env
  | asyncConnect valid connect handler env =>
    obtain rfl := Option.some.inj hs
    exact h.asyncConnect valid connect handler env
  | asyncAccept cli handler env =>
    obtain rfl := Option.some.inj hs
    exact h.frame (Core.asyncAccept_frame cli handler env)
  | lock d ctl =>
    obtain ⟨-, hs⟩ := Option.ite_none_right_eq_some.mp hs
    cases hs
    exact h.frame (Core.locked_frame ctl d)
  | finish ret so =>
    unfold OpWorld.step at hs
    dsimp only at hs
    split at hs
    · cases hs
    · obtain rfl := Option.some.inj hs
      exact h.frame (Core.setOper_frame _ _)
  | connectComplete =>
    obtain ⟨-, hs⟩ := Option.ite_none_right_eq_some.mp hs
    cases hs
    intro hfd
    have hflag : w.op.core._state.connect = false := h hfd
    rw [Core.connectComplete]
    dsimp only
    rw [hflag]
    rfl
  | acceptComplete =>
    obtain ⟨-, hs⟩ := Option.ite_none_right_eq_some.mp hs
    cases hs
    exact h
  | openFd fd =>
    obtain rfl := Option.some.inj hs
    unfold Core.openFd
    dsimp only
    split_ifs
    · exact fun hfd => nomatch hfd
    · exact h
  | close =>
    obtain rfl := Option.some.inj hs
    exact h.close
  | doClose =>
    obtain rfl := Option.some.inj hs
    exact fun _ => rfl

/-- **A connect that is posted can be completed**: the operation set has it alone, and its report is due
or to come. -/
structure Intact (w : ArmWorld η) : Prop where
  unposted : w.op.core.Unposted
  connecting : w.Connecting → w.op.core._type = { OpType.none with connect := true } ∧
    w.op.core._cop._impl = true ∧ (w.due = true ∨ w.entry.any (·.enabled) = true)
  due : w.due = true → w.reported = true

/-- An operation keeps a registration enabled while the descriptor is open. -/
theorem opEntry_enabled {a : OpAction η} {c' : Core η} (hfd : w.op.core._fd ≠ none)
    (hfd' : c'._fd ≠ none) (h : w.entry.any (·.enabled) = true) :
    (w.opEntry a c').any (·.enabled) = true := by
  unfold opEntry
  rw [if_neg (not_or.mpr ⟨hfd, hfd'⟩)]
  split
  · rfl
  · exact h

/-- An operation after which a connect is posted only if it was before, and is the same one. -/
theorem Intact.op (h : w.Intact) {a : OpAction η} {op : OpWorld η} (hop : w.op.step a = some op)
    (hsame : op.core._fd ≠ none → op.core._state.connect = true → w.Connecting ∧
      op.core._type = w.op.core._type ∧ op.core._cop = w.op.core._cop) :
    Intact { w with op := op, entry := w.opEntry a op.core, due := w.due && op.core._type.connect } := by
  refine ⟨unposted_op h.unposted hop, ?_, fun hd => h.due (Bool.and_eq_true_iff.mp hd).1⟩
  rintro ⟨hfd, hflag⟩
  obtain ⟨hc, htype, hcop⟩ := hsame hfd hflag
  obtain ⟨htype', himpl, hreport⟩ := h.connecting hc
  refine ⟨htype.trans htype', by rw [hcop]; exact himpl, ?_⟩
  dsimp only
  rcases hreport with hdue | henabled
  · left
    rw [hdue, htype, htype']
    rfl
  · exact .inr (opEntry_enabled hc.1 hfd henabled)

/-- `AsyncConnect` on a descriptor that it registers or that is still enabled. -/
theorem Intact.asyncConnect (h : w.Intact) {valid : Bool} {connect : Option ℕ} {handler : η} {env : Env}
    (hok : w.Undisturbed (.op (.asyncConnect valid connect handler env)))
    (hs : w.step (.op (.asyncConnect valid connect handler env)) = some w') : w'.Intact := by
  obtain ⟨op, hop, rfl⟩ := step_op hs
  have hun := unposted_op h.unposted hop
  have hdue : ∀ b, (w.due && b) = true → w.reported = true := fun _ hd =>
    h.due (Bool.and_eq_true_iff.mp hd).1
  obtain rfl := Option.some.inj hop
  have hout := Core.asyncConnect_outcome w.op.core valid connect handler env
  cases hr : w.op.core.asyncConnect valid connect handler env with
  | mk error c' =>
    dsimp only at hun ⊢
    rw [hr] at hout hun
    cases hout with
    | posted hfd hflag =>
      rw [hr] at hop
      exact h.op hop fun _ _ => ⟨⟨hfd, hflag⟩, rfl, rfl⟩
    | failed e _ hne hfd hflag hsame hbind =>
      refine ⟨hun, ?_, hdue _⟩
      rintro ⟨hfd', hflag'⟩
      have hfree := hflag.resolve_left (fun hnone => hfd' (hfd.trans hnone))
      exact absurd hflag' (by rw [hfree]; decide)
    | bound _ hposts hbind hfd hflag htype hcop =>
      have harmed := hok hposts hbind
      refine ⟨hun, fun _ => ⟨htype, hcop, .inr ?_⟩, hdue _⟩
      dsimp only
      rw [opEntry_bound hr hposts.fd hfd hbind]
      exact harmed.enabled
    | added _ hposts hbind hfd hflag htype hcop hint =>
      refine ⟨hun, fun _ => ⟨htype, hcop, .inr ?_⟩, hdue _⟩
      dsimp only
      rw [opEntry_added hr hposts.fd hfd hbind hint]
      rfl

/-- Any other operation that is undisturbed leaves no connect posted but the one that was. -/
theorem Intact.kept {a : OpAction η} {op : OpWorld η} (h : w.Intact) (hok : w.Undisturbed (.op a))
    (hno : ∀ valid connect handler env, a ≠ .asyncConnect valid connect handler env)
    (hop : w.op.step a = some op) (hfd : op.core._fd ≠ none)
    (hflag : op.core._state.connect = true) :
    w.Connecting ∧ op.core._type = w.op.core._type ∧ op.core._cop = w.op.core._cop := by
  cases a with
  | asyncConnect valid connect handler env => exact absurd rfl (hno valid connect handler env)
  | async d data size hander env =>
    obtain rfl := Option.some.inj hop
    have hf : Core.Frame w.op.core (w.op.core.async d data size hander env).2 := by
      cases d <;> exact Core.asyncSome_frame _ _ data size hander env
    exact absurd ⟨hf.fd ▸ hfd, hf.connect ▸ hflag⟩ hok
  | asyncAccept cli handler env =>
    obtain rfl := Option.some.inj hop
    have hf := Core.asyncAccept_frame (c := w.op.core) cli handler env
    exact absurd ⟨hf.fd ▸ hfd, hf.connect ▸ hflag⟩ hok
  | lock d ctl =>
    obtain ⟨hguard, hop⟩ := Option.ite_none_right_eq_some.mp hop
    cases hop
    have hf := Core.locked_frame (c := w.op.core) ctl d
    have hc : w.Connecting := ⟨hf.fd ▸ hfd, hf.connect ▸ hflag⟩
    -- `_DoExecOp` comes to a read or a write only without `E_CONNECT_OP`
    have hnone := hguard.2.2.1
    rw [(h.connecting hc).1] at hnone
    cases hnone
  | finish ret so =>
    unfold OpWorld.step at hop
    dsimp only at hop
    split at hop
    · cases hop
    · rename_i d _ _ _
      obtain rfl := Option.some.inj hop
      cases d <;> exact ⟨⟨hfd, hflag⟩, rfl, rfl⟩
  | connectComplete =>
    obtain ⟨-, hop⟩ := Option.ite_none_right_eq_some.mp hop
    cases hop
    obtain ⟨fd, hfd'⟩ := Option.ne_none_iff_exists'.mp hfd
    have hfree : w.op.core.connectComplete._state.connect = false := by
      have hsome : w.op.core._fd = some fd := hfd'
      rw [Core.connectComplete, hsome]
      exact Bool.and_false _
    exact absurd hflag (by rw [hfree]; decide)
  | acceptComplete =>
    obtain ⟨-, hop⟩ := Option.ite_none_right_eq_some.mp hop
    cases hop
    exact ⟨⟨hfd, hflag⟩, rfl, rfl⟩
  | openFd fd =>
    obtain rfl := Option.some.inj hop
    unfold Core.openFd at hfd hflag ⊢
    dsimp only at hfd hflag ⊢
    split_ifs at hfd hflag ⊢ with hnone
    · exact absurd hflag (by rw [h.unposted hnone]; decide)
    · exact ⟨⟨hfd, hflag⟩, rfl, rfl⟩
  | close =>
    obtain rfl := Option.some.inj hop
    unfold Core.close at hfd hflag ⊢
    dsimp only at hfd hflag ⊢
    split_ifs at hfd hflag ⊢
    · exact absurd rfl hfd
    · exact ⟨⟨hfd, hflag⟩, rfl, rfl⟩
    · exact ⟨⟨hfd, hflag⟩, rfl, rfl⟩
  | doClose =>
    obtain rfl := Option.some.inj hop
    exact absurd rfl hfd

theorem Intact.step {a : ArmAction η} (h : w.Intact) (hok : w.Undisturbed a) (hs : w.step a = some w') :
    w'.Intact := by
  cases a with
  | op a =>
    cases a with
    | asyncConnect valid connect handler env => exact h.asyncConnect hok hs
    | _ =>
      obtain ⟨op, hop, rfl⟩ := step_op hs
      exact h.op hop (h.kept hok (fun _ _ _ _ he => by cases he) hop)
  | connect valid timed res =>
    unfold ArmWorld.step at hs
    dsimp only at hs
    split at hs
    · obtain rfl := Option.some.inj hs
      exact ⟨fun _ => rfl, fun hc => absurd hc.2 Bool.false_ne_true, h.due⟩
    · obtain rfl := Option.some.inj hs
      exact h
  | cancel ctl =>
    unfold ArmWorld.step at hs
    dsimp only at hs
    split at hs
    · obtain rfl := Option.some.inj hs
      exact ⟨h.unposted, fun hc => absurd hc hok, h.due⟩
    · obtain rfl := Option.some.inj hs
      exact h
  | event =>
    obtain ⟨-, hs⟩ := Option.ite_none_right_eq_some.mp hs
    obtain rfl := Option.some.inj hs
    refine ⟨h.unposted, fun hc => ?_, fun _ => rfl⟩
    obtain ⟨htype, himpl, -⟩ := h.connecting hc
    refine ⟨htype, himpl, .inl ?_⟩
    dsimp only
    rw [htype]
    exact Bool.or_true _
  | wait =>
    obtain ⟨hdue, hs⟩ := Option.ite_none_left_eq_some.mp hs
    obtain rfl := Option.some.inj hs
    refine ⟨h.unposted, fun hc => ?_, fun hd => absurd hd hdue⟩
    exact h.connecting hc

/-- A connect that is refused, and its completion. -/
def refused : List (ArmAction ℕ) :=
  [.op (.openFd 3), .op (.asyncConnect true none 0 OpWorld.fine), .event, .op .connectComplete,
    .wait]

/-- A read that is posted beside a connect. -/
def disturbed : List (ArmAction ℕ) :=
  [.op (.openFd 3), .op (.asyncConnect true none 0 OpWorld.fine),
    .op (.async .read 100 10 7 OpWorld.fine)]

/-- The read takes the place of the connect in the operation set, and the connect that is never completed
refuses every other one. -/
theorem not_connects_again :
    ¬ Every step Promised start (disturbed ++ [.op (.asyncConnect true none 1 OpWorld.fine)]) := by
  intro h
  obtain ⟨w, hw, w', hs, herror, hc, htype⟩ : ∃ w, disturbed.foldlM step start = some w ∧
      ∃ w', w.step (.op (.asyncConnect true none 1 OpWorld.fine)) = some w' ∧
        (w.op.core.asyncConnect true none 1 OpWorld.fine).1 = some .postedConnect ∧
        w'.Connecting ∧ w'.op.core._type.connect = false :=
    ⟨_, rfl, _, rfl, rfl, ⟨Option.some_ne_none 3, rfl⟩, rfl⟩
  have hpromised := h.last hw hs
  unfold Promised at hpromised
  dsimp only at hpromised
  rw [herror] at hpromised
  have hcompletable := (again_iff hc 1).mp hpromised
  rw [hcompletable.1] at htype
  cases htype

end ArmWorld

end Netlib
