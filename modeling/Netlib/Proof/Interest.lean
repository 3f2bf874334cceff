import Netlib.Proof.Slots

/-!
# The epoll interest

A socket registers one mask for reading and writing together, so each of the four
routines writes the bits of the other direction too. They keep the mask, `_type` and the
flags in step, and with them no pending operation loses its wake-up (`awake`).
-/

namespace Netlib

open Lib

variable {η : Type*}

namespace Core

variable {c : Core η} {d : Dir}

/-! ## The fields of a call and of a completion -/

@[simp] theorem has_of (d d' : Dir) (both : Bool) :
    (EpollEvents.of d both).has d' = if d' = d then true else both := by
  cases d <;> cases d' <;> rfl

@[simp] theorem has_postType (c : Core η) (d d' : Dir) :
    (c.postType d).has d' = if d' = d then true else c.flag d' := by
  cases d <;> cases d' <;> rfl

theorem flag_post (c : Core η) (d d' : Dir) :
    (c.post d).flag d' = if d' = d then true else c.flag d' := by
  cases d <;> cases d' <;> rfl

/-- What an accepted call leaves. -/
structure Posted (c : Core η) (d : Dir) (c' : Core η) : Prop where
  valid : c._fd ≠ none
  fd : c'._fd = c._fd
  flag : ∀ d', c'.flag d' = if d' = d then true else c.flag d'
  type : c'._type = c.postType d
  interest : c'.interest = some (.of d (c.flag d.other))
  epoll : c'._epoll ≠ none

/-- `CtlEpoll` that succeeds has given the mask to a service. -/
theorem ctlEpoll_none {env : Env} {ctl : EpollCtl} {ev : EpollEvents}
    (h : (c.ctlEpoll env ctl ev).1 = none) :
    ∃ ep, (c.ctlEpoll env ctl ev).2 = { c with _epoll := some ep, interest := some ev } := by
  unfold ctlEpoll at h ⊢
  generalize (if ctl = .add ∧ c._epoll = none then env.service else c._epoll) = epoll at h ⊢
  dsimp only at h ⊢
  cases epoll with
  | none =>
    rw [if_pos rfl] at h
    cases h
  | some ep =>
    rw [if_neg (Option.some_ne_none ep)] at h ⊢
    split at h
    · cases h
    · exact ⟨ep, rfl⟩

theorem asyncSome_posted {posted : SockError} {data size : ℕ} {hander : η} {env : Env}
    (h : (c.asyncSome d posted data size hander env).1 = none) :
    Posted c d (c.asyncSome d posted data size hander env).2 := by
  unfold asyncSome at h ⊢
  generalize hop : (⟨data, size, true, some hander⟩ : RwOperation η) = op at h ⊢
  have hflag : ∀ d', (c.setOper op d).flag d' = c.flag d' := flag_setOper op d
  have hfd : (c.setOper op d)._fd = c._fd := by cases d <;> rfl
  generalize c.setOper op d = c₀ at h hflag hfd ⊢
  dsimp only at h ⊢
  split at h
  · cases h
  rename_i h1
  rw [if_neg h1]
  split at h
  · cases h
  rename_i h2
  rw [if_neg h2]
  cases hn : c₀.setNonblock env with
  | error e =>
    rw [hn] at h
    cases h
  | ok c₁ =>
    obtain ⟨-, hc₁⟩ := setNonblock_ok hn
    have hflag₁ : ∀ d', c₁.flag d' = c.flag d' := by
      intro d'
      rw [hc₁, ← hflag]
      cases d' <;> rfl
    rw [hn] at h
    dsimp only at h ⊢
    generalize (if c₁._state.bind = true then EpollCtl.mod else .add) = ctl at h ⊢
    cases hr : (c₁.post d).ctlEpoll env ctl (.of d (c₁.flag d.other)) with
    | mk error c₂ =>
      rw [hr] at h
      cases error with
      | some e => cases h
      | none =>
        obtain ⟨ep, hc₂⟩ := ctlEpoll_none (congrArg Prod.fst hr)
        rw [hr] at hc₂
        dsimp only at hc₂ ⊢
        subst hc₂
        refine ⟨hfd ▸ h1, ?_, ?_, ?_, ?_, Option.some_ne_none ep⟩
        · rw [← hfd, hc₁]
          cases d <;> rfl
        · intro d'
          rw [← hflag₁]
          exact flag_post c₁ d d'
        · apply (show (c₁.post d)._type = c₁.postType d by cases d <;> rfl).trans
          unfold postType
          rw [hflag₁]
        · rw [← hflag₁]

/-- A call on an open socket in non-blocking mode comes to `CtlEpoll`. -/
theorem asyncSome_reaches {posted : SockError} {data size : ℕ} {hander : η} {env : Env}
    (hfd : c._fd ≠ none) (hflag : c.flag d = false) (hblock : c._state.block = false)
    (h : (c.asyncSome d posted data size hander env).1 ≠ none) : c.CtlFails d env := by
  refine ⟨hfd, hflag, fun hb => absurd hb (by rw [hblock]; decide), ?_⟩
  unfold asyncSome at h
  generalize hop : (⟨data, size, true, some hander⟩ : RwOperation η) = op at h
  have hflag₀ : ∀ d', (c.setOper op d).flag d' = c.flag d' := flag_setOper op d
  have hfd₀ : (c.setOper op d)._fd = c._fd := by cases d <;> rfl
  have hep₀ : (c.setOper op d)._epoll = c._epoll := by cases d <;> rfl
  have hst₀ : (c.setOper op d)._state = c._state := by cases d <;> rfl
  generalize c.setOper op d = c₀ at h hflag₀ hfd₀ hep₀ hst₀
  have hno : c₀.setNonblock env = .ok c₀ := by
    unfold setNonblock
    rw [hst₀, hblock]
    rfl
  dsimp only at h
  rw [if_neg (hfd₀ ▸ hfd), hflag₀, hflag, if_neg Bool.false_ne_true, hno] at h
  dsimp only at h
  rw [hst₀] at h
  have hfails := ctlEpoll_fails (c₀.post d) env (if c._state.bind = true then .mod else .add)
    (.of d (c₀.flag d.other))
  have hep₁ : (c₀.post d)._epoll = c._epoll := by
    rw [← hep₀]
    cases d <;> rfl
  generalize (c₀.post d).ctlEpoll env _ _ = r at h hfails
  rcases r with ⟨error, c₂⟩
  cases error with
  | none => exact absurd rfl h
  | some e =>
    have hctl := hfails.mp (Option.some_ne_none e)
    rw [hep₁] at hctl
    rcases hctl with hctl | ⟨hep, hmod | hsvc⟩
    · exact .inl hctl
    · refine .inr ⟨hep, .inl ?_⟩
      by_contra hb
      rw [if_neg hb] at hmod
      cases hmod
    · exact .inr ⟨hep, .inr hsvc⟩

theorem async_reaches {data size : ℕ} {hander : η} {env : Env} (hfd : c._fd ≠ none)
    (hflag : c.flag d = false) (hblock : c._state.block = false)
    (h : (c.async d data size hander env).1 ≠ none) : c.CtlFails d env := by
  cases d
  · exact asyncSome_reaches hfd hflag hblock h
  · exact asyncSome_reaches hfd hflag hblock h

theorem async_posted {data size : ℕ} {hander : η} {env : Env}
    (h : (c.async d data size hander env).1 = none) :
    Posted c d (c.async d data size hander env).2 := by
  cases d
  · exact asyncSome_posted h
  · exact asyncSome_posted h

/-- What the locked part of a completion leaves. -/
structure Unlocked (c : Core η) (d : Dir) (c' : Core η) : Prop where
  fd : c'._fd = c._fd
  epoll : c'._epoll = c._epoll
  flag : ∀ d', c'.flag d' = if d' = d then false else c.flag d'
  type : ∀ d', c'._type.has d' = if d' = d then false else c._type.has d'
  interest : ∀ d', c'.interest.any (·.has d') = if d' = d then false else c._type.has d'

theorem ctlEpoll_mod (c : Core η) (ev : EpollEvents) (hep : c._epoll ≠ none) :
    (c.ctlEpoll ⟨none, none, none⟩ .mod ev).2 = { c with interest := some ev } := by
  have hno : ¬ (EpollCtl.mod = .add ∧ c._epoll = none) := fun h => hep h.2
  unfold ctlEpoll
  simp only [if_neg hno, if_neg hep]

theorem locked_unlocked (hfd : c._fd ≠ none) (hep : c._epoll ≠ none) :
    Unlocked c d (c.locked none d).2.2 := by
  cases d with
  | read =>
    unfold locked readLocked
    dsimp only
    rw [if_neg hfd, ctlEpoll_mod ((c.setFlag false .read).setType { c._type with read := false }) _ hep]
    refine ⟨rfl, rfl, fun d' => ?_, fun d' => ?_, fun d' => ?_⟩
    all_goals cases d' <;> rfl
  | write =>
    unfold locked writeLocked
    dsimp only
    rw [if_neg (show (c.setType { c._type with write := false })._fd ≠ none from hfd)]
    dsimp only
    rw [ctlEpoll_mod ((c.setType { c._type with write := false }).setFlag false .write) _ hep]
    refine ⟨rfl, rfl, fun d' => ?_, fun d' => ?_, fun d' => ?_⟩
    all_goals cases d' <;> rfl

theorem ctlEpoll_fd (c : Core η) (env : Env) (ctl : EpollCtl) (ev : EpollEvents) :
    (c.ctlEpoll env ctl ev).2._fd = c._fd := by
  obtain ⟨ep, ev', h⟩ := ctlEpoll_core c env ctl ev
  rw [h]

theorem locked_fd (c : Core η) (ctl : Option ℕ) (d : Dir) : (c.locked ctl d).2.2._fd = c._fd := by
  cases d with
  | read =>
    unfold locked readLocked
    dsimp only
    split
    · rfl
    · exact ctlEpoll_fd _ _ _ _
  | write =>
    unfold locked writeLocked
    dsimp only
    split
    · rfl
    · exact ctlEpoll_fd _ _ _ _

theorem other_ne (d : Dir) : d.other ≠ d := by
  cases d <;> decide

theorem Posted.synced {c' : Core η} (h : Posted c d c') : c'.Synced := by
  intro d'
  rw [h.interest, h.type, h.flag, Option.any_some, has_of, has_postType]
  rcases dir_eq d d' with rfl | rfl
  · simp
  · rw [if_neg (other_ne d)]
    exact ⟨Iff.rfl, Iff.rfl⟩

theorem Unlocked.synced {c' : Core η} (h : Unlocked c d c') (hs : c.Synced) : c'.Synced := by
  intro d'
  rw [h.interest, h.type, h.flag]
  split
  · exact ⟨Iff.rfl, Iff.rfl⟩
  · exact ⟨(hs d').2, (hs d').2⟩

/-- `Synced` is about three fields. -/
theorem Synced.congr {c' : Core η} (hs : c.Synced) (hi : c'.interest = c.interest)
    (ht : c'._type = c._type) (hf : ∀ d, c'.flag d = c.flag d) : c'.Synced := by
  intro d'
  rw [hi, ht, hf]
  exact hs d'

end Core

/-! ## Runs -/

namespace OpWorld

open Netlib.Core

variable {w w' : OpWorld η} {d : Dir}

/-- The invariant: the flag of a pending operation is set until its completion takes the
lock, and the three copies agree from the first accepted call on. -/
structure Wake (w : OpWorld η) : Prop where
  inv : w.Inv
  impl : ∀ d, (w.core.oper d)._handler ≠ none → (w.core.oper d)._impl = true
  flags : w.core._fd ≠ none → ∀ d,
    w.core.flag d = true ↔ (w.core.oper d)._handler ≠ none ∧ ¬ w.Completing d
  live : (∃ d, w.accepted d ≠ []) → w.core._fd ≠ none → w.core._epoll ≠ none ∧ w.core.Synced

theorem Wake.awake (h : w.Wake) (hfd : w.core._fd ≠ none) (hs : w.core.Synced) : w.Awake := by
  refine ⟨hs, ?_, ?_⟩
  · intro d hh hc
    have hflag := (h.flags hfd d).2 ⟨hh, hc⟩
    exact ⟨(hs d).1.2 hflag, (hs d).2.2 hflag⟩
  · intro d hbit
    have hflag : w.core.flag d = true := by
      rcases hbit with hbit | hbit
      · exact (hs d).1.1 hbit
      · exact (hs d).2.1 hbit
    obtain ⟨hh, hc⟩ := (h.flags hfd d).1 hflag
    exact ⟨h.impl d hh, hh, hc⟩

/-- The operation in a slot was accepted. -/
theorem Inv.accepted_ne (h : w.Inv) (hh : (w.core.oper d)._handler ≠ none) :
    w.accepted d ≠ [] := by
  rw [h.conserved d, pending_some hh]
  simp

/-- A step that changes only the state of the socket. -/
theorem Wake.same (h : w.Wake) {c : Core η} (ho : ∀ d, c.oper d = w.core.oper d)
    (hfd : c._fd ≠ none → w.core._fd ≠ none ∧ c._epoll = w.core._epoll ∧
      c.interest = w.core.interest ∧ c._type = w.core._type ∧ ∀ d, c.flag d = w.core.flag d) :
    ({ w with core := c } : OpWorld η).Wake := by
  refine ⟨h.inv.same rfl rfl rfl ho, ?_, ?_, ?_⟩
  · intro d
    rw [ho]
    exact h.impl d
  · intro hv d
    obtain ⟨hfd', -, -, -, hf⟩ := hfd hv
    rw [ho, hf]
    exact h.flags hfd' d
  · intro ha hv
    obtain ⟨hfd', hep, hi, ht, hf⟩ := hfd hv
    obtain ⟨hep', hs⟩ := h.live ha hfd'
    exact ⟨hep ▸ hep', hs.congr hi ht hf⟩

/-- A rejected call. -/
theorem Wake.rejected {c : Core η} (h : w.Wake) (hfree : (w.core.oper d)._handler = none)
    (hinv : ({ w with core := c } : OpWorld η).Inv) (hop : c.oper d = .clear)
    (hoth : c.oper d.other = w.core.oper d.other) (hflag : ∀ d', c.flag d' = w.core.flag d')
    (hfd : c._fd ≠ none → w.core._fd ≠ none)
    (hlive : (∃ d, w.accepted d ≠ []) → c._fd ≠ none → c._epoll = w.core._epoll ∧
      c.interest = w.core.interest ∧ c._type = w.core._type) :
    ({ w with core := c } : OpWorld η).Wake := by
  refine ⟨hinv, ?_, ?_, ?_⟩
  · intro d' hh
    dsimp only at hh ⊢
    rcases dir_eq d d' with rfl | rfl
    · rw [hop] at hh
      exact absurd rfl hh
    · rw [hoth] at hh ⊢
      exact h.impl _ hh
  · intro hv d'
    have hold := h.flags (hfd hv) d'
    dsimp only
    rw [hflag, hold]
    rcases dir_eq d d' with rfl | rfl
    · rw [hop, hfree]
      rfl
    · rw [hoth]
      rfl
  · intro ha hv
    obtain ⟨hep', hs⟩ := h.live ha (hfd hv)
    obtain ⟨hep, hi, ht⟩ := hlive ha hv
    exact ⟨hep ▸ hep', hs.congr hi ht hflag⟩

/-- An accepted call. -/
theorem Wake.accept {c : Core η} {op : RwOperation η} (h : w.Wake)
    (hfree : (w.core.oper d)._handler = none) (hp : Posted w.core d c)
    (hop : c.oper d = op) (hh : op._handler ≠ none) (himpl : op._impl = true)
    (hoth : c.oper d.other = w.core.oper d.other) (hcore : w'.core = c)
    (hc : w'.completing = w.completing) (hinv : w'.Inv) : w'.Wake := by
  -- a completion that is under way is of the other operation
  have hno : ¬ w.Completing d := by
    rintro ⟨n, e, hd⟩
    exact h.inv.completing d n e hd hfree
  have hcomp : ∀ d', w'.Completing d' ↔ w.Completing d' := by
    intro d'
    unfold Completing
    rw [hc]
  refine ⟨hinv, ?_, ?_, ?_⟩
  · intro d' hh'
    rw [hcore] at hh' ⊢
    rcases dir_eq d d' with rfl | rfl
    · rw [hop]
      exact himpl
    · rw [hoth] at hh' ⊢
      exact h.impl _ hh'
  · intro hv d'
    rw [hcomp, hcore, hp.flag]
    rcases dir_eq d d' with rfl | rfl
    · rw [if_pos rfl, hop]
      exact ⟨fun _ => ⟨hh, hno⟩, fun _ => rfl⟩
    · rw [if_neg (other_ne d), hoth]
      exact h.flags hp.valid _
  · intro _ _
    rw [hcore]
    exact ⟨hp.epoll, hp.synced⟩

theorem Wake.async {data size : ℕ} {hander : η} {env : Env} (h : w.Wake)
    (hok : w.Plain (.async d data size hander env))
    (hs : w.step (.async d data size hander env) = some w') : w'.Wake := by
  obtain ⟨hfree, hctl⟩ := hok
  have hinv : w'.Inv := h.inv.async hfree hs
  have hout := async_outcome w.core d data size hander env
  have hposted : (w.core.async d data size hander env).1 = none →
      Posted w.core d (w.core.async d data size hander env).2 := async_posted
  simp only [step] at hs
  generalize w.core.async d data size hander env = r at hs hout hposted
  cases hout with
  | refused e hno =>
    obtain rfl := Option.some.inj hs
    refine h.rejected hfree hinv (oper_setOper _ _) (oper_setOper_other _ _)
      (fun d' => flag_setOper _ _ _) ?_ ?_
    · intro hv
      cases d <;> exact hv
    · intro _ _
      cases d <;> exact ⟨rfl, rfl, rfl⟩
  | failed e c' hf hop hoth hcop haop hflag htype hbind =>
    obtain rfl := Option.some.inj hs
    refine h.rejected hfree hinv hop hoth hflag (fun _ => hf.1) ?_
    intro ha _
    -- after an accepted call there is a service, and `epoll_ctl` has not failed
    rcases hf.2.2.2 with hbad | ⟨hep, -⟩
    · exact absurd hctl hbad
    · exact absurd hep (h.live ha hf.1).1
  | posted c' hop hoth =>
    obtain rfl := Option.some.inj hs
    exact h.accept hfree (hposted rfl) hop (Option.some_ne_none hander) rfl hoth rfl rfl hinv

theorem Wake.lock (h : w.Wake) (hs : w.step (.lock d none) = some w') : w'.Wake := by
  have hinv : w'.Inv := h.inv.lock hs
  simp only [OpWorld.step] at hs
  obtain ⟨⟨hfree, -, -, -, himpl⟩, hs⟩ := Option.ite_none_right_eq_some.mp hs
  cases hs
  have hh : (w.core.oper d)._handler ≠ none := h.inv.impl d himpl
  have ha : ∃ d, w.accepted d ≠ [] := ⟨d, h.inv.accepted_ne hh⟩
  have hun : w.core._fd ≠ none → Unlocked w.core d (w.core.locked none d).2.2 := fun hfd =>
    locked_unlocked hfd (h.live ha hfd).1
  refine ⟨hinv, ?_, ?_, ?_⟩
  · intro d'
    dsimp only
    rw [locked_oper]
    exact h.impl d'
  · intro hv d'
    dsimp only at hv ⊢
    rw [locked_fd] at hv
    rw [locked_oper, (hun hv).flag]
    rcases dir_eq d d' with rfl | rfl
    · rw [if_pos rfl]
      refine ⟨fun hf => absurd hf Bool.false_ne_true, fun hc => absurd ?_ hc.2⟩
      exact ⟨_, _, rfl⟩
    · rw [if_neg (other_ne d), h.flags hv]
      refine and_congr_right fun _ => not_congr ⟨?_, ?_⟩
      · rintro ⟨n, e, hd⟩
        rw [hfree] at hd
        cases hd
      · rintro ⟨n, e, hd⟩
        exact absurd (congrArg Prod.fst (Option.some.inj hd)).symm (other_ne d)
  · intro _ hv
    dsimp only at hv ⊢
    rw [locked_fd] at hv
    obtain ⟨hep, hsync⟩ := h.live ha hv
    exact ⟨(hun hv).epoll ▸ hep, (hun hv).synced hsync⟩

theorem Wake.finish {ret : ℤ} {so : Option ℕ} (h : w.Wake)
    (hs : w.step (.finish ret so) = some w') : w'.Wake := by
  have hinv : w'.Inv := h.inv.finish hs
  simp only [step] at hs
  split at hs
  · cases hs
  · rename_i d notify error hc
    obtain rfl := Option.some.inj hs
    have hother : ¬ w.Completing d.other := by
      rintro ⟨n, e, hd⟩
      rw [hc] at hd
      exact absurd (congrArg Prod.fst (Option.some.inj hd)).symm (other_ne d)
    refine ⟨hinv, ?_, ?_, ?_⟩
    · intro d' hh
      dsimp only at hh ⊢
      rcases dir_eq d d' with rfl | rfl
      · rw [oper_setOper] at hh
        exact absurd rfl hh
      · rw [oper_setOper_other] at hh ⊢
        exact h.impl _ hh
    · intro hv d'
      have hfd : w.core._fd ≠ none := by
        dsimp only at hv
        cases d <;> exact hv
      dsimp only
      rw [flag_setOper, h.flags hfd]
      rcases dir_eq d d' with rfl | rfl
      · -- the flag was cleared under the lock
        rw [oper_setOper]
        exact ⟨fun hf => absurd ⟨_, _, hc⟩ hf.2, fun hf => absurd rfl hf.1⟩
      · rw [oper_setOper_other]
        refine and_congr_right fun _ => ⟨?_, fun _ => hother⟩
        intro _
        rintro ⟨n, e, hd⟩
        cases hd
    · intro _ hv
      have hfd : w.core._fd ≠ none := by
        dsimp only at hv
        cases d <;> exact hv
      have ha : ∃ d, w.accepted d ≠ [] := ⟨d, h.inv.accepted_ne (h.inv.completing d _ _ hc)⟩
      obtain ⟨hep, hsync⟩ := h.live ha hfd
      dsimp only
      refine ⟨?_, hsync.congr ?_ ?_ fun d' => flag_setOper _ d d'⟩
      · cases d <;> exact hep
      · cases d <;> rfl
      · cases d <;> rfl

theorem Wake.close (h : w.Wake) (hs : w.step .close = some w') : w'.Wake := by
  obtain rfl := Option.some.inj hs
  refine h.same (close_oper _) fun hv => ?_
  unfold Core.close at hv ⊢
  split_ifs at hv ⊢
  · exact absurd rfl hv
  · exact ⟨hv, rfl, rfl, rfl, fun d => by cases d <;> rfl⟩
  · exact ⟨hv, rfl, rfl, rfl, fun _ => rfl⟩

theorem Wake.step {a : OpAction η} (h : w.Wake) (hok : w.Plain a) (hs : w.step a = some w') :
    w'.Wake := by
  cases a with
  | async d data size hander env => exact h.async hok hs
  | lock d ctl =>
    obtain rfl : ctl = none := hok
    exact h.lock hs
  | finish ret so => exact h.finish hs
  | close => exact h.close hs
  | doClose =>
    obtain rfl := Option.some.inj hs
    refine h.same ?_ fun hv => absurd rfl hv
    intro d
    cases d <;> rfl
  | asyncConnect valid connect handler env => exact absurd hok id
  | asyncAccept cli handler env => exact absurd hok id
  | connectComplete => exact absurd hok id
  | acceptComplete => exact absurd hok id
  | openFd fd => exact absurd hok id

theorem idle_wake {c : Core η} (hc : c.Idle) : (idle c).Wake := by
  have hno : ∀ d, (c.oper d)._handler = none := by
    intro d
    rw [hc.oper]
    rfl
  refine ⟨⟨?_, ?_, ?_⟩, ?_, ?_, ?_⟩
  · intro d
    rw [pending_none (hno d)]
    rfl
  · intro d hi
    rw [show (idle c).core = c from rfl, hc.oper] at hi
    cases hi
  · intro d n e h
    cases h
  · intro d h
    exact absurd (hno d) h
  · intro _ d
    rw [show (idle c).core = c from rfl, hc.flag, hno]
    exact ⟨fun h => absurd h Bool.false_ne_true, fun h => absurd rfl h.1⟩
  · rintro ⟨d, hd⟩
    exact absurd rfl hd

theorem reach_wake {c : Core η} (hc : c.Idle) (h : Reach step Plain (idle c) w) : w.Wake :=
  h.inv (idle_wake hc) fun _ _ _ hi hok hs => hi.step hok hs

/-! ## From the first call on, when a service runs -/

/-- Until a call is accepted the socket is idle. -/
structure Early (w : OpWorld η) : Prop where
  wake : w.Wake
  idle : (∀ d, w.accepted d = []) → w.core._fd ≠ none → w.core.Idle

theorem Idle.setOper {c : Core η} (hc : c.Idle) (d : Dir) : (c.setOper .clear d).Idle := by
  refine ⟨?_, ?_, ?_, ?_, ?_, ?_⟩
  · cases d <;> exact hc.fd
  · intro d'
    rw [flag_setOper]
    exact hc.flag d'
  · cases d <;> exact hc.type
  · intro d'
    rcases dir_eq d d' with rfl | rfl
    · exact oper_setOper _ _
    · rw [oper_setOper_other]
      exact hc.oper _
  · cases d <;> exact hc.block
  · cases d <;> exact hc.bind

theorem Idle.close {c : Core η} (hc : c.Idle) (hv : c.close._fd ≠ none) :
    c.close.Idle ∧ c.close.interest = c.interest := by
  unfold Core.close at hv ⊢
  split_ifs at hv ⊢
  · exact absurd rfl hv
  · refine ⟨⟨hv, ?_, hc.type, ?_, hc.block, hc.bind⟩, rfl⟩
    · intro d
      rw [← hc.flag d]
      cases d <;> rfl
    · intro d
      rw [← hc.oper d]
      cases d <;> rfl
  · exact ⟨hc, rfl⟩

/-- Before the first accepted call the slots are free. -/
theorem Inv.no_oper (h : w.Inv) (ha : ∀ d, w.accepted d = []) (d : Dir) :
    (w.core.oper d)._handler = none := by
  by_contra hh
  exact h.accepted_ne hh (ha d)

/-- A step to a state before the first accepted call. A call that it rejects leaves no
mask: the descriptor could not be made non-blocking. -/
theorem Early.back {a : OpAction η} (h : w.Early) (hok : w.Served a) (hs : w.step a = some w')
    (ha : ∀ d, w'.accepted d = []) (hv : w'.core._fd ≠ none) :
    (∀ d, w.accepted d = []) ∧ w.core._fd ≠ none ∧ w'.core.Idle ∧
      w'.core.interest = w.core.interest ∧
      ((∃ d data size hander env, a = .async d data size hander env) →
        w.core.interest = none) := by
  cases a with
  | async d data size hander env =>
    obtain ⟨⟨hfree, hctl⟩, hsvc⟩ := hok
    have hout := async_outcome w.core d data size hander env
    have hreach : w.core._fd ≠ none → w.core.flag d = false → w.core._state.block = false →
        (w.core.async d data size hander env).1 ≠ none → w.core.CtlFails d env := async_reaches
    simp only [OpWorld.step] at hs
    generalize w.core.async d data size hander env = r at hs hout hreach
    cases hout with
    | refused e hno =>
      obtain rfl := Option.some.inj hs
      have hfd : w.core._fd ≠ none := by
        dsimp only at hv
        cases d <;> exact hv
      have hidle := h.idle ha hfd
      refine ⟨ha, hfd, Idle.setOper hidle d, by cases d <;> rfl, ?_⟩
      intro _
      apply hidle.block
      by_contra hb
      exact hno (hreach hfd (hidle.flag d) (Bool.not_eq_true _ ▸ hb) (Option.some_ne_none e))
    | failed e c' hf =>
      obtain rfl := Option.some.inj hs
      have hidle := h.idle ha hf.1
      rcases hf.2.2.2 with hbad | ⟨hep, hbind | hnone⟩
      · exact absurd hctl hbad
      · exact absurd hep (hidle.bind hbind)
      · exact absurd hnone hsvc
    | posted c' hop hoth =>
      obtain rfl := Option.some.inj hs
      have had := ha d
      dsimp only at had
      rw [if_pos rfl, Function.update_self] at had
      exact absurd had (List.append_ne_nil_of_right_ne_nil _ (List.cons_ne_nil _ _))
  | lock d ctl =>
    simp only [OpWorld.step] at hs
    obtain ⟨⟨-, -, -, -, himpl⟩, hs⟩ := Option.ite_none_right_eq_some.mp hs
    cases hs
    exact absurd (h.wake.inv.no_oper ha d) (h.wake.inv.impl d himpl)
  | finish ret so =>
    simp only [OpWorld.step] at hs
    split at hs
    · cases hs
    · rename_i d notify error hc
      obtain rfl := Option.some.inj hs
      exact absurd (h.wake.inv.no_oper ha d) (h.wake.inv.completing d _ _ hc)
  | close =>
    obtain rfl := Option.some.inj hs
    have hfd : w.core._fd ≠ none := by
      intro hn
      apply hv
      dsimp only
      unfold Core.close
      rw [if_neg fun hc => hc.1 hn, hn]
    obtain ⟨hidle, hi⟩ := Idle.close (h.idle ha hfd) hv
    exact ⟨ha, hfd, hidle, hi, by rintro ⟨_, _, _, _, _, ⟨⟩⟩⟩
  | doClose =>
    obtain rfl := Option.some.inj hs
    exact absurd rfl hv
  | asyncConnect valid connect handler env => exact absurd hok id
  | asyncAccept cli handler env => exact absurd hok id
  | connectComplete => exact absurd hok id
  | acceptComplete => exact absurd hok id
  | openFd fd => exact absurd hok id

theorem Served.plain {a : OpAction η} (hok : w.Served a) : w.Plain a := by
  cases a with
  | async d data size hander env => exact hok.1
  | _ => exact hok

theorem Early.step {a : OpAction η} (h : w.Early) (hok : w.Served a) (hs : w.step a = some w') :
    w'.Early :=
  ⟨h.wake.step hok.plain hs, fun ha hv => (h.back hok hs ha hv).2.2.1⟩

theorem reach_early {c : Core η} (hc : c.Idle) (h : Reach step Served (idle c) w) : w.Early :=
  h.inv ⟨idle_wake hc, fun _ _ => hc⟩ fun _ _ _ hi hok hs => hi.step hok hs

/-- After the first call: early, and without a mask while nothing is accepted. -/
theorem Early.synced (h : w.Early) (hfd : w.core._fd ≠ none)
    (hi : (∀ d, w.accepted d = []) → w.core.interest = none) : w.core.Synced := by
  by_cases ha : ∀ d, w.accepted d = []
  · have hidle := h.idle ha hfd
    intro d
    rw [hi ha, hidle.type, hidle.flag]
    cases d <;> decide
  · push Not at ha
    exact (h.wake.live ha hfd).2

/-- An accepted socket is idle. -/
theorem idle_accepted (fd : ℕ) : ((Core.init : Core η).openFd fd).Idle := by
  refine ⟨Option.some_ne_none fd, ?_, rfl, ?_, fun _ => rfl, ?_⟩
  · intro d
    cases d <;> rfl
  · intro d
    cases d <;> rfl
  · intro h
    cases h

/-- So is a socket whose `AsyncConnect` has completed. -/
theorem idle_connected {fd : ℕ} {valid : Bool} {connect : Option ℕ} {handler : η} {env : Env}
    (h : (((Core.init : Core η).openFd fd).asyncConnect valid connect handler env).1 = none) :
    (((Core.init : Core η).openFd fd).asyncConnect valid connect handler env).2.connectComplete.Idle := by
  rcases env with ⟨nonblock, service, ctl⟩
  -- the connect is accepted when nothing fails
  obtain ⟨rfl, rfl, rfl, rfl, s, rfl⟩ : valid = true ∧ nonblock = none ∧ connect = none ∧
      ctl = none ∧ ∃ s, service = some s := by
    rcases valid with _ | _ <;> rcases nonblock with _ | _ <;> rcases connect with _ | _ <;>
      rcases ctl with _ | _ <;> rcases service with _ | s
    all_goals first
      | exact ⟨rfl, rfl, rfl, rfl, s, rfl⟩
      | exact absurd h (Option.some_ne_none _)
  refine ⟨Option.some_ne_none fd, ?_, rfl, ?_, ?_, ?_⟩
  · intro d
    cases d <;> rfl
  · intro d
    cases d <;> rfl
  · intro hb
    exact absurd hb Bool.false_ne_true
  · intro _
    exact Option.some_ne_none s

/-- **The epoll interest.** On a connected or accepted socket, in every state after the
first accepted call in which the descriptor is valid, the three copies agree and no
wake-up is lost. A call that no running service takes is the only one that is rejected
with a change of `_type`; where each call finds a service, the same holds from the first
call on, accepted or not. Every accepted operation is completed once or pending. -/
theorem stays_awake {c : Core η} (hc : c.Idle) :
    (∀ w : OpWorld η, Reach step Plain (idle c) w →
      w.Conserved ∧ ((∃ d, w.accepted d ≠ []) → w.core._fd ≠ none → w.Awake)) ∧
    ∀ w w₁ w₂ : OpWorld η, ∀ d data size hander env, Reach step Served (idle c) w →
      w.Served (.async d data size hander env) →
      w.step (.async d data size hander env) = some w₁ → Reach step Served w₁ w₂ →
      w₂.core._fd ≠ none → w₂.Awake := by
  refine ⟨?_, ?_⟩
  · intro w h
    have hw := reach_wake hc h
    exact ⟨hw.inv.conserved, fun ha hfd => hw.awake hfd (hw.live ha hfd).2⟩
  · intro w w₁ w₂ d data size hander env h hok hs h₂ hfd
    have hearly := reach_early hc h
    have hinv : w₂.Early ∧
        (w₂.core._fd ≠ none → (∀ d, w₂.accepted d = []) → w₂.core.interest = none) := by
      apply h₂.inv (I := fun w => w.Early ∧
        (w.core._fd ≠ none → (∀ d, w.accepted d = []) → w.core.interest = none))
      · refine ⟨hearly.step hok hs, ?_⟩
        intro hv ha
        obtain ⟨-, -, -, hi, hnone⟩ := hearly.back hok hs ha hv
        exact hi.trans (hnone ⟨_, _, _, _, _, rfl⟩)
      · intro s a s' hs hok hstep
        refine ⟨hs.1.step hok hstep, ?_⟩
        intro hv ha
        obtain ⟨ha', hv', -, hi, -⟩ := hs.1.back hok hstep ha hv
        exact hi.trans (hs.2 hv' ha')
    exact hinv.1.wake.awake hfd (hinv.1.synced hfd (hinv.2 hfd))

/-- `reading` with a pending write as well. -/
def duplex : OpWorld ℕ :=
  { reading with
    core := (reading.core.async .write 200 20 8 fine).2
    accepted := Function.update reading.accepted .write [⟨200, 20, true, some 8⟩] }

theorem stays_awake_duplex : duplex.Conserved ∧ duplex.Awake ∧ duplex.Awake := by
  obtain ⟨h₁, h₂⟩ := stays_awake (idle_accepted (η := ℕ) 3)
  have hread : (idle (Core.init.openFd 3)).step (.async .read 100 10 7 fine) = some reading := rfl
  have hwrite : reading.step (.async .write 200 20 8 fine) = some duplex := rfl
  have hplain : Reach step Plain (idle (Core.init.openFd 3)) duplex := by
    refine .next (.next .refl ?_ hread) ?_ hwrite
    · exact ⟨rfl, rfl⟩
    · exact ⟨rfl, rfl⟩
  have hserved : Reach step Served reading duplex := by
    refine .single ?_ hwrite
    exact ⟨⟨rfl, rfl⟩, Option.some_ne_none 1⟩
  obtain ⟨hc, ha⟩ := h₁ duplex hplain
  refine ⟨hc, ha ⟨.read, List.cons_ne_nil _ _⟩ (Option.some_ne_none 3), ?_⟩
  exact h₂ _ _ duplex .read 100 10 7 fine .refl ⟨⟨rfl, rfl⟩, Option.some_ne_none 1⟩ hread hserved
    (Option.some_ne_none 3)

/-- **After a first call that was rejected** the copies need not agree: an `AsyncRecvSome` that finds no
running service calls no `epoll_ctl`, clears the read flag again and leaves the bit of `_type`. -/
theorem not_stays_awake : ¬ ∀ (c : Core ℕ) (w w₁ w₂ : OpWorld ℕ) (d : Dir) (data size hander : ℕ)
    (env : Env), c.Idle → Reach step Plain (idle c) w → w.Plain (.async d data size hander env) →
      w.step (.async d data size hander env) = some w₁ → Reach step Plain w₁ w₂ →
        w₂.core._fd ≠ none → w₂.core.Synced := by
  intro h
  have hsynced := h _ _ _ _ .read 100 10 7 ⟨none, none, none⟩ (idle_accepted 3) .refl ⟨rfl, rfl⟩ rfl
    .refl (Option.some_ne_none 3)
  exact Bool.false_ne_true ((hsynced .read).2.mp rfl)

end OpWorld

end Netlib
