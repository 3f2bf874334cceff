import Netlib.Spec.Dispatch

/-!
# Events through pointers and events by value

A `Complete` that is handed the event of its own set changes only this set
(`complete_own`). A dispatch reads the array again after its first handler, so the two
loops agree as long as the entry still asks for the same write half (`step_eq_plain`), and
that is so in every run without a yield (`noYield_kept`). A step where it does not completes
something else (`not_kept_differs`).
-/

namespace Netlib

open Lib

variable {η : Type*}

/-! ## What a `Complete` changes -/

namespace Sockets

open Function (update)

/-- Only the socket `n` and its registration are changed, and the pointer is its own. -/
structure Only (n : ℕ) (s s' : Sockets η) : Prop where
  core : ∀ k, k ≠ n → s'.core k = s.core k
  reg : ∀ k, s'.ptr k = s.ptr k ∨ k = n ∧ s'.ptr k = some n

variable {n : ℕ} {s s' s'' : Sockets η}

theorem Only.refl (n : ℕ) (s : Sockets η) : Only n s s := ⟨fun _ _ => rfl, fun _ => .inl rfl⟩

theorem Only.trans (h : Only n s s') (h' : Only n s' s'') : Only n s s'' := by
  refine ⟨fun k hk => (h'.core k hk).trans (h.core k hk), ?_⟩
  intro k
  rcases h'.reg k with heq | ⟨hk, hptr⟩
  · rw [heq]
    exact h.reg k
  · exact .inr ⟨hk, hptr⟩

theorem only_setCore (n : ℕ) (s : Sockets η) (c : Core η) : Only n s (s.setCore n c) :=
  ⟨fun _ hk => Function.update_of_ne hk _ _, fun _ => .inl rfl⟩

theorem only_modEpoll (n : ℕ) (s : Sockets η) (events : EpollEvents) (ctl : Option ℕ) :
    Only n s (s.modEpoll n n events ctl) := by
  unfold modEpoll
  rcases (s.core n).ctlEpoll ⟨none, none, ctl⟩ .mod events with ⟨error, c⟩
  have hcore := only_setCore n s c
  simp only
  split
  · refine hcore.trans ⟨fun _ _ => rfl, ?_⟩
    intro k
    by_cases hk : k = n
    · subst hk
      exact .inr ⟨rfl, Function.update_self _ _ _⟩
    · exact .inl (Function.update_of_ne hk _ _)
  · exact hcore

/-- **A `Complete` with the event of its own set** changes only this set. -/
theorem complete_own (s : Sockets η) (op : OpKind) (n : ℕ) {event : EpollEvent}
    (h : event.ptr = some n) (ctl : Option ℕ) : Only n s (s.complete op n event ctl) := by
  unfold complete
  rw [h]
  cases op with
  | accept => exact only_setCore n s _
  | connect =>
    simp only [connectComplete]
    split
    · exact (only_setCore n s _).trans (only_setCore n _ _)
    · exact ((only_setCore n s _).trans (only_setCore n _ _)).trans (only_setCore n _ _)
  | read =>
    simp only [readComplete]
    split
    · exact only_setCore n s _
    · exact (((only_setCore n s _).trans (only_setCore n _ _)).trans (only_modEpoll n _ _ _)).trans
        (only_setCore n _ _)
  | write =>
    simp only [writeComplete]
    split
    · exact (only_setCore n s _).trans (only_setCore n _ _)
    · exact (((only_setCore n s _).trans (only_setCore n _ _)).trans (only_modEpoll n _ _ _)).trans
        (only_setCore n _ _)

end Sockets

/-! ## The two loops -/

namespace IoRun

/-- A dispatch has the event of its set, and before its first test the array has it too. -/
structure Tracked (w : IoRun η) : Prop where
  current : ∀ d, w.current = some d → d.reported.ptr = some d.opset ∧
    (d.pc = .start → w.events d.slot = d.reported)
  yielded : ∀ d ∈ w.yielded, d.reported.ptr = some d.opset ∧ d.pc ≠ .start
  completed : ∀ c ∈ w.completed, OnBehalf c

theorem start_tracked (core : ℕ → Core η) : (start core).Tracked :=
  ⟨(fun _ h => by cases h), (fun _ h => by cases h), (fun _ h => by cases h)⟩

variable {w w' : IoRun η}

/-- A `Complete` that sees what was reported is one on behalf of its set. -/
theorem Tracked.runComplete (h : w.Tracked) {d : Dispatch} (hd : d.reported.ptr = some d.opset)
    (op : OpKind) (ctl : Option ℕ) {pc : DispatchPc} (hpc : pc ≠ .start) :
    (w.runComplete d op d.reported ctl pc).Tracked := by
  refine ⟨?_, h.yielded, ?_⟩
  · rintro d' ⟨⟩
    exact ⟨hd, fun heq => absurd heq hpc⟩
  · intro c hc
    rcases List.mem_append.mp hc with hc | hc
    · exact h.completed c hc
    · rw [List.mem_singleton] at hc
      subst hc
      have honly := Sockets.complete_own w.socks op d.opset hd ctl
      exact ⟨rfl, hd, honly.core, honly.reg⟩

theorem Tracked.idle (h : w.Tracked) : ({ w with current := none } : IoRun η).Tracked :=
  ⟨(fun _ h => by cases h), h.yielded, h.completed⟩

theorem Tracked.writeHalf (h : w.Tracked) {d : Dispatch} (hd : d.reported.ptr = some d.opset)
    (ctl : Option ℕ) : (w.writeHalf d d.reported ctl).Tracked := by
  unfold IoRun.writeHalf
  split
  · exact h.runComplete hd .write ctl (by decide)
  · exact h.idle

theorem Tracked.doExecOp (h : w.Tracked) {d : Dispatch} (hd : d.reported.ptr = some d.opset)
    (ctl : Option ℕ) : (w.doExecOp d d.reported ctl).Tracked := by
  unfold IoRun.doExecOp
  cases d.pc with
  | start =>
    simp only
    split_ifs
    · exact h.runComplete hd .accept ctl (by decide)
    · exact h.runComplete hd .connect ctl (by decide)
    · exact h.runComplete hd .read ctl (by decide)
    · exact h.writeHalf hd ctl
  | read => exact h.writeHalf hd ctl
  | last => exact h.idle

/-- **A step of the loop with events passed by value** keeps this. -/
theorem Tracked.plainStep {a : IoAction η} (h : w.Tracked) (hs : plainStep w a = some w') :
    w'.Tracked := by
  unfold IoRun.plainStep stepWith at hs
  cases a with
  | wait batch =>
    simp only at hs
    split at hs
    · rename_i hc
      cases hs
      refine ⟨?_, h.yielded, h.completed⟩
      intro d hd
      rw [hc.1] at hd
      cases hd
    · cases hs
  | dispatch =>
    simp only at hs
    split at hs
    · cases hp : (w.events w.idx).ptr with
      | none => simp [hp] at hs
      | some n =>
        simp only [hp] at hs
        cases hs
        refine ⟨?_, h.yielded, h.completed⟩
        rintro d ⟨⟩
        exact ⟨hp, fun _ => rfl⟩
    · cases hs
  | exec ctl =>
    cases hd : w.current with
    | none => simp [hd] at hs
    | some d =>
      simp only [hd] at hs
      cases hs
      exact h.doExecOp (h.current d hd).1 ctl
  | yield =>
    cases hd : w.current with
    | none => simp [hd] at hs
    | some d =>
      simp only [hd] at hs
      split at hs
      · cases hs
      · rename_i hpc
        cases hs
        refine ⟨(fun _ h => by cases h), ?_, h.completed⟩
        intro e he
        rcases List.mem_append.mp he with he | he
        · exact h.yielded e he
        · rw [List.mem_singleton] at he
          subst he
          exact ⟨(h.current e hd).1, hpc⟩
  | resume k =>
    simp only at hs
    split at hs
    · cases hk : w.yielded[k]? with
      | none => simp [hk] at hs
      | some d =>
        simp only [hk] at hs
        cases hs
        have hmem := h.yielded d (List.mem_of_getElem? hk)
        refine ⟨?_, fun e he => h.yielded e (List.mem_of_mem_eraseIdx he), h.completed⟩
        rintro e ⟨⟩
        exact ⟨hmem.1, fun heq => absurd heq hmem.2⟩
    · cases hs
  | socket n c post =>
    cases hs
    exact ⟨h.current, h.yielded, h.completed⟩

/-- **The two loops do the same step** when the event is kept. -/
theorem step_eq_plain (h : w.Tracked) {a : IoAction η} (hk : w.EventKept a) :
    step w a = plainStep w a := by
  cases a with
  | exec ctl =>
    unfold step plainStep stepWith
    cases hd : w.current with
    | none => rfl
    | some d =>
      simp only
      congr 1
      unfold doExecOp
      cases hpc : d.pc with
      | start => rw [(h.current d hd).2 hpc]
      | last => rfl
      | read =>
        simp only [writeHalf]
        cases hw : (w.socks.core d.opset)._type.write with
        | false => rfl
        | true =>
          -- the entry is the same, or no write half is asked for
          rcases hk d hd hpc hw with heq | ⟨h1, h2⟩
          · rw [heq]
          · rw [h1, h2]
            rfl
  | wait | dispatch | yield | resume | socket => rfl

/-- A step that does not find the event kept completes something else. -/
theorem not_kept_differs {w₁ w₂ : IoRun η} {ctl : Option ℕ} (hk : ¬ w.EventKept (.exec ctl))
    (h₁ : step w (.exec ctl) = some w₁) (h₂ : plainStep w (.exec ctl) = some w₂) :
    w₁.completed ≠ w₂.completed := by
  simp only [EventKept, not_forall, not_or, not_and] at hk
  obtain ⟨d, hd, hpc, hw, hne, hask⟩ := hk
  unfold step stepWith at h₁
  unfold plainStep stepWith at h₂
  simp only [hd, doExecOp, hpc, writeHalf, hw, Bool.true_and, Option.some.injEq] at h₁ h₂
  subst h₁ h₂
  intro heq
  by_cases h1 : (w.events d.slot).writable = true
  · rw [if_pos h1] at heq
    by_cases h2 : d.reported.writable = true
    · -- both complete, with different events
      rw [if_pos h2] at heq
      exact hne (congrArg Completed.seen (List.singleton_inj.mp (List.append_cancel_left heq)))
    · rw [if_neg h2] at heq
      exact absurd (List.append_right_eq_self.mp heq) (List.cons_ne_nil _ _)
  · rw [if_neg h1, if_pos (by simpa using hask (by simpa using h1))] at heq
    exact absurd (List.append_right_eq_self.mp heq.symm) (List.cons_ne_nil _ _)

/-- What `_DoExecOp` leaves alone. -/
theorem doExecOp_frame (w : IoRun η) (d : Dispatch) (event : EpollEvent) (ctl : Option ℕ) :
    (w.doExecOp d event ctl).yielded = w.yielded ∧ (w.doExecOp d event ctl).events = w.events ∧
      ∀ d', (w.doExecOp d event ctl).current = some d' →
        d'.slot = d.slot ∧ d'.reported = d.reported := by
  have hcomplete : ∀ op pc, (w.runComplete d op event ctl pc).yielded = w.yielded ∧
      (w.runComplete d op event ctl pc).events = w.events ∧
      ∀ d', (w.runComplete d op event ctl pc).current = some d' →
        d'.slot = d.slot ∧ d'.reported = d.reported := by
    intro op pc
    refine ⟨rfl, rfl, ?_⟩
    rintro d' ⟨⟩
    exact ⟨rfl, rfl⟩
  unfold doExecOp writeHalf
  cases d.pc with
  | start =>
    simp only
    split_ifs
    · exact hcomplete .accept .last
    · exact hcomplete .connect .last
    · exact hcomplete .read .read
    · exact hcomplete .write .last
    · exact ⟨rfl, rfl, fun _ h => h.elim⟩
  | read =>
    simp only
    split_ifs
    · exact hcomplete .write .last
    · exact ⟨rfl, rfl, fun _ h => h.elim⟩
  | last => exact ⟨rfl, rfl, by rintro d' ⟨⟩⟩

/-- Nothing yields, as in a thread that is not `isco`. -/
def NoYield (_ : IoRun η) : IoAction η → Prop
  | .yield => False
  | _ => True

/-- No dispatch is suspended, and the one that runs finds its event in the array. -/
structure Direct (w : IoRun η) : Prop where
  yielded : w.yielded = []
  current : ∀ d, w.current = some d → w.events d.slot = d.reported

theorem start_direct (core : ℕ → Core η) : (start core).Direct := ⟨rfl, fun _ hd => by cases hd⟩

theorem Direct.kept (h : w.Direct) (a : IoAction η) : w.EventKept a := by
  cases a with
  | exec ctl => exact fun d hd _ _ => .inl (h.current d hd)
  | wait | dispatch | yield | resume | socket => trivial

theorem Direct.step {a : IoAction η} (h : w.Direct) (hc : NoYield w a) (hs : step w a = some w') :
    w'.Direct := by
  unfold IoRun.step stepWith at hs
  cases a with
  | wait batch =>
    simp only at hs
    split at hs
    · rename_i hcond
      cases hs
      refine ⟨h.yielded, ?_⟩
      intro d hd
      rw [hcond.1] at hd
      cases hd
    · cases hs
  | dispatch =>
    simp only at hs
    split at hs
    · cases hp : (w.events w.idx).ptr with
      | none => simp [hp] at hs
      | some n =>
        simp only [hp] at hs
        cases hs
        refine ⟨h.yielded, ?_⟩
        rintro d ⟨⟩
        rfl
    · cases hs
  | exec ctl =>
    cases hd : w.current with
    | none => simp [hd] at hs
    | some d =>
      simp only [hd] at hs
      cases hs
      obtain ⟨hyield, hevents, hframe⟩ := doExecOp_frame w d (w.events d.slot) ctl
      refine ⟨hyield.trans h.yielded, ?_⟩
      intro d' hd'
      obtain ⟨hslot, hrep⟩ := hframe d' hd'
      rw [hevents, hslot, hrep]
      exact h.current d hd
  | yield => exact absurd hc id
  | resume k =>
    simp only [h.yielded, List.getElem?_nil] at hs
    split at hs <;> cases hs
  | socket n c post =>
    cases hs
    exact ⟨h.yielded, h.current⟩

/-- **Without a yield every step finds the event kept.** -/
theorem noYield_kept {core : ℕ → Core η} (h : Reach step NoYield (start core) w) :
    Reach step EventKept (start core) w := by
  have hboth : Reach step EventKept (start core) w ∧ w.Direct := by
    apply h.refine (start_direct core)
    intro s a s' hi hc hs
    exact ⟨hi.kept a, hs, hi.step hc hs⟩
  exact hboth.1

/-- **Coroutine dispatch agrees with plain dispatch** in every run whose steps find the event
kept: the same steps are those of the loop with events passed by value, and every
`Complete` sees the event that was reported for its set and changes only this set. -/
theorem dispatch_as_plain {core : ℕ → Core η} (h : Reach step EventKept (start core) w) :
    Reach plainStep EventKept (start core) w ∧ ∀ c ∈ w.completed, OnBehalf c := by
  have hboth : Reach plainStep EventKept (start core) w ∧ w.Tracked := by
    apply h.refine (start_tracked core)
    intro s a s' hi hc hs
    rw [step_eq_plain hi hc] at hs
    exact ⟨hc, hs, hi.plainStep hs⟩
  exact ⟨hboth.1, hboth.2.completed⟩

/-- Two sockets: the first reads and writes, the second writes. -/
def pair (n : ℕ) : Core Unit :=
  { Core.init with
    _epoll := some 1
    _fd := some (n + 3)
    _type := if n = 0 then ⟨false, false, true, true⟩ else ⟨false, false, true, false⟩ }

/-- A handler yields and is resumed before the next round refills the array. -/
theorem dispatch_as_plain_pair : ∃ w : IoRun Unit, w.completed.map (·.op) = [.read, .write] ∧
    Reach plainStep EventKept (start pair) w ∧ ∀ c ∈ w.completed, OnBehalf c := by
  have h1 : Reach step EventKept (start pair) _ :=
    .single (a := IoAction.wait [(⟨true, true, false, false⟩, 0)]) trivial rfl
  have h2 := h1.next (a := IoAction.dispatch) trivial rfl
  have h3 := h2.next (a := IoAction.exec none) (fun d hd hpc => by cases hd; cases hpc) rfl
  have h4 := h3.next (a := IoAction.yield) trivial rfl
  have h5 := h4.next (a := IoAction.resume 0) trivial rfl
  have h6 := h5.next (a := IoAction.exec none) (fun d hd _ _ => by cases hd; exact .inl rfl) rfl
  exact ⟨_, rfl, dispatch_as_plain h6⟩

/-- **The second half sees the event of another descriptor** when the handler is resumed after
the next batch. -/
theorem not_dispatch_as_plain : ¬ ∀ w : IoRun Unit, Reach step Lib.always (start pair) w →
    ∀ c ∈ w.completed, OnBehalf c := by
  intro h
  have hrun : ∃ w, [IoAction.wait [(⟨true, true, false, false⟩, 0)], .dispatch, .exec none, .yield,
      .wait [(⟨false, true, false, false⟩, 1)], .dispatch, .exec none, .exec none, .resume 0,
      .exec none].foldlM step (start pair) = some w ∧ ∃ c ∈ w.completed, c.seen.ptr ≠ some c.opset :=
    ⟨_, rfl, _, .tail _ (.tail _ (.head _)), by decide⟩
  obtain ⟨w, hw, c, hc, hptr⟩ := hrun
  exact hptr (h w (.of_foldlM (fun _ _ _ => trivial) hw) c hc).ptr

end IoRun

end Netlib
