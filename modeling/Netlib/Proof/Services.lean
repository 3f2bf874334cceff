import Netlib.Spec.Services
import Netlib.Proof.Registry
import Netlib.Lib.RoundRobin

/-!
# One socket, one thread

A socket gets its epoll descriptor once (`epoll_called`), and no two threads have the same one
(`Registry.Inv`), so that the thread which is told of a socket is the thread it was bound to, and the
service that `Close` finds is that of this thread (`Home`). Hence the completions and the close of a
socket all run on one thread (`one_thread`), as `netio/netio.hpp` says of `OnReceiveData` and
`OnDisconnected`. The threads get the sockets in turn (`evenly_dealt`).
-/

namespace Netlib

open Lib
open Function (update)

/-! ## The descriptor of a socket -/

namespace Core

variable {η : Type*} (c : Core η) (env : Env)

/-- **Bound once**: the descriptor is that from before, or the first one. -/
def Keeps (service : Option ℕ) (c c' : Core η) : Prop :=
  c'._epoll = c._epoll ∨ c._epoll = none ∧ c'._epoll = service

variable {c env}

theorem Keeps.refl (service : Option ℕ) : Keeps service c c := .inl rfl

theorem keeps_ctlEpoll (flag : EpollCtl) (events : EpollEvents) :
    Keeps env.service c (c.ctlEpoll env flag events).2 := by
  have hep : (c.ctlEpoll env flag events).2._epoll =
      if flag = .add ∧ c._epoll = none then env.service else c._epoll := by
    unfold ctlEpoll
    generalize (if flag = .add ∧ c._epoll = none then env.service else c._epoll) = ep
    dsimp only
    split
    · rfl
    · split <;> rfl
  unfold Keeps
  rw [hep]
  split
  · rename_i hadd
    exact .inr ⟨hadd.2, rfl⟩
  · exact .inl rfl

theorem ctlEpoll_mod_epoll (ctl : Option ℕ) (events : EpollEvents) :
    (c.ctlEpoll ⟨none, none, ctl⟩ .mod events).2._epoll = c._epoll := by
  have hkeeps : Keeps none c (c.ctlEpoll ⟨none, none, ctl⟩ .mod events).2 := keeps_ctlEpoll .mod events
  rcases hkeeps with h | ⟨h, h'⟩
  · exact h
  · rw [h', h]

theorem setNonblock_epoll {c₁ : Core η} (h : c.setNonblock env = .ok c₁) : c₁._epoll = c._epoll := by
  unfold setNonblock at h
  split at h
  · split at h
    · cases h
    · cases h
      rfl
  · cases h
    rfl

theorem setOper_epoll (o : RwOperation η) (d : Dir) : (c.setOper o d)._epoll = c._epoll := by
  cases d <;> rfl

theorem setFlag_epoll (b : Bool) (d : Dir) : (c.setFlag b d)._epoll = c._epoll := by
  cases d <;> rfl

theorem Keeps.congr {service : Option ℕ} {c₁ c₂ c₃ : Core η} (h : Keeps service c₁ c₂)
    (h₁ : c₁._epoll = c._epoll) (h₂ : c₃._epoll = c₂._epoll) : Keeps service c c₃ := by
  unfold Keeps at h ⊢
  rw [h₂, ← h₁]
  exact h

theorem keeps_asyncSome (d : Dir) (posted : SockError) (data size : ℕ) (hander : η) :
    Keeps env.service c (c.asyncSome d posted data size hander env).2 := by
  have hoper : (c.setOper ⟨data, size, true, some hander⟩ d)._epoll = c._epoll := setOper_epoll _ d
  have hclear : ∀ c' : Core η, (c'.setOper .clear d)._epoll = c'._epoll := fun _ => setOper_epoll _ d
  unfold asyncSome
  dsimp only
  generalize c.setOper ⟨data, size, true, some hander⟩ d = c₀ at hoper
  split
  · exact .inl ((hclear c₀).trans hoper)
  split
  · exact .inl ((hclear c₀).trans hoper)
  split
  · exact .inl ((hclear c₀).trans hoper)
  · rename_i c₁ hnon
    have hpost : (c₁.post d)._epoll = c._epoll := by
      have hflag : (c₁.setFlag true d)._epoll = c₁._epoll := setFlag_epoll true d
      exact hflag.trans ((setNonblock_epoll hnon).trans hoper)
    generalize hctl : (c₁.post d).ctlEpoll env _ _ = res
    have hkeep : Keeps env.service (c₁.post d) res.2 := by
      rw [← hctl]
      exact keeps_ctlEpoll _ _
    obtain ⟨error, c₂⟩ := res
    cases error with
    | none => exact hkeep.congr hpost rfl
    | some e =>
      refine hkeep.congr hpost ?_
      have hflag : (c₂.setFlag false d)._epoll = c₂._epoll := setFlag_epoll false d
      exact (hclear _).trans hflag

theorem keeps_async (d : Dir) (data size : ℕ) (hander : η) :
    Keeps env.service c (c.async d data size hander env).2 := by
  cases d with
  | read => exact keeps_asyncSome .read .postedRead data size hander
  | write => exact keeps_asyncSome .write .postedWrite data size hander

theorem keeps_bindEpoll (events : EpollEvents) : Keeps env.service c (c.bindEpoll env events).2 := by
  unfold bindEpoll
  split
  · exact .refl _
  · exact (keeps_ctlEpoll (c := c.setBind true) .add events).congr rfl rfl

/-- The end of `AsyncConnect` and of `AsyncAccept`. -/
theorem keeps_bound {c₁ : Core η} (h : c₁._epoll = c._epoll) (events : EpollEvents)
    (undo : Core η → Core η) (hundo : ∀ c', (undo c')._epoll = c'._epoll) :
    Keeps env.service c (let (error, c') := c₁.bindEpoll env events
      if error = none then (none, c') else (error, undo c')).2 := by
  have hkeep : Keeps env.service c₁ (c₁.bindEpoll env events).2 := keeps_bindEpoll events
  generalize c₁.bindEpoll env events = res at hkeep ⊢
  obtain ⟨error, c₂⟩ := res
  dsimp only at hkeep ⊢
  split
  · exact hkeep.congr h rfl
  · exact hkeep.congr h (hundo c₂)

theorem keeps_asyncConnect (valid : Bool) (connect : Option ℕ) (handler : η) :
    Keeps env.service c (c.asyncConnect valid connect handler env).2 := by
  unfold asyncConnect
  split
  · exact .refl _
  split
  · exact .refl _
  split
  · exact .refl _
  split
  · exact .refl _
  rename_i c₁ hnon
  have hc₁ := setNonblock_epoll hnon
  split
  · exact .inl hc₁
  · refine keeps_bound ?_ _ (fun c' => { c' with
      _state := { c'._state with connect := false, bind := false }
      _cop := .clear }) fun _ => rfl
    exact hc₁

theorem keeps_asyncAccept (cli : ℕ) (handler : η) :
    Keeps env.service c (c.asyncAccept cli handler env).2 := by
  unfold asyncAccept
  split
  · exact .refl _
  split
  · exact .refl _
  split
  · exact .refl _
  rename_i c₁ hnon
  have hc₁ := setNonblock_epoll hnon
  refine keeps_bound ?_ _ (fun c' => { c' with
    _state := { c'._state with accept := false, bind := false }
    _aop := .clear }) fun _ => rfl
  exact hc₁

theorem locked_epoll (ctl : Option ℕ) (d : Dir) : (c.locked ctl d).2.2._epoll = c._epoll := by
  cases d with
  | read =>
    unfold locked readLocked
    dsimp only
    split
    · rfl
    · exact ctlEpoll_mod_epoll ctl _
  | write =>
    unfold locked writeLocked
    dsimp only
    split
    · rfl
    · exact ctlEpoll_mod_epoll ctl _

end Core

namespace OpWorld

variable {o o' : OpWorld Unit}

/-- A call can bind its socket to the service that it is given. -/
theorem epoll_called {a : OpAction Unit} {service : Option ℕ} (ha : a.isCall = true)
    (hs : o.step (a.withService service) = some o') : Core.Keeps service o.core o'.core := by
  cases a with
  | async d data size hander env =>
    obtain rfl := Option.some.inj hs
    exact @Core.keeps_async _ o.core { env with service := service } d data size hander
  | asyncConnect valid connect handler env =>
    obtain rfl := Option.some.inj hs
    exact @Core.keeps_asyncConnect _ o.core { env with service := service } valid connect handler
  | asyncAccept cli handler env =>
    obtain rfl := Option.some.inj hs
    exact @Core.keeps_asyncAccept _ o.core { env with service := service } cli handler
  | openFd fd =>
    obtain rfl := Option.some.inj hs
    refine .inl ?_
    dsimp only
    unfold Core.openFd
    split <;> rfl
  | lock d ctl => cases ha
  | finish ret so => cases ha
  | connectComplete => cases ha
  | acceptComplete => cases ha
  | close => cases ha
  | doClose => cases ha

/-- Nothing else changes it. -/
theorem epoll_other {a : OpAction Unit} (ha : a.isCall = false) (hs : o.step a = some o') :
    o'.core._epoll = o.core._epoll := by
  cases a with
  | async d data size hander env => cases ha
  | asyncConnect valid connect handler env => cases ha
  | asyncAccept cli handler env => cases ha
  | openFd fd => cases ha
  | lock d ctl =>
    obtain ⟨-, hs⟩ := Option.ite_none_right_eq_some.mp hs
    cases hs
    exact Core.locked_epoll ctl d
  | finish ret so =>
    unfold step at hs
    dsimp only at hs
    split at hs
    · cases hs
    · cases hs
      exact Core.setOper_epoll _ _
  | connectComplete =>
    obtain ⟨-, hs⟩ := Option.ite_none_right_eq_some.mp hs
    cases hs
    rfl
  | acceptComplete =>
    obtain ⟨-, hs⟩ := Option.ite_none_right_eq_some.mp hs
    cases hs
    rfl
  | close =>
    obtain rfl := Option.some.inj hs
    dsimp only
    unfold Core.close
    split
    · split <;> rfl
    · rfl
  | doClose =>
    obtain rfl := Option.some.inj hs
    rfl

end OpWorld

/-! ## A thread that comes -/

/-- What `_CreateIoImpl` leaves alone: the sockets, the requests and the other threads. -/
structure Registry.Enters (i : ℕ) (r r' : Registry) : Prop where
  handler : ∀ j, j ≠ i → r'._handler j = r._handler j
  loop : ∀ j, j ≠ i → r'.loop j = r.loop j
  handled : r'.loop i ≠ .outside → r'._handler i ≠ none
  implidx : r'._implidx = r._implidx
  socks : r'.socks = r.socks
  inflight : r'.inflight = r.inflight
  closereqs : r'._closereqs = r._closereqs

theorem Registry.createIoImpl_enters (r : Registry) {i fd : ℕ} (hl : r.loop i = .outside) :
    r.Enters i (r._createIoImpl i fd) := by
  have hget : r.Enters i (r.getServiceImpl i fd) := by
    unfold Registry.getServiceImpl
    split
    · refine ⟨?_, fun _ _ => rfl, fun h => absurd hl h, rfl, rfl, rfl, rfl⟩
      intro j hj
      exact Function.update_of_ne hj _ _
    · exact ⟨fun _ _ => rfl, fun _ _ => rfl, fun h => absurd hl h, rfl, rfl, rfl, rfl⟩
  unfold Registry._createIoImpl
  dsimp only
  split
  · rename_i h hh
    split
    · exact hget
    · refine ⟨hget.handler, ?_, ?_, hget.implidx, hget.socks, hget.inflight, hget.closereqs⟩
      · intro j hj
        unfold Registry.register
        dsimp only
        rw [Function.update_of_ne hj]
        exact hget.loop j hj
      · intro _
        unfold Registry.register
        dsimp only
        rw [hh]
        exact Option.some_ne_none h
  · exact hget

namespace ServiceWorld

variable {w w' : ServiceWorld}

/-! ## What a step does -/

/-- **What a step does**, by the kind of the action. -/
inductive Did (w : ServiceWorld) : ServiceAction → ServiceWorld → Prop
  | opens (fd : ℕ) : Did w (.opens fd) (w.setReg { w.reg with opened := fd :: w.reg.opened })
  | enter {i fd : ℕ} (hl : w.reg.loop i = .outside)
      (hr : w.reg.step (.createIoImpl i fd) = some (w.reg._createIoImpl i fd)) :
      Did w (.enter i fd) (w.setReg (w.reg._createIoImpl i fd))
  | leave {i : ℕ} (hl : w.reg.loop i = .looping)
      (hr : w.reg.step (.leave i) = some { w.reg with loop := update w.reg.loop i .left }) :
      Did w (.leave i) (w.setReg { w.reg with loop := update w.reg.loop i .left })
  | closeHandler {i h fd : ℕ} (hl : w.reg.loop i = .left)
      (hr : w.reg.step (.closeHandler i fd) = some (w.reg.closeHandler i h fd)) :
      Did w (.closeHandler i fd) (w.setReg (w.reg.closeHandler i h fd))
  | erase {i : ℕ} (hl : w.reg.loop i = .releasing)
      (hr : w.reg.step (.erase i) = some (w.reg.erase i)) :
      Did w (.erase i) (w.setReg (w.reg.erase i))
  | call {s : ℕ} {a : OpAction Unit} {o : OpWorld Unit} (ha : a.isCall = true)
      (ho : (w.sock s).step (a.withService w.reg.nextService) = some o) :
      Did w (.call s a) (w.called s o)
  | report {i s : ℕ} {a : OpAction Unit} {o : OpWorld Unit} (ha : a.isReport = true)
      (hl : w.reg.loop i = .looping) (hep : (w.sock s).core._epoll = w.reg._handler i)
      (ho : (w.sock s).step a = some o) : Did w (.report i s a) (w.report i s a o)
  | finish {i s : ℕ} {ret : ℤ} {so : Option ℕ} {o : OpWorld Unit} (hwork : w.worker s = some i)
      (ho : (w.sock s).step (.finish ret so) = some o) :
      Did w (.finish i s ret so) (w.finish i s o)
  | close {s : ℕ} {o : OpWorld Unit} (ho : (w.sock s).step .close = some o) :
      Did w (.close s) { w with reg := w.reg.close s, sock := update w.sock s o }
  | enqueue {s i : ℕ} (hmem : (s, i) ∈ w.reg.inflight)
      (hr : w.reg.step (.enqueue s i) = some (w.reg.enqueue s i)) :
      Did w (.enqueue s i) (w.setReg (w.reg.enqueue s i))
  | doClose {i s : ℕ} {reqs : List ℕ} {o : OpWorld Unit} {r : Registry}
      (hreqs : w.reg._closereqs i = s :: reqs) (hr : w.reg.step (.doClose i) = some r)
      (heq : r = { w.reg with
        socks := update w.reg.socks s (w.reg.socks s).invalidate
        _closereqs := update w.reg._closereqs i reqs })
      (ho : (w.sock s).step .doClose = some o) :
      Did w (.doClose i) { w with
        reg := r
        sock := update w.sock s o
        ran := w.ran ++ [(s, i)] }

theorem step_did {a : ServiceAction} (hs : w.step a = some w') : w.Did a w' := by
  cases a with
  | opens fd =>
    obtain ⟨-, hs⟩ := Option.ite_none_right_eq_some.mp hs
    cases hs
    exact .opens fd
  | enter i fd =>
    obtain ⟨r, hr, rfl⟩ := Option.map_eq_some_iff.mp hs
    have hr' := hr
    obtain ⟨⟨hl, -⟩, hr'⟩ := Option.ite_none_right_eq_some.mp hr'
    cases hr'
    exact .enter hl hr
  | leave i =>
    obtain ⟨r, hr, rfl⟩ := Option.map_eq_some_iff.mp hs
    have hr' := hr
    obtain ⟨hl, hr'⟩ := Option.ite_none_right_eq_some.mp hr'
    cases hr'
    exact .leave hl hr
  | closeHandler i fd =>
    obtain ⟨r, hr, rfl⟩ := Option.map_eq_some_iff.mp hs
    have hr' := hr
    unfold Registry.step at hr'
    dsimp only at hr'
    split at hr'
    · obtain ⟨⟨hl, -⟩, hr'⟩ := Option.ite_none_right_eq_some.mp hr'
      cases hr'
      exact .closeHandler hl hr
    · cases hr'
  | erase i =>
    obtain ⟨r, hr, rfl⟩ := Option.map_eq_some_iff.mp hs
    have hr' := hr
    obtain ⟨hl, hr'⟩ := Option.ite_none_right_eq_some.mp hr'
    cases hr'
    exact .erase hl hr
  | call s a =>
    obtain ⟨ha, hs⟩ := Option.ite_none_right_eq_some.mp hs
    obtain ⟨o, ho, rfl⟩ := Option.map_eq_some_iff.mp hs
    exact .call ha ho
  | report i s a =>
    obtain ⟨⟨ha, hl, hep, -⟩, hs⟩ := Option.ite_none_right_eq_some.mp hs
    obtain ⟨o, ho, rfl⟩ := Option.map_eq_some_iff.mp hs
    exact .report ha hl hep ho
  | finish i s ret so =>
    obtain ⟨⟨hwork, -⟩, hs⟩ := Option.ite_none_right_eq_some.mp hs
    obtain ⟨o, ho, rfl⟩ := Option.map_eq_some_iff.mp hs
    exact .finish hwork ho
  | close s =>
    obtain rfl := Option.some.inj hs
    exact .close rfl
  | enqueue s i =>
    obtain ⟨r, hr, rfl⟩ := Option.map_eq_some_iff.mp hs
    have hr' := hr
    obtain ⟨hmem, hr'⟩ := Option.ite_none_right_eq_some.mp hr'
    cases hr'
    exact .enqueue hmem hr
  | doClose i =>
    unfold ServiceWorld.step at hs
    dsimp only at hs
    split at hs
    · rename_i s reqs hreqs
      obtain ⟨r, hr, hs⟩ := Option.bind_eq_some_iff.mp hs
      obtain ⟨o, ho, rfl⟩ := Option.map_eq_some_iff.mp hs
      have hr' := hr
      unfold Registry.step at hr'
      dsimp only at hr'
      rw [hreqs] at hr'
      obtain ⟨-, hr'⟩ := Option.ite_none_right_eq_some.mp hr'
      exact .doClose hreqs hr (Option.some.inj hr').symm ho
    · cases hs

/-! ## All runs -/

/-- What holds in every run. -/
structure Inv (w : ServiceWorld) : Prop where
  reg : w.reg.Inv
  handled : ∀ i, w.reg.loop i ≠ .outside → w.reg._handler i ≠ none
  synced : ∀ s, w.reg.socks s = (w.sock s).core
  alone : ∀ s, Reach OpWorld.step always .start (w.sock s)

/-- A socket takes a step, and the threads stay as they are. -/
theorem Inv.sock (h : w.Inv) {s : ℕ} {a : OpAction Unit} {o : OpWorld Unit}
    (ho : (w.sock s).step a = some o) (hsock : w'.sock = update w.sock s o)
    (hsocks : w'.reg.socks = update w.reg.socks s o.core) (hreg : w'.reg.Inv)
    (hloop : w'.reg.loop = w.reg.loop) (hhandler : w'.reg._handler = w.reg._handler) : w'.Inv := by
  refine ⟨hreg, ?_, ?_, ?_⟩
  · rw [hloop, hhandler]
    exact h.handled
  · intro s'
    rw [hsock, hsocks]
    by_cases hs : s' = s
    · subst hs
      rw [Function.update_self, Function.update_self]
    · rw [Function.update_of_ne hs, Function.update_of_ne hs]
      exact h.synced s'
  · intro s'
    rw [hsock]
    by_cases hs : s' = s
    · subst hs
      rw [Function.update_self]
      exact (h.alone s').next trivial ho
    · rw [Function.update_of_ne hs]
      exact h.alone s'

/-- A thread moves on inside `Run`, or leaves it. -/
theorem Inv.setReg (h : w.Inv) {r : Registry} (hreg : r.Inv) (hsocks : r.socks = w.reg.socks)
    (hhandled : ∀ i, r.loop i ≠ .outside → r._handler i ≠ none) : (w.setReg r).Inv :=
  ⟨hreg, hhandled, fun s => (congrFun hsocks s).trans (h.synced s), h.alone⟩

theorem called_eq (w : ServiceWorld) (s : ℕ) (o : OpWorld Unit) : ∃ idx bound,
    w.called s o = { w.setSock s o with
      reg := { (w.setSock s o).reg with _implidx := idx }
      bound := bound } := by
  unfold called
  split
  · exact ⟨_, _, rfl⟩
  · exact ⟨_, _, rfl⟩

theorem report_eq (w : ServiceWorld) (i s : ℕ) (a : OpAction Unit) (o : OpWorld Unit) :
    ∃ worker ran, w.report i s a o = { w.setSock s o with worker := worker, ran := ran } := by
  unfold report
  split
  · exact ⟨_, _, rfl⟩
  · exact ⟨_, _, rfl⟩

theorem Inv.enter (h : w.Inv) {i fd : ℕ} (hl : w.reg.loop i = .outside)
    (hreg : (w.reg._createIoImpl i fd).Inv) : (w.setReg (w.reg._createIoImpl i fd)).Inv := by
  have hent : w.reg.Enters i (w.reg._createIoImpl i fd) := w.reg.createIoImpl_enters hl
  refine h.setReg hreg hent.socks ?_
  intro j hj
  by_cases hji : j = i
  · subst hji
    exact hent.handled hj
  · rw [hent.handler j hji]
    rw [hent.loop j hji] at hj
    exact h.handled j hj

/-- A thread leaves its loop, or goes on in `_ReleaseIoImpl`. -/
theorem Inv.release (h : w.Inv) {i : ℕ} {r : Registry} (hreg : r.Inv) (hsocks : r.socks = w.reg.socks)
    (hself : r.loop i ≠ .outside → r._handler i ≠ none)
    (hloop : ∀ j, j ≠ i → r.loop j = w.reg.loop j)
    (hhandler : ∀ j, j ≠ i → r._handler j = w.reg._handler j) : (w.setReg r).Inv := by
  refine h.setReg hreg hsocks ?_
  intro j hj
  by_cases hji : j = i
  · subst hji
    exact hself hj
  · rw [hhandler j hji]
    rw [hloop j hji] at hj
    exact h.handled j hj

theorem Inv.close (h : w.Inv) {s : ℕ} {o : OpWorld Unit} (ho : (w.sock s).step .close = some o) :
    Inv { w with reg := w.reg.close s, sock := update w.sock s o } := by
  have hreg : (w.reg.close s).Inv := h.reg.step (a := .close s) rfl
  refine h.sock ho rfl ?_ hreg ?_ ?_
  · obtain rfl := Option.some.inj ho
    unfold Registry.close
    dsimp only
    rw [h.synced s]
    split
    · rfl
    · rename_i hno
      unfold Core.close
      rw [if_neg hno, ← h.synced s, Function.update_eq_self]
  · unfold Registry.close
    dsimp only
    split <;> rfl
  · unfold Registry.close
    dsimp only
    split <;> rfl

theorem Inv.step {a : ServiceAction} (h : w.Inv) (hs : w.step a = some w') : w'.Inv := by
  cases step_did hs with
  | opens fd =>
    refine h.setReg ⟨h.reg.nodup, h.reg.mem, h.reg.cnt, ?_, h.reg.inj⟩ rfl h.handled
    exact fun i k hk => List.mem_cons_of_mem fd (h.reg.opened i k hk)
  | enter hl hr => exact h.enter hl (h.reg.step hr)
  | @leave i hl hr =>
    exact h.release (i := i) (h.reg.step hr) rfl (fun _ => h.handled i (by rw [hl]; decide))
      (fun j hj => Function.update_of_ne hj _ _) fun _ _ => rfl
  | @closeHandler i k fd hl hr =>
    refine h.release (i := i) (h.reg.step hr) rfl (fun _ => ?_)
      (fun j hj => Function.update_of_ne hj _ _) fun j hj => Function.update_of_ne hj _ _
    unfold Registry.closeHandler
    dsimp only
    rw [Function.update_self]
    exact Option.some_ne_none fd
  | @erase i hl hr =>
    have hself : (w.reg.erase i).loop i = .outside := Function.update_self i _ _
    exact h.release (i := i) (h.reg.step hr) rfl (fun hne => absurd hself hne)
      (fun j hj => Function.update_of_ne hj _ _) fun _ _ => rfl
  | @call s a o ha ho =>
    obtain ⟨idx, bound, heq⟩ := w.called_eq s o
    rw [heq]
    exact h.sock ho rfl rfl (h.reg.congr rfl rfl rfl rfl rfl) rfl rfl
  | @report i s a o ha hl hep ho =>
    obtain ⟨worker, ran, heq⟩ := w.report_eq i s a o
    rw [heq]
    exact h.sock ho rfl rfl (h.reg.congr rfl rfl rfl rfl rfl) rfl rfl
  | finish hwork ho => exact h.sock ho rfl rfl (h.reg.congr rfl rfl rfl rfl rfl) rfl rfl
  | close ho => exact h.close ho
  | enqueue hmem hr => exact h.setReg (h.reg.step hr) rfl h.handled
  | doClose hreqs hr heq ho =>
    have hreg := h.reg.step hr
    subst heq
    refine h.sock ho rfl ?_ hreg rfl rfl
    obtain rfl := Option.some.inj ho
    dsimp only
    rw [h.synced]

theorem start_inv (opened : List ℕ) : (start opened).Inv :=
  ⟨Registry.start_inv opened, fun _ h => absurd rfl h, fun _ => rfl, fun _ => .refl⟩

/-! ## Runs in which no thread leaves -/

/-- What holds while all threads stay: every socket has the thread it was bound to. -/
structure Home (w : ServiceWorld) : Prop where
  whole : w.reg.Whole
  once : (w.bound.map Prod.fst).Nodup
  bound : ∀ p ∈ w.bound, w.reg.loop p.2 = .looping ∧
    (w.sock p.1).core._epoll = w.reg._handler p.2
  epoll : ∀ s, (w.sock s).core._epoll ≠ none → ∃ i, (s, i) ∈ w.bound
  inflight : ∀ e ∈ w.reg.inflight, e ∈ w.bound
  closing : ∀ i, ∀ s ∈ w.reg._closereqs i, (s, i) ∈ w.bound
  working : ∀ s i, w.worker s = some i → (s, i) ∈ w.bound
  ran : ∀ p ∈ w.ran, p ∈ w.bound

/-- **The thread with the descriptor of a socket is the one it was bound to**: no other has this
descriptor. -/
theorem Home.home (h : w.Home) (hi : w.Inv) {i s : ℕ} (hl : w.reg.loop i ≠ .outside)
    (hep : (w.sock s).core._epoll = w.reg._handler i) : (s, i) ∈ w.bound := by
  have hsome := hi.handled i hl
  obtain ⟨j, hj⟩ := h.epoll s (by rw [hep]; exact hsome)
  obtain ⟨-, hbound⟩ := h.bound (s, j) hj
  obtain ⟨k, hk⟩ := Option.ne_none_iff_exists'.mp hsome
  have hsame : w.reg._handler j = some k := by
    rw [← hbound, hep]
    exact hk
  rw [hi.reg.inj i j k hk hsame]
  exact hj

/-- A socket takes a step that leaves its descriptor, and the threads and the requests stay. -/
theorem Home.sock (h : w.Home) {s : ℕ} {o : OpWorld Unit} {r : Registry}
    {worker : ℕ → Option ℕ} {ran : List (ℕ × ℕ)} (hep : o.core._epoll = (w.sock s).core._epoll)
    (hwhole : r.Whole) (hloop : r.loop = w.reg.loop) (hhandler : r._handler = w.reg._handler)
    (hinflight : ∀ e ∈ r.inflight, e ∈ w.bound)
    (hclosing : ∀ i, ∀ s ∈ r._closereqs i, (s, i) ∈ w.bound)
    (hworking : ∀ s i, worker s = some i → (s, i) ∈ w.bound) (hran : ∀ p ∈ ran, p ∈ w.bound) :
    Home ⟨r, update w.sock s o, worker, w.bound, ran⟩ := by
  have hsame : ∀ s', (update w.sock s o s').core._epoll = (w.sock s').core._epoll := by
    intro s'
    by_cases hs : s' = s
    · subst hs
      rw [Function.update_self]
      exact hep
    · rw [Function.update_of_ne hs]
  refine ⟨hwhole, h.once, ?_, ?_, hinflight, hclosing, hworking, hran⟩
  · intro p hp
    dsimp only
    rw [hloop, hhandler, hsame]
    exact h.bound p hp
  · intro s' hne
    dsimp only at hne
    rw [hsame] at hne
    exact h.epoll s' hne

/-- **A socket is bound**: to a thread in its loop, and it was not bound before. -/
theorem Home.bind (h : w.Home) (hi : w.Inv) {s i : ℕ} {o : OpWorld Unit} {idx : ℕ}
    (hno : (w.sock s).core._epoll = none) (hl : w.reg.loop i = .looping)
    (hep : o.core._epoll = w.reg._handler i) :
    Home { w.setSock s o with
      reg := { (w.setSock s o).reg with _implidx := idx }
      bound := w.bound ++ [(s, i)] } := by
  -- a bound socket has the descriptor of its thread
  have hfresh : ∀ p ∈ w.bound, p.1 ≠ s := by
    rintro p hp rfl
    obtain ⟨hloop, hbound⟩ := h.bound p hp
    have hsome := hi.handled p.2 (by rw [hloop]; decide)
    rw [← hbound, hno] at hsome
    exact hsome rfl
  have hleft : ∀ {p}, p ∈ w.bound → p ∈ w.bound ++ [(s, i)] := fun hp => List.mem_append_left _ hp
  refine ⟨⟨h.whole.map, h.whole.running, h.whole.inflight, h.whole.enqueued⟩, ?_, ?_, ?_, ?_, ?_, ?_, ?_⟩
  · dsimp only
    rw [List.map_append, List.map_singleton, List.nodup_append]
    refine ⟨h.once, List.nodup_singleton s, ?_⟩
    rintro s' hs' s'' hs'' rfl
    obtain ⟨p, hp, rfl⟩ := List.mem_map.mp hs'
    exact hfresh p hp (List.mem_singleton.mp hs'')
  · intro p hp
    rcases List.mem_append.mp hp with hp | hp
    · obtain ⟨hloop, hbound⟩ := h.bound p hp
      refine ⟨hloop, ?_⟩
      unfold setSock
      dsimp only
      rw [Function.update_of_ne (hfresh p hp)]
      exact hbound
    · rw [List.mem_singleton.mp hp]
      refine ⟨hl, ?_⟩
      unfold setSock
      dsimp only
      rw [Function.update_self]
      exact hep
  · intro s' hne
    by_cases hs : s' = s
    · subst hs
      exact ⟨i, List.mem_append_right _ List.mem_cons_self⟩
    · unfold setSock at hne
      dsimp only at hne
      rw [Function.update_of_ne hs] at hne
      obtain ⟨j, hj⟩ := h.epoll s' hne
      exact ⟨j, hleft hj⟩
  · exact fun e he => hleft (h.inflight e he)
  · exact fun j s' hs' => hleft (h.closing j s' hs')
  · exact fun s' j hj => hleft (h.working s' j hj)
  · exact fun p hp => hleft (h.ran p hp)

theorem nextService_eq (r : Registry) : r.nextService = r.nextThread.bind r._handler := by
  unfold Registry.nextService Registry.nextThread
  cases r._implvector[u32 (r._implidx + 1) % r._implvector.length]? <;> rfl

/-- **A call** leaves the descriptor, or it binds the socket to the next thread in turn. -/
theorem called_cases {s : ℕ} {a : OpAction Unit} {o : OpWorld Unit} (ha : a.isCall = true)
    (ho : (w.sock s).step (a.withService w.reg.nextService) = some o) :
    (o.core._epoll = (w.sock s).core._epoll ∧ w.called s o = w.setSock s o) ∨
      ∃ i, w.reg.nextThread = some i ∧ i ∈ w.reg._implvector ∧ (w.sock s).core._epoll = none ∧
        o.core._epoll = w.reg._handler i ∧ w.called s o = { w.setSock s o with
          reg := { (w.setSock s o).reg with _implidx := u32 (w.reg._implidx + 1) }
          bound := w.bound ++ [(s, i)] } := by
  have hkeep := OpWorld.epoll_called ha ho
  unfold called
  by_cases hnew : (w.sock s).core._epoll = none ∧ o.core._epoll ≠ none
  · rw [if_pos hnew]
    obtain ⟨hno, hsome⟩ := hnew
    refine .inr ?_
    have hep : o.core._epoll = w.reg.nextService := by
      rcases hkeep with heq | ⟨-, heq⟩
      · rw [hno] at heq
        exact absurd heq hsome
      · exact heq
    rw [nextService_eq] at hep
    cases hnext : w.reg.nextThread with
    | none =>
      rw [hnext] at hep
      exact absurd hep hsome
    | some i =>
      rw [hnext] at hep
      refine ⟨i, rfl, ?_, hno, hep, rfl⟩
      unfold Registry.nextThread at hnext
      exact List.mem_of_getElem? hnext
  · rw [if_neg hnew]
    refine .inl ⟨?_, rfl⟩
    rcases hkeep with heq | ⟨hno, heq⟩
    · exact heq
    · by_cases hsome : o.core._epoll = none
      · rw [hsome, hno]
      · exact absurd ⟨hno, hsome⟩ hnew

/-- The completion or the close that the thread of a socket has done. -/
theorem Home.ran_snoc (h : w.Home) {s i : ℕ} (hhome : (s, i) ∈ w.bound) :
    ∀ p ∈ w.ran ++ [(s, i)], p ∈ w.bound := by
  intro p hp
  rcases List.mem_append.mp hp with hp | hp
  · exact h.ran p hp
  · rw [List.mem_singleton.mp hp]
    exact hhome

/-- The worker of one socket is another one. -/
theorem Home.working_update (h : w.Home) {s : ℕ} {x : Option ℕ}
    (hx : ∀ i, x = some i → (s, i) ∈ w.bound) :
    ∀ s' i, update w.worker s x s' = some i → (s', i) ∈ w.bound := by
  intro s' i hi
  by_cases hs : s' = s
  · subst hs
    rw [Function.update_self] at hi
    exact hx i hi
  · rw [Function.update_of_ne hs] at hi
    exact h.working s' i hi

/-- Of the registry only the sockets change. -/
theorem Home.whole_setSock (h : w.Home) (s : ℕ) (o : OpWorld Unit) : (w.setSock s o).reg.Whole :=
  ⟨h.whole.map, h.whole.running, h.whole.inflight, h.whole.enqueued⟩

theorem Home.enter (h : w.Home) {i fd : ℕ} (hl : w.reg.loop i = .outside)
    (hwhole : (w.reg._createIoImpl i fd).Whole) : (w.setReg (w.reg._createIoImpl i fd)).Home := by
  have hent : w.reg.Enters i (w.reg._createIoImpl i fd) := w.reg.createIoImpl_enters hl
  -- a thread that sockets are bound to is another one
  have hother : ∀ p ∈ w.bound, p.2 ≠ i := by
    rintro p hp rfl
    have hloop := (h.bound p hp).1
    rw [hl] at hloop
    cases hloop
  refine ⟨hwhole, h.once, ?_, h.epoll, ?_, ?_, h.working, h.ran⟩
  · intro p hp
    unfold setReg
    dsimp only
    rw [hent.loop _ (hother p hp), hent.handler _ (hother p hp)]
    exact h.bound p hp
  · unfold setReg
    dsimp only
    rw [hent.inflight]
    exact h.inflight
  · unfold setReg
    dsimp only
    rw [hent.closereqs]
    exact h.closing

theorem Home.called (h : w.Home) (hi : w.Inv) {s : ℕ} {a : OpAction Unit} {o : OpWorld Unit}
    (ha : a.isCall = true) (ho : (w.sock s).step (a.withService w.reg.nextService) = some o) :
    (w.called s o).Home := by
  rcases called_cases ha ho with ⟨hep, heq⟩ | ⟨i, -, hmem, hno, hep, heq⟩
  · rw [heq]
    exact h.sock hep (h.whole_setSock s o) rfl rfl h.inflight h.closing h.working h.ran
  · rw [heq]
    exact h.bind hi hno (h.whole.running i ((hi.reg.mem i).mp hmem)) hep

/-- A completion is done by the thread that the socket is bound to. -/
theorem Home.report (h : w.Home) {i s : ℕ} {a : OpAction Unit} {o : OpWorld Unit}
    (hhome : (s, i) ∈ w.bound) (ha : a.isReport = true) (ho : (w.sock s).step a = some o) :
    (w.report i s a o).Home := by
  have hnocall : a.isCall = false := by cases a <;> first | rfl | cases ha
  have hep := OpWorld.epoll_other hnocall ho
  unfold ServiceWorld.report
  split
  · refine h.sock hep (h.whole_setSock s o) rfl rfl h.inflight h.closing (h.working_update ?_) h.ran
    rintro j hj
    obtain rfl := Option.some.inj hj
    exact hhome
  · exact h.sock hep (h.whole_setSock s o) rfl rfl h.inflight h.closing h.working (h.ran_snoc hhome)

/-- The request of a close goes to the service that the map has for the descriptor. -/
theorem Home.close (h : w.Home) (hi : w.Inv) {s : ℕ} {o : OpWorld Unit}
    (ho : (w.sock s).step .close = some o) :
    Home { w with reg := w.reg.close s, sock := update w.sock s o } := by
  have hep := OpWorld.epoll_other rfl ho
  have hwhole : (w.reg.close s).Whole := h.whole.step hi.reg (a := .close s) trivial rfl
  refine h.sock hep hwhole ?_ ?_ ?_ ?_ h.working h.ran
  · unfold Registry.close
    dsimp only
    split <;> rfl
  · unfold Registry.close
    dsimp only
    split <;> rfl
  · intro e he
    unfold Registry.close at he
    dsimp only at he
    split at he
    · dsimp only at he
      split at he
      · rename_i i hfind
        rcases List.mem_append.mp he with he | he
        · exact h.inflight e he
        · rw [List.mem_singleton.mp he]
          unfold Registry._getIoServiceImpl at hfind
          split at hfind
          · cases hfind
          rename_i k hk
          split at hfind
          · cases hfind
          obtain ⟨hmem, hhandler⟩ := (h.whole.map k i).mp hfind
          -- the map finds the thread that has the descriptor, and no other has it
          refine h.home hi ((hi.reg.mem i).mp hmem) ?_
          rw [hhandler, ← hi.synced s]
          exact hk
      · exact h.inflight e he
    · exact h.inflight e he
  · unfold Registry.close
    dsimp only
    split
    · exact h.closing
    · exact h.closing

theorem Home.enqueue (h : w.Home) {s i : ℕ} (hmem : (s, i) ∈ w.reg.inflight)
    (hwhole : (w.reg.enqueue s i).Whole) : (w.setReg (w.reg.enqueue s i)).Home := by
  refine ⟨hwhole, h.once, h.bound, h.epoll, ?_, ?_, h.working, h.ran⟩
  · intro e he
    exact h.inflight e (List.mem_of_mem_erase he)
  · intro j s' hs'
    unfold setReg Registry.enqueue at hs'
    dsimp only at hs'
    by_cases hj : j = i
    · subst hj
      rw [Function.update_self] at hs'
      rcases List.mem_append.mp hs' with hs' | hs'
      · exact h.closing j s' hs'
      · rw [List.mem_singleton.mp hs']
        exact h.inflight _ hmem
    · rw [Function.update_of_ne hj] at hs'
      exact h.closing j s' hs'

theorem Home.doClose (h : w.Home) {i s : ℕ} {reqs : List ℕ} {o : OpWorld Unit} {r : Registry}
    (hreqs : w.reg._closereqs i = s :: reqs) (hwhole : r.Whole)
    (heq : r = { w.reg with
      socks := update w.reg.socks s (w.reg.socks s).invalidate
      _closereqs := update w.reg._closereqs i reqs })
    (ho : (w.sock s).step .doClose = some o) :
    Home { w with reg := r, sock := update w.sock s o, ran := w.ran ++ [(s, i)] } := by
  have hhome : (s, i) ∈ w.bound := h.closing i s (by rw [hreqs]; exact List.mem_cons_self)
  subst heq
  refine h.sock (OpWorld.epoll_other rfl ho) hwhole rfl rfl h.inflight ?_ h.working (h.ran_snoc hhome)
  intro j s' hs'
  dsimp only at hs'
  by_cases hj : j = i
  · subst hj
    rw [Function.update_self] at hs'
    refine h.closing j s' ?_
    rw [hreqs]
    exact List.mem_cons_of_mem s hs'
  · rw [Function.update_of_ne hj] at hs'
    exact h.closing j s' hs'

theorem Home.step {a : ServiceAction} (h : w.Home) (hi : w.Inv) (ha : w.Stays a)
    (hs : w.step a = some w') : w'.Home := by
  -- a thread that runs is in its loop
  have hnot : ∀ {i}, w.reg.loop i ≠ .outside → w.reg.loop i ≠ .looping → False := fun hne hnl =>
    hnl (h.whole.running _ hne)
  cases step_did hs with
  | opens fd =>
    exact ⟨⟨h.whole.map, h.whole.running, h.whole.inflight, h.whole.enqueued⟩, h.once, h.bound,
      h.epoll, h.inflight, h.closing, h.working, h.ran⟩
  | @enter i fd hl hr => exact h.enter hl (h.whole.step hi.reg (a := .createIoImpl i fd) trivial hr)
  | leave => exact absurd ha id
  | closeHandler hl => exact (hnot (by rw [hl]; decide) (by rw [hl]; decide)).elim
  | erase hl => exact (hnot (by rw [hl]; decide) (by rw [hl]; decide)).elim
  | call hcall ho => exact h.called hi hcall ho
  | report hrep hl hep ho => exact h.report (h.home hi (by rw [hl]; decide) hep) hrep ho
  | @finish i s ret so o hwork ho =>
    refine h.sock (OpWorld.epoll_other (a := .finish ret so) rfl ho) (h.whole_setSock s o) rfl rfl
      h.inflight h.closing (h.working_update ?_) (h.ran_snoc (h.working s i hwork))
    -- the worker is done
    intro j hj
    cases hj
  | close ho => exact h.close hi ho
  | @enqueue s i hmem hr =>
    exact h.enqueue hmem (h.whole.step hi.reg (a := .enqueue s i) trivial hr)
  | @doClose i s reqs o r hreqs hr heq ho =>
    exact h.doClose hreqs (h.whole.step hi.reg (a := .doClose i) trivial hr) heq ho

theorem start_home (opened : List ℕ) : (start opened).Home := by
  refine ⟨Registry.start_whole opened, List.nodup_nil, ?_, fun s hne => absurd rfl hne, ?_, ?_, ?_, ?_⟩
  · intro p hp
    cases hp
  · intro e he
    cases he
  · intro i s hs
    cases hs
  · intro s i hi
    cases hi
  · intro p hp
    cases hp

theorem reach_inv {opened : List ℕ} {C : ServiceWorld → ServiceAction → Prop}
    (h : Reach step C (start opened) w) : w.Inv :=
  h.inv (start_inv opened) fun _ _ _ hi _ hs => hi.step hs

/-- A socket is bound to one thread. -/
theorem Home.unique (h : w.Home) {s i j : ℕ} (hi : (s, i) ∈ w.bound) (hj : (s, j) ∈ w.bound) :
    i = j := by
  have hpair := List.inj_on_of_nodup_map h.once hi hj rfl
  exact congrArg Prod.snd hpair

theorem reach_home {opened : List ℕ} (h : Reach step Stays (start opened) w) : w.Inv ∧ w.Home := by
  refine h.inv (I := fun w => w.Inv ∧ w.Home) ⟨start_inv opened, start_home opened⟩ ?_
  intro w a w' hi ha hs
  exact ⟨hi.1.step hs, hi.2.step hi.1 ha hs⟩

/-- **One socket, one thread**: in every run in which no thread leaves its loop. -/
theorem one_thread {opened : List ℕ} (h : Reach step Stays (start opened) w) : w.OneThread := by
  obtain ⟨hinv, hhome⟩ := reach_home h
  exact ⟨hinv.alone, hhome.once, hhome.ran, fun s i j hi hj => hhome.unique (hhome.ran _ hi)
    (hhome.ran _ hj), hhome.working, hhome.closing⟩

/-- Two threads and two sockets: each thread reads from its own, and closes it. -/
theorem one_thread_two : ∃ w : ServiceWorld, w.bound = [(8, 1), (9, 0)] ∧
    w.ran = [(9, 0), (8, 1), (8, 1)] ∧ w.OneThread := by
  have hrun : Reach step Stays (start [0]) _ := Reach.of_foldlM
    (l := [.enter 0 5, .enter 1 6, .call 8 (.openFd 7), .call 9 (.openFd 4),
      .call 8 (.async .read 0 10 () ⟨none, none, none⟩),
      .call 9 (.async .read 0 10 () ⟨none, none, none⟩),
      .report 0 9 (.lock .read none), .report 1 8 (.lock .read none), .finish 0 9 3 none,
      .finish 1 8 0 (some 0), .close 8, .enqueue 8 1, .doClose 1]) (by simp [Stays]) rfl
  exact ⟨_, rfl, rfl, one_thread hrun⟩

/-! ## The sockets are dealt out in turn -/

/-- What holds while the threads stay the same: the sockets were bound to them in turn. -/
structure Turns (w : ServiceWorld) : Prop where
  idx : w.bound.length < 2 ^ 32 → w.reg._implidx = w.bound.length
  order : w.bound.length < 2 ^ 32 → (w.bound.map fun p => some p.2) =
    (turns 1 w.reg._implvector.length w.bound.length).map (w.reg._implvector[·]?)

theorem Turns.congr (h : w.Turns) (hbound : w'.bound = w.bound)
    (hidx : w'.reg._implidx = w.reg._implidx) (hvec : w'.reg._implvector = w.reg._implvector) :
    w'.Turns := by
  refine ⟨?_, ?_⟩
  · rw [hbound, hidx]
    exact h.idx
  · rw [hbound, hvec]
    exact h.order

theorem Turns.bind (h : w.Turns) {s i : ℕ} {o : OpWorld Unit} (hnext : w.reg.nextThread = some i) :
    Turns { w.setSock s o with
      reg := { (w.setSock s o).reg with _implidx := u32 (w.reg._implidx + 1) }
      bound := w.bound ++ [(s, i)] } := by
  have hlen : (w.bound ++ [(s, i)]).length = w.bound.length + 1 := by simp
  refine ⟨?_, ?_⟩
  · intro hlt
    dsimp only at hlt ⊢
    rw [hlen] at hlt ⊢
    rw [h.idx (by omega)]
    exact Nat.mod_eq_of_lt hlt
  · intro hlt
    dsimp only at hlt ⊢
    rw [hlen] at hlt ⊢
    have hidx := h.idx (by omega)
    have hturn : u32 (w.reg._implidx + 1) = 1 + w.bound.length := by
      rw [hidx, Nat.add_comm]
      exact Nat.mod_eq_of_lt (by omega)
    unfold Registry.nextThread at hnext
    rw [hturn] at hnext
    rw [List.map_append, h.order (by omega), turns_succ, List.map_append]
    congr 1
    rw [List.map_singleton, List.map_singleton, ← hnext]
    rfl

theorem Turns.enter (h : w.Turns) {i fd : ℕ} (hl : w.reg.loop i = .outside) (hnone : w.bound = []) :
    (w.setReg (w.reg._createIoImpl i fd)).Turns := by
  refine ⟨?_, ?_⟩
  · intro hlt
    unfold setReg
    dsimp only
    rw [(w.reg.createIoImpl_enters hl).implidx]
    exact h.idx hlt
  · intro _
    unfold setReg
    dsimp only
    rw [hnone]
    rfl

theorem Turns.step {a : ServiceAction} (h : w.Turns) (hw : w.reg.Whole) (ha : w.Settled a)
    (hs : w.step a = some w') : w'.Turns := by
  cases step_did hs with
  | opens fd => exact h.congr rfl rfl rfl
  | enter hl => exact h.enter hl ha
  | leave => exact absurd ha id
  | closeHandler => exact h.congr rfl rfl rfl
  | @erase i hl =>
    have hrun := hw.running i (by rw [hl]; decide)
    rw [hl] at hrun
    cases hrun
  | call hcall ho =>
    rcases called_cases hcall ho with ⟨-, heq⟩ | ⟨i, hnext, -, -, -, heq⟩
    · rw [heq]
      exact h.congr rfl rfl rfl
    · rw [heq]
      exact h.bind hnext
  | @report i s a o =>
    obtain ⟨worker, ran, heq⟩ := w.report_eq i s a o
    rw [heq]
    exact h.congr rfl rfl rfl
  | finish => exact h.congr rfl rfl rfl
  | close =>
    refine h.congr rfl ?_ ?_
    · unfold Registry.close
      dsimp only
      split <;> rfl
    · unfold Registry.close
      dsimp only
      split <;> rfl
  | enqueue => exact h.congr rfl rfl rfl
  | doClose hreqs hr heq =>
    subst heq
    exact h.congr rfl rfl rfl

theorem start_turns (opened : List ℕ) : (start opened).Turns := ⟨fun _ => rfl, fun _ => rfl⟩

/-- **The load of a thread** is how often it was in turn. -/
theorem Turns.load_eq (h : w.Turns) (hnd : w.reg._implvector.Nodup) (hlt : w.bound.length < 2 ^ 32)
    {p : ℕ} (hp : p < w.reg._implvector.length) :
    w.load (w.reg._implvector[p]) =
      (turns 1 w.reg._implvector.length w.bound.length).count p := by
  have hsome : w.load (w.reg._implvector[p]) =
      (w.bound.map fun q => some q.2).count (some w.reg._implvector[p]) := by
    unfold load
    rw [List.count_eq_countP, List.count_eq_countP, List.countP_map, List.countP_map]
    refine List.countP_congr fun q _ => ?_
    simp
  rw [hsome, h.order hlt, List.count_eq_countP, List.count_eq_countP, List.countP_map]
  refine List.countP_congr fun q hq => ?_
  have hq := mem_turns (Nat.zero_lt_of_lt hp) hq
  simp only [Function.comp_apply, List.getElem?_eq_getElem hq, beq_iff_eq, Option.some.injEq]
  exact hnd.getElem_inj_iff

/-- **The sockets are dealt out evenly**: in every run in which the threads come before the sockets
are bound, and stay. The counter is one of 32 bits. -/
theorem evenly_dealt {opened : List ℕ} (h : Reach step Settled (start opened) w)
    (hlt : w.bound.length < 2 ^ 32) : w.Balanced := by
  have hinv : w.Inv ∧ w.Home ∧ w.Turns := by
    refine h.inv (I := fun w => w.Inv ∧ w.Home ∧ w.Turns)
      ⟨start_inv opened, start_home opened, start_turns opened⟩ ?_
    intro w a w' hi ha hs
    have hstays : w.Stays a := by
      cases a with
      | leave i => exact ha
      | _ => trivial
    exact ⟨hi.1.step hs, hi.2.1.step hi.1 hstays hs, hi.2.2.step hi.2.1.whole ha hs⟩
  obtain ⟨hinv, -, hturns⟩ := hinv
  intro i hi j hj
  obtain ⟨p, hp, rfl⟩ := List.getElem_of_mem hi
  obtain ⟨q, hq, rfl⟩ := List.getElem_of_mem hj
  rw [hturns.load_eq hinv.reg.nodup hlt hp, hturns.load_eq hinv.reg.nodup hlt hq]
  have hpc := count_turns (a := 1) hp w.bound.length
  have hqc := count_turns (a := 1) hq w.bound.length
  omega

/-- Two threads and three sockets. -/
theorem evenly_dealt_two : ∃ w : ServiceWorld, w.bound = [(7, 1), (8, 0), (9, 1)] ∧ w.Balanced := by
  have hone : Reach step Settled (start [0]) _ := Reach.single (a := .enter 0 5) rfl rfl
  have htwo : Reach step Settled (start [0]) _ := hone.next (a := .enter 1 6) rfl rfl
  have hrun : Reach step Settled (start [0]) _ := htwo.trans (Reach.of_foldlM
    (l := [.call 7 (.openFd 10), .call 8 (.openFd 11), .call 9 (.openFd 12),
      .call 7 (.async .read 0 10 () ⟨none, none, none⟩),
      .call 8 (.async .read 0 10 () ⟨none, none, none⟩),
      .call 9 (.async .read 0 10 () ⟨none, none, none⟩)]) (by simp [Settled]) rfl)
  exact ⟨_, rfl, evenly_dealt hrun (by decide)⟩

end ServiceWorld

end Netlib
