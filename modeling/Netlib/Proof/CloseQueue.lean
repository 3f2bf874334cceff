import Netlib.Spec.CloseQueue
import Netlib.Lib.Run
import Mathlib.Data.List.Nodup

/-!
# Every close is done once

A request is in flight, in a queue, or served, and the nodes of the queues of a service
are distinct, so a recycled node is never one that is still queued (`CloseService.Inv`).
Counting the requests (`CloseWorld.Inv`) shows that, once the queues are drained, every
effective call of `Close` has been served once exactly when it met `CloseCall.Ok`
(`exactlyOnce_iff`).
-/

namespace Netlib

open Lib Function

variable {η : Type*}

/-! ## One service -/

namespace CloseService

variable {s : CloseService} {i p : ℕ} {ps : List ℕ} {e : CloseCall}

/-- The nodes on the thread's list whose descriptor is not closed yet. -/
def waiting (s : CloseService) : List ℕ :=
  match s.pc with
  | .closed | .called => s.closereqs.tail
  | _ => s.closereqs

/-- The nodes on that list whose handler has not been called. -/
def silent (s : CloseService) : List ℕ :=
  match s.pc with
  | .called => s.closereqs.tail
  | _ => s.closereqs

def untaken (s : CloseService) : List CloseCall := (s._closereqs ++ s.waiting).filterMap s.node

def uncalled (s : CloseService) : List CloseCall := (s._closereqs ++ s.silent).filterMap s.node

/-- The nodes of a service. -/
def nodes (s : CloseService) : List ℕ :=
  s._closereqs ++ s.closereqs ++ (s.closereqs2 ++ s._closereqs2)

structure Inv (i : ℕ) (s : CloseService) : Prop where
  nodup : s.nodes.Nodup
  fresh : ∀ p ∈ s.nodes, p < s.fresh
  node : ∀ p ∈ s._closereqs ++ s.closereqs, ∃ e, s.node p = some e ∧ e.simpl = some i
  idle : s.pc = .idle → s.closereqs = [] ∧ s.closereqs2 = []

theorem new_inv (i : ℕ) : new.Inv i :=
  ⟨List.nodup_nil, (fun _ h => by cases h), (fun _ h => by cases h), fun _ => ⟨rfl, rfl⟩⟩

theorem filterMap_update {l : List ℕ} (h : p ∉ l) (f : ℕ → Option CloseCall) (x : Option CloseCall) :
    l.filterMap (update f p x) = l.filterMap f := by
  refine List.filterMap_congr fun q hq => ?_
  exact update_of_ne (ne_of_mem_of_not_mem hq h) x f

/-- A request on a node that is not queued. -/
theorem pushNode_lists (hp : p ∉ s._closereqs ++ s.closereqs) (e : CloseCall) :
    (∀ x, (s.pushNode p e).untaken.count x = s.untaken.count x + [e].count x) ∧
      ∀ x, (s.pushNode p e).uncalled.count x = s.uncalled.count x + [e].count x := by
  rw [List.mem_append, not_or] at hp
  have htail : p ∉ s.closereqs.tail := fun h => hp.2 (List.mem_of_mem_tail h)
  have hlist : ∀ l, p ∉ l → ∀ x, ((s._closereqs ++ [p] ++ l).filterMap (update s.node p (some e))).count x =
      ((s._closereqs ++ l).filterMap s.node).count x + [e].count x := by
    intro l hl x
    rw [List.filterMap_append, List.filterMap_append, filterMap_update hp.1, filterMap_update hl,
      List.filterMap_append, List.filterMap_cons_some (by rw [update_self]), List.filterMap_nil]
    simp only [List.count_append]
    omega
  refine ⟨hlist s.waiting ?_, hlist s.silent ?_⟩
  · unfold waiting
    split
    · exact htail
    · exact htail
    · exact hp.2
  · unfold silent
    split
    · exact htail
    · exact hp.2

theorem push_lists (h : s.Inv i) (e : CloseCall) :
    (∀ x, (s.push e).untaken.count x = s.untaken.count x + [e].count x) ∧
      ∀ x, (s.push e).uncalled.count x = s.uncalled.count x + [e].count x := by
  unfold push
  split
  · -- a recycled node
    rename_i p ps hps
    refine pushNode_lists (s := { s with _closereqs2 := ps }) ?_ e
    have hnd := h.nodup
    rw [nodes, hps] at hnd
    intro hp
    exact (List.nodup_append.mp hnd).2.2 p hp p (by simp) rfl
  · -- a new one
    refine pushNode_lists (s := { s with fresh := s.fresh + 1 }) ?_ e
    intro hp
    exact absurd (h.fresh s.fresh (List.mem_append_left _ hp)) (Nat.lt_irrefl _)

/-- **A node is queued once**: the one taken for a request was free. -/
theorem Inv.push (h : s.Inv i) (he : e.simpl = some i) : (s.push e).Inv i := by
  have hnode : ∀ (p : ℕ) (f : ℕ → Option CloseCall), (∀ q ∈ s._closereqs ++ s.closereqs, f q = s.node q) →
      p ∉ s._closereqs ++ s.closereqs →
      ∀ q ∈ s._closereqs ++ [p] ++ s.closereqs, ∃ x, update f p (some e) q = some x ∧ x.simpl = some i := by
    intro p f hf hp q hq
    by_cases hqp : q = p
    · exact ⟨e, by rw [hqp, update_self], he⟩
    · have hq' : q ∈ s._closereqs ++ s.closereqs := by
        simp only [List.mem_append, List.mem_singleton] at hq ⊢
        tauto
      rw [update_of_ne hqp, hf q hq']
      exact h.node q hq'
  unfold CloseService.push
  split
  · rename_i p ps hps
    have hnd := h.nodup
    have hfr := h.fresh
    rw [nodes, hps] at hnd hfr
    have hperm : (s._closereqs ++ [p] ++ s.closereqs ++ (s.closereqs2 ++ ps)).Perm
        (s._closereqs ++ s.closereqs ++ (s.closereqs2 ++ p :: ps)) := by
      rw [List.perm_iff_count]
      intro q
      simp only [List.count_append, List.count_cons, List.count_nil]
      omega
    refine ⟨hperm.nodup_iff.mpr hnd, fun q hq => hfr q (hperm.mem_iff.mp hq), ?_, h.idle⟩
    exact hnode p s.node (fun _ _ => rfl) fun hp =>
      (List.nodup_append.mp hnd).2.2 p hp p (by simp) rfl
  · rename_i hps
    have hnd := h.nodup
    have hfr := h.fresh
    rw [nodes, hps] at hnd hfr
    have hnew : s.fresh ∉ s._closereqs ++ s.closereqs ++ (s.closereqs2 ++ []) := fun hp =>
      absurd (hfr _ hp) (Nat.lt_irrefl _)
    have hperm : (s._closereqs ++ [s.fresh] ++ s.closereqs ++ (s.closereqs2 ++ s._closereqs2)).Perm
        (s.fresh :: (s._closereqs ++ s.closereqs ++ (s.closereqs2 ++ []))) := by
      rw [List.perm_iff_count, hps]
      intro q
      simp only [List.count_append, List.count_cons, List.count_nil]
      omega
    refine ⟨hperm.nodup_iff.mpr (List.nodup_cons.mpr ⟨hnew, hnd⟩), ?_, ?_, h.idle⟩
    · intro q hq
      obtain rfl | hq := List.mem_cons.mp (hperm.mem_iff.mp hq)
      · exact Nat.lt_succ_self _
      · exact Nat.lt_succ_of_lt (hfr q hq)
    · exact hnode s.fresh s.node (fun _ _ => rfl) fun hp => hnew (List.mem_append_left _ hp)

theorem Inv.swap (h : s.Inv i) (hpc : s.pc = .idle) :
    s.swap.Inv i ∧ s.swap.untaken = s.untaken ∧ s.swap.uncalled = s.uncalled := by
  obtain ⟨hc, hc2⟩ := h.idle hpc
  have hnd := h.nodup
  have hfr := h.fresh
  have hno := h.node
  rw [nodes, hc] at hnd hfr
  rw [hc] at hno
  unfold CloseService.swap
  by_cases hq : s._closereqs = []
  · -- no request, no swap
    rw [if_pos hq]
    refine ⟨⟨h.nodup, h.fresh, h.node, fun hidle => by cases hidle⟩, ?_, ?_⟩
    · simp only [untaken, waiting, hpc]
    · simp only [uncalled, silent, hpc]
  · rw [if_neg hq]
    refine ⟨⟨?_, ?_, ?_, fun hidle => by cases hidle⟩, ?_, ?_⟩
    · simpa [nodes, hc] using hnd
    · simpa [nodes, hc] using hfr
    · simpa [hc] using hno
    · simp only [untaken, waiting, hpc, hc, List.nil_append, List.append_nil]
    · simp only [uncalled, silent, hpc, hc, List.nil_append, List.append_nil]

theorem Inv.join (h : s.Inv i) (hpc : s.pc = .loop) (hc : s.closereqs = []) :
    s.join.Inv i ∧ s.join.untaken = s.untaken ∧ s.join.uncalled = s.uncalled := by
  have hperm : (s._closereqs ++ s.closereqs ++ ([] ++ (s._closereqs2 ++ s.closereqs2))).Perm s.nodes := by
    rw [List.perm_iff_count]
    intro q
    simp only [nodes, List.count_append, List.count_nil]
    omega
  refine ⟨⟨hperm.nodup_iff.mpr h.nodup, fun q hq => h.fresh q (hperm.mem_iff.mp hq), h.node,
    fun _ => ⟨hc, rfl⟩⟩, ?_, ?_⟩
  · simp only [untaken, waiting, CloseService.join, hpc]
  · simp only [uncalled, silent, CloseService.join, hpc]

theorem Inv.setPc (h : s.Inv i) {pc : DoClosePc} (hpc : pc ≠ .idle) : (s.setPc pc).Inv i :=
  ⟨h.nodup, h.fresh, h.node, fun hidle => absurd hidle hpc⟩

/-- The head of the thread's list. -/
theorem Inv.front (h : s.Inv i) (hc : s.closereqs = p :: ps) {e : CloseCall} (he : s.node p = some e) :
    e.simpl = some i := by
  obtain ⟨e', he', hi⟩ := h.node p (by rw [hc]; simp)
  rw [he] at he'
  cases he'
  exact hi

theorem filterMap_front {f : ℕ → Option CloseCall} (he : f p = some e) (l : List ℕ) (x : CloseCall) :
    ((l ++ p :: ps).filterMap f).count x = ((l ++ ps).filterMap f).count x + [e].count x := by
  rw [List.filterMap_append, List.filterMap_append, List.filterMap_cons_some he]
  simp only [List.count_append, List.count_cons, List.count_nil]
  omega

theorem setPc_closed (hpc : s.pc = .loop) (hc : s.closereqs = p :: ps) (he : s.node p = some e) :
    (∀ x, s.untaken.count x = (s.setPc .closed).untaken.count x + [e].count x) ∧
      (s.setPc .closed).uncalled = s.uncalled := by
  refine ⟨?_, by simp only [uncalled, silent, CloseService.setPc, hpc]⟩
  intro x
  have hold : s.untaken = (s._closereqs ++ p :: ps).filterMap s.node := by
    rw [untaken, waiting, hpc, hc]
  have hnew : (s.setPc .closed).untaken = (s._closereqs ++ ps).filterMap s.node := by
    rw [untaken, waiting, CloseService.setPc, hc]; rfl
  rw [hold, hnew, filterMap_front he]

theorem setPc_called (hpc : s.pc = .closed) (hc : s.closereqs = p :: ps) (he : s.node p = some e) :
    (s.setPc .called).untaken = s.untaken ∧
      ∀ x, s.uncalled.count x = (s.setPc .called).uncalled.count x + [e].count x := by
  refine ⟨by simp only [untaken, waiting, CloseService.setPc, hpc], ?_⟩
  intro x
  have hold : s.uncalled = (s._closereqs ++ p :: ps).filterMap s.node := by
    rw [uncalled, silent, hpc, hc]
  have hnew : (s.setPc .called).uncalled = (s._closereqs ++ ps).filterMap s.node := by
    rw [uncalled, silent, CloseService.setPc, hc]; rfl
  rw [hold, hnew, filterMap_front he]

theorem Inv.recycle (h : s.Inv i) (hpc : s.pc = .called) (hc : s.closereqs = p :: ps) :
    (s.recycle p ps).Inv i ∧ (s.recycle p ps).untaken = s.untaken ∧
      (s.recycle p ps).uncalled = s.uncalled := by
  have hnd := h.nodup
  have hfr := h.fresh
  rw [nodes, hc] at hnd hfr
  have hperm : (s._closereqs ++ ps ++ (s.closereqs2 ++ [p] ++ s._closereqs2)).Perm
      (s._closereqs ++ p :: ps ++ (s.closereqs2 ++ s._closereqs2)) := by
    rw [List.perm_iff_count]
    intro q
    simp only [List.count_append, List.count_cons, List.count_nil]
    omega
  have hp : p ∉ s._closereqs ++ ps := by
    have hp' : (p :: (s._closereqs ++ ps)).Perm (s._closereqs ++ p :: ps) := List.perm_middle.symm
    exact (List.nodup_cons.mp (hp'.nodup_iff.mpr (List.nodup_append.mp hnd).1)).1
  refine ⟨⟨hperm.nodup_iff.mpr hnd, fun q hq => hfr q (hperm.mem_iff.mp hq), ?_,
    fun hidle => by cases hidle⟩, ?_, ?_⟩
  · intro q hq
    have hqp : q ≠ p := fun hqp => hp (hqp ▸ hq)
    obtain ⟨e, he, hi⟩ := h.node q (by
      rw [hc]
      simp only [CloseService.recycle, List.mem_append, List.mem_cons] at hq ⊢
      tauto)
    exact ⟨e, (update_of_ne hqp _ _).trans he, hi⟩
  · simp only [untaken, waiting, CloseService.recycle, hpc, hc, List.tail_cons]
    exact filterMap_update hp _ _
  · simp only [uncalled, silent, CloseService.recycle, hpc, hc, List.tail_cons]
    exact filterMap_update hp _ _

end CloseService

/-! ## All sockets and services -/

namespace CloseWorld

variable {w w' : CloseWorld η} {i : ℕ} {e : CloseCall}

theorem count_ne {x : CloseCall} (h : x ≠ e) : [e].count x = 0 :=
  List.count_eq_zero.mpr fun hmem => h (List.mem_singleton.mp hmem)

theorem count_push (l : List CloseCall) (p : Prop) [Decidable p] (x : CloseCall) :
    (if p then l ++ [e] else l).count x = l.count x + if p then [e].count x else 0 := by
  split
  · exact List.count_append
  · rfl

theorem count_push_not (l : List CloseCall) (p : Prop) [Decidable p] (x : CloseCall) :
    (if p then l else l ++ [e]).count x = l.count x + if p then 0 else [e].count x := by
  split
  · rfl
  · exact List.count_append

theorem nodup_map_push {l : List CloseCall} {f : CloseCall → ℕ} (h : (l.map f).Nodup)
    (he : ∀ x ∈ l, f x ≠ f e) : ((l ++ [e]).map f).Nodup := by
  rw [List.map_append, List.nodup_append]
  refine ⟨h, List.nodup_singleton _, ?_⟩
  intro a ha b hb
  obtain ⟨x, hx, rfl⟩ := List.mem_map.mp ha
  rw [List.mem_singleton.mp hb]
  exact he x hx

/-! What a step of the service `i` to `s` makes of a list of another call's service. -/

section Update

variable {svc : ℕ → CloseService} {s : CloseService} {f : CloseService → List CloseCall}
  {x : CloseCall} {j : ℕ}

theorem update_same (h : f s = f (svc i)) : f (update svc i s j) = f (svc j) := by
  by_cases hj : j = i
  · rw [hj, update_self, h]
  · rw [update_of_ne hj]

/-- The call is new on the list of its own service. -/
theorem update_push (hs : e.simpl = some i) (hx : x.simpl = some j)
    (h : ∀ x, (f s).count x = (f (svc i)).count x + [e].count x) :
    (f (update svc i s j)).count x = (f (svc j)).count x + [e].count x := by
  by_cases hj : j = i
  · rw [hj, update_self, h]
  · have hxe : x ≠ e := by
      rintro rfl
      rw [hs] at hx
      exact hj (Option.some.inj hx).symm
    rw [update_of_ne hj, count_ne hxe, Nat.add_zero]

/-- The call is gone from it. -/
theorem update_pop (hs : e.simpl = some i) (hx : x.simpl = some j)
    (h : ∀ x, (f (svc i)).count x = (f s).count x + [e].count x) :
    (f (svc j)).count x = (f (update svc i s j)).count x + [e].count x := by
  by_cases hj : j = i
  · rw [hj, update_self, h]
  · have hxe : x ≠ e := by
      rintro rfl
      rw [hs] at hx
      exact hj (Option.some.inj hx).symm
    rw [update_of_ne hj, count_ne hxe, Nat.add_zero]

end Update

/-- Every effective call is counted once: as served, in flight or queued. -/
structure Inv (w : CloseWorld η) : Prop where
  svc : ∀ i, (w.svc i).Inv i
  handled : ∀ e i, e.simpl = some i →
    w.effective.count e = w.handled.count e + w.inflight.count e + (w.svc i).uncalled.count e
  lost : ∀ e, e.simpl = none → w.handled.count e = 0
  closed : ∀ e i, e.simpl = some i → e.block = false →
    w.effective.count e = w.closed.count e + w.inflight.count e + (w.svc i).untaken.count e
  blocking : ∀ e, e.block = true → w.closed.count e = w.effective.count e
  never : ∀ e, e.simpl = none → e.block = false → w.closed.count e = 0
  impls : (w.effective.map CloseCall.impl).Nodup
  ids : (w.effective.map CloseCall.id).Nodup
  calls : ∀ e ∈ w.effective, e.id < w.calls
  shut : ∀ e ∈ w.effective, (w.socks e.impl)._fd ≠ none → (w.socks e.impl)._state.close = true
  open_ : ∀ e ∈ w.effective, (w.socks e.impl)._fd ≠ none ↔ e.block = false ∧ w.closed.count e = 0

theorem start_inv (socks : ℕ → Core η) (implmap : List ℕ) : (start socks implmap).Inv where
  svc i := CloseService.new_inv i
  handled _ _ _ := rfl
  lost _ _ := rfl
  closed _ _ _ _ := rfl
  blocking _ _ := rfl
  never _ _ _ := rfl
  impls := List.nodup_nil
  ids := List.nodup_nil
  calls _ h := by cases h
  shut _ h := by cases h
  open_ _ h := by cases h

theorem Inv.nodup (h : w.Inv) : w.effective.Nodup := h.impls.of_map

/-- One effective call on a socket. -/
theorem Inv.impl_inj (h : w.Inv) {e e' : CloseCall} (he : e ∈ w.effective) (he' : e' ∈ w.effective)
    (heq : e.impl = e'.impl) : e = e' :=
  List.inj_on_of_nodup_map h.impls he he' heq

/-- The sockets may change as long as the descriptors and the close flags stay. -/
theorem Inv.op (h : w.Inv) {impl : ℕ} {core : Core η} (hfd : core._fd = (w.socks impl)._fd)
    (hcl : core._state.close = (w.socks impl)._state.close) :
    ({ w with socks := update w.socks impl core } : CloseWorld η).Inv := by
  have hsame : ∀ s, (update w.socks impl core s)._fd = (w.socks s)._fd ∧
      (update w.socks impl core s)._state.close = (w.socks s)._state.close := by
    intro s
    by_cases hs : s = impl
    · rw [hs, update_self]
      exact ⟨hfd, hcl⟩
    · rw [update_of_ne hs]
      exact ⟨rfl, rfl⟩
  refine { h with shut := fun e he => ?_, open_ := fun e he => ?_ }
  · dsimp only
    rw [(hsame e.impl).1, (hsame e.impl).2]
    exact h.shut e he
  · dsimp only
    rw [(hsame e.impl).1]
    exact h.open_ e he

theorem Inv.svc_update (h : w.Inv) {s : CloseService} (hs : s.Inv i) (j : ℕ) :
    (update w.svc i s j).Inv j := by
  by_cases hj : j = i
  · rw [hj, update_self]
    exact hs
  · rw [update_of_ne hj]
    exact h.svc j

/-- A step of a service that serves no request. -/
theorem Inv.setSvc (h : w.Inv) {s : CloseService} (hs : s.Inv i)
    (ht : s.untaken = (w.svc i).untaken) (hc : s.uncalled = (w.svc i).uncalled) :
    (w.setSvc i s).Inv := by
  refine { h with
    svc := h.svc_update hs
    handled := fun e j hj => ?_
    closed := fun e j hj hb => ?_ }
  · change _ = _ + _ + (update w.svc i s j).uncalled.count e
    rw [update_same hc]
    exact h.handled e j hj
  · change _ = _ + _ + (update w.svc i s j).untaken.count e
    rw [update_same ht]
    exact h.closed e j hj hb

/-- No call before has found a socket that is open. -/
theorem Inv.unseen (h : w.Inv) {impl : ℕ} (hfd : (w.socks impl)._fd ≠ none)
    (hcl : (w.socks impl)._state.close = false) : ∀ x ∈ w.effective, x.impl ≠ impl := by
  rintro x hx rfl
  have hsh := h.shut x hx hfd
  rw [hcl] at hsh
  cases hsh

/-- A call that has not been effective has closed nothing. -/
theorem Inv.unclosed (h : w.Inv) (he : w.effective.count e = 0) : w.closed.count e = 0 := by
  cases hb : e.block with
  | true => rw [h.blocking e hb, he]
  | false =>
    cases hs : e.simpl with
    | none => exact h.never e hs hb
    | some i =>
      have hclosed := h.closed e i hs hb
      omega

/-- A call that finds the socket open. -/
theorem Inv.accept (h : w.Inv) {c : Core η} (hc : w.socks e.impl = c) (hfd : c._fd ≠ none)
    (hcl : c._state.close = false) (hid : e.id = w.calls) (hblock : e.block = c._state.block) :
    (w.accept e).Inv := by
  subst hc
  set c := w.socks e.impl with hc
  have hnew : ∀ x ∈ w.effective, x.impl ≠ e.impl := h.unseen hfd hcl
  have hcount : w.effective.count e = 0 := List.count_eq_zero.mpr fun hmem => hnew e hmem rfl
  have hzero : w.closed.count e = 0 := h.unclosed hcount
  have hclose : c.close = if e.block then c.invalidate
      else { c with _state := { c._state with close := true } } := by
    rw [Core.close, if_pos ⟨hfd, hcl⟩, hblock]
  have hothers : ∀ x ∈ w.effective, update w.socks e.impl c.close x.impl = w.socks x.impl :=
    fun x hx => update_of_ne (hnew x hx) _ _
  unfold CloseWorld.accept
  refine ⟨h.svc, ?_, h.lost, ?_, ?_, ?_, ?_, ?_, ?_, ?_, ?_⟩
  · intro x j hj
    dsimp only
    rw [List.count_append, count_push_not, h.handled x j hj]
    by_cases hx : x = e
    · rw [if_neg (by rw [← hx, hj]; exact Option.some_ne_none j)]
      omega
    · rw [count_ne hx, ite_self]
      omega
  · intro x j hj hb
    dsimp only
    rw [List.count_append, count_push_not, count_push, h.closed x j hj hb]
    by_cases hx : x = e
    · rw [if_neg (by rw [← hx, hb]; decide), if_neg (by rw [← hx, hj]; exact Option.some_ne_none j)]
      omega
    · rw [count_ne hx, ite_self, ite_self]
      omega
  · intro x hb
    dsimp only
    rw [List.count_append, count_push, h.blocking x hb]
    by_cases hx : x = e
    · rw [if_pos (by rw [← hx]; exact hb)]
    · rw [count_ne hx, ite_self]
  · intro x hs hb
    dsimp only
    rw [count_push, h.never x hs hb]
    by_cases hx : x = e
    · rw [if_neg (by rw [← hx, hb]; decide)]
    · rw [count_ne hx, ite_self]
  · exact nodup_map_push h.impls hnew
  · refine nodup_map_push h.ids fun x hx => ?_
    rw [hid]
    exact Nat.ne_of_lt (h.calls x hx)
  · intro x hx
    obtain hx | hx := List.mem_append.mp hx
    · exact Nat.lt_succ_of_lt (h.calls x hx)
    · rw [List.mem_singleton.mp hx, hid]
      exact Nat.lt_succ_self _
  · intro x hx
    dsimp only
    obtain hx | hx := List.mem_append.mp hx
    · rw [hothers x hx]
      exact h.shut x hx
    · rw [List.mem_singleton.mp hx, update_self, hclose]
      split
      · intro habs
        exact absurd rfl habs
      · intro _
        rfl
  · intro x hx
    dsimp only
    rw [count_push]
    obtain hx | hx := List.mem_append.mp hx
    · have hxe : x ≠ e := fun hxe => hnew x hx (hxe ▸ rfl)
      rw [hothers x hx, count_ne hxe, ite_self]
      exact h.open_ x hx
    · rw [List.mem_singleton.mp hx, update_self, hclose, hzero]
      cases hb : e.block with
      | true => simp [Core.invalidate]
      | false => simpa using hfd

/-- The first part of a call. -/
theorem Inv.close (h : w.Inv) (impl : ℕ) (handler : Bool) : (w.close impl handler).Inv := by
  unfold CloseWorld.close
  dsimp only
  split
  · rename_i hopen
    exact h.accept rfl hopen.1 hopen.2 rfl rfl
  · exact { h with calls := fun x hx => Nat.lt_succ_of_lt (h.calls x hx) }

/-- The second part. -/
theorem Inv.enqueue (h : w.Inv) (hs : e.simpl = some i) (he : e ∈ w.inflight) :
    ({ w with inflight := w.inflight.erase e }.setSvc i ((w.svc i).push e) : CloseWorld η).Inv := by
  obtain ⟨hunt, hunc⟩ := CloseService.push_lists (h.svc i) e
  have herase : ∀ x, w.inflight.count x = (w.inflight.erase e).count x + [e].count x := by
    intro x
    have hperm := (List.perm_cons_erase he).count_eq x
    rw [hperm, List.count_cons, List.count_cons, List.count_nil, Nat.zero_add]
  refine { h with
    svc := h.svc_update ((h.svc i).push hs)
    handled := fun x j hj => ?_
    closed := fun x j hj hb => ?_ }
  · change w.effective.count x = w.handled.count x + (w.inflight.erase e).count x +
      (update w.svc i _ j).uncalled.count x
    rw [update_push hs hj hunc, h.handled x j hj, herase]
    omega
  · change w.effective.count x = w.closed.count x + (w.inflight.erase e).count x +
      (update w.svc i _ j).untaken.count x
    rw [update_push hs hj hunt, h.closed x j hj hb, herase]
    omega

theorem Inv.effective_of_uncalled (h : w.Inv) (hs : e.simpl = some i)
    (hmem : e ∈ (w.svc i).uncalled) : e ∈ w.effective := by
  have hcnt := h.handled e i hs
  have hpos : 0 < (w.svc i).uncalled.count e := List.count_pos_iff.mpr hmem
  exact List.count_pos_iff.mp (by omega)

/-- The descriptor of a request that has not been taken is still valid exactly when the call did
not close it itself. -/
theorem Inv.fd_of_untaken (h : w.Inv) (hs : e.simpl = some i) (he : e ∈ w.effective)
    (hmem : 0 < (w.svc i).untaken.count e) : (w.socks e.impl)._fd = none ↔ e.block = true := by
  have hopen := h.open_ e he
  cases hb : e.block with
  | true =>
    rw [hb] at hopen
    simpa using hopen
  | false =>
    have hcl := h.closed e i hs hb
    have hle : w.effective.count e ≤ 1 := List.nodup_iff_count_le_one.mp h.nodup e
    have hzero : w.closed.count e = 0 := by omega
    rw [hb, hzero] at hopen
    simpa using hopen

/-- A request is taken: its descriptor is closed if it is still valid. -/
theorem Inv.take (h : w.Inv) {s : CloseService} (hs : s.Inv i) (hsi : e.simpl = some i)
    (hunt : ∀ x, (w.svc i).untaken.count x = s.untaken.count x + [e].count x)
    (hunc : s.uncalled = (w.svc i).uncalled) (hmem : e ∈ (w.svc i).uncalled) :
    ((w.closesocket e).setSvc i s).Inv := by
  have heff : e ∈ w.effective := h.effective_of_uncalled hsi hmem
  have hself : [e].count e = 1 := List.count_singleton_self
  have hfd : (w.socks e.impl)._fd = none ↔ e.block = true := by
    refine h.fd_of_untaken hsi heff ?_
    rw [hunt, hself]
    omega
  have hclosed : ∀ x, (w.closesocket e).closed.count x =
      w.closed.count x + if e.block then 0 else [e].count x := by
    intro x
    change (if _ then w.closed else w.closed ++ [e]).count x = _
    rw [count_push_not, if_congr hfd rfl rfl]
  have hsocks : ∀ x ∈ w.effective, x ≠ e → (w.closesocket e).socks x.impl = w.socks x.impl :=
    fun x hx hxe => update_of_ne (fun himpl => hxe (h.impl_inj hx heff himpl)) _ _
  have hinval : (w.closesocket e).socks e.impl = (w.socks e.impl).invalidate := update_self _ _ _
  refine ⟨h.svc_update hs, ?_, h.lost, ?_, ?_, ?_, h.impls, h.ids, h.calls, ?_, ?_⟩
  · intro x j hj
    change _ = _ + _ + (update w.svc i s j).uncalled.count x
    rw [update_same hunc]
    exact h.handled x j hj
  · intro x j hj hb
    change w.effective.count x = (w.closesocket e).closed.count x + w.inflight.count x +
      (update w.svc i s j).untaken.count x
    rw [hclosed, h.closed x j hj hb, update_pop hsi hj hunt]
    by_cases hxe : x = e
    · rw [if_neg (by rw [← hxe, hb]; decide)]
      omega
    · rw [count_ne hxe, ite_self]
      rfl
  · intro x hb
    change (w.closesocket e).closed.count x = w.effective.count x
    rw [hclosed, h.blocking x hb]
    by_cases hxe : x = e
    · rw [if_pos (hxe ▸ hb)]
      rfl
    · rw [count_ne hxe, ite_self]
      rfl
  · intro x hx hb
    change (w.closesocket e).closed.count x = 0
    rw [hclosed, h.never x hx hb]
    have hxe : x ≠ e := by
      rintro rfl
      rw [hsi] at hx
      cases hx
    rw [count_ne hxe, ite_self]
  · intro x hx
    change ((w.closesocket e).socks x.impl)._fd ≠ none → ((w.closesocket e).socks x.impl)._state.close = true
    by_cases hxe : x = e
    · rw [hxe, hinval]
      intro habs
      exact absurd rfl habs
    · rw [hsocks x hx hxe]
      exact h.shut x hx
  · intro x hx
    change ((w.closesocket e).socks x.impl)._fd ≠ none ↔
      x.block = false ∧ (w.closesocket e).closed.count x = 0
    rw [hclosed]
    by_cases hxe : x = e
    · rw [hxe, hinval, hself]
      cases hb : e.block with
      | true => simp [Core.invalidate]
      | false => simp [Core.invalidate]
    · rw [hsocks x hx hxe, count_ne hxe, ite_self]
      exact h.open_ x hx

/-- A handler is called. -/
theorem Inv.handle (h : w.Inv) {s : CloseService} (hs : s.Inv i) (hsi : e.simpl = some i)
    (hunt : s.untaken = (w.svc i).untaken)
    (hunc : ∀ x, (w.svc i).uncalled.count x = s.uncalled.count x + [e].count x) :
    ({ w with handled := w.handled ++ [e] }.setSvc i s : CloseWorld η).Inv := by
  refine { h with
    svc := h.svc_update hs
    handled := fun x j hj => ?_
    lost := fun x hx => ?_
    closed := fun x j hj hb => ?_ }
  · change w.effective.count x = (w.handled ++ [e]).count x + w.inflight.count x +
      (update w.svc i s j).uncalled.count x
    rw [List.count_append, h.handled x j hj, update_pop hsi hj hunc]
    omega
  · change (w.handled ++ [e]).count x = 0
    have hxe : x ≠ e := by
      rintro rfl
      rw [hsi] at hx
      cases hx
    rw [List.count_append, h.lost x hx, count_ne hxe]
  · change _ = _ + _ + (update w.svc i s j).untaken.count x
    rw [update_same hunt]
    exact h.closed x j hj hb

/-- A step of `_DoClose`. -/
theorem Inv.doClose (h : w.Inv) (hs : w._doClose i = some w') : w'.Inv := by
  have hsvc := h.svc i
  unfold CloseWorld._doClose at hs
  dsimp only at hs
  -- the cases are the places of the thread in `_DoClose`, in order
  split at hs
  · rename_i hpc
    cases hs
    obtain ⟨hinv, ht, hc⟩ := hsvc.swap hpc
    exact h.setSvc hinv ht hc
  · rename_i hpc hq
    cases hs
    obtain ⟨hinv, ht, hc⟩ := hsvc.join hpc hq
    exact h.setSvc hinv ht hc
  · rename_i p ps hpc hq
    cases hn : (w.svc i).node p with
    | none => rw [hn] at hs; cases hs
    | some e =>
      rw [hn] at hs
      cases hs
      obtain ⟨ht, hc⟩ := CloseService.setPc_closed hpc hq hn
      have hmem : e ∈ (w.svc i).uncalled := by
        rw [CloseService.uncalled, CloseService.silent, hpc, hq]
        exact List.mem_filterMap.mpr ⟨p, by simp, hn⟩
      exact h.take (hsvc.setPc (by decide)) (hsvc.front hq hn) ht hc hmem
  · rename_i p ps hpc hq
    cases hn : (w.svc i).node p with
    | none => rw [hn] at hs; cases hs
    | some e =>
      rw [hn] at hs
      cases hs
      obtain ⟨ht, hc⟩ := CloseService.setPc_called hpc hq hn
      exact h.handle (hsvc.setPc (by decide)) (hsvc.front hq hn) ht hc
  · rename_i p ps hpc hq
    cases hs
    obtain ⟨hinv, ht, hc⟩ := hsvc.recycle hpc hq
    exact h.setSvc hinv ht hc
  · cases hs
  · cases hs

theorem Inv.step (h : w.Inv) {a : CloseAction η} (hs : w.step a = some w') : w'.Inv := by
  cases a with
  | close impl handler =>
    cases hs
    exact h.close impl handler
  | enqueue e =>
    simp only [CloseWorld.step] at hs
    split at hs
    · cases hs
    · rename_i i hi
      obtain ⟨he, hs⟩ := Option.ite_none_right_eq_some.mp hs
      cases hs
      exact h.enqueue hi he
  | doClose i => exact h.doClose hs
  | op impl core =>
    obtain ⟨hsame, hs⟩ := Option.ite_none_right_eq_some.mp hs
    cases hs
    exact h.op hsame.1 hsame.2
  | createIo i =>
    cases hs
    exact { h with }

theorem reach_inv {socks : ℕ → Core η} {implmap : List ℕ}
    (h : Reach step always (start socks implmap) w) : w.Inv :=
  h.inv (start_inv socks implmap) fun _ _ _ hi _ hs => hi.step hs

/-! ## Drained queues -/

/-- The entries of a list that agree with `e` on what tells the calls apart are `e`. -/
theorem filter_length {l E : List CloseCall} {f : CloseCall → ℕ} (hl : ∀ x ∈ l, x ∈ E)
    (hf : (E.map f).Nodup) (he : e ∈ E) : (l.filter (f · = f e)).length = l.count e := by
  rw [← List.countP_eq_length_filter, List.count_eq_countP]
  refine List.countP_congr fun x hx => ?_
  rw [decide_eq_true_eq, beq_iff_eq]
  exact ⟨fun hfx => List.inj_on_of_nodup_map hf (hl x hx) he hfx, fun hxe => hxe ▸ rfl⟩

theorem Inv.closed_mem (h : w.Inv) : ∀ x ∈ w.closed, x ∈ w.effective := by
  intro x hx
  have hpos : 0 < w.closed.count x := List.count_pos_iff.mpr hx
  refine List.count_pos_iff.mp ?_
  cases hb : x.block with
  | true => rwa [← h.blocking x hb]
  | false =>
    cases hs : x.simpl with
    | none => rw [h.never x hs hb] at hpos; omega
    | some i =>
      have := h.closed x i hs hb
      omega

theorem Inv.handled_mem (h : w.Inv) : ∀ x ∈ w.handled, x ∈ w.effective := by
  intro x hx
  have hpos : 0 < w.handled.count x := List.count_pos_iff.mpr hx
  refine List.count_pos_iff.mp ?_
  cases hs : x.simpl with
  | none => rw [h.lost x hs] at hpos; omega
  | some i =>
    have := h.handled x i hs
    omega

theorem Inv.called_mem (h : w.Inv) : ∀ x ∈ w.called, x ∈ w.effective :=
  fun x hx => h.handled_mem x (List.mem_filter.mp hx).1

theorem Drained.served (hd : w.Drained) (i : ℕ) :
    (w.svc i).untaken = [] ∧ (w.svc i).uncalled = [] := by
  obtain ⟨h1, h2, h3⟩ := hd.queues i
  constructor
  · rw [CloseService.untaken, CloseService.waiting, h1, h2, h3]; rfl
  · rw [CloseService.uncalled, CloseService.silent, h1, h2, h3]; rfl

/-- A call that met the condition has been served. -/
theorem Inv.served (h : w.Inv) (hd : w.Drained) (he : e ∈ w.effective) (hok : e.Ok) :
    w.closed.count e = 1 ∧ (e.handler = true → w.called.count e = 1) := by
  have hone : w.effective.count e = 1 := List.count_eq_one_of_mem h.nodup he
  refine ⟨?_, ?_⟩
  · cases hb : e.block with
    | true => rw [h.blocking e hb, hone]
    | false =>
      cases hs : e.simpl with
      | none =>
        obtain hne | ⟨hb', -⟩ := hok
        · exact absurd hs hne
        · rw [hb] at hb'; cases hb'
      | some i =>
        have hcl := h.closed e i hs hb
        rw [hone, hd.inflight, (hd.served i).1] at hcl
        simpa using hcl.symm
  · intro hh
    cases hs : e.simpl with
    | none =>
      obtain hne | ⟨-, hh'⟩ := hok
      · exact absurd hs hne
      · rw [hh] at hh'; cases hh'
    | some i =>
      have hcl := h.handled e i hs
      rw [hone, hd.inflight, (hd.served i).2] at hcl
      rw [called, List.count_filter hh]
      simpa using hcl.symm

/-- **Exactly when no close is dropped**: once the queues are drained, every effective
call led to one close and one call of its handler just when each of them met the
condition. -/
theorem exactlyOnce_iff {socks : ℕ → Core η} {implmap : List ℕ}
    (hr : Reach step always (start socks implmap) w) (hd : w.Drained) :
    w.ExactlyOnce ↔ ∀ e ∈ w.effective, e.Ok := by
  have h := reach_inv hr
  constructor
  · intro ho e he
    by_cases hs : e.simpl = none
    · refine .inr ⟨?_, ?_⟩
      · -- the descriptor was closed, and not by a service
        have hcl := ho.closed e he
        rw [filter_length h.closed_mem h.impls he] at hcl
        by_contra hb
        rw [Bool.not_eq_true] at hb
        rw [h.never e hs hb] at hcl
        cases hcl
      · -- no handler is called without a service
        by_contra hh
        rw [Bool.not_eq_false] at hh
        have hca := ho.called e he hh
        rw [filter_length h.called_mem h.ids he, called, List.count_filter hh, h.lost e hs] at hca
        cases hca
    · exact .inl hs
  · intro hok
    refine ⟨?_, ?_, ?_⟩
    · intro e he
      rw [filter_length h.closed_mem h.impls he]
      exact (h.served hd he (hok e he)).1
    · intro e he hh
      rw [filter_length h.called_mem h.ids he]
      exact (h.served hd he (hok e he)).2 hh
    · intro e he
      obtain he | he := he
      · exact h.closed_mem e he
      · exact h.called_mem e he

/-- The socket 0 is accepted, in blocking mode and not bound. -/
def accepted : ℕ → Core ℕ := fun _ => Core.init.openFd 7

/-- The socket 0 is closed before it is bound. -/
def lost : CloseWorld ℕ := (start accepted [5]).close 0 true

theorem lost_reach : Reach step always (start accepted [5]) lost :=
  .single (a := .close 0 true) trivial rfl

theorem lost_drained : lost.Drained :=
  ⟨rfl, fun _ => ⟨rfl, rfl, rfl⟩⟩

/-- A close inside `OnConnected` of an accepted socket. -/
theorem exactlyOnce_iff_lost : lost.ExactlyOnce ↔ ∀ e ∈ lost.effective, e.Ok :=
  exactlyOnce_iff lost_reach lost_drained

/-- Its handler, which is `OnDisconnected`, is never called. -/
theorem not_exactlyOnce : ¬ ∀ (socks : ℕ → Core ℕ) (implmap : List ℕ) (w : CloseWorld ℕ),
    Reach step always (start socks implmap) w → w.Drained → w.ExactlyOnce := by
  intro h
  have ho := h accepted [5] lost lost_reach lost_drained
  exact absurd (ho.called ⟨0, 0, true, true, none⟩ (by decide) rfl) (by decide)

end CloseWorld

end Netlib
