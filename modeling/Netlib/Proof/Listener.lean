import Netlib.Spec.Listener
import Netlib.Lib.Run
import Mathlib.Data.List.Nodup

/-!
# The acceptor goes on until an accept reports an error

`Open n w` is the state between two events while the acceptor listens: an accept is posted for
the last socket, number `n`. An event without error leaves `Open (n + 1)`; one with an error makes
`AsyncAccept` take the slot back, and the acceptor is closed (`Open.event`). `Tally` is what the
sockets say of the events. Both are kept along a run (`serves`).
-/

namespace Netlib

open Lib

variable {η : Type*}

/-- Without an earlier error it is `AsyncAccept`. -/
theorem Core.asyncAcceptFrom_none (c : Core η) (cli : ℕ) (handler : η) (env : Env) :
    c.asyncAcceptFrom none cli handler env =
      ((c.asyncAccept cli handler env).1.map .posting, (c.asyncAccept cli handler env).2) := by
  unfold Core.asyncAcceptFrom Core.asyncAccept
  by_cases hfd : c._fd = none
  · rw [if_pos hfd, if_pos hfd]
    rfl
  rw [if_neg hfd, if_neg hfd]
  by_cases hflag : c._state.accept = true
  · rw [if_pos hflag, if_pos hflag]
    rfl
  rw [if_neg hflag, if_neg hflag]
  cases c.setNonblock env with
  | error e => rfl
  | ok c =>
    dsimp only
    generalize Core.bindEpoll _ env _ = r
    obtain ⟨e, c⟩ := r
    cases e with
    | none => rfl
    | some e => rfl

namespace Listener

variable {w w' : Listener} {n : ℕ} {rs : List AcceptResult}

/-! ## One event -/

/-- The acceptor between two events. -/
structure Open (n : ℕ) (w : Listener) : Prop where
  fd : w.core._fd ≠ none
  close : w.core._state.close = false
  interest : w.core.interest = some ⟨true, false, false⟩
  type : w.core._type = { OpType.none with accept := true }
  flag : w.core._state.accept = true
  block : w.core._state.block = false
  bind : w.core._state.bind = true
  aop : w.core._aop = ⟨true, some n, some n⟩
  length : w.socks.length = n + 1
  last : w.socks[n]? = some newSocket

/-- The last socket after an event: `Init` was called unless there is an error. -/
def after (res : AcceptResult) : AcceptedSocket :=
  if res.error = none then { res.give newSocket with inits := 1, started := endpoints res }
  else newSocket

theorem modify_last {α : Type*} {l : List α} {a : α} (h : l[n]? = some a) (f : α → α) :
    l.modify n f = l.set n (f a) := by
  refine List.ext_getElem? fun k => ?_
  rw [List.getElem?_modify, List.getElem?_set]
  have hn : n < l.length := (List.getElem?_eq_some_iff.mp h).1
  obtain ⟨hn', rfl⟩ := List.getElem?_eq_some_iff.mp h
  by_cases hk : n = k
  · subst hk
    simp [hn]
  · simp [hk]

/-- The core that `AsyncAccept` leaves after a completion. -/
theorem Open.posted (h : Open n w) (error : Option AcceptError) (m : ℕ) (env : Env) :
    ∃ c, w.core.acceptComplete.asyncAcceptFrom error m m env = (error, c) ∧
      c._fd = w.core._fd ∧ c._state.close = false ∧ c._state.block = false ∧
      c.interest = some ⟨true, false, false⟩ ∧ c._type = { OpType.none with accept := true } ∧
      (error = none → c._state.accept = true ∧ c._state.bind = true ∧ c._aop = ⟨true, some m, some m⟩) ∧
      (error ≠ none → c._aop._handler = none) := by
  have hflag : w.core.acceptComplete._state.accept = false := by
    have hfd : w.core._fd.isNone = false := Option.isNone_eq_false_iff.mpr (Option.isSome_iff_ne_none.mpr h.fd)
    change (w.core._state.accept && w.core._fd.isNone) = false
    rw [hfd, Bool.and_false]
  have hblock : ¬ w.core.acceptComplete._state.block = true := by
    change ¬ w.core._state.block = true
    rw [h.block]
    decide
  -- it is bound, so that `epoll_ctl` is not called
  set posted : Core ℕ := { w.core.acceptComplete with
    _state := { w.core.acceptComplete._state with accept := true }
    _type := { OpType.none with accept := true }
    _aop := ⟨true, some m, some m⟩ } with hposted
  have hbind : posted.bindEpoll env ⟨true, false, false⟩ = (none, posted) := if_pos h.bind
  have hcall : w.core.acceptComplete.asyncAcceptFrom error m m env =
      if error = none then (none, posted)
      else (error, { posted with
        _state := { posted._state with accept := false, bind := false }
        _aop := .clear }) := by
    have hfd : ¬ w.core.acceptComplete._fd = none := h.fd
    have hset : w.core.acceptComplete.setNonblock env = .ok w.core.acceptComplete := if_neg hblock
    have hflag' : ¬ w.core.acceptComplete._state.accept = true := by rw [hflag]; decide
    unfold Core.asyncAcceptFrom
    rw [if_neg hfd, if_neg hflag', hset]
    dsimp only
    rw [← hposted, hbind]
  cases error with
  | none =>
    exact ⟨posted, hcall, rfl, h.close, h.block, h.interest, rfl, fun _ => ⟨rfl, h.bind, rfl⟩,
      fun hne => absurd rfl hne⟩
  | some e => exact ⟨_, hcall, rfl, h.close, h.block, h.interest, rfl, nofun, fun _ => rfl⟩

/-- **An event.** The socket of the posted accept gets what came, and a new one is made; without
error it is the next to be accepted, and otherwise the acceptor is closed. -/
theorem Open.event (h : Open n w) (res : AcceptResult) (env : Env) :
    ∃ c, w.step (.event res env) = some ⟨c, w.socks.set n (after res) ++ [newSocket],
        w.onConnected ++ if (after res).started then [n] else []⟩ ∧
      (res.error = none → Open (n + 1) ⟨c, w.socks.set n (after res) ++ [newSocket],
        w.onConnected ++ if (after res).started then [n] else []⟩) ∧
      (res.error ≠ none → c._state.close = true) := by
  have hwatched : w.Watched ∧ w.core._type.accept = true ∧ w.core._aop._acpt_impl = true :=
    ⟨⟨h.fd, h.close, h.interest⟩, by rw [h.type], by rw [h.aop]⟩
  obtain ⟨c, hc, hfd, hclose, hblock, hint, htype, hok, herr⟩ := h.posted res.error (n + 1) env
  have hgive : (w.socks.modify n res.give)[n]? = some (res.give newSocket) := by
    rw [List.getElem?_modify, h.last]
    simp
  have hcomplete : w.complete res = some (n,
      { w with core := w.core.acceptComplete, socks := w.socks.modify n res.give }) := by
    unfold complete
    rw [h.aop]
  -- what `Init` leaves
  have hdone : (if res.error = none then
        init { w with core := w.core.acceptComplete, socks := w.socks.modify n res.give }
          (endpoints res) n
      else { w with core := w.core.acceptComplete, socks := w.socks.modify n res.give }) =
      ⟨w.core.acceptComplete, w.socks.set n (after res),
        w.onConnected ++ if (after res).started then [n] else []⟩ := by
    unfold after
    split
    · unfold init
      dsimp only
      rw [modify_last hgive, modify_last h.last, List.set_set]
      have hold : (res.give newSocket).inits = 0 ∧ (res.give newSocket).started = false := by
        cases res <;> exact ⟨rfl, rfl⟩
      rw [hold.1, hold.2, Bool.false_or, Nat.zero_add]
      cases endpoints res <;> simp
    · -- an error: the socket is left as it was made
      rename_i herror
      have hfail : res.give newSocket = newSocket := by
        cases res with
        | conn fd remote loc => exact absurd rfl herror
        | fail so => rfl
      rw [modify_last h.last, hfail]
      simp [newSocket]
  have hlen : (w.socks.set n (after res)).length = n + 1 := by rw [List.length_set, h.length]
  refine ⟨if c._aop._handler = none then c.close else c, ?_, fun hnone => ?_, fun hsome => ?_⟩
  · have hstep : w.step (.event res env) = (w.complete res).map fun p =>
        p.2._acceptHandler res.error (endpoints res) p.1 env := if_pos hwatched
    rw [hstep, hcomplete, Option.map_some]
    unfold _acceptHandler
    dsimp only
    rw [hdone]
    dsimp only
    rw [hlen, hc]
  · obtain ⟨h1, h2, h3⟩ := hok hnone
    rw [if_neg (by rw [h3]; exact Option.some_ne_none _)]
    refine ⟨by rw [hfd]; exact h.fd, hclose, hint, htype, h1, hblock, h2, h3, ?_, ?_⟩
    · rw [List.length_append, hlen]
      rfl
    · rw [← hlen]
      exact List.getElem?_concat_length
  · rw [if_pos (herr hsome)]
    have hfd' : c._fd ≠ none := by rw [hfd]; exact h.fd
    unfold Core.close
    rw [if_pos ⟨hfd', hclose⟩, if_neg (by rw [hblock]; decide)]

/-! ## What the sockets say -/

/-- The sockets tell what the events have brought. -/
structure Tally (w : Listener) (rs : List AcceptResult) : Prop where
  nodup : w.onConnected.Nodup
  connected : w.onConnected.map (fun n => (w.socks[n]?).bind AcceptedSocket._fd) =
    (rs.filterMap AcceptResult.served).map some
  started : ∀ (n : ℕ) (s : AcceptedSocket), w.socks[n]? = some s →
    (s.started = true ↔ n ∈ w.onConnected)
  once : ∀ (n : ℕ) (s : AcceptedSocket), w.socks[n]? = some s → s._fd ≠ none → s.inits = 1

theorem after_served (res : AcceptResult) :
    res.served = if (after res).started then (after res)._fd else none := by
  cases res with
  | conn fd remote loc => cases remote <;> cases loc <;> rfl
  | fail so =>
    unfold after
    split <;> rfl

theorem after_once (res : AcceptResult) (h : (after res)._fd ≠ none) : (after res).inits = 1 := by
  unfold after at h ⊢
  split
  · rfl
  · rename_i herror
    rw [if_neg herror] at h
    exact absurd rfl h

theorem after_fd (res : AcceptResult) (h : (after res).started = true) : (after res)._fd ≠ none := by
  cases res with
  | conn fd remote loc => nofun
  | fail so =>
    unfold after at h
    split at h <;> cases h

/-- A socket that was handed to `OnConnected` is one of those made. -/
theorem Tally.made (h : Tally w rs) {k : ℕ} (hk : k ∈ w.onConnected) : ∃ s, w.socks[k]? = some s := by
  have hmem := List.mem_map_of_mem (f := fun n => (w.socks[n]?).bind AcceptedSocket._fd) hk
  rw [h.connected] at hmem
  obtain ⟨fd, -, hfd⟩ := List.mem_map.mp hmem
  obtain ⟨s, hs, -⟩ := Option.bind_eq_some_iff.mp hfd.symm
  exact ⟨s, hs⟩

/-- The last socket gets what came, and a new one follows. -/
theorem Tally.add (h : Tally w rs) (hlen : w.socks.length = n + 1) (hlast : w.socks[n]? = some newSocket)
    (res : AcceptResult) (c : Core ℕ) :
    Tally ⟨c, w.socks.set n (after res) ++ [newSocket],
      w.onConnected ++ if (after res).started then [n] else []⟩ (rs ++ [res]) := by
  have hnew : n ∉ w.onConnected := fun hn => absurd ((h.started n newSocket hlast).mpr hn) (by decide)
  have hsl : (w.socks.set n (after res)).length = n + 1 := by rw [List.length_set, hlen]
  have hself : (w.socks.set n (after res) ++ [newSocket])[n]? = some (after res) := by
    rw [List.getElem?_append_left (by omega), List.getElem?_set_self (by omega)]
  have hother : ∀ k, k ≠ n → k < n + 1 →
      (w.socks.set n (after res) ++ [newSocket])[k]? = w.socks[k]? := by
    intro k hk hlt
    rw [List.getElem?_append_left (by omega), List.getElem?_set_ne (Ne.symm hk)]
  have hlt : ∀ k ∈ w.onConnected, k ≠ n ∧ k < n + 1 := by
    intro k hk
    obtain ⟨s, hs⟩ := h.made hk
    have := (List.getElem?_eq_some_iff.mp hs).1
    exact ⟨fun he => hnew (he ▸ hk), by omega⟩
  -- a socket is the last one, an earlier one, or the new one
  have hcases : ∀ k (s : AcceptedSocket),
      (w.socks.set n (after res) ++ [newSocket])[k]? = some s →
      (k = n ∧ s = after res) ∨ (k ≠ n ∧ k < n + 1 ∧ w.socks[k]? = some s) ∨
        (k = n + 1 ∧ s = newSocket) := by
    intro k s hs
    by_cases hk : k = n
    · subst hk
      exact .inl ⟨rfl, Option.some.inj (hs.symm.trans hself)⟩
    by_cases hkl : k < n + 1
    · rw [hother k hk hkl] at hs
      exact .inr (.inl ⟨hk, hkl, hs⟩)
    · have hbound := (List.getElem?_eq_some_iff.mp hs).1
      rw [List.length_append, hsl, List.length_singleton] at hbound
      have hk' : k = n + 1 := by omega
      subst hk'
      rw [← hsl, List.getElem?_concat_length] at hs
      exact .inr (.inr ⟨rfl, (Option.some.inj hs).symm⟩)
  refine ⟨?_, ?_, ?_, ?_⟩
  · -- the last socket was not among them
    refine List.nodup_append.mpr ⟨h.nodup, by split <;> simp, ?_⟩
    intro a ha b hb
    split at hb
    · rw [List.mem_singleton.mp hb]
      exact (hlt a ha).1
    · cases hb
  · have hold : w.onConnected.map (fun n' =>
        ((w.socks.set n (after res) ++ [newSocket])[n']?).bind AcceptedSocket._fd) =
        w.onConnected.map fun n' => (w.socks[n']?).bind AcceptedSocket._fd := by
      refine List.map_congr_left fun k hk => ?_
      rw [hother k (hlt k hk).1 (hlt k hk).2]
    change List.map _ (w.onConnected ++ _) = _
    rw [List.map_append, hold, h.connected, List.filterMap_append, List.map_append,
      List.filterMap_cons, List.filterMap_nil, after_served]
    congr 1
    split
    · rename_i hst
      obtain ⟨fd, hfd⟩ := Option.ne_none_iff_exists'.mp (after_fd res hst)
      rw [List.map_singleton, hself, Option.bind_some, hfd]
      rfl
    · rfl
  · intro k s hs
    rw [List.mem_append]
    rcases hcases k s hs with ⟨rfl, rfl⟩ | ⟨hk, hkl, hs'⟩ | ⟨rfl, rfl⟩
    · refine ⟨fun hst => .inr (by rw [if_pos hst]; exact List.mem_singleton_self _), ?_⟩
      rintro (hmem | hmem)
      · exact absurd hmem hnew
      · split at hmem
        · assumption
        · cases hmem
    · rw [h.started k s hs']
      refine ⟨.inl, fun hmem => hmem.resolve_right fun hn => hk ?_⟩
      split at hn
      · exact List.mem_singleton.mp hn
      · cases hn
    · refine ⟨fun hst => absurd hst (by decide), ?_⟩
      rintro (hmem | hmem)
      · exact absurd (hlt _ hmem).2 (by omega)
      · split at hmem
        · exact absurd (List.mem_singleton.mp hmem) (by omega)
        · cases hmem
  · intro k s hs hfd
    rcases hcases k s hs with ⟨rfl, rfl⟩ | ⟨-, -, hs'⟩ | ⟨rfl, rfl⟩
    · exact after_once res hfd
    · exact h.once k s hs' hfd
    · exact absurd rfl hfd

/-! ## Runs -/

/-- **The invariant of the runs.** -/
structure Inv (w : Listener) (rs : List AcceptResult) : Prop where
  tally : Tally w rs
  phase : ((∀ r ∈ rs, r.error = none) ∧ ∃ n, Open n w) ∨
    ((∃ r ∈ rs, r.error ≠ none) ∧ (w.core._fd = none ∨ w.core._state.close = true))

theorem Open.watched (h : Open n w) : w.Watched := ⟨h.fd, h.close, h.interest⟩

theorem not_watched (h : w.core._fd = none ∨ w.core._state.close = true) : ¬ w.Watched := by
  rintro ⟨hfd, hclose, -⟩
  rcases h with h | h
  · exact hfd h
  · rw [hclose] at h
    cases h

/-- `ListenOne` returns true when the system grants all it asks for. -/
theorem listenOne_open {fd : ℕ} {env : Env} (h : listenOne fd env = some w) :
    Open 0 w ∧ w.socks = [newSocket] ∧ w.onConnected = [] := by
  unfold listenOne at h
  split at h
  · rename_i c hc
    obtain rfl := Option.some.inj h
    refine ⟨?_, rfl, rfl⟩
    obtain ⟨nonblock, service, ctl⟩ := env
    cases nonblock with
    | some e => cases hc
    | none =>
      cases service with
      | none => cases hc
      | some handle =>
        cases ctl with
        | some e => cases hc
        | none =>
          obtain rfl := (Prod.mk.inj hc).2
          exact ⟨nofun, rfl, rfl, rfl, rfl, rfl, rfl, rfl, rfl, rfl⟩
  · cases h

theorem listenOne_inv {fd : ℕ} {env : Env} (h : listenOne fd env = some w) : Inv w [] := by
  obtain ⟨hopen, hsocks, hconn⟩ := listenOne_open h
  refine ⟨⟨by rw [hconn]; exact List.nodup_nil, by rw [hconn]; rfl, ?_, ?_⟩, .inl ⟨nofun, 0, hopen⟩⟩
  · intro n s hs
    rw [hsocks] at hs
    rw [List.mem_singleton.mp (List.mem_of_getElem? hs), hconn]
    exact ⟨nofun, nofun⟩
  · intro n s hs hfd
    rw [hsocks] at hs
    rw [List.mem_singleton.mp (List.mem_of_getElem? hs)] at hfd
    exact absurd rfl hfd

theorem Inv.step {a : ListenAction} (h : Inv w rs) (hs : w.step a = some w') :
    Inv w' (rs ++ results [a]) := by
  cases a with
  | event res env =>
    rcases h.phase with ⟨hok, n, hopen⟩ | ⟨-, hclosed⟩
    · obtain ⟨c, hc, hgood, hbad⟩ := hopen.event res env
      obtain rfl := Option.some.inj (hc.symm.trans hs)
      refine ⟨h.tally.add hopen.length hopen.last res c, ?_⟩
      change ((∀ r ∈ rs ++ [res], r.error = none) ∧ _) ∨ ((∃ r ∈ rs ++ [res], r.error ≠ none) ∧ _)
      by_cases herror : res.error = none
      · refine .inl ⟨fun r hr => ?_, n + 1, hgood herror⟩
        rcases List.mem_append.mp hr with hr | hr
        · exact hok r hr
        · rw [List.mem_singleton.mp hr]
          exact herror
      · exact .inr ⟨⟨res, by simp, herror⟩, .inr (hbad herror)⟩
    · exfalso
      obtain ⟨⟨hw, -⟩, -⟩ := Option.ite_none_right_eq_some.mp hs
      exact not_watched hclosed hw
  | doClose =>
    obtain ⟨hclose, hs'⟩ := Option.ite_none_right_eq_some.mp hs
    obtain rfl := Option.some.inj hs'
    change Inv _ (rs ++ [])
    rw [List.append_nil]
    refine ⟨⟨h.tally.nodup, h.tally.connected, h.tally.started, h.tally.once⟩, ?_⟩
    rcases h.phase with ⟨-, n, hopen⟩ | ⟨hbad, -⟩
    · rw [hopen.close] at hclose
      cases hclose
    · exact .inr ⟨hbad, .inl rfl⟩

theorem Inv.run {l : List ListenAction} (h : Inv w rs) (hl : l.foldlM Listener.step w = some w') :
    Inv w' (rs ++ results l) := by
  induction l generalizing w rs with
  | nil =>
    obtain rfl := Option.some.inj hl
    rw [results, List.filterMap_nil, List.append_nil]
    exact h
  | cons a l ih =>
    rw [List.foldlM_cons, Option.bind_eq_bind, Option.bind_eq_some_iff] at hl
    obtain ⟨w₁, hs, hl⟩ := hl
    have hrest := ih (h.step hs) hl
    rw [List.append_assoc] at hrest
    have happ : results (a :: l) = results [a] ++ results l := by
      unfold results
      rw [← List.filterMap_append]
      rfl
    rw [happ]
    exact hrest

/-- **The accept loop.** From a successful `ListenOne` on, in every run: each connection is handed
out once, and the acceptor listens exactly as long as no accept has reported an error. -/
theorem serves {fd : ℕ} {env : Env} {w₀ : Listener} (h : listenOne fd env = some w₀)
    {l : List ListenAction} (hl : l.foldlM Listener.step w₀ = some w) : w.Served (results l) := by
  obtain ⟨htally, hphase⟩ := (listenOne_inv h).run hl
  rw [List.nil_append] at htally hphase
  refine ⟨htally.nodup, htally.connected, htally.started, htally.once, fun hok => ?_, ?_⟩
  · rcases hphase with ⟨-, n, hopen⟩ | ⟨⟨r, hr, herror⟩, -⟩
    · refine ⟨hopen.watched, hopen.type, hopen.flag, ⟨n, hopen.aop, hopen.last⟩, fun res env => ?_⟩
      obtain ⟨c, hc, -⟩ := hopen.event res env
      rw [hc]
      nofun
    · exact absurd (hok r hr) herror
  · rintro ⟨r, hr, herror⟩ res env
    rcases hphase with ⟨hok, -⟩ | ⟨-, hclosed⟩
    · exact absurd (hok r hr) herror
    · exact if_neg fun hw => not_watched hclosed hw.1

/-- Two connections, the second of which is gone before `Init`, and an accept that fails. -/
theorem serves_two : ∃ w : Listener, (w.onConnected = [0] ∧ w.core._state.close = true) ∧
    w.Served [.conn 7 true true, .conn 8 false true, .fail (some 24)] := by
  let l : List ListenAction :=
    [.event (.conn 7 true true) ⟨none, none, none⟩, .event (.conn 8 false true) ⟨none, none, none⟩,
      .event (.fail (some 24)) ⟨none, none, none⟩]
  have hrun : ((listenOne 3 ⟨none, some 1, none⟩).bind fun w => l.foldlM Listener.step w).map
      (fun w => decide (w.onConnected = [0] ∧ w.core._state.close = true)) = some true := by
    decide +kernel
  obtain ⟨w, hw, hout⟩ := Option.map_eq_some_iff.mp hrun
  obtain ⟨w₀, h₀, hl⟩ := Option.bind_eq_some_iff.mp hw
  exact ⟨w, of_decide_eq_true hout, serves h₀ hl⟩

end Listener

end Netlib
