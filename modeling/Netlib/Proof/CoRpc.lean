import Netlib.Proof.CoLink
import Netlib.Proof.CoToken

/-!
# The replies of coroutines

What comes for a coroutine is the reply to its request, and nothing else is on its connection
(`CoRpc.Ties`); the requests on all connections are the attempts of the calls, each once
(`CoRpc.Ledger`). With where the coroutine is held, a call that returns 0 has its own answer
(`CoRpc.calls_answered`).
-/

namespace Netlib

open Lib BaseScClient

variable {ω : Type*}

namespace CoWorld

variable {w w' : CoWorld}

/-- What a step leaves alone. -/
theorem Did.keeps {a : CoAction} (hd : w.Did a w') :
    ((∀ c, a ≠ .call c) → w'.call = w.call) ∧ w.made ≤ w'.made := by
  have hclose : ∀ v : CoWorld, v.closeSocket.call = v.call ∧ v.closeSocket.made = v.made := by
    intro v
    unfold closeSocket
    split <;> exact ⟨rfl, rfl⟩
  cases hd with
  | call hpc c => exact ⟨fun hno => absurd rfl (hno c), Nat.le_refl _⟩
  | close hpc => exact ⟨fun _ => (hclose w).1, Nat.le_of_eq (hclose w).2.symm⟩
  | connected hpc => exact ⟨fun _ => rfl, Nat.le_succ _⟩
  | register hpc =>
    unfold registerStep
    simp only
    split
    · exact ⟨fun _ => rfl, Nat.le_refl _⟩
    · exact ⟨fun _ => (hclose w).1, Nat.le_of_eq (hclose w).2.symm⟩
  | @finish cnt k hpc =>
    have hcall : (w.checkReply k).2.call = w.call := rfl
    have hmade : (w.checkReply k).2.made = w.made := rfl
    unfold finishStep
    generalize w.checkReply k = r at hcall hmade
    obtain ⟨ok, v⟩ := r
    cases ok with
    | true => exact ⟨fun _ => hcall, Nat.le_of_eq hmade.symm⟩
    | false =>
      exact ⟨fun _ => (hclose v).1.trans hcall, Nat.le_of_eq ((hclose v).2.trans hmade).symm⟩
  | _ => exact ⟨fun _ => rfl, Nat.le_refl _⟩

end CoWorld

namespace CoRpc

open CoWorld

variable {w : CoRpc ω} {port : ℕ}

/-- The connection is quiet, and so is the thread of the connector. -/
def Hushed (l : CoLink) (c : CoConn) : Prop := l.Quiet ∧ c.io.frame = none

/-- The connection of the client: there is its request at most, or nothing. -/
def Ties (attempt : ℕ → Option Asked) (packidx : ℕ) (pc : CoPc) (l : CoLink) (c : CoConn) : Prop :=
  match pc with
  | .sent cnt _ _ | .suspended cnt _ _ | .resumed cnt _ =>
    ∃ a, attempt cnt = some a ∧ l.Asking a packidx
  | .connected .. | .ready .. | .registered .. => Hushed l c
  | .idle | .attempt _ | .reconnect _ => c.send.sock._flag = .start → Hushed l c

section Ties

variable {attempt : ℕ → Option Asked} {packidx : ℕ} {pc : CoPc} {l l' : CoLink} {c c' : CoConn}

/-- The connector goes on. -/
theorem Ties.conn (h : Ties attempt packidx pc l c)
    (hflag : c.send.sock._flag ≠ .start → c'.send.sock._flag ≠ .start)
    (hframe : c.io.frame = none → c'.io.frame = none) : Ties attempt packidx pc l c' := by
  have hush : Hushed l c → Hushed l c' := fun h => ⟨h.1, hframe h.2⟩
  have hopen : (c.send.sock._flag = .start → Hushed l c) → c'.send.sock._flag = .start → Hushed l c' := by
    intro h hf
    by_cases hs : c.send.sock._flag = .start
    · exact hush (h hs)
    · exact absurd hf (hflag hs)
  cases pc with
  | idle | attempt _ | reconnect _ => exact hopen h
  | connected _ _ | ready _ _ | registered _ _ => exact hush h
  | sent _ _ _ | suspended _ _ _ | resumed _ _ => exact h

/-- The connection goes on. -/
theorem Ties.link (h : Ties attempt packidx pc l c) (hq : l.Quiet → l'.Quiet)
    (ha : ∀ a idx, l.Asking a idx → l'.Asking a idx) : Ties attempt packidx pc l' c := by
  have hush : Hushed l c → Hushed l' c := fun h => ⟨hq h.1, h.2⟩
  have hask : ∀ cnt, (∃ a, attempt cnt = some a ∧ l.Asking a packidx) →
      ∃ a, attempt cnt = some a ∧ l'.Asking a packidx := by
    rintro cnt ⟨a, hcnt, h⟩
    exact ⟨a, hcnt, ha a packidx h⟩
  cases pc with
  | idle | attempt _ | reconnect _ => exact fun hf => hush (h hf)
  | connected _ _ | ready _ _ | registered _ _ => exact hush h
  | sent _ _ _ | suspended _ _ _ | resumed _ _ => exact hask _ h

end Ties

/-- The frames that come for the coroutine that waits. -/
def accepts (w : CoRpc ω) (d : List Byte) : Prop :=
  match w.co.pc with
  | .sent cnt k _ | .suspended cnt k _ | .resumed cnt k =>
    ∃ a, w.attempt cnt = some a ∧ (w.link k).Reply a w.co.client._packidx d ∧ (w.link k).Quiet
  | _ => False

/-- **The requests that were sent** are the attempts of the calls, each once. -/
structure Ledger (w : CoRpc ω) : Prop where
  known : ∀ (k i : ℕ) (a : Asked) (data : List Byte), (w.link k).sent[i]? = some (some a, data) →
    a.cnt < 2 ∧ ∃ n, a.call = n + 1 ∧ w.calls[n]? = some a.args
  before : ∀ (k i : ℕ) (a : Asked) (data : List Byte), (w.link k).sent[i]? = some (some a, data) →
    a.call < w.calls.length ∨ a.cnt < w.co.pc.tries
  once : ∀ (k i k' i' : ℕ) (a : Asked) (data data' : List Byte),
    (w.link k).sent[i]? = some (some a, data) → (w.link k').sent[i']? = some (some a, data') → k = k' ∧ i = i'

/-- No request is sent. -/
theorem Ledger.of_sent {w' : CoRpc ω} (h : w.Ledger)
    (hsent : ∀ (k i : ℕ) (a : Asked) (data : List Byte),
      (w'.link k).sent[i]? = some (some a, data) → (w.link k).sent[i]? = some (some a, data))
    (hcalls : w'.calls = w.calls) (htries : w.co.pc.tries ≤ w'.co.pc.tries) : w'.Ledger := by
  refine ⟨?_, ?_, ?_⟩
  · intro k i a data hi
    rw [hcalls]
    exact h.known k i a data (hsent k i a data hi)
  · intro k i a data hi
    rw [hcalls]
    exact (h.before k i a data (hsent k i a data hi)).imp id fun hlt => Nat.lt_of_lt_of_le hlt htries
  · intro k i k' i' a data data' hi hi'
    exact h.once k i k' i' a data data' (hsent k i a data hi) (hsent k' i' a data' hi')

/-- A returned call has its answer, or nothing with the pack index 0. -/
def Answered (w : CoRpc ω) : Prop :=
  ∀ r ∈ w.returns, r.Answers (w.link r.link) ∨ r.packidx = 0 ∧ r.reply = []

/-- **The invariant.** -/
structure Inv (port : ℕ) (w : CoRpc ω) : Prop where
  base : w.co.Base
  tokens : w.co.Tokens w.accepts
  call : ∀ args, w.calls.getLast? = some args → w.co.call.msg_type = args.msg_type ∧ w.co.call.msg = args.msg
  fresh : ∀ k, w.co.made ≤ k → w.link k = .connected port
  tidy : ∀ k, (w.link k).Tidy
  ties : ∀ k, w.co._socket = some k →
    Ties w.attempt w.co.client._packidx w.co.pc (w.link k) (w.co.conn k)
  fits : w.co.pc.Fits
  ledger : w.Ledger
  answered : w.Answered

theorem start_inv (port : ℕ) (user : ω) : Inv port (start port user) where
  base := start_base
  tokens := .of_bare (fun _ => CoConn.connected_bare) noneQueued_nil fun _ => rfl
  call args h := by cases h
  fresh _ _ := rfl
  tidy _ := CoLink.connected_tidy port
  ties k h := by cases h
  fits := trivial
  ledger := ⟨(fun _ _ _ _ h => by cases h), (fun _ _ _ _ h => by cases h),
    fun _ _ _ _ _ _ _ h => by cases h⟩
  answered r hr := by cases hr

theorem setLink_link (w : CoRpc ω) (k : ℕ) (l : CoLink) (j : ℕ) :
    (w.setLink k l).link j = if j = k then l else w.link j :=
  Function.update_apply w.link k l j

theorem setLink_self (w : CoRpc ω) (k : ℕ) (l : CoLink) : (w.setLink k l).link k = l := by
  rw [setLink_link, if_pos rfl]

theorem setLink_cases {P : CoLink → Prop} (w : CoRpc ω) {k : ℕ} {l : CoLink} (j : ℕ) (hself : j = k → P l)
    (hother : j ≠ k → P (w.link j)) : P ((w.setLink k l).link j) := by
  rw [setLink_link]
  split
  · rename_i hjk
    exact hself hjk
  · rename_i hjk
    exact hother hjk

theorem setLink_of_ne (w : CoRpc ω) {j k : ℕ} (l : CoLink) (hne : j ≠ k) :
    (w.setLink k l).link j = w.link j := by
  rw [setLink_link, if_neg hne]

theorem answers_mono {r : CoReturned} {l l' : CoLink} (h : r.Answers l) (hl : l.Extends l') :
    r.Answers l' := by
  obtain ⟨s, hs, hsent, hd⟩ := h
  obtain ⟨f, hf, hfa⟩ := Option.map_eq_some_iff.mp hsent
  refine ⟨s, hl.served s hs, ?_, hd⟩
  rw [hl.get hf]
  exact congrArg some hfa

theorem Answered.setLink (h : w.Answered) {k : ℕ} {l : CoLink} (hl : (w.link k).Extends l) :
    (w.setLink k l).Answered := by
  intro r hr
  refine (h r hr).imp (fun ha => setLink_cases w r.link ?_ fun _ => ha) id
  rintro rfl
  exact answers_mono ha hl

/-- What comes for the coroutine still comes when a connection goes on. -/
theorem accepts_setLink {k : ℕ} {l : CoLink} (hl : (w.link k).Extends l)
    (hq : (w.link k).Quiet → l.Quiet) {d : List Byte} (h : w.accepts d) : (w.setLink k l).accepts d := by
  have key : ∀ j a, (w.link j).Reply a w.co.client._packidx d → (w.link j).Quiet →
      ((w.setLink k l).link j).Reply a w.co.client._packidx d ∧ ((w.setLink k l).link j).Quiet := by
    intro j a hr hquiet
    refine setLink_cases (P := fun l => l.Reply a _ d ∧ l.Quiet) w j ?_ fun _ => ⟨hr, hquiet⟩
    rintro rfl
    exact ⟨hr.mono hl, hq hquiet⟩
  have hpc' : (w.setLink k l).co.pc = w.co.pc := rfl
  unfold accepts at h ⊢
  rw [hpc']
  cases hpc : w.co.pc with
  | sent cnt j _ | suspended cnt j _ | resumed cnt j =>
    rw [hpc] at h
    obtain ⟨a, ha, hr, hquiet⟩ := h
    exact ⟨a, ha, key j a hr hquiet⟩
  | _ =>
    rw [hpc] at h
    exact h.elim

end CoRpc

/-- No call begins or ends, none sends its request, and no frame comes. -/
def CoAction.silent : CoAction → Bool
  | .call _ | .send .. | .finish | .receive .. => false
  | _ => true

theorem CoAction.silent_of_internal {a : CoAction} (h : a.internal = true) : a.silent = true := by
  cases a <;> first | rfl | cases h

namespace CoWorld

variable {v v' : CoWorld} {attempt : ℕ → Option Asked} {idx : ℕ} {link : ℕ → CoLink}

open CoRpc (Ties Hushed)

theorem ties_setConn {pc : CoPc}
    (h : ∀ j, v._socket = some j → Ties attempt idx pc (link j) (v.conn j)) {k : ℕ} {c : CoConn}
    (hflag : (v.conn k).send.sock._flag ≠ .start → c.send.sock._flag ≠ .start)
    (hframe : (v.conn k).io.frame = none → c.io.frame = none) (j : ℕ) (hj : v._socket = some j) :
    Ties attempt idx pc (link j) ((v.setConn k c).conn j) := by
  by_cases hjk : j = k
  · subst hjk
    rw [setConn_self]
    exact (h j hj).conn hflag hframe
  · rw [setConn_of_ne v c hjk]
    exact h j hj

/-- **A silent step** leaves the request on the connection alone; there is none on a new one. -/
theorem Did.ties {a : CoAction} (hd : v.Did a v') (hs : v.step a = some v') (hsilent : a.silent = true)
    (hnew : (link v.made).Quiet)
    (h : ∀ k, v._socket = some k → Ties attempt idx v.pc (link k) (v.conn k)) :
    ∀ k, v'._socket = some k → Ties attempt idx v'.pc (link k) (v'.conn k) := by
  have keep : ∀ {k : ℕ} {c : CoConn},
      ((v.conn k).send.sock._flag ≠ .start → c.send.sock._flag ≠ .start) →
      ((v.conn k).io.frame = none → c.io.frame = none) → ∀ j, v._socket = some j →
        Ties attempt idx v.pc (link j) ((v.setConn k c).conn j) :=
    fun hflag hframe => ties_setConn h hflag hframe
  cases hd with
  | open_ hpc =>
    rw [hpc] at h
    exact h
  | call hpc c => cases hsilent
  | close hpc =>
    intro k hk
    rw [closeSocket_socket] at hk
    cases hk
  | checked hpc k =>
    intro j hj
    obtain ⟨hsock, hflag⟩ := check_ready hs rfl
    obtain rfl : k = j := Option.some.inj (hsock.symm.trans hj)
    rw [hpc] at h
    exact h k hj hflag
  | lost hpc =>
    rw [hpc] at h
    exact h
  | connected hpc =>
    intro j hj
    obtain rfl : v.made = j := Option.some.inj hj
    change Hushed (link v.made) ((v.setConn v.made .connected).conn v.made)
    rw [setConn_self]
    exact ⟨hnew, rfl⟩
  | refused hpc => exact fun k hk => by cases hk
  | failed hpc => exact fun k hk => by cases hk
  | @valid k hpc =>
    rw [hpc] at keep
    exact fun j hj _ =>
      keep (c := { v.conn k with info := { (v.conn k).info with valid := true } }) id id j hj
  | @validReady cnt k hpc =>
    rw [hpc] at keep
    exact fun j hj =>
      keep (c := { v.conn k with info := { (v.conn k).info with valid := true } }) id id j hj
  | @register cnt k hpc =>
    rw [hpc] at keep
    unfold registerStep
    simp only
    split
    · exact fun j hj =>
        keep (c := { v.conn k with
          info := { (v.conn k).info with thr_id := v.call.thr_id, co_id := some v.call.co_id } }) id id j hj
    · intro j hj
      have hj' : v.closeSocket._socket = some j := hj
      rw [closeSocket_socket] at hj'
      cases hj'
  | send hpc now err => cases hsilent
  | yield hpc =>
    rw [hpc] at h
    exact h
  | resume hpc hr =>
    rw [hpc] at h
    exact h
  | stale hr => exact h
  | finish hpc => cases hsilent
  | receive hio frame => cases hsilent
  | cleared hio =>
    refine keep id ?_
    rw [hio]
    exact fun hf => by cases hf
  | parked hio => exact keep id fun _ => rfl
  | queued hio => exact keep id fun _ => rfl
  | reported hio => exact keep id fun _ => rfl
  | onDisconnected hio => exact keep id fun _ => rfl
  | sock k a hsend => exact keep (fun hf => SendWorld.step_flag hf hsend) id

/-- A silent step leaves the client's pack index alone. -/
theorem Did.client {a : CoAction} (hd : v.Did a v') (hsilent : a.silent = true) : v'.client = v.client := by
  cases hd with
  | call hpc c => cases hsilent
  | close hpc => exact closeSocket_client v
  | register hpc =>
    unfold registerStep
    simp only
    split
    · rfl
    · exact closeSocket_client v
  | send hpc now err => cases hsilent
  | finish hpc => cases hsilent
  | _ => rfl

end CoWorld

namespace CoRpc

open CoWorld

variable {w : CoRpc ω} {port : ℕ}

/-- Nothing comes when no coroutine waits. -/
theorem not_accepts {pc : CoPc} (hpc : w.co.pc = pc) (hno : ∀ k, pc.awaits k = false) {d : List Byte} :
    ¬ w.accepts d := by
  unfold accepts
  rw [hpc]
  cases pc with
  | sent cnt k _ | suspended cnt k _ | resumed cnt k =>
    exact absurd rfl (of_decide_eq_false (hno k))
  | _ => exact id

/-- What comes for the coroutine still comes after a silent step. -/
theorem accepts_silent {a : CoAction} {co : CoWorld} (hd : w.co.Did a co) (hsilent : a.silent = true)
    {d : List Byte} (h : w.accepts d) : { w with co := co }.accepts d := by
  have none_at : ∀ {pc : CoPc}, w.co.pc = pc → (∀ k, pc.awaits k = false) → False :=
    fun hpc hno => not_accepts hpc hno h
  cases hd with
  | open_ hpc => exact (none_at hpc fun _ => rfl).elim
  | call hpc c => cases hsilent
  | close hpc => exact (none_at hpc fun _ => rfl).elim
  | checked hpc k => exact (none_at hpc fun _ => rfl).elim
  | lost hpc => exact (none_at hpc fun _ => rfl).elim
  | connected hpc => exact (none_at hpc fun _ => rfl).elim
  | refused hpc => exact (none_at hpc fun _ => rfl).elim
  | failed hpc => exact (none_at hpc fun _ => rfl).elim
  | valid hpc => exact (none_at hpc fun _ => rfl).elim
  | validReady hpc => exact (none_at hpc fun _ => rfl).elim
  | register hpc => exact (none_at hpc fun _ => rfl).elim
  | send hpc now err => cases hsilent
  | yield hpc =>
    unfold accepts at h
    rw [hpc] at h
    exact h
  | resume hpc hr =>
    unfold accepts at h
    rw [hpc] at h
    exact h
  | finish hpc => cases hsilent
  | receive hio frame => cases hsilent
  | _ => exact h

/-- No frame waits where a coroutine is about to register. -/
theorem Inv.ready_frame (h : w.Inv port) (cnt k : ℕ) (hpc : w.co.pc = .ready cnt k) :
    (w.co.conn k).io.frame = none := by
  have hties := h.ties k (h.base.here k (by rw [hpc]; rfl))
  rw [hpc] at hties
  exact hties.2

theorem Inv.fresh_setLink (h : w.Inv port) {k : ℕ} (hk : k < w.co.made) (l : CoLink) (j : ℕ)
    (hj : w.co.made ≤ j) : (w.setLink k l).link j = .connected port := by
  have hne : j ≠ k := by
    rintro rfl
    exact absurd hk (Nat.not_lt.mpr hj)
  exact (setLink_of_ne w l hne).trans (h.fresh j hj)

theorem Inv.tidy_setLink (h : w.Inv port) {k : ℕ} {l : CoLink} (ht : l.Tidy) (j : ℕ) :
    ((w.setLink k l).link j).Tidy :=
  setLink_cases w j (fun _ => ht) fun _ => h.tidy j

/-- **A silent step of the client.** -/
theorem Inv.silent (h : w.Inv port) {a : CoAction} {co : CoWorld} (hs : w.co.step a = some co)
    (hsilent : a.silent = true) : { w with co := co }.Inv port := by
  have hd := step_did hs
  have hcall : ∀ c, a ≠ .call c := by
    rintro c rfl
    cases hsilent
  have hclient := hd.client hsilent
  obtain ⟨hargs, hmade⟩ := hd.keeps
  obtain ⟨hfits, htries⟩ := hd.tries h.fits hcall
  have hquiet : (w.link w.co.made).Quiet := by
    rw [h.fresh _ (Nat.le_refl _)]
    exact CoLink.connected_quiet port
  refine ⟨h.base.step hs ?_, ?_, ?_, ?_, h.tidy, ?_, hfits, ?_, h.answered⟩
  · rintro now err rfl
    cases hsilent
  · refine Tokens.mono (R := w.accepts) (h.tokens.step hd h.ready_frame ?_) fun _ _ d hacc =>
      accepts_silent hd hsilent hacc
    rintro k frame rfl
    cases hsilent
  · intro args hlast
    change co.call.msg_type = _ ∧ co.call.msg = _
    rw [hargs hcall]
    exact h.call args hlast
  · exact fun k hk => h.fresh k (Nat.le_trans hmade hk)
  · change ∀ k, co._socket = some k → Ties w.attempt co.client._packidx co.pc (w.link k) (co.conn k)
    rw [hclient]
    exact hd.ties hs hsilent hquiet h.ties
  · exact h.ledger.of_sent (fun _ _ _ _ hi => hi) rfl htries

/-- **A connection goes on**, with no request more. -/
theorem Inv.link (h : w.Inv port) {k : ℕ} (hk : k < w.co.made) {l : CoLink}
    (hl : (w.link k).Extends l) (ht : l.Tidy) (hq : (w.link k).Quiet → l.Quiet)
    (ha : ∀ a idx, (w.link k).Asking a idx → l.Asking a idx)
    (hsent : ∀ (i : ℕ) (a : Asked) (data : List Byte), l.sent[i]? = some (some a, data) →
      (w.link k).sent[i]? = some (some a, data)) : (w.setLink k l).Inv port := by
  refine ⟨h.base, ?_, h.call, h.fresh_setLink hk l, h.tidy_setLink ht, ?_, h.fits, ?_,
    h.answered.setLink hl⟩
  · exact h.tokens.mono fun _ _ d hacc => accepts_setLink hl hq hacc
  · intro j hj
    refine setLink_cases (P := fun l => Ties w.attempt _ _ l (w.co.conn j)) w j ?_ fun _ => h.ties j hj
    rintro rfl
    exact (h.ties j hj).link hq ha
  · refine h.ledger.of_sent ?_ rfl (Nat.le_refl _)
    intro j i a data
    refine setLink_cases (P := fun l => l.sent[i]? = some (some a, data) → _) w j ?_ fun _ hi => hi
    rintro rfl
    exact hsent i a data

theorem Inv.user (h : w.Inv port) (u : ω) : { w with user := u }.Inv port :=
  ⟨h.base, h.tokens, h.call, h.fresh, h.tidy, h.ties, h.fits,
    ⟨h.ledger.known, h.ledger.before, h.ledger.once⟩, h.answered⟩

/-- A connection on which there was anything. -/
theorem Inv.link_made (h : w.Inv port) {k : ℕ} (hne : w.link k ≠ .connected port) : k < w.co.made := by
  by_contra hk
  exact hne (h.fresh k (Nat.le_of_not_lt hk))

/-- `SyncCall`. -/
theorem Inv.callStep (h : w.Inv port) (c : ScCall) {thr_id co_id : ℕ} {co : CoWorld}
    (hs : w.co.step (.call ⟨c.msg_type, c.msg, thr_id, co_id⟩) = some co) :
    { w with co := co, calls := w.calls ++ [c] }.Inv port := by
  have hd := step_did hs
  have hbase := h.base.step hs fun _ _ he => by cases he
  have htokens := h.tokens.step hd h.ready_frame fun _ _ he => by cases he
  cases hd with
  | call hpc =>
    refine ⟨hbase, ?_, ?_, h.fresh, h.tidy, ?_, Nat.zero_lt_two, ?_, h.answered⟩
    · exact htokens.mono fun _ haw => by cases haw
    · intro args hlast
      rw [List.getLast?_concat] at hlast
      obtain rfl := Option.some.inj hlast
      exact ⟨rfl, rfl⟩
    · intro k hk
      have hties := h.ties k hk
      rw [hpc] at hties
      exact hties
    · refine ⟨?_, ?_, h.ledger.once⟩
      · intro k i a data hi
        obtain ⟨hcnt, n, hn, hargs⟩ := h.ledger.known k i a data hi
        refine ⟨hcnt, n, hn, ?_⟩
        rw [List.getElem?_append_left (List.getElem?_eq_some_iff.mp hargs).1]
        exact hargs
      · intro k i a data hi
        obtain ⟨-, n, hn, hargs⟩ := h.ledger.known k i a data hi
        have hlt := (List.getElem?_eq_some_iff.mp hargs).1
        left
        rw [hn, List.length_append]
        exact Nat.succ_lt_succ hlt

/-! ### A frame that comes -/

theorem receive_send (c : CoConn) (frame : { b : Buffer // b.WF }) : (c.receive frame).send = c.send := by
  unfold CoConn.receive
  split <;> rfl

/-- An answer to a keep-alive is not looked at. -/
theorem receive_ack (c : CoConn) {frame : { b : Buffer // b.WF }}
    (hack : frame.val.readWord.1 = keepaliveAckId) : c.receive frame = c :=
  if_pos hack

theorem ack_readWord {frame : { b : Buffer // b.WF }} (h : frame.val.unread = le32 keepaliveAckId) :
    frame.val.readWord.1 = keepaliveAckId := by
  have h' : frame.val.unread = le32 keepaliveAckId ++ [] := by rw [h, List.append_nil]
  rw [(frame.property.readWord_eq (by decide) h').1]

/-- The next reply comes. -/
theorem Ties.receive {attempt : ℕ → Option Asked} {idx : ℕ} {pc : CoPc} {l : CoLink} {c : CoConn}
    (h : Ties attempt idx pc l c) {frame : { b : Buffer // b.WF }}
    (hd : l.replies[l.got]? = some frame.val.unread) :
    Ties attempt idx pc { l with got := l.got + 1 } (c.receive frame) := by
  have hush : Hushed l c → Hushed { l with got := l.got + 1 } (c.receive frame) := by
    rintro ⟨hq, hf⟩
    obtain ⟨hack, hq'⟩ := hq.read hd
    rw [receive_ack c (ack_readWord hack)]
    exact ⟨hq', hf⟩
  have hask : ∀ cnt, (∃ a, attempt cnt = some a ∧ l.Asking a idx) →
      ∃ a, attempt cnt = some a ∧ CoLink.Asking { l with got := l.got + 1 } a idx := by
    rintro cnt ⟨a, hcnt, h⟩
    refine ⟨a, hcnt, ?_⟩
    rcases h.read hd with ⟨-, h⟩ | ⟨-, h, -⟩
    · exact h
    · exact .quiet h
  cases pc with
  | idle | attempt _ | reconnect _ =>
    intro hf
    rw [receive_send] at hf
    exact hush (h hf)
  | connected _ _ | ready _ _ | registered _ _ => exact hush h
  | sent _ _ _ | suspended _ _ _ | resumed _ _ => exact hask _ h

/-- A frame that is no answer to a keep-alive is the reply that the coroutine waits for, and there is
none other. -/
theorem Inv.reply (h : w.Inv port) {k : ℕ} {frame : { b : Buffer // b.WF }}
    (hd : (w.link k).replies[(w.link k).got]? = some frame.val.unread)
    (hack : frame.val.readWord.1 ≠ keepaliveAckId) (hk : w.co.pc.awaits k = true) :
    (∀ d, ¬ w.accepts d) ∧
      (w.setLink k { w.link k with got := (w.link k).got + 1 }).accepts (peeked frame).val.unread := by
  have hties := h.ties k (h.base.here k (CoPc.conn_of_awaits hk))
  have hnack : frame.val.unread ≠ le32 keepaliveAckId := fun he => hack (ack_readWord he)
  have hpc' : (w.setLink k { w.link k with got := (w.link k).got + 1 }).co.pc = w.co.pc := rfl
  unfold accepts
  rw [hpc']
  cases hpc : w.co.pc with
  | registered cnt j =>
    rw [hpc] at hties
    exact absurd (hties.1.read hd).1 hnack
  | sent cnt j _ | suspended cnt j _ | resumed cnt j =>
    rw [hpc] at hties hk
    obtain rfl : j = k := of_decide_eq_true hk
    obtain ⟨a, ha, hask⟩ := hties
    rcases hask.read hd with ⟨he, -⟩ | ⟨hnot, hq, hreply⟩
    · exact absurd he hnack
    · refine ⟨?_, a, ha, ?_⟩
      · rintro d ⟨_, -, -, hq⟩
        exact hnot hq
      · have hlen : 4 ≤ frame.val.unread.length := by
          obtain ⟨-, -, -, -, bytes, hbytes⟩ := hreply
          rw [hbytes, List.length_append]
          exact Nat.le_trans (by decide : 4 ≤ 12) (Nat.le_add_right 12 _)
        rw [setLink_self, peeked_eq hlen]
        exact ⟨hreply, hq⟩
  | _ =>
    rw [hpc] at hk
    cases hk

theorem Inv.receiveStep (h : w.Inv port) {k : ℕ} {frame : { b : Buffer // b.WF }}
    (hd : (w.link k).replies[(w.link k).got]? = some frame.val.unread) {co : CoWorld}
    (hs : w.co.step (.receive k frame) = some co) :
    ({ w with co := co }.setLink k { w.link k with got := (w.link k).got + 1 }).Inv port := by
  have hbase := h.base.step hs fun _ _ he => by cases he
  have hk : k < w.co.made := h.link_made fun he => by
    rw [he] at hd
    cases hd
  set l : CoLink := { w.link k with got := (w.link k).got + 1 } with hl
  have hext : (w.link k).Extends l := CoLink.read_extends _ _
  have hquiet : (w.link k).Quiet → l.Quiet := fun hq => (hq.read hd).2
  cases step_did hs with
  | receive hio frame =>
    refine ⟨hbase, ?_, h.call, h.fresh_setLink hk l, h.tidy_setLink ((h.tidy k).read hd), ?_, h.fits, ?_,
      h.answered.setLink hext⟩
    · by_cases hack : frame.val.readWord.1 = keepaliveAckId
      -- the connector does not change
      · refine Tokens.mono (R := w.accepts) (h.tokens.of_eq (fun _ => rfl) (fun _ => rfl)
          (fun _ _ hj => hj) ?_ rfl rfl) fun _ _ d hacc => accepts_setLink hext hquiet hacc
        change (w.co.setConn k ((w.co.conn k).receive frame)).conn = w.co.conn
        rw [receive_ack _ hack]
        exact setConn_eq w.co k
      · exact h.tokens.receive hio hack
          (fun hk => h.reply hd hack hk) fun _ d hacc => accepts_setLink hext hquiet hacc
    · intro j hj
      change Ties w.attempt w.co.client._packidx w.co.pc ((w.setLink k l).link j)
        ((w.co.setConn k ((w.co.conn k).receive frame)).conn j)
      by_cases hjk : j = k
      · subst hjk
        rw [setLink_self, setConn_self]
        exact (h.ties j hj).receive hd
      · rw [setLink_of_ne w l hjk, setConn_of_ne _ _ hjk]
        exact h.ties j hj
    · refine h.ledger.of_sent ?_ rfl (Nat.le_refl _)
      intro j i a data
      refine setLink_cases (P := fun l => l.sent[i]? = some (some a, data) → _) w j ?_ fun _ hi => hi
      rintro rfl hi
      exact hi

/-! ### A frame that is sent or served -/

theorem push_link (w : CoRpc ω) (k : ℕ) (f : Option Asked × List Byte) {j i : ℕ}
    {x : Option Asked × List Byte} (hi : ((w.setLink k ((w.link k).push f)).link j).sent[i]? = some x) :
    (w.link j).sent[i]? = some x ∨ j = k ∧ i = (w.link k).sent.length ∧ x = f := by
  by_cases hjk : j = k
  · subst hjk
    rw [setLink_self] at hi
    change ((w.link j).sent ++ [f])[i]? = some x at hi
    rcases Nat.lt_trichotomy i (w.link j).sent.length with hlt | heq | hgt
    · rw [List.getElem?_append_left hlt] at hi
      exact .inl hi
    · subst heq
      rw [List.getElem?_concat_length] at hi
      exact .inr ⟨rfl, rfl, (Option.some.inj hi).symm⟩
    · rw [List.getElem?_eq_none (by rw [List.length_append]; exact hgt)] at hi
      cases hi
  · rw [setLink_of_ne w _ hjk] at hi
    exact .inl hi

theorem keepAliveData_eq : keepAliveData = le32 keepaliveId := by decide

theorem Inv.keepAliveStep (h : w.Inv port) {k now : ℕ} {err : Bool} {co : CoWorld}
    (hs : w.co.step (.sock k (.send now keepAliveData err)) = some co) (accepted : Bool) :
    ({ w with co := co }.pushIf k accepted (none, keepAliveData)).Inv port := by
  have hco := h.silent hs rfl
  have hk : k < co.made := Nat.lt_of_lt_of_le (sock_made hs) (step_did hs).keeps.2
  cases accepted with
  | false => exact hco
  | true =>
    refine hco.link hk (CoLink.push_extends _ _) ((h.tidy k).push ?_) (fun hq => hq.keepAlive (h.tidy k) _)
      (fun a idx ha => ha.keepAlive (h.tidy k) _) ?_
    · change Framed none keepAliveData
      rw [keepAliveData_eq]
      exact .keepAlive
    · intro i a data hi
      rcases push_link w k (none, keepAliveData) (by rw [setLink_self]; exact hi) with hi | ⟨-, -, he⟩
      · exact hi
      · cases he

theorem Inv.serveStep (h : w.Inv port) (_handlers : ℕ → Option (ScHandler ω)) {k : ℕ}
    {f : Option Asked × List Byte} (hf : (w.link k).sent[(w.link k).frames]? = some f)
    {frame : { b : Buffer // b.WF }} (hun : frame.val.unread = f.2) (now : ℕ) (sock : TcpBaseSocket)
    (err : Bool) :
    (w.setLink k ((w.link k).serve _handlers w.user frame.val now sock err).1).Inv port := by
  have hs := (h.tidy k).onServe _handlers w.user hf frame.property hun now sock err
  have hk : k < w.co.made := h.link_made fun he => by
    rw [he] at hf
    cases hf
  refine h.link hk hs.extends ((h.tidy k).serve hf hs) (fun hq => hq.serve (h.tidy k) hf hs)
    (fun a idx ha => ha.serve (h.tidy k) hf hs) ?_
  intro i a data hi
  rw [hs.sent] at hi
  exact hi

/-- The attempt of the last call. -/
theorem attempt_eq {cnt : ℕ} {a : Asked} (ha : w.attempt cnt = some a) :
    a.cnt = cnt ∧ w.calls.getLast? = some a.args ∧
      ∃ n, a.call = n + 1 ∧ w.calls.length = n + 1 ∧ w.calls[n]? = some a.args := by
  obtain ⟨args, hlast, rfl⟩ := Option.map_eq_some_iff.mp ha
  refine ⟨rfl, hlast, w.calls.length - 1, ?_⟩
  rw [List.getLast?_eq_getElem?] at hlast
  have hlt := (List.getElem?_eq_some_iff.mp hlast).1
  have hlen : w.calls.length = w.calls.length - 1 + 1 := by omega
  exact ⟨hlen, hlen, hlast⟩

/-- **The request is sent**, or not. -/
theorem Ledger.ask (h : w.Ledger) {co : CoWorld} {cnt k : ℕ} {accepted : Bool}
    (hpc : w.co.pc = .registered cnt k) (hcnt : cnt < 2) (hco : co.pc = .sent cnt k accepted)
    {a : Asked} (ha : w.attempt cnt = some a) (data : List Byte) :
    ({ w with co := co }.setLink k ((w.link k).push (some a, data))).Ledger := by
  obtain ⟨hacnt, -, n, hcall, hlen, hargs⟩ := attempt_eq ha
  set w' : CoRpc ω := { w with co := co } with hw'
  have hpush : ∀ {j i : ℕ} {x : Option Asked × List Byte},
      ((w'.setLink k ((w.link k).push (some a, data))).link j).sent[i]? = some x →
        (w.link j).sent[i]? = some x ∨ j = k ∧ i = (w.link k).sent.length ∧ x = (some a, data) :=
    fun hi => push_link w' k (some a, data) hi
  -- the attempt was not sent before
  have hfresh : ∀ (j i : ℕ) (d : List Byte), (w.link j).sent[i]? ≠ some (some a, d) := by
    intro j i d hi
    rcases h.before j i a d hi with hlt | hlt
    · omega
    · rw [hpc] at hlt
      exact absurd hlt (Nat.not_lt.mpr (Nat.le_of_eq hacnt.symm))
  refine ⟨?_, ?_, ?_⟩
  · intro j i b d hi
    rcases hpush hi with hi | ⟨-, -, he⟩
    · exact h.known j i b d hi
    · cases he
      exact ⟨hacnt ▸ hcnt, n, hcall, hargs⟩
  · intro j i b d hi
    change b.call < w.calls.length ∨ b.cnt < co.pc.tries
    rw [hco]
    rcases hpush hi with hi | ⟨-, -, he⟩
    · have hbefore := h.before j i b d hi
      rw [hpc] at hbefore
      exact hbefore.imp id Nat.lt_succ_of_lt
    · cases he
      exact .inr (hacnt ▸ Nat.lt_succ_self _)
  · intro j i j' i' b d d' hi hi'
    rcases hpush hi with hi | ⟨hj, hlast, he⟩
    · rcases hpush hi' with hi' | ⟨-, -, he'⟩
      · exact h.once j i j' i' b d d' hi hi'
      · cases he'
        exact absurd hi (hfresh j i d)
    · cases he
      rcases hpush hi' with hi' | ⟨hj', hlast', -⟩
      · exact absurd hi' (hfresh j' i' d')
      · exact ⟨hj.trans hj'.symm, hlast.trans hlast'.symm⟩

theorem Inv.sendStep (h : w.Inv port) {cnt k : ℕ} (hpc : w.co.pc = .registered cnt k) {a : Asked}
    (ha : w.attempt cnt = some a) (hlen : 12 + a.args.msg.length + bufferDefaultSize < 2 ^ 32)
    {now : ℕ} {err : Bool} {co : CoWorld} (hs : w.co.step (.send now err) = some co) :
    ({ w with co := co }.pushIf k (co.pc = CoPc.sent cnt k true)
      (some a, co.client._request.sendData)).Inv port := by
  obtain ⟨-, hlast, -⟩ := attempt_eq ha
  obtain ⟨htype, hmsg⟩ := h.call a.args hlast
  have hbase := h.base.step hs fun _ _ _ => by
    rw [hmsg]
    exact hlen
  have hsock := h.base.here k (by rw [hpc]; rfl)
  have hk := h.base.made k hsock
  have hquiet : Hushed (w.link k) (w.co.conn k) := by
    have hties := h.ties k hsock
    rw [hpc] at hties
    exact hties
  have hfits := h.fits
  rw [hpc] at hfits
  have htokens := h.tokens.step (step_did hs) h.ready_frame fun _ _ he => by cases he
  obtain rfl : w.co.sendStep cnt k now err = co := by
    simp only [CoWorld.step, hpc] at hs
    exact Option.some.inj hs
  have hclient : (w.co.sendStep cnt k now err).client =
      w.co.client._fillRequest twowayType a.args.msg_type a.args.msg := by
    rw [← htype, ← hmsg]
    rfl
  have hfill := fill_filled h.base.request twowayType a.args.msg_type hlen
  have hdata : (w.co.sendStep cnt k now err).client._request.sendData =
      a.head (w.co.sendStep cnt k now err).client._packidx ++ a.args.msg := by
    rw [hclient, hfill.wf.sendData, hfill.unread]
    rfl
  have hidx : (w.co.sendStep cnt k now err).client._packidx < 2 ^ 32 := by
    rw [hclient]
    exact Nat.mod_lt _ (by decide)
  have htokens' : ∀ R, (w.co.sendStep cnt k now err).Tokens R := fun R => htokens.mono fun _ _ d hacc => by
    unfold accepts at hacc
    rw [hpc] at hacc
    exact hacc.elim
  have hself : ∀ j, (w.co.sendStep cnt k now err)._socket = some j → k = j := fun j hj =>
    Option.some.inj (hsock.symm.trans hj)
  set co := w.co.sendStep cnt k now err with hco
  by_cases hacc : co.pc = .sent cnt k true
  -- the request is alone on the connection
  · rw [pushIf, if_pos (decide_eq_true hacc)]
    set l := (w.link k).push (some a, co.client._request.sendData) with hl
    have htidy : l.Tidy := by
      rw [hl, hdata]
      exact (h.tidy k).push (.request a hidx)
    refine ⟨hbase, htokens' _, h.call, h.fresh_setLink hk l, h.tidy_setLink htidy, ?_, hfits, ?_, ?_⟩
    · intro j hj
      obtain rfl := hself j hj
      refine ⟨a, ha, ?_⟩
      change ((w.setLink k l).link k).Asking a co.client._packidx
      rw [setLink_self, hl, hdata]
      exact hquiet.1.ask (h.tidy k) a _
    · exact h.ledger.ask hpc hfits hacc ha _
    · exact h.answered.setLink (CoLink.push_extends _ _)
  · rw [pushIf, if_neg (by rw [decide_eq_true_eq]; exact hacc)]
    refine ⟨hbase, htokens' _, h.call, h.fresh, h.tidy, ?_, hfits, ?_, h.answered⟩
    · intro j hj
      obtain rfl := hself j hj
      exact ⟨a, ha, .quiet hquiet.1⟩
    · refine h.ledger.of_sent (fun _ _ _ _ hi => hi) rfl ?_
      rw [hpc]
      exact Nat.le_succ cnt

/-! ### A coroutine that is resumed -/

theorem checkReply_conn (v : CoWorld) (k : ℕ) {r : Bool × Option Buffer}
    (hr : v.client._checkReply (some (v.conn k).info.buffer) = r) :
    (v.checkReply k).1 = r.1 ∧ (v.checkReply k).2.conn k = { v.conn k with
      info := { (v.conn k).info with buffer := r.2.getD (v.conn k).info.buffer } } := by
  simp only [checkReply, hr, setConn_self, and_self]

/-- What follows `yield`: the call returns 0, or the connector is closed. -/
theorem finishStep_cases (v : CoWorld) (cnt k : ℕ) {co : CoWorld} (hco : v.finishStep cnt k = co) :
    (v.checkReply k).1 = true ∧ co.pc = .idle ∧ co.client = v.client ∧ co._socket = v._socket ∧
        co.conn = (v.checkReply k).2.conn ∨
      co._socket = none ∧ co.code = -3 ∧ ∀ j, co.pc.awaits j = false := by
  have hclient : (v.checkReply k).2.client = v.client := rfl
  have hsock : (v.checkReply k).2._socket = v._socket := rfl
  subst hco
  unfold finishStep
  generalize v.checkReply k = r at hclient hsock ⊢
  obtain ⟨ok, u⟩ := r
  cases ok with
  | true => exact .inl ⟨rfl, rfl, hclient, hsock, rfl⟩
  | false => exact .inr ⟨u.closeSocket_socket, rfl, nextAttempt_awaits _ cnt (-3)⟩

/-- **What is taken for the reply** is the answer, or was cleared. -/
theorem Inv.reads (h : w.Inv port) {cnt k : ℕ} (hpc : w.co.pc = .resumed cnt k) {a : Asked}
    (ha : w.attempt cnt = some a) (hok : (w.co.checkReply k).1 = true) :
    CoReturned.Answers ⟨a, k, w.co.client._packidx, ((w.co.checkReply k).2.conn k).info.buffer.unread⟩
        (w.link k) ∨
      w.co.client._packidx = 0 ∧ ((w.co.checkReply k).2.conn k).info.buffer.unread = [] := by
  obtain ⟨hfst, hconn⟩ := checkReply_conn w.co k rfl
  rw [hfst] at hok
  rw [hconn]
  rcases h.tokens.ready cnt k hpc with ⟨⟨b, hb⟩, -⟩ | ⟨hacc, -⟩
  -- three words are read from the cleared buffer as 0
  · right
    simp only [hb, checkReply_clear] at hok ⊢
    exact ⟨(of_decide_eq_true hok).symm, rfl⟩
  · left
    unfold accepts at hacc
    rw [hpc] at hacc
    obtain ⟨a', ha', ⟨s, hs, hsent, hdata, bytes, hbytes⟩, -⟩ := hacc
    obtain rfl : a' = a := Option.some.inj (ha'.symm.trans ha)
    have hlen : 12 ≤ (w.co.conn k).info.buffer.unread.length := by
      rw [hbytes, List.length_append, Asked.head, words_length]
      exact Nat.le_add_right 12 _
    obtain ⟨b', hreply, -, hun⟩ := w.co.client.checkReply_eq (h.base.conn k).buffer hlen
    refine ⟨s, hs, hsent, ?_⟩
    simp only [hreply]
    change b'.unread = s.data.drop 12
    rw [hun, hdata]

theorem Inv.finishStep (h : w.Inv port) {cnt k : ℕ} (hpc : w.co.pc = .resumed cnt k) {a : Asked}
    (ha : w.attempt cnt = some a) {co : CoWorld} (hs : w.co.step .finish = some co) :
    Inv port { w with
      co := co
      returns :=
        if co.pc = .idle ∧ co.code = 0 then
          w.returns ++ [⟨a, k, co.client._packidx, (co.conn k).info.buffer.unread⟩]
        else w.returns } := by
  have hd := step_did hs
  have hbase := h.base.step hs fun _ _ he => by cases he
  have htokens := h.tokens.step hd h.ready_frame fun _ _ he => by cases he
  obtain ⟨hfits, htries⟩ := hd.tries h.fits fun _ he => by cases he
  have hargs := hd.keeps.1 fun _ he => by cases he
  have hmade := hd.keeps.2
  have hsock := h.base.here k (by rw [hpc]; rfl)
  -- after the reply nothing is left on the connection, and a connector that was reported is closed
  have hopen : (w.co.conn k).send.sock._flag = .start → Hushed (w.link k) (w.co.conn k) := by
    intro hf
    rcases h.tokens.ready cnt k hpc with ⟨-, hdown⟩ | ⟨hacc, hframe⟩
    · exact absurd hf ((h.base.conn k).down hdown)
    · unfold accepts at hacc
      rw [hpc] at hacc
      obtain ⟨_, -, -, hq⟩ := hacc
      exact ⟨hq, hframe⟩
  have hfinish : w.co.finishStep cnt k = co := by
    simp only [CoWorld.step, hpc] at hs
    exact Option.some.inj hs
  have hcalls : ∀ args, w.calls.getLast? = some args →
      co.call.msg_type = args.msg_type ∧ co.call.msg = args.msg := by
    rw [hargs]
    exact h.call
  have hfresh : ∀ j, co.made ≤ j → w.link j = .connected port := fun j hj =>
    h.fresh j (Nat.le_trans hmade hj)
  have hledger : Ledger { w with co := co } :=
    h.ledger.of_sent (fun _ _ _ _ hi => hi) rfl htries
  have hledger' : ∀ returns, Ledger { w with co := co, returns := returns } := fun _ =>
    ⟨hledger.known, hledger.before, hledger.once⟩
  rcases finishStep_cases w.co cnt k hfinish with
    ⟨hok, hidle, hclient, hsock', hconn⟩ | ⟨hnone, hcode, hfree⟩
  · refine ⟨hbase, ?_, hcalls, hfresh, h.tidy, ?_, hfits, hledger' _, ?_⟩
    · refine htokens.mono fun j haw => ?_
      rw [hidle] at haw
      cases haw
    · intro j hj
      change Ties w.attempt co.client._packidx co.pc (w.link j) (co.conn j)
      obtain rfl : k = j := Option.some.inj (hsock.symm.trans (hsock'.symm.trans hj))
      obtain ⟨b, hb⟩ : ∃ b, (w.co.checkReply k).2.conn k =
          { w.co.conn k with info := { (w.co.conn k).info with buffer := b } } :=
        ⟨_, (checkReply_conn w.co k rfl).2⟩
      rw [hidle, hconn, hb]
      exact fun hf => ⟨(hopen hf).1, (hopen hf).2⟩
    · intro r hr
      simp only at hr
      split_ifs at hr with hret
      · rcases List.mem_append.mp hr with hr | hr
        · exact h.answered r hr
        · obtain rfl := List.mem_singleton.mp hr
          rw [hclient, hconn]
          exact h.reads hpc ha hok
      · exact h.answered r hr
  · refine ⟨hbase, ?_, hcalls, hfresh, h.tidy, ?_, hfits, hledger' _, ?_⟩
    · refine htokens.mono fun j haw => ?_
      rw [hfree j] at haw
      cases haw
    · intro j hj
      have hj' : co._socket = some j := hj
      rw [hnone] at hj'
      cases hj'
    · intro r hr
      simp only at hr
      rw [if_neg (by rw [hcode]; rintro ⟨-, he⟩; cases he)] at hr
      exact h.answered r hr

/-- **One step.** -/
theorem Inv.step (_handlers : ℕ → Option (ScHandler ω)) {w' : CoRpc ω} (h : w.Inv port)
    {a : CoRpcAction ω} (hs : w.step _handlers a = some w') : w'.Inv port := by
  cases a with
  | call c thr_id co_id =>
    obtain ⟨co, hco, rfl⟩ := Option.map_eq_some_iff.mp hs
    exact h.callStep c hco
  | send now err =>
    simp only [CoRpc.step] at hs
    split at hs
    · rename_i cnt k hpc
      obtain ⟨a, ha, hs⟩ := Option.bind_eq_some_iff.mp hs
      split_ifs at hs with hlen
      obtain ⟨co, hco, rfl⟩ := Option.map_eq_some_iff.mp hs
      exact h.sendStep hpc ha hlen hco
    · cases hs
  | finish =>
    simp only [CoRpc.step] at hs
    split at hs
    · rename_i cnt k hpc
      obtain ⟨a, ha, hs⟩ := Option.bind_eq_some_iff.mp hs
      obtain ⟨co, hco, rfl⟩ := Option.map_eq_some_iff.mp hs
      exact h.finishStep hpc ha hco
    · cases hs
  | client a =>
    simp only [CoRpc.step] at hs
    split_ifs at hs with hint
    obtain ⟨co, hco, rfl⟩ := Option.map_eq_some_iff.mp hs
    exact h.silent hco (CoAction.silent_of_internal hint)
  | keepAlive k now err =>
    obtain ⟨co, hco, rfl⟩ := Option.map_eq_some_iff.mp hs
    exact h.keepAliveStep hco _
  | receive k frame =>
    simp only [CoRpc.step] at hs
    split_ifs at hs with hd
    obtain ⟨co, hco, rfl⟩ := Option.map_eq_some_iff.mp hs
    exact h.receiveStep hd hco
  | serve k frame now sock err =>
    simp only [CoRpc.step] at hs
    split at hs
    · rename_i f data hf
      split_ifs at hs with hun
      obtain rfl := Option.some.inj hs
      exact (h.serveStep _handlers hf hun now sock err).user _
    · cases hs
  | user u =>
    obtain rfl := Option.some.inj hs
    exact h.user u

/-- **A coroutine gets the answer to its own call.** In every run, whatever its connectors lose, a call that
has returned 0 has what the handler has appended for its own last request; the server deals with each
frame of a connection once and in their order, and each attempt of a call is sent once. -/
theorem calls_answered (_handlers : ℕ → Option (ScHandler ω)) (user : ω)
    (h : Reach (CoRpc.step _handlers) always (start port user) w) : w.CallsAnswered := by
  have hinv : w.Inv port := h.inv (start_inv port user) fun _ _ _ hi _ hs => hi.step _handlers hs
  exact ⟨fun k => (hinv.tidy k).genuine, fun k => (hinv.tidy k).order, hinv.ledger.known, hinv.ledger.once,
    hinv.answered⟩

/-- A call, its frame, and the reply to it. -/
def oneCall : List (CoRpcAction Unit) :=
  [.call ⟨true, 6, [4], by decide⟩ 0 0, .client .check, .client (.connect true), .client .setValid,
    .client .register, .send 0 false, .client .yield,
    .serve 0 ⟨⟨13, 13, 0, words twowayType 6 1 ++ [4]⟩, ⟨by decide, by decide, by decide, rfl⟩⟩ 0
      .connected false,
    .receive 0 ⟨⟨13, 13, 0, words twowayType 6 1 ++ [7]⟩, ⟨by decide, by decide, by decide, rfl⟩⟩,
    .client (.io 0), .client (.io 0), .client (.io 0), .client .resume, .finish]

theorem calls_answered_oneCall : ∃ w, Reach (CoRpc.step fun _ => some ScWorld.byteHandler) always
    (start 80 ()) w ∧ w.returns.map (fun r => (r.packidx, r.reply)) = [(1, [7])] ∧ w.CallsAnswered := by
  have hw : ∃ w, oneCall.foldlM (CoRpc.step fun _ => some ScWorld.byteHandler) (start 80 ()) = some w ∧
      w.returns.map (fun r => (r.packidx, r.reply)) = [(1, [7])] := ⟨_, rfl, rfl⟩
  obtain ⟨w, hrun, hreply⟩ := hw
  have hreach := Reach.of_foldlM (C := always) (fun _ _ _ => trivial) hrun
  exact ⟨w, hreach, hreply, calls_answered _ () hreach⟩

end CoRpc

end Netlib
