import Netlib.Lib.Run
import Netlib.Spec.Reconnect
import Netlib.Proof.BlockMode
import Netlib.Proof.SyncReject

/-!
# What a connector keeps of its last connection

As long as no descriptor has been closed, a `Connect` that returns true leaves the connector as
a fresh one (`Unclosed.connect`). After the first close the block bit is gone for good, and
every `Send` of a later connection is refused (`send_refused`). So a run starts clean with every
`Connect` exactly when each of them finds the block bit set (`starts_clean_iff`).
-/

namespace Netlib

open Lib

namespace SyncWorld

open Netlib.Core SyncConnector

variable {w w' : SyncWorld}

/-! ## The first `Recv` -/

/-- A buffer is found only when a header is complete. -/
theorem Collects.not_more {s : List Byte} {cs : List (List Byte)} (h : Collects s cs) :
    nextFrame limit (s ++ cs.flatten) ≠ .more := by
  induction h with
  | @frame s p cs n hn =>
    have happ := (frames limit).frame_append cs.flatten hn
    rw [frames_next] at happ
    rw [happ]
    nofun
  | @long s cs j hn _ =>
    have happ := (frames limit).reject_append cs.flatten hn
    rw [frames_next] at happ
    rw [happ]
    nofun
  | @read s x cs _ _ ih =>
    rwa [List.flatten_cons, ← List.append_assoc]

/-- The first `Recv` of a fresh connector returns the first frame. -/
theorem connected_first {cs : List (List Byte)} (hcs : Reads cs) {fin : List RecvSome}
    (hfin : AtEnd fin) (hn : nextFrame limit cs.flatten ≠ .reject) {b : Buffer}
    {c' : SyncConnector} {rs : List RecvSome}
    (h : connected.recv (cs.map .data ++ fin) = some (some b, c', rs)) :
    ∃ n, nextFrame limit cs.flatten = .frame b.unread n := by
  have hat := connected_at hcs
  have hcollects : Collects [] cs := by
    rcases recv_outcome hfin hat with ⟨hc, -⟩ | ⟨-, he⟩
    · exact hc
    · exact absurd ⟨b, c', rs, h⟩ he.not_finds
  have hmore := Collects.not_more hcollects
  rw [List.nil_append] at hmore
  obtain ⟨rs', -, hr⟩ := recv_reads hfin hat h
  cases hnext : nextFrame limit cs.flatten with
  | more => exact absurd hnext hmore
  | reject => exact absurd hnext hn
  | frame p n =>
    have hseen : nextFrame limit (ReadPos.seen ⟨[], 0, cs⟩) = .frame p n := hnext
    obtain ⟨b', c'', hr', -, hp, -⟩ := recv_frame hat hseen
    rw [hr] at hr'
    cases hr'
    exact ⟨n, by rw [hp]⟩

/-! ## Before the first close -/

/-- The socket of the constructor, with a descriptor or without one. -/
def idle (fd : Option ℕ) : Core Empty := { Core.init with _fd := fd }

/-- **A connector none of whose descriptors has been closed**: the socket is idle, and before a
connection all else is as the constructor has left it. -/
structure Unclosed (w : SyncWorld) : Prop where
  core : ∃ fd, w.core = idle fd
  started : w.conn._flag = .start → w.core._fd ≠ none
  initial : w.conn._flag ≠ .start → w.conn = new.conn ∧ w._sndbuffer = new._sndbuffer

/-- While the block bit is set, no descriptor has been closed. -/
def Kept (w : SyncWorld) : Prop := w.core._state.block = true → w.Unclosed

theorem new_unclosed : new.Unclosed := ⟨⟨none, rfl⟩, nofun, fun _ => ⟨rfl, rfl⟩⟩

theorem Unclosed.block (h : w.Unclosed) : w.core._state.block = true := by
  obtain ⟨fd, hc⟩ := h.core
  rw [hc]
  rfl

theorem opened_state (w : SyncWorld) (fd : Option ℕ) : (w.opened fd)._state = w.core._state := by
  unfold opened openFd
  split
  · split <;> rfl
  · rfl

theorem opened_fd (fd : Option ℕ) (h : w.core._fd ≠ none) : (w.opened fd)._fd ≠ none := by
  unfold opened openFd
  split
  · rwa [if_neg h]
  · exact h

theorem Unclosed.opened (h : w.Unclosed) (fd : Option ℕ) : ∃ fd', w.opened fd = idle fd' := by
  obtain ⟨fd₀, hc⟩ := h.core
  unfold SyncWorld.opened openFd
  split
  · rename_i fd₁
    split
    · exact ⟨some fd₁, by rw [hc]; rfl⟩
    · exact ⟨fd₀, hc⟩
  · exact ⟨fd₀, hc⟩

theorem connectRefusal_fd {c : Core Empty} {valid timed : Bool}
    (h : c.connectRefusal valid timed = none) : c._fd ≠ none := by
  intro hfd
  rw [connectRefusal, if_pos hfd] at h
  cases h

/-- `Close` of an idle socket: the block bit goes with the descriptor. -/
theorem idle_close (fd : Option ℕ) :
    (idle fd).close._state.block = true → fd = none ∧ (idle fd).close = idle fd := by
  cases fd with
  | none => exact fun _ => ⟨rfl, rfl⟩
  | some fd => nofun

/-- `Connect` on an idle socket leaves it idle, or closes it. -/
theorem idle_connect (fd : ℕ) (timed : Bool) (res : ConnectResult) :
    (((idle (some fd)).connect timed res)._state.block = true →
        (idle (some fd)).connect timed res = idle (some fd)) ∧
      (res.ok timed = true → (idle (some fd)).connect timed res = idle (some fd)) := by
  cases res with
  | connected => cases timed <;> exact ⟨fun _ => rfl, fun _ => rfl⟩
  | failed => cases timed <;> exact ⟨fun _ => rfl, fun _ => rfl⟩
  | selected ok =>
    cases timed <;> cases ok
    · exact ⟨fun _ => rfl, nofun⟩
    · exact ⟨fun _ => rfl, nofun⟩
    · exact ⟨nofun, nofun⟩
    · exact ⟨fun _ => rfl, fun _ => rfl⟩

/-! ## The steps -/

/-- **`Close`** of a connector keeps it unclosed only when there is nothing to close. -/
theorem Unclosed.close (h : w.Unclosed) : w.close.Kept := by
  obtain ⟨fd, hc⟩ := h.core
  intro hb
  have hblock : (idle fd).close._state.block = true := by
    rw [← hc]
    exact hb
  obtain ⟨hnone, hidle⟩ := idle_close fd hblock
  have hcore : w.close.core = idle fd := by
    rw [← hidle, ← hc]
    rfl
  have hflag : w.conn._flag ≠ .start := by
    intro hs
    apply h.started hs
    rw [hc, hnone]
    rfl
  obtain ⟨hconn, hbuf⟩ := h.initial hflag
  refine ⟨⟨fd, hcore⟩, nofun, fun _ => ⟨?_, hbuf⟩⟩
  change w.conn.close = _
  rw [hconn]
  rfl

/-- **`Connect`** on an unclosed connector. When it returns true, and only a socket that is not
connected makes it do so, the connector is a fresh one. -/
theorem Unclosed.connect (h : w.Unclosed) {fd : Option ℕ} {valid timed : Bool}
    {res : ConnectResult} {endpoints : Bool} (hres : w.conn._flag = .start → res = .failed) :
    (w.connect fd valid timed res endpoints).2.Kept ∧
      ((w.connect fd valid timed res endpoints).1 = true →
        ∃ fd', (w.connect fd valid timed res endpoints).2 = fresh fd') := by
  obtain ⟨fd', hopen⟩ := h.opened fd
  by_cases href : (w.opened fd).connectRefusal valid timed = none
  · obtain ⟨n, rfl⟩ := Option.ne_none_iff_exists'.mp
      (by have := connectRefusal_fd href; rwa [hopen] at this : fd' ≠ none)
    obtain ⟨hkeep, hok⟩ := idle_connect n timed res
    rw [← hopen] at hkeep hok
    by_cases hr : res.ok timed = true
    · have hflag : w.conn._flag ≠ .start := by
        intro hs
        rw [hres hs] at hr
        cases hr
      obtain ⟨hconn, hbuf⟩ := h.initial hflag
      have heq : w.connect fd valid timed res endpoints = (endpoints, fresh n) := by
        rw [SyncWorld.connect, if_neg (not_not.mpr href)]
        dsimp only
        rw [if_pos hr, hok hr, hopen, hconn, hbuf]
        rfl
      rw [heq]
      exact ⟨fun _ => ⟨⟨some n, rfl⟩, fun _ => nofun, fun hs => absurd rfl hs⟩, fun _ => ⟨n, rfl⟩⟩
    · have heq : w.connect fd valid timed res endpoints =
          (false, { w with core := (w.opened fd).connect timed res }) := by
        rw [SyncWorld.connect, if_neg (not_not.mpr href)]
        dsimp only
        rw [if_neg hr]
      rw [heq]
      refine ⟨fun hb => ?_, nofun⟩
      have hcore : (w.opened fd).connect timed res = idle (some n) := (hkeep hb).trans hopen
      exact ⟨⟨some n, hcore⟩, fun _ => by rw [hcore]; nofun, h.initial⟩
  · have heq : w.connect fd valid timed res endpoints =
        (false, { w with core := w.opened fd }) := by
      rw [SyncWorld.connect, if_pos href]
    rw [heq]
    exact ⟨fun _ => ⟨⟨fd', hopen⟩, fun hs => opened_fd fd (h.started hs), h.initial⟩, nofun⟩

/-- **What `Send` does**: nothing, or it changes the send buffer of a connected connector, or it
closes it as well. -/
theorem send_cases {now : ℕ} {data : List Byte} {results : List SendResult} {r : SyncReply}
    (hs : w.send now data results = some (r, w')) :
    w' = w ∨ w.conn._flag = .start ∧
      ∃ b, w' = { w with _sndbuffer := b } ∨ w' = { w with _sndbuffer := b }.close := by
  unfold SyncWorld.send at hs
  split at hs
  · cases hs
    exact .inl rfl
  · rename_i hflag
    refine (em (w' = w)).imp_right fun hne => ⟨not_not.mp hflag, ?_⟩
    split at hs
    · simp only [Option.map_eq_some_iff, Prod.mk.injEq] at hs
      obtain ⟨⟨ok, wire, b⟩, -, -, rfl⟩ := hs
      cases ok
      · exact ⟨b, .inr rfl⟩
      · exact ⟨b, .inl rfl⟩
    · cases hs
      exact absurd rfl hne

/-- **What `Recv` does**: nothing, or it leaves a connected connector connected, or it stops it and
closes the descriptor. -/
theorem recv_cases {results : List RecvSome} {r : SyncReply}
    (hs : w.recv results = some (r, w')) :
    w' = w ∨ w.conn._flag = .start ∧ ∃ conn, (conn._flag = .start ∧ w' = { w with conn := conn }) ∨
      w' = { w with core := w.core.close, conn := conn } := by
  unfold SyncWorld.recv at hs
  simp only [Option.map_eq_some_iff, Prod.mk.injEq] at hs
  obtain ⟨⟨b, conn, rs⟩, hrecv, -, rfl⟩ := hs
  by_cases hflag : w.conn._flag = .start
  · refine .inr ⟨hflag, conn, ?_⟩
    by_cases hstays : conn._flag = .start
    · left
      rw [if_neg fun hand => hand.2 hstays]
      exact ⟨hstays, rfl⟩
    · right
      rw [if_pos ⟨hflag, hstays⟩]
  · left
    rw [if_neg fun hand => hflag hand.1]
    rw [SyncConnector.recv, if_pos hflag] at hrecv
    cases hrecv
    rfl

theorem Unclosed.send (h : w.Unclosed) {now : ℕ} {data : List Byte} {results : List SendResult}
    {r : SyncReply} (hs : w.send now data results = some (r, w')) : w'.Kept := by
  rcases send_cases hs with rfl | ⟨hflag, b, hb⟩
  · exact fun _ => h
  · -- a connector that stays connected, whatever is in the send buffer
    have hbuf : { w with _sndbuffer := b }.Unclosed :=
      ⟨h.core, h.started, fun hne => absurd hflag hne⟩
    rcases hb with rfl | rfl
    · exact fun _ => hbuf
    · exact hbuf.close

theorem Unclosed.recv (h : w.Unclosed) {results : List RecvSome} {r : SyncReply}
    (hs : w.recv results = some (r, w')) : w'.Kept := by
  rcases recv_cases hs with rfl | ⟨hflag, conn, ⟨hstays, rfl⟩ | rfl⟩
  · exact fun _ => h
  · exact fun _ => ⟨h.core, fun _ => h.started hflag, fun hne => absurd hstays hne⟩
  · -- the descriptor goes, and the block bit with it
    intro hb
    dsimp only at hb
    obtain ⟨fd, hc⟩ := h.core
    rw [hc] at hb
    obtain ⟨rfl, -⟩ := idle_close fd hb
    exact absurd (by rw [hc]; rfl) (h.started hflag)

/-! ## After the first close -/

/-- The block bit does not come back. -/
def Lost (c : Core Empty) : Prop := c._state.block = false

theorem Lost.close {c : Core Empty} (h : Lost c) : Lost c.close := by
  unfold Core.close
  split
  · split
    · exact rfl
    · exact h
  · exact h

theorem Lost.connect {c : Core Empty} (h : Lost c) (timed : Bool) (res : ConnectResult) :
    Lost (c.connect timed res) := by
  unfold Core.connect
  dsimp only
  split
  · exact Lost.close (c := c.setConnectFlag true) h
  · exact h

/-- **No step brings the block bit back.** -/
theorem Lost.step (h : Lost w.core) {a : SyncAction} (hs : w.step a = some w') : Lost w'.core := by
  unfold SyncWorld.step at hs
  cases a with
  | connect fd valid timed res endpoints =>
    dsimp only at hs
    split at hs
    · cases hs
    · cases hs
      have hopen : Lost (w.opened fd) := by rwa [Lost, opened_state]
      unfold SyncWorld.connect
      split
      · exact hopen
      · dsimp only
        split
        · exact hopen.connect timed res
        · exact hopen.connect timed res
  | call c =>
    simp only [Option.map_eq_some_iff] at hs
    obtain ⟨⟨r, w₁⟩, hcall, rfl⟩ := hs
    cases c with
    | send now data results =>
      rcases send_cases hcall with rfl | ⟨-, b, rfl | rfl⟩
      · exact h
      · exact h
      · exact h.close
    | recv results =>
      rcases recv_cases hcall with rfl | ⟨-, conn, ⟨-, rfl⟩ | rfl⟩
      · exact h
      · exact h
      · exact h.close
  | close =>
    cases hs
    exact h.close

/-- **Every `Send` is refused**, and closes the connector. -/
theorem send_refused (h : Lost w.core) (hflag : w.conn._flag = .start) {now : ℕ} {data : List Byte}
    (hdata : 0 < data.length ∧ data.length ≤ 0xFFFF - hdrlen) (results : List SendResult) :
    w.send now data results =
      some (.sent false [], { w with _sndbuffer := w.frame now data }.close) := by
  have href : w.core.syncRefusal w.core._state.write ≠ none := by
    unfold syncRefusal
    split
    · nofun
    · split
      · nofun
      · rw [if_pos (show w.core._state.block = false from h)]
        nofun
  rw [SyncWorld.send, if_neg (not_not.mpr hflag), if_pos hdata]
  dsimp only
  rw [if_neg href]
  rfl

/-- A fresh connector sends a frame. -/
theorem fresh_send (fd : ℕ) :
    ∃ wire w', (fresh fd).send 0 [0] [.sent 9] = some (.sent true wire, w') := by
  have hloop : ((sendLoop (new.frame 0 [0]) [.sent 9]).map Prod.fst) = some true := by
    decide +kernel
  obtain ⟨⟨ok, wire, b⟩, hl, rfl⟩ := Option.map_eq_some_iff.mp hloop
  refine ⟨wire, { fresh fd with _sndbuffer := b }, ?_⟩
  have hstart : ¬ (fresh fd).conn._flag ≠ .start := not_not.mpr rfl
  have hdata : 0 < [(0 : Byte)].length ∧ [(0 : Byte)].length ≤ 0xFFFF - hdrlen := by decide
  rw [SyncWorld.send, if_neg hstart, if_pos hdata]
  change (sendLoop (new.frame 0 [0]) [.sent 9]).map _ = _
  rw [hl]
  rfl

theorem fresh_clean (fd : ℕ) : (fresh fd).Clean where
  same := ⟨fd, fun _ => rfl⟩
  first := by
    intro cs fin hcs hfin hn p w' hrecv
    change (connected.recv (cs.map .data ++ fin)).map _ = _ at hrecv
    obtain ⟨⟨b, c', rs⟩, hr, he⟩ := Option.map_eq_some_iff.mp hrecv
    simp only [Prod.mk.injEq, SyncReply.received.injEq, Option.map_eq_some_iff] at he
    obtain ⟨⟨b, rfl, rfl⟩, -⟩ := he
    exact connected_first hcs hfin hn hr

theorem Lost.not_clean (h : Lost w.core) (hflag : w.conn._flag = .start) : ¬ w.Clean := by
  rintro ⟨⟨fd, hsame⟩, -⟩
  obtain ⟨wire, w', hsend⟩ := fresh_send fd
  have hrefused : w.send 0 [0] [.sent 9] = _ := send_refused h hflag (by decide) [.sent 9]
  have hreplies := hsame [.send 0 [0] [.sent 9]]
  simp only [replies, call, hsend, hrefused, Option.bind_eq_bind, Option.bind_some,
    Option.pure_def, Option.some.injEq, List.cons.injEq, SyncReply.sent.injEq] at hreplies
  cases hreplies.1.1

/-! ## Runs -/

/-- **A step keeps the invariant.** -/
theorem Kept.step (h : w.Kept) {a : SyncAction} (hs : w.step a = some w') : w'.Kept := by
  by_cases hb : w.core._state.block = true
  · have hun := h hb
    unfold SyncWorld.step at hs
    cases a with
    | connect fd valid timed res endpoints =>
      dsimp only at hs
      split at hs
      · cases hs
      · rename_i hres
        cases hs
        exact (hun.connect fun hflag => by_contra fun hne => hres ⟨hflag, hne⟩).1
    | call c =>
      simp only [Option.map_eq_some_iff] at hs
      obtain ⟨⟨r, w₁⟩, hcall, rfl⟩ := hs
      cases c with
      | send now data results => exact hun.send hcall
      | recv results => exact hun.recv hcall
    | close =>
      cases hs
      exact hun.close
  · have hlost : Lost w'.core := Lost.step ((Bool.not_eq_true _).mp hb) hs
    intro hb'
    rw [hlost] at hb'
    cases hb'

theorem connect_started {fd : Option ℕ} {valid timed : Bool} {res : ConnectResult}
    {endpoints : Bool} (h : (w.connect fd valid timed res endpoints).1 = true) :
    (w.connect fd valid timed res endpoints).2.conn._flag = .start := by
  unfold SyncWorld.connect at h ⊢
  split at h
  · cases h
  · rename_i href
    rw [if_neg href]
    dsimp only at h ⊢
    split at h
    · rename_i hok
      rw [if_pos hok]
    · cases h

/-- **A step starts clean** exactly when it finds the block bit set. -/
theorem Kept.startsClean_iff (h : w.Kept) {a : SyncAction} (hs : w.step a = some w') :
    w.StartsClean a w' ↔ w.StartsBlocking a w' := by
  cases a with
  | call c => exact Iff.rfl
  | close => exact Iff.rfl
  | connect fd valid timed res endpoints =>
    refine forall_congr' fun htrue => ?_
    have hs' := hs
    unfold SyncWorld.step at hs'
    dsimp only at hs'
    split at hs'
    · cases hs'
    · rename_i hres
      cases hs'
      constructor
      · intro hclean
        by_contra hb
        have hlost := Lost.step ((Bool.not_eq_true _).mp hb) hs
        exact hlost.not_clean (connect_started htrue) hclean
      · intro hb
        obtain ⟨fd', hfresh⟩ :=
          ((h hb).connect fun hflag => by_contra fun hne => hres ⟨hflag, hne⟩).2 htrue
        rw [hfresh]
        exact fresh_clean fd'

/-- **What a reconnection starts with.** In every run, each `Connect` that returns true starts
clean exactly when each finds the block bit set, so when no descriptor has been closed. -/
theorem starts_clean_iff (l : List SyncAction) :
    Every step StartsClean new l ↔ Every step StartsBlocking new l :=
  every_iff (I := Kept) (fun _ _ _ h hs => h.step hs) (fun _ _ _ h hs => h.startsClean_iff hs) l
    new fun _ => new_unclosed

/-- A connection with two frames in one read, of which `Recv` has returned the first; `Close`. -/
def history : List SyncAction :=
  [.connect (some 3) true true (.selected true) true,
    .call (.recv [.data (encodeFrame 0 [1] ++ encodeFrame 0 [2])]), .close]

/-- **The first `Recv` of the next connection** returns the frame of the last one again, before
the new peer has sent anything. -/
theorem not_starts_clean : ¬ ∀ l, Every step StartsClean new l := by
  intro h
  have hlast := h (history ++ [.connect (some 3) true true (.selected true) true])
  have hrun : ((history.foldlM step new).bind fun w =>
      (w.step (.connect (some 3) true true (.selected true) true)).bind fun w' =>
        (w'.recv []).map fun r =>
          (w.connect (some 3) true true (.selected true) true).1 && r.1 == .received (some [1])) =
      some true := by
    decide +kernel
  simp only [Option.bind_eq_some_iff, Option.map_eq_some_iff, Bool.and_eq_true, beq_iff_eq] at hrun
  obtain ⟨w, hw, w', hw', ⟨r, w''⟩, hrecv, htrue, rfl⟩ := hrun
  obtain ⟨n, hn⟩ := (hlast.last hw hw' htrue).first [] [] nofun nofun nofun [1] w'' hrecv
  cases hn

end SyncWorld

end Netlib
