import Netlib.Proof.SyncConnector
import Netlib.Spec.SyncReject

/-!
# What becomes of an over-long frame

A call of `Recv` either finds a buffer or runs to the end of the reads, and `Collects` says which
(`recv_outcome`). So the call for an over-long frame fails cleanly exactly when the connection
ends before the reads after the header have brought as many bytes as it announces
(`overlong_fails_iff`).
-/

namespace Netlib

open Lib

namespace SyncConnector

open ReadPos

variable {c : SyncConnector}

/-- What `Recv` gives when it finds a buffer. -/
def Finds (res : Option (Option Buffer × SyncConnector × List RecvSome)) : Prop :=
  ∃ b c' rs', res = some (some b, c', rs')

/-- What `Recv` gives when it finds none in the reads before `fin`: it does not return, or it fails
at the end of the connection. -/
def Ends (fin : List RecvSome) (res : Option (Option Buffer × SyncConnector × List RecvSome)) :
    Prop :=
  match fin with
  | [] => res = none
  | _ :: rest => ∃ c', res = some (none, c', rest) ∧ c'._flag = .stop

theorem recvLoop_end {fin : List RecvSome} (hfin : AtEnd fin) (c : SyncConnector) :
    Ends fin (c.recvLoop fin) := by
  cases fin with
  | nil => exact rfl
  | cons x rest =>
    have hx : x.bytes = [] := hfin x rfl
    cases x with
    | fail ret => exact ⟨_, rfl, rfl⟩
    | data bytes =>
      obtain rfl : bytes = [] := hx
      exact ⟨_, rfl, rfl⟩

theorem Ends.not_finds {fin : List RecvSome}
    {res : Option (Option Buffer × SyncConnector × List RecvSome)} (h : Ends fin res) :
    ¬ Finds res := by
  rintro ⟨b, c', rs', rfl⟩
  cases fin with
  | nil => cases h
  | cons x rest =>
    obtain ⟨c'', hc, -⟩ := h
    cases hc

/-- A read that is not empty goes to `_CutMsgPack`. -/
theorem recvLoop_data {x : List Byte} (hx : x ≠ []) (rs : List RecvSome) (c : SyncConnector) :
    c.recvLoop (.data x :: rs) =
      match (c.recvSome (.data x))._cutMsgPack with
      | (true, c) => some (some c._reader.msgbuffer, c, rs)
      | (false, c) => c.recvLoop rs := by
  have hz : ¬ (c.recvSome (.data x))._readsize = 0 := fun h => hx (List.length_eq_zero_iff.mp h)
  rw [recvLoop]
  exact if_neg hz

/-! ## After an over-long header -/

/-- **A read in an over-long payload**: the length goes up, in 32 bits, or it comes up to the
size that the header says. -/
theorem cut_long {x : List Byte} (hx : c._readbuf.take c._readsize = x)
    (hne : c._reader.curheader.size ≠ 0) :
    (u32 (x.length + c._reader.msgbuffer.length) < c._reader.curheader.size ∧
      ∃ c', c._cutMsgPack = (false, c') ∧
        c'._reader.curheader.size = c._reader.curheader.size ∧
        c'._reader.msgbuffer.length = u32 (x.length + c._reader.msgbuffer.length)) ∨
    (c._reader.curheader.size ≤ u32 (x.length + c._reader.msgbuffer.length) ∧
      ∃ c', c._cutMsgPack = (true, c')) := by
  have he : c._reader.header limit x = .ready c._reader x := by
    simp only [ReaderInfo.header, if_neg hne]
  by_cases hlt : u32 (x.length + c._reader.msgbuffer.length) < c._reader.curheader.size
  · refine .inl ⟨hlt, { c with
      _readsize := x.length
      _reader := { c._reader with msgbuffer := c._reader.msgbuffer.write x x.length } }, ?_, rfl, ?_⟩
    · simp only [_cutMsgPack, hx, he, if_pos hlt]
    · simp only [Buffer.length, Buffer.write_pos, Buffer.write_offset, u32, toU32]
      omega
  · refine .inr ⟨Nat.le_of_not_lt hlt, ?_⟩
    simp only [_cutMsgPack, hx, he, if_neg hlt]
    exact ⟨_, rfl⟩

theorem u32_add (a b : ℕ) : u32 (u32 a + b) = u32 (a + b) := Nat.mod_add_mod a _ b

/-- **The loop of `Recv` in an over-long payload** finds a buffer when as many bytes come as the
header says. -/
theorem recvLoop_long {fin : List RecvSome} (hfin : AtEnd fin) (cs : List (List Byte))
    (hcs : Reads cs) : ∀ c : SyncConnector, c._reader.curheader.size ≠ 0 →
    c._reader.msgbuffer.length < c._reader.curheader.size →
    ((∃ j, c._reader.curheader.size ≤
        u32 (c._reader.msgbuffer.length + (cs.take j).flatten.length)) ∧
      Finds (c.recvLoop (cs.map .data ++ fin))) ∨
    ((¬ ∃ j, c._reader.curheader.size ≤
        u32 (c._reader.msgbuffer.length + (cs.take j).flatten.length)) ∧
      Ends fin (c.recvLoop (cs.map .data ++ fin))) := by
  induction cs with
  | nil =>
    intro c hne hlt
    refine .inr ⟨?_, recvLoop_end hfin c⟩
    rintro ⟨j, hj⟩
    have hle : u32 (c._reader.msgbuffer.length + 0) ≤ c._reader.msgbuffer.length := Nat.mod_le _ _
    rw [List.take_nil, List.flatten_nil, List.length_nil] at hj
    omega
  | cons x cs ih =>
    intro c hne hlt
    specialize ih fun y hy => hcs y (List.mem_cons_of_mem _ hy)
    have hx : x ≠ [] := (hcs x List.mem_cons_self).1
    rw [List.map_cons, List.cons_append, recvLoop_data hx]
    have hcut := cut_long (c := c.recvSome (.data x)) recvSome_take hne
    -- the state after the read has the buffer and the header of `c`
    change (u32 (x.length + c._reader.msgbuffer.length) < c._reader.curheader.size ∧ _) ∨
      (c._reader.curheader.size ≤ u32 (x.length + c._reader.msgbuffer.length) ∧ _) at hcut
    rcases hcut with ⟨hless, c₁, hc, hs, hl⟩ | ⟨hfull, c₁, hc⟩
    · have hs : c₁._reader.curheader.size = c._reader.curheader.size := hs
      have hl : c₁._reader.msgbuffer.length = u32 (x.length + c._reader.msgbuffer.length) := hl
      rw [hc]
      dsimp only
      have hiff : (∃ j, c₁._reader.curheader.size ≤
            u32 (c₁._reader.msgbuffer.length + (cs.take j).flatten.length)) ↔
          ∃ j, c._reader.curheader.size ≤
            u32 (c._reader.msgbuffer.length + ((x :: cs).take j).flatten.length) := by
        rw [hs, hl]
        constructor
        · rintro ⟨j, hj⟩
          refine ⟨j + 1, ?_⟩
          rw [u32_add] at hj
          rw [List.take_succ_cons, List.flatten_cons, List.length_append]
          rwa [← Nat.add_assoc, Nat.add_comm c._reader.msgbuffer.length]
        · rintro ⟨j, hj⟩
          cases j with
          | zero =>
            have hle : u32 (c._reader.msgbuffer.length + 0) ≤ c._reader.msgbuffer.length :=
              Nat.mod_le _ _
            rw [List.take_zero, List.flatten_nil, List.length_nil] at hj
            omega
          | succ j =>
            refine ⟨j, ?_⟩
            rw [List.take_succ_cons, List.flatten_cons, List.length_append, ← Nat.add_assoc,
              Nat.add_comm c._reader.msgbuffer.length] at hj
            rwa [u32_add]
      rw [← hiff]
      exact ih c₁ (by rwa [hs]) (by rw [hs, hl]; exact hless)
    · refine .inl ⟨⟨1, ?_⟩, ?_⟩
      · rw [List.take_succ_cons, List.take_zero, List.flatten_cons, List.flatten_nil,
          List.append_nil, Nat.add_comm]
        exact hfull
      · rw [hc]
        exact ⟨_, _, _, rfl⟩

/-! ## A call of `Recv` -/

theorem collects_over {s : List Byte} {cs : List (List Byte)} (hn : nextFrame limit s = .reject) :
    Collects s cs ↔ ∃ j, frameSize s ≤ u32 (cs.take j).flatten.length := by
  constructor
  · intro h
    cases h with
    | frame hf => rw [hn] at hf; cases hf
    | long j _ hj => exact ⟨j, hj⟩
    | read hm _ => rw [hn] at hm; cases hm
  · rintro ⟨j, hj⟩
    exact .long j hn hj

theorem collects_more {s x : List Byte} {cs : List (List Byte)} (hn : nextFrame limit s = .more) :
    Collects s (x :: cs) ↔ Collects (s ++ x) cs := by
  constructor
  · intro h
    cases h with
    | frame hf => rw [hn] at hf; cases hf
    | long j hr _ => rw [hn] at hr; cases hr
    | read _ hc => exact hc
  · exact .read hn

theorem not_collects_nil {s : List Byte} (hn : nextFrame limit s = .more) : ¬ Collects s [] := by
  intro h
  cases h with
  | frame hf => rw [hn] at hf; cases hf
  | long j hr _ => rw [hn] at hr; cases hr

/-- The connector after an over-long header: the rest of the read is dropped. -/
theorem recvLoop_rejects {s buf : List Byte} {fin : List RecvSome} (hfin : AtEnd fin)
    {cs : List (List Byte)} (hcs : Reads cs) (hn : nextFrame limit s = .reject)
    (hr : Ready (frameSize s) c._reader s buf) (hnil : c._reader.msgbuffer.unread = []) :
    (Collects s cs ∧ Finds (c.recvLoop (cs.map .data ++ fin))) ∨
      (¬ Collects s cs ∧ Ends fin (c.recvLoop (cs.map .data ++ fin))) := by
  have hbig := (nextFrame_reject hn).2
  have hzero : c._reader.msgbuffer.length = 0 := by
    rw [← hr.wf.unread_length, hnil, List.length_nil]
  have hlong := recvLoop_long hfin cs hcs c (by rw [hr.size]; omega) (by rw [hr.size]; omega)
  rw [hr.size, hzero] at hlong
  rw [collects_over hn]
  simpa only [Nat.zero_add] using hlong

/-- **The loop of `Recv`** finds a buffer or runs to the end of the reads. -/
theorem recvLoop_outcome {fin : List RecvSome} (hfin : AtEnd fin) (cs : List (List Byte))
    (hcs : Reads cs) : ∀ (c : SyncConnector) (tail : List Byte), Holds limit c._reader tail →
    nextFrame limit tail = .more →
    (Collects tail cs ∧ Finds (c.recvLoop (cs.map .data ++ fin))) ∨
      (¬ Collects tail cs ∧ Ends fin (c.recvLoop (cs.map .data ++ fin))) := by
  induction cs with
  | nil => exact fun c tail _ hm => .inr ⟨not_collects_nil hm, recvLoop_end hfin c⟩
  | cons x cs ih =>
    intro c tail hr hm
    have hcs' : Reads cs := fun y hy => hcs y (List.mem_cons_of_mem _ hy)
    have hx := hcs.size_lt List.mem_cons_self
    rw [List.map_cons, List.cons_append, recvLoop_data (hcs x List.mem_cons_self).1,
      collects_more hm]
    obtain ⟨c₁, -, -, hcut⟩ := cut_spec (c := c.recvSome (.data x)) hr
      (by rw [recvSome_take]; exact hx)
    rw [recvSome_take] at hcut
    rcases hcut with ⟨hm', hc, hr'⟩ | ⟨p, n, hn, hc, -⟩ | ⟨hn, hc, buf, hready, hnil⟩
    · rw [hc]
      exact ih hcs' c₁ (tail ++ x) hr' hm'
    · rw [hc]
      exact .inl ⟨.frame hn, _, _, _, rfl⟩
    · rw [hc]
      exact recvLoop_rejects hfin hcs' hn hready hnil

/-- **A call of `Recv`** finds a buffer or runs to the end of the reads. -/
theorem recv_outcome {fin : List RecvSome} (hfin : AtEnd fin) {r : ReadPos} (h : c.At r) :
    (Collects (r.last.take r.left) r.rest ∧ Finds (c.recv (r.rest.map .data ++ fin))) ∨
      (¬ Collects (r.last.take r.left) r.rest ∧ Ends fin (c.recv (r.rest.map .data ++ fin))) := by
  rw [h.recv_eq]
  by_cases hleft : r.left > 0
  · rw [if_pos hleft]
    obtain ⟨c₁, -, -, hcut⟩ := cut_spec (c := c.clearRcvbuffer) h.cleared
      (by rw [h.shown]; exact h.size_lt)
    rw [h.shown, List.nil_append] at hcut
    rcases hcut with ⟨hm, hc, hr'⟩ | ⟨p, n, hn, hc, -⟩ | ⟨hn, hc, buf, hready, hnil⟩
    · rw [hc]
      exact recvLoop_outcome hfin r.rest h.rest c₁ _ hr' hm
    · rw [hc]
      exact .inl ⟨.frame hn, _, _, _, rfl⟩
    · rw [hc]
      exact recvLoop_rejects hfin h.rest hn hready hnil
  · have h0 : r.left = 0 := by omega
    rw [if_neg hleft, h0, List.take_zero]
    exact recvLoop_outcome hfin r.rest h.rest c.clearRcvbuffer [] h.cleared (nextFrame_nil _)

/-! ## The calls before -/

/-- More results change nothing for a call that returns without them. -/
theorem recvLoop_append (more : List RecvSome) (rs : List RecvSome) :
    ∀ {c c' : SyncConnector} {b : Option Buffer} {rs' : List RecvSome},
      c.recvLoop rs = some (b, c', rs') → c.recvLoop (rs ++ more) = some (b, c', rs' ++ more) := by
  induction rs with
  | nil =>
    intro c c' b rs' h
    cases h
  | cons x rs ih =>
    intro c c' b rs' h
    cases x with
    | fail ret =>
      cases h
      rfl
    | data bytes =>
      rw [List.cons_append]
      simp only [recvLoop] at h ⊢
      split at h
      · rename_i hz
        rw [if_pos hz]
        cases h
        rfl
      · rename_i hz
        rw [if_neg hz]
        split at h
        · cases h
          rfl
        · exact ih h

theorem recv_append (more : List RecvSome) {c' : SyncConnector} {b : Option Buffer}
    {rs rs' : List RecvSome} (h : c.recv rs = some (b, c', rs')) :
    c.recv (rs ++ more) = some (b, c', rs' ++ more) := by
  unfold recv at h ⊢
  split at h
  · rename_i hflag
    rw [if_pos hflag]
    cases h
    rfl
  · rename_i hflag
    rw [if_neg hflag]
    dsimp only at h ⊢
    split at h
    · rename_i hsize
      rw [if_pos hsize]
      split at h
      · cases h
        rfl
      · exact recvLoop_append more rs h
    · rename_i hsize
      rw [if_neg hsize]
      exact recvLoop_append more rs h

/-- A buffer that is found is found in the reads. -/
theorem recv_reads {fin : List RecvSome} (hfin : AtEnd fin) {r : ReadPos} (h : c.At r) {b : Buffer}
    {c' : SyncConnector} {rs' : List RecvSome}
    (hr : c.recv (r.rest.map .data ++ fin) = some (some b, c', rs')) :
    ∃ rs, rs' = rs ++ fin ∧ c.recv (r.rest.map .data) = some (some b, c', rs) := by
  have hcollects : Collects (r.last.take r.left) r.rest := by
    rcases recv_outcome hfin h with ⟨hc, -⟩ | ⟨-, he⟩
    · exact hc
    · exact absurd ⟨b, c', rs', hr⟩ he.not_finds
  have hnone : AtEnd [] := by nofun
  rcases recv_outcome hnone h with ⟨-, b₀, c₀, rs₀, hr₀⟩ | ⟨hno, -⟩
  · rw [List.append_nil] at hr₀
    have happ := recv_append fin hr₀
    rw [hr] at happ
    cases happ
    exact ⟨rs₀, rfl, hr₀⟩
  · exact absurd hcollects hno

/-- **After the calls that returned the first frames** the connector is past them. -/
theorem recvN_at {fin : List RecvSome} (hfin : AtEnd fin) (fs : List (ℕ × List Byte)) :
    ∀ (c : SyncConnector) (r : ReadPos) (bs : List Buffer) (c' : SyncConnector)
      (rs : List RecvSome), (∀ f ∈ fs, f.2.length ≤ limit) → c.At r →
      (fs.flatMap fun f => encodeFrame f.1 f.2).length ≤ r.seen.length →
      recvN fs.length c (r.rest.map .data ++ fin) = some (bs, c', rs) →
      List.Forall₂ (fun b p => b.length = p.length ∧ b.unread = p) bs (fs.map Prod.snd) →
      c'.At (past (fs.map fun f => encodeFrame f.1 f.2) r) ∧
        rs = (past (fs.map fun f => encodeFrame f.1 f.2) r).rest.map .data ++ fin := by
  induction fs with
  | nil =>
    intro c r bs c' rs _ h _ hcalls _
    cases hcalls
    exact ⟨h, rfl⟩
  | cons f fs ih =>
    intro c r bs c' rs hfs h hlen hcalls hpay
    obtain ⟨t, p⟩ := f
    have hp : p.length ≤ limit := hfs (t, p) List.mem_cons_self
    rw [List.flatMap_cons, List.length_append, encodeFrame_length] at hlen
    change hdrlen + p.length + _ ≤ _ at hlen
    simp only [List.length_cons, recvN] at hcalls
    rcases hr : c.recv (r.rest.map .data ++ fin) with _ | ⟨_ | b, c₁, rs₁⟩
    · rw [hr] at hcalls
      cases hcalls
    · rw [hr] at hcalls
      cases hcalls
    · rw [hr] at hcalls
      simp only [Option.bind_eq_bind, Option.bind_some, Option.bind_eq_some_iff, Option.pure_def,
        Option.some.injEq, Prod.mk.injEq] at hcalls
      obtain ⟨⟨bs', c₂, rs₂⟩, hrest, rfl, rfl, rfl⟩ := hcalls
      rw [List.map_cons, List.forall₂_cons] at hpay
      obtain ⟨⟨hbl, hbu⟩, hpay⟩ := hpay
      obtain ⟨rs₃, rfl, hreads⟩ := recv_reads hfin h hr
      obtain ⟨-, hat, rfl⟩ := recv_payload h t hp (by omega) hreads hbl hbu
      refine ih c₁ _ bs' c₂ rs₂ (fun g hg => hfs g (List.mem_cons_of_mem _ hg)) hat ?_ hrest hpay
      have hsl : r.seen.length = r.left + r.rest.flatten.length := by
        rw [seen, List.length_append, h.take_length]
      change _ ≤ (advance r.last r.left (encodeFrame t p).length r.rest).seen.length
      rw [(seen_advance r.rest r.last r.left _ h.left_le
        (by rw [encodeFrame_length]; omega)).1, encodeFrame_length]
      omega

/-! ## The call for an over-long frame -/

theorem recv_stopped (h : c._flag = .stop) (rs : List RecvSome) :
    c.recv rs = some (none, c, rs) := by
  rw [recv, if_pos (by rw [h]; decide)]

/-- A call fails cleanly when the connection ends and no buffer is found. -/
theorem failsCleanly_iff {fin : List RecvSome} (hfin : AtEnd fin) {r : ReadPos} (h : c.At r) :
    c.FailsCleanly (r.rest.map .data ++ fin) ↔
      fin ≠ [] ∧ ¬ Collects (r.last.take r.left) r.rest := by
  rcases recv_outcome hfin h with ⟨hc, b, c', rs', hr⟩ | ⟨hc, he⟩
  · refine iff_of_false ?_ fun h => h.2 hc
    rintro ⟨c'', rs'', hr', -⟩
    rw [hr] at hr'
    cases hr'
  · cases fin with
    | nil =>
      refine iff_of_false ?_ fun h => h.1 rfl
      rintro ⟨c', rs', hr, -⟩
      have hnone : c.recv (r.rest.map .data ++ []) = none := he
      rw [hnone] at hr
      cases hr
    | cons x rest =>
      refine iff_of_true ?_ ⟨List.cons_ne_nil _ _, hc⟩
      obtain ⟨c', hr, hstop⟩ := he
      refine ⟨c', rest, hr, ?_, recv_stopped hstop⟩
      unfold isConnected
      rw [hstop]
      rfl

/-- **When an over-long header is seen**, a buffer is found exactly when the reads after it bring
as many bytes as it announces. -/
theorem collects_iff (cs : List (List Byte)) : ∀ s : List Byte,
    nextFrame limit (s ++ cs.flatten) = .reject →
    (Collects s cs ↔ ∃ k j, HeaderAfter s cs k ∧
      frameSize (s ++ cs.flatten) ≤ u32 ((cs.drop k).take j).flatten.length) := by
  induction cs with
  | nil =>
    intro s hs
    rw [List.flatten_nil, List.append_nil] at hs ⊢
    obtain ⟨h8, -⟩ := nextFrame_reject hs
    rw [collects_over hs]
    constructor
    · rintro ⟨j, hj⟩
      refine ⟨0, j, ⟨nofun, ?_⟩, hj⟩
      rw [List.take_nil, List.flatten_nil, List.append_nil]
      exact h8
    · rintro ⟨k, j, -, hj⟩
      rw [List.drop_nil] at hj
      exact ⟨j, hj⟩
  | cons x cs ih =>
    intro s hs
    by_cases h8 : hdrlen ≤ s.length
    · -- the header is there
      have hfs : frameSize (s ++ (x :: cs).flatten) = frameSize s := frameSize_append h8 _
      have hbig := (nextFrame_reject hs).2
      rw [hfs] at hbig ⊢
      have hn : nextFrame limit s = .reject := by
        rw [nextFrame, if_neg (Nat.not_lt.mpr h8), if_pos hbig]
      rw [collects_over hn]
      constructor
      · rintro ⟨j, hj⟩
        refine ⟨0, j, ⟨nofun, ?_⟩, hj⟩
        rw [List.take_zero, List.flatten_nil, List.append_nil]
        exact h8
      · rintro ⟨k, j, hk, hj⟩
        obtain rfl : k = 0 := by
          by_contra hpos
          have hlt := hk.before 0 (Nat.pos_of_ne_zero hpos)
          rw [List.take_zero, List.flatten_nil, List.append_nil] at hlt
          omega
        exact ⟨j, hj⟩
    · have hlt : s.length < hdrlen := Nat.lt_of_not_le h8
      have hm : nextFrame limit s = .more := by rw [nextFrame, if_pos hlt]
      rw [List.flatten_cons, ← List.append_assoc] at hs ⊢
      rw [collects_more hm, ih (s ++ x) hs]
      constructor
      · rintro ⟨k, j, hk, hj⟩
        refine ⟨k + 1, j, ⟨fun i hi => ?_, ?_⟩, hj⟩
        · cases i with
          | zero =>
            rw [List.take_zero, List.flatten_nil, List.append_nil]
            exact hlt
          | succ i =>
            rw [List.take_succ_cons, List.flatten_cons, ← List.append_assoc]
            exact hk.before i (Nat.lt_of_succ_lt_succ hi)
        · rw [List.take_succ_cons, List.flatten_cons, ← List.append_assoc]
          exact hk.complete
      · rintro ⟨k, j, hk, hj⟩
        cases k with
        | zero =>
          have hle := hk.complete
          rw [List.take_zero, List.flatten_nil, List.append_nil] at hle
          omega
        | succ k =>
          refine ⟨k, j, ⟨fun i hi => ?_, ?_⟩, hj⟩
          · have hbefore := hk.before (i + 1) (Nat.succ_lt_succ hi)
            rwa [List.take_succ_cons, List.flatten_cons, ← List.append_assoc] at hbefore
          · have hle := hk.complete
            rwa [List.take_succ_cons, List.flatten_cons, ← List.append_assoc] at hle

/-- **The call for an over-long frame.** Frames arrive, and after them one whose header announces
more than 65527 bytes, cut into reads in any way; the calls before have returned the payloads. The
next call fails cleanly exactly when the connection ends and no buffer is found; when it sees
the header right, that is when the reads after the header bring fewer bytes than it announces. -/
theorem overlong_fails_iff (fs : List (ℕ × List Byte)) (hfs : ∀ f ∈ fs, f.2.length ≤ limit)
    (tail : List Byte) (hover : nextFrame limit tail = .reject) (cs : List (List Byte))
    (hcs : Reads cs) (hstream : cs.flatten = (fs.flatMap fun f => encodeFrame f.1 f.2) ++ tail)
    (fin : List RecvSome) (hfin : AtEnd fin) (bs : List Buffer) (c : SyncConnector)
    (rs : List RecvSome)
    (hcalls : recvN fs.length connected (cs.map .data ++ fin) = some (bs, c, rs))
    (hpay : List.Forall₂ (fun b p => b.length = p.length ∧ b.unread = p) bs (fs.map Prod.snd))
    (r : ReadPos) (hr : r = past (fs.map fun f => encodeFrame f.1 f.2) ⟨[], 0, cs⟩) :
    (c.FailsCleanly rs ↔ fin ≠ [] ∧ ¬ Collects (r.last.take r.left) r.rest) ∧
      (r.seen = tail → (c.FailsCleanly rs ↔ fin ≠ [] ∧
        ∀ k j, HeaderAfter (r.last.take r.left) r.rest k →
          u32 ((r.rest.drop k).take j).flatten.length < frameSize tail)) := by
  obtain ⟨hat, rfl⟩ := recvN_at hfin fs connected ⟨[], 0, cs⟩ bs c rs hfs (connected_at hcs)
    (by rw [seen, List.take_nil, List.nil_append, hstream, List.length_append]; omega) hcalls hpay
  rw [← hr] at hat ⊢
  have hiff := failsCleanly_iff hfin hat
  refine ⟨hiff, fun hseen => hiff.trans (and_congr_right fun _ => ?_)⟩
  rw [seen] at hseen
  rw [collects_iff _ _ (by rw [hseen]; exact hover), hseen]
  simp only [not_exists, not_and, Nat.not_le]

/-- A header that announces 65528 bytes. -/
def longHeader : List Byte := be32 0 ++ be32 65528

theorem longHeader_rejects (more : List Byte) : nextFrame limit (longHeader ++ more) = .reject := by
  have h8 : hdrlen ≤ longHeader.length := by decide
  have hbig : limit < frameSize longHeader := by decide +kernel
  have hlen : ¬ (longHeader ++ more).length < hdrlen := by
    rw [List.length_append]
    omega
  rw [nextFrame, frameSize_append h8, if_neg hlen, if_pos hbig]

/-- The connection ends after the header. -/
theorem overlong_fails_iff_ended :
    (connected.FailsCleanly [.data longHeader, .data []] ↔
      ([.data []] : List RecvSome) ≠ [] ∧ ¬ Collects (List.take 0 []) [longHeader]) ∧
    (seen ⟨[], 0, [longHeader]⟩ = longHeader →
      (connected.FailsCleanly [.data longHeader, .data []] ↔ ([.data []] : List RecvSome) ≠ [] ∧
        ∀ k j, HeaderAfter (List.take 0 []) [longHeader] k →
          u32 (([longHeader].drop k).take j).flatten.length < frameSize longHeader)) :=
  overlong_fails_iff [] nofun longHeader (longHeader_rejects []) [longHeader]
    (by unfold Reads; decide +kernel) (List.append_nil _) [.data []]
    (by rintro x ⟨⟩; rfl) [] connected _ rfl .nil ⟨[], 0, [longHeader]⟩ rfl

/-- An over-long frame whose header and first byte come in one read, and more bytes than are
missing. -/
def longReads : List (List Byte) :=
  (longHeader ++ [1]) :: List.replicate 16 (List.replicate socketReadSize 0)

theorem longReads_collects : Collects [] longReads := by
  refine .read (nextFrame_nil _) (.long 16 (longHeader_rejects [1]) ?_)
  have hlen : ((List.replicate 16 (List.replicate socketReadSize (0 : Byte))).take 16).flatten.length
      = 65536 := by
    rw [List.take_of_length_le (by rw [List.length_replicate]), List.length_flatten,
      List.map_replicate, List.length_replicate, List.sum_replicate_nat]
    rfl
  have hsize : frameSize (longHeader ++ [1]) = 65528 := by decide +kernel
  rw [List.nil_append, hlen, hsize]
  decide

/-- **A reply of 65528 bytes** is not refused: `Recv` returns a buffer without its first byte. -/
theorem not_overlong_fails : ¬ ∀ (fs : List (ℕ × List Byte)) (tail : List Byte)
    (cs : List (List Byte)) (fin : List RecvSome) (bs : List Buffer) (c : SyncConnector)
    (rs : List RecvSome), (∀ f ∈ fs, f.2.length ≤ limit) → nextFrame limit tail = .reject →
    Reads cs → cs.flatten = (fs.flatMap fun f => encodeFrame f.1 f.2) ++ tail → AtEnd fin →
    recvN fs.length connected (cs.map .data ++ fin) = some (bs, c, rs) →
    List.Forall₂ (fun b p => b.length = p.length ∧ b.unread = p) bs (fs.map Prod.snd) →
    c.FailsCleanly rs := by
  intro h
  have hreads : Reads longReads := by
    intro x hx
    rcases List.mem_cons.mp hx with rfl | hx
    · exact ⟨List.ne_nil_of_length_pos (by decide), by decide⟩
    · rw [List.eq_of_mem_replicate hx]
      have hlen : (List.replicate socketReadSize (0 : Byte)).length = 4096 := List.length_replicate
      exact ⟨List.ne_nil_of_length_pos (by rw [hlen]; decide), by rw [hlen]; decide⟩
  have hover : nextFrame limit longReads.flatten = .reject := by
    rw [longReads, List.flatten_cons, List.append_assoc]
    exact longHeader_rejects _
  have hfails := h [] longReads.flatten longReads [.data []] [] connected
    (longReads.map .data ++ [.data []]) nofun hover hreads
    (by rw [List.flatMap_nil, List.nil_append]) (by rintro x ⟨⟩; rfl) rfl .nil
  have hend : AtEnd [.data []] := by
    rintro x ⟨⟩
    rfl
  have hnone := ((failsCleanly_iff hend (connected_at hreads)).mp hfails).2
  exact hnone longReads_collects

end SyncConnector

end Netlib
