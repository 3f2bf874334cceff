import Netlib.Spec.SyncConnector
import Netlib.Proof.Reader

/-!
# What the synchronous connector delivers

`_CutMsgPack` keeps the reader's invariant and finds the first frame of the bytes it
is shown (`cut_spec`). Between two calls of `Recv` these are the bytes left of the
last read, taken from its start (`At`, `recv_frame`). So a sequence of calls returns
the payloads sent exactly when those bytes happen to be right for every frame
(`recvs_iff`), which holds when each frame ends a read (`seesFrames_of_ends`).
-/

namespace Netlib

open Lib

namespace SyncConnector

variable {c : SyncConnector}

theorem limit_le : limit ≤ socketPackSize := by decide

/-! ## `_CutMsgPack` -/

/-- **`_CutMsgPack` finds the first frame** of the bytes in progress and those left. -/
theorem cut_spec {tail : List Byte} (hr : Holds limit c._reader tail)
    (hsize : (c._readbuf.take c._readsize).length + socketPackSize < 2 ^ 32) :
    ∃ c', c'._flag = c._flag ∧ c'._readbuf = c._readbuf ∧
      ((nextFrame limit (tail ++ c._readbuf.take c._readsize) = .more ∧
          c._cutMsgPack = (false, c') ∧
          Holds limit c'._reader (tail ++ c._readbuf.take c._readsize)) ∨
        (∃ p n, nextFrame limit (tail ++ c._readbuf.take c._readsize) = .frame p n ∧
          c._cutMsgPack = (true, c') ∧ c'._reader.msgbuffer.WF ∧
          c'._reader.msgbuffer.unread = p ∧ c'._reader.curheader.size = 0 ∧
          c'._readsize = (tail ++ c._readbuf.take c._readsize).length - n) ∨
        (nextFrame limit (tail ++ c._readbuf.take c._readsize) = .reject ∧
          c._cutMsgPack = (false, c') ∧ ∃ buf,
          Ready (frameSize (tail ++ c._readbuf.take c._readsize)) c'._reader
            (tail ++ c._readbuf.take c._readsize) buf ∧ c'._reader.msgbuffer.unread = [])) := by
  set buf := c._readbuf.take c._readsize with hbuf
  rcases header_spec hr hsize with ⟨r', he, hlt, hr'⟩ | ⟨r', buf', he, hbig, hover⟩ |
    ⟨r', buf', he, hready⟩
  · -- no complete header
    refine ⟨{ c with _reader := r' }, rfl, rfl, .inl ⟨?_, ?_, hr'⟩⟩
    · rw [nextFrame, if_pos hlt]
    · rw [_cutMsgPack, ← hbuf, he]
  · -- an over-long header
    refine ⟨{ c with _readsize := buf'.length, _reader := r' }, rfl, rfl,
      .inr (.inr ⟨?_, ?_, buf', hover⟩)⟩
    · rw [nextFrame, if_neg (Nat.not_lt.mpr hover.1.len), if_pos hbig]
    · rw [_cutMsgPack, ← hbuf, he]
  · have hnext := hready.next
    rw [frames_next] at hnext
    have hsum := hready.sum_eq hr limit_le hsize
    by_cases hlt : buf'.length + r'.msgbuffer.unread.length < frameSize (tail ++ buf)
    · -- the payload is not complete
      rw [if_pos hlt] at hnext
      refine ⟨{ c with
        _readsize := buf'.length
        _reader := { r' with msgbuffer := r'.msgbuffer.write buf' buf'.length } }, rfl, rfl,
        .inl ⟨hnext, ?_, hready.more limit_le hlt⟩⟩
      simp only [_cutMsgPack, ← hbuf, he, hsum, hready.size, if_pos hlt]
    · rw [if_neg hlt] at hnext
      obtain ⟨hw, hpay, hrest⟩ := hready.full limit_le hlt
      have hmiss := hready.missing limit_le
      rw [hready.size] at hmiss
      refine ⟨{ c with
        _readsize := (buf'.drop (frameSize (tail ++ buf) - r'.msgbuffer.unread.length)).length
        _reader := ⟨r'.msgbuffer.write buf' (frameSize (tail ++ buf) - r'.msgbuffer.unread.length),
          { r'.curheader with size := 0 }⟩ }, rfl, rfl,
        .inr (.inl ⟨_, _, hnext, ?_, hw, hpay, rfl, ?_⟩)⟩
      · simp only [_cutMsgPack, ← hbuf, he, hsum, hready.size, hmiss, if_neg hlt]
      · change (buf'.drop _).length = _
        rw [hrest, List.length_drop]

/-- After an over-long header, a buffer is returned only with as many bytes as the
header says. -/
theorem cut_over (hne : c._reader.curheader.size ≠ 0) (hlt : c._reader.curheader.size < 2 ^ 32) :
    (∃ c', c._cutMsgPack = (false, c') ∧
        c'._reader.curheader.size = c._reader.curheader.size) ∨
      (∃ c', c._cutMsgPack = (true, c') ∧
        c'._reader.msgbuffer.length = c._reader.curheader.size) := by
  set buf := c._readbuf.take c._readsize with hbuf
  have he : c._reader.header limit buf = .ready c._reader buf := by
    simp only [ReaderInfo.header, if_neg hne]
  by_cases hcond : u32 (buf.length + c._reader.msgbuffer.length) < c._reader.curheader.size
  · refine .inl ⟨{ c with
      _readsize := buf.length
      _reader := { c._reader with msgbuffer := c._reader.msgbuffer.write buf buf.length } }, ?_, rfl⟩
    simp only [_cutMsgPack, ← hbuf, he, if_pos hcond]
  · set n := toU32 ((c._reader.curheader.size : ℤ) - c._reader.msgbuffer.length) with hn
    refine .inr ⟨{ c with
      _readsize := (buf.drop n).length
      _reader := ⟨c._reader.msgbuffer.write buf n, { c._reader.curheader with size := 0 }⟩ }, ?_, ?_⟩
    · simp only [_cutMsgPack, ← hbuf, he, if_neg hcond, ← hn]
    rw [hn]
    simp only [Buffer.length, Buffer.write_pos, Buffer.write_offset, u32, toU32] at hlt ⊢
    omega

/-! ## `Recv` -/

theorem recvSome_take {b : List Byte} :
    (c.recvSome (.data b))._readbuf.take (c.recvSome (.data b))._readsize = b := by
  have := memcpy_take c._readbuf b (Nat.zero_le _)
  rw [Nat.zero_add, List.take_zero, List.nil_append] at this
  exact this

/-- The loop of `Recv` after an over-long header. -/
theorem recvLoop_over (cs : List (List Byte)) :
    ∀ c : SyncConnector, c._reader.curheader.size ≠ 0 → c._reader.curheader.size < 2 ^ 32 →
      ∀ b c' rs', c.recvLoop (cs.map .data) = some (some b, c', rs') →
        b.length = c._reader.curheader.size := by
  induction cs with
  | nil => intro c _ _ b c' rs' h; cases h
  | cons x cs ih =>
    intro c hne hlt b c' rs' h
    rw [List.map_cons, recvLoop] at h
    by_cases hz : (c.recvSome (.data x))._readsize = 0
    · simp only [if_pos hz] at h; cases h
    · simp only [if_neg hz] at h
      rcases cut_over (c := c.recvSome (.data x)) hne hlt with ⟨c₁, hc, hs⟩ | ⟨c₁, hc, hs⟩
      · rw [hc] at h
        have hs' : c₁._reader.curheader.size = c._reader.curheader.size := hs
        rw [← hs'] at hne hlt ⊢
        exact ih c₁ hne hlt b c' rs' h
      · rw [hc] at h
        simp only [Option.some.injEq, Prod.mk.injEq] at h
        rw [← h.1]; exact hs

/-- The reads a connection can give: not empty, and no longer than `_readbuf`. -/
def Reads (cs : List (List Byte)) : Prop := ∀ x ∈ cs, x ≠ [] ∧ x.length ≤ socketReadSize

theorem Reads.size_lt {cs : List (List Byte)} (h : Reads cs) {x : List Byte} (hx : x ∈ cs) :
    x.length + socketPackSize < 2 ^ 32 := by
  have := (h x hx).2
  simp only [socketReadSize, socketPackSize] at *; omega

/-- **A buffer that is returned has the size that its header says.** -/
theorem recvLoop_size (cs : List (List Byte)) (hcs : Reads cs) :
    ∀ (c : SyncConnector) (tail : List Byte), Holds limit c._reader tail →
      hdrlen ≤ (tail ++ cs.flatten).length →
      ∀ b c' rs', c.recvLoop (cs.map .data) = some (some b, c', rs') →
        b.length = frameSize (tail ++ cs.flatten) := by
  induction cs with
  | nil => intro c tail _ _ b c' rs' h; cases h
  | cons x cs ih =>
    intro c tail hr h8 b c' rs' h
    have hx := hcs.size_lt List.mem_cons_self
    specialize ih fun y hy => hcs y (List.mem_cons_of_mem _ hy)
    rw [List.flatten_cons, ← List.append_assoc] at h8 ⊢
    rw [List.map_cons, recvLoop] at h
    by_cases hz : (c.recvSome (.data x))._readsize = 0
    · simp only [if_pos hz] at h; cases h
    · simp only [if_neg hz] at h
      obtain ⟨c₁, -, -, hcut⟩ := cut_spec (c := c.recvSome (.data x)) hr
        (by rw [recvSome_take]; exact hx)
      rw [recvSome_take] at hcut
      rcases hcut with ⟨-, hc, hr'⟩ | ⟨p, n, hn, hc, hw, hp, -⟩ | ⟨hn, hc, _, hover, -⟩
      · rw [hc] at h
        exact ih c₁ (tail ++ x) hr' h8 b c' rs' h
      · rw [hc] at h
        simp only [Option.some.injEq, Prod.mk.injEq] at h
        obtain ⟨hp', hn', hle⟩ := nextFrame_frame hn
        have hfs := frameSize_append (show hdrlen ≤ (tail ++ x).length by omega) cs.flatten
        rw [hfs, ← h.1, ← hw.unread_length, hp, hp', List.length_take, List.length_drop]
        omega
      · -- the header is over-long: the result is dropped, and the loop goes on with it
        rw [hc] at h
        obtain ⟨hle, hbig⟩ := nextFrame_reject hn
        have hs := hover.size
        rw [frameSize_append hle, ← hs]
        exact recvLoop_over cs c₁ (by rw [hs]; omega) (by rw [hs]; exact frameSize_lt _) b c' rs' h

end SyncConnector

namespace ReadPos

theorem advance_le {last : List Byte} {left n : ℕ} (h : n ≤ left) (cs : List (List Byte)) :
    advance last left n cs = ⟨last, left - n, cs⟩ := by
  cases cs with
  | nil => rfl
  | cons c cs => rw [advance, if_pos h]

theorem advance_gt {last : List Byte} {left n : ℕ} (h : left < n) (cs : List (List Byte)) :
    advance last left n cs = advance last 0 (n - left) cs := by
  cases cs with
  | nil =>
    have : left - n = 0 := by omega
    rw [advance, advance, this, Nat.zero_sub]
  | cons c cs => rw [advance, advance, if_neg (by omega), if_neg (by omega), Nat.sub_zero]

/-- The number of bytes seen goes down by those passed. -/
theorem seen_advance (cs : List (List Byte)) :
    ∀ (last : List Byte) (left n : ℕ), left ≤ last.length → n ≤ left + cs.flatten.length →
      (advance last left n cs).seen.length = left + cs.flatten.length - n ∧
        (advance last left n cs).left ≤ (advance last left n cs).last.length := by
  induction cs with
  | nil =>
    intro last left n hl hn
    simp only [List.flatten_nil, List.length_nil] at hn
    simp only [advance, seen, List.length_append, List.length_take, List.flatten_nil,
      List.length_nil]
    omega
  | cons c cs ih =>
    intro last left n hl hn
    by_cases hle : n ≤ left
    · rw [advance_le hle]
      simp only [seen, List.length_append, List.length_take]
      omega
    · rw [List.flatten_cons, List.length_append] at hn ⊢
      rw [advance, if_neg hle]
      obtain ⟨h1, h2⟩ := ih c c.length (n - left) (Nat.le_refl _) (by omega)
      exact ⟨by rw [h1]; omega, h2⟩

/-- Passing exactly the bytes of some reads. -/
theorem advance_reads (cs rest : List (List Byte)) (hcs : ∀ x ∈ cs, x ≠ []) :
    ∀ (last : List Byte) (left : ℕ),
      ∃ last', advance last left (left + cs.flatten.length) (cs ++ rest) = ⟨last', 0, rest⟩ := by
  induction cs with
  | nil =>
    intro last left
    refine ⟨last, ?_⟩
    rw [List.flatten_nil, List.length_nil, Nat.add_zero, advance_le (Nat.le_refl _), Nat.sub_self,
      List.nil_append]
  | cons c cs ih =>
    intro last left
    have hc : 0 < c.length := List.length_pos_iff.mpr (hcs c List.mem_cons_self)
    obtain ⟨last', h⟩ := ih (fun x hx => hcs x (List.mem_cons_of_mem _ hx)) c c.length
    refine ⟨last', ?_⟩
    rw [List.flatten_cons, List.length_append, List.cons_append, advance, if_neg (by omega),
      Nat.add_sub_cancel_left]
    exact h

/-- **When every frame ends a read**, every frame is seen right: `css` are the reads of
each frame. -/
theorem seesFrames_of_ends (css : List (List (List Byte)))
    (hcss : ∀ cs ∈ css, ∀ x ∈ cs, x ≠ []) :
    ∀ last : List Byte, SeesFrames (css.map List.flatten) ⟨last, 0, css.flatten⟩ := by
  induction css with
  | nil => intro _; trivial
  | cons cs css ih =>
    intro last
    constructor
    · simp only [seen, List.take_zero, List.nil_append, List.flatten_cons, List.flatten_append]
      rw [List.take_left' rfl]
    · obtain ⟨last', h⟩ := advance_reads cs css.flatten (hcss cs List.mem_cons_self) last 0
      rw [Nat.zero_add] at h
      simp only [List.flatten_cons, h]
      exact ih (fun cs hcs => hcss cs (List.mem_cons_of_mem _ hcs)) last'

end ReadPos

namespace SyncConnector

open ReadPos

variable {c : SyncConnector}

/-- **The connector between two calls of `Recv`**, at the position `r`. -/
structure At (c : SyncConnector) (r : ReadPos) : Prop where
  flag : c._flag = .start
  readsize : c._readsize = r.left
  readbuf : c._readbuf.take r.left = r.last.take r.left
  left_le : r.left ≤ r.last.length
  last_le : r.last.length ≤ socketReadSize
  rest : Reads r.rest
  wf : c._reader.msgbuffer.WF
  header : c._reader.curheader.size = 0

theorem connected_at {cs : List (List Byte)} (hcs : Reads cs) : connected.At ⟨[], 0, cs⟩ :=
  ⟨rfl, rfl, rfl, Nat.le_refl _, Nat.zero_le _, hcs, Buffer.new_wf, rfl⟩

/-- A complete frame is found by the loop of `Recv`. -/
theorem recvLoop_frame (cs : List (List Byte)) (hcs : Reads cs) :
    ∀ (c : SyncConnector) (tail p last : List Byte) (n : ℕ), c._flag = .start →
      Holds limit c._reader tail → nextFrame limit (tail ++ cs.flatten) = .frame p n →
      tail.length < n →
      ∃ b c', c.recvLoop (cs.map .data) =
          some (some b, c', (advance last 0 (n - tail.length) cs).rest.map .data) ∧
        b.WF ∧ b.unread = p ∧ c'.At (advance last 0 (n - tail.length) cs) := by
  induction cs with
  | nil =>
    intro c tail p last n _ _ hn hlt
    have := (nextFrame_frame hn).2.2
    simp only [List.flatten_nil, List.append_nil] at this
    omega
  | cons x cs ih =>
    intro c tail p last n hf hr hn hlt
    have hx := hcs.size_lt List.mem_cons_self
    obtain ⟨hne, hxl⟩ := hcs x List.mem_cons_self
    have hcs' : Reads cs := fun y hy => hcs y (List.mem_cons_of_mem _ hy)
    have hz : ¬ (c.recvSome (.data x))._readsize = 0 := fun h => hne (List.length_eq_zero_iff.mp h)
    rw [List.flatten_cons, ← List.append_assoc] at hn
    have hadv : advance last 0 (n - tail.length) (x :: cs) =
        advance x x.length (n - tail.length) cs := by
      rw [advance, if_neg (by omega), Nat.sub_zero]
    rw [List.map_cons, recvLoop, hadv]
    simp only [if_neg hz]
    obtain ⟨c₁, hf₁, hb₁, hcut⟩ := cut_spec (c := c.recvSome (.data x)) hr
      (by rw [recvSome_take]; exact hx)
    rw [recvSome_take] at hcut
    rcases hcut with ⟨hm, hc, hr'⟩ | ⟨p', n', hn', hc, hw, hp, hs, hleft⟩ | ⟨hrej, -⟩
    · -- the frame goes on after this read
      have hlt' := nextFrame_more_lt hm hn
      have hla : (tail ++ x).length = tail.length + x.length := List.length_append
      obtain ⟨b, c', h1, h2, h3, h4⟩ := ih hcs' c₁ (tail ++ x) p x n (hf₁.trans hf) hr' hn hlt'
      rw [hc, advance_gt (by omega), Nat.sub_sub, ← hla]
      exact ⟨b, c', h1, h2, h3, h4⟩
    · -- it ends in this read
      have hn'' := (frames limit).frame_append cs.flatten hn'
      rw [frames_next, hn] at hn''
      obtain ⟨rfl, rfl⟩ : p = p' ∧ n = n' := by simpa using hn''
      have hle := (nextFrame_frame hn').2.2
      rw [List.length_append] at hle hleft
      rw [hc, advance_le (by omega)]
      refine ⟨_, c₁, rfl, hw, hp, hf₁.trans hf, ?_, ?_, ?_, hxl, hcs', hw, hs⟩
      · rw [hleft]; change _ = x.length - (n - tail.length); omega
      · have hk := congrArg (List.take (x.length - (n - tail.length)))
          (recvSome_take (c := c) (b := x))
        rw [List.take_take, show (c.recvSome (.data x))._readsize = x.length from rfl,
          Nat.min_eq_left (Nat.sub_le _ _)] at hk
        rw [hb₁]
        exact hk
      · exact Nat.sub_le _ _
    · -- no over-long header begins a frame
      have hrej' := (frames limit).reject_append cs.flatten hrej
      rw [frames_next, hn] at hrej'
      cases hrej'

/-- The reader at the start of a call. -/
theorem At.cleared {r : ReadPos} (h : c.At r) :
    Holds limit c.clearRcvbuffer._reader [] := by
  have hc : Holds limit ⟨c._reader.msgbuffer.clear, ⟨c._reader.curheader.timestamp, 0⟩⟩ [] :=
    Holds.cleared h.wf _
  rwa [← h.header] at hc

theorem At.take_length {r : ReadPos} (h : c.At r) :
    (r.last.take r.left).length = r.left := by
  rw [List.length_take]; exact Nat.min_eq_left h.left_le

theorem At.shown {r : ReadPos} (h : c.At r) :
    c.clearRcvbuffer._readbuf.take c.clearRcvbuffer._readsize = r.last.take r.left := by
  change c._readbuf.take c._readsize = _
  rw [h.readsize, h.readbuf]

theorem At.recv_eq {r : ReadPos} (h : c.At r) (rs : List RecvSome) :
    c.recv rs =
      if r.left > 0 then
        match c.clearRcvbuffer._cutMsgPack with
        | (true, c) => some (some c._reader.msgbuffer, c, rs)
        | (false, c) => c.recvLoop rs
      else c.clearRcvbuffer.recvLoop rs := by
  have hflag : ¬ c._flag ≠ .start := by rw [h.flag]; decide
  rw [recv, if_neg hflag, ← h.readsize]
  rfl

theorem At.size_lt {r : ReadPos} (h : c.At r) :
    (r.last.take r.left).length + socketPackSize < 2 ^ 32 := by
  have h1 := h.take_length
  have h2 := h.left_le
  have h3 := h.last_le
  simp only [socketReadSize, socketPackSize] at *; omega

/-- **A call of `Recv` on a complete frame** returns its payload and is then past it. -/
theorem recv_frame {r : ReadPos} (h : c.At r) {p : List Byte} {n : ℕ}
    (hn : nextFrame limit r.seen = .frame p n) :
    ∃ b c', c.recv (r.rest.map .data) =
        some (some b, c', (advance r.last r.left n r.rest).rest.map .data) ∧
      b.WF ∧ b.unread = p ∧ c'.At (advance r.last r.left n r.rest) := by
  have hpos : 0 < n := ((frames limit).frame_pos hn).1
  rw [h.recv_eq]
  rw [seen] at hn
  by_cases hleft : r.left > 0
  · rw [if_pos hleft]
    obtain ⟨c₁, hf₁, hb₁, hcut⟩ := cut_spec (c := c.clearRcvbuffer) h.cleared
      (by rw [h.shown]; exact h.size_lt)
    rw [h.shown, List.nil_append] at hcut
    rcases hcut with ⟨hm, hc, hr'⟩ | ⟨p', n', hn', hc, hw, hp, hs, hl⟩ | ⟨hrej, -⟩
    · -- the frame goes on in the reads to come
      have hlt := nextFrame_more_lt hm hn
      have hla := h.take_length
      obtain ⟨b, c', h1, h2, h3, h4⟩ := recvLoop_frame r.rest h.rest c₁ _ p r.last n
        (hf₁.trans h.flag) hr' hn hlt
      rw [hla] at h1 h4 hlt
      rw [hc, advance_gt hlt]
      exact ⟨b, c', h1, h2, h3, h4⟩
    · -- it is complete in what the last read seems to have left
      have hn'' := (frames limit).frame_append r.rest.flatten hn'
      rw [frames_next, hn] at hn''
      obtain ⟨rfl, rfl⟩ : p = p' ∧ n = n' := by simpa using hn''
      have hle := (nextFrame_frame hn').2.2
      rw [h.take_length] at hle hl
      rw [hc, advance_le hle]
      refine ⟨_, c₁, rfl, hw, hp, hf₁.trans h.flag, hl, ?_, ?_, h.last_le, h.rest, hw, hs⟩
      · have hrb := congrArg (List.take (r.left - n)) h.readbuf
        rw [List.take_take, List.take_take, Nat.min_eq_left (Nat.sub_le _ _)] at hrb
        rw [hb₁]
        exact hrb
      · exact Nat.le_trans (Nat.sub_le _ _) h.left_le
    · have hrej' := (frames limit).reject_append r.rest.flatten hrej
      rw [frames_next, hn] at hrej'
      cases hrej'
  · -- nothing is left of the last read
    have h0 : r.left = 0 := by omega
    rw [h0, List.take_zero, List.nil_append] at hn
    obtain ⟨b, c', h1, h2, h3, h4⟩ := recvLoop_frame r.rest h.rest c.clearRcvbuffer [] p r.last n h.flag h.cleared
      hn hpos
    rw [if_neg hleft, h0]
    exact ⟨b, c', h1, h2, h3, h4⟩

/-- **A call of `Recv` that returns a buffer** returns one of the size seen. -/
theorem recv_size {r : ReadPos} (h : c.At r) (h8 : hdrlen ≤ r.seen.length) {b : Buffer}
    {c' : SyncConnector} {rs' : List RecvSome}
    (hb : c.recv (r.rest.map .data) = some (some b, c', rs')) : b.length = frameSize r.seen := by
  rw [h.recv_eq] at hb
  rw [seen] at h8 ⊢
  by_cases hleft : r.left > 0
  · rw [if_pos hleft] at hb
    obtain ⟨c₁, -, -, hcut⟩ := cut_spec (c := c.clearRcvbuffer) h.cleared
      (by rw [h.shown]; exact h.size_lt)
    rw [h.shown, List.nil_append] at hcut
    rcases hcut with ⟨-, hc, hr'⟩ | ⟨p, n, hn, hc, hw, hp, -⟩ | ⟨hrej, hc, _, hover, -⟩
    · rw [hc] at hb
      exact recvLoop_size r.rest h.rest c₁ _ hr' h8 b c' rs' hb
    · rw [hc] at hb
      simp only [Option.some.injEq, Prod.mk.injEq] at hb
      obtain ⟨hp', hn', hle⟩ := nextFrame_frame hn
      have hfs := frameSize_append (show hdrlen ≤ (r.last.take r.left).length by omega)
        r.rest.flatten
      rw [hfs, ← hb.1, ← hw.unread_length, hp, hp', List.length_take, List.length_drop]
      omega
    · rw [hc] at hb
      obtain ⟨hle, hbig⟩ := nextFrame_reject hrej
      have hs := hover.size
      rw [frameSize_append hle, ← hs]
      exact recvLoop_over r.rest c₁ (by rw [hs]; omega) (by rw [hs]; exact frameSize_lt _) b c' rs' hb
  · rw [if_neg hleft] at hb
    have h0 : r.left = 0 := by omega
    rw [h0, List.take_zero, List.nil_append] at h8 ⊢
    exact recvLoop_size r.rest h.rest c.clearRcvbuffer [] h.cleared h8 b c' rs' hb

/-! ## One frame and no more -/

/-- **The connector when no byte is left over.** -/
structure Idle (c : SyncConnector) : Prop where
  flag : c._flag = .start
  readsize : c._readsize = 0
  wf : c._reader.msgbuffer.WF
  header : c._reader.curheader.size = 0

theorem connected_idle : connected.Idle := ⟨rfl, rfl, Buffer.new_wf, rfl⟩

/-- The header of a frame is read, and `acc` of its payload. -/
structure Body (r : ReaderInfo) (size : ℕ) (acc : List Byte) : Prop where
  wf : r.msgbuffer.WF
  offset : r.msgbuffer._offset = hdrlen
  header : r.curheader.size = size
  size_le : size ≤ socketPackSize
  unread : r.msgbuffer.unread = acc
  lt : acc.length < size

/-- A read that holds no more than the rest of the payload is kept, or completes it. -/
theorem cut_body {size : ℕ} {acc x : List Byte} (hb : Body c._reader size acc)
    (hx : c._readbuf.take c._readsize = x) (hle : acc.length + x.length ≤ size) :
    ∃ c', c'._flag = c._flag ∧
      ((c._cutMsgPack = (false, c') ∧ Body c'._reader size (acc ++ x)) ∨
        (acc.length + x.length = size ∧ c._cutMsgPack = (true, c') ∧
          c'._reader.msgbuffer.WF ∧ c'._reader.msgbuffer.unread = acc ++ x ∧
          c'._reader.curheader.size = 0 ∧ c'._readsize = 0)) := by
  have hlt0 := hb.lt
  have hsmall := hb.size_le
  have hne : ¬ c._reader.curheader.size = 0 := by
    rw [hb.header]
    omega
  have he : c._reader.header limit x = .ready c._reader x := by
    simp only [ReaderInfo.header, if_neg hne]
  have hlen : c._reader.msgbuffer.length = acc.length := by rw [← hb.wf.unread_length, hb.unread]
  have hpos := wf_pos hb.wf
  rw [hb.offset, hb.unread] at hpos
  have hroom : c._reader.msgbuffer._pos + x.length + bufferDefaultSize < 2 ^ 32 := by
    simp only [hdrlen, socketPackSize, bufferDefaultSize] at *
    omega
  have hsum : u32 (x.length + acc.length) = x.length + acc.length :=
    u32_of_lt (by simp only [socketPackSize] at hsmall; omega)
  obtain ⟨hw, -, -, ho⟩ := hb.wf.write (Nat.le_refl x.length) hroom
  have hun : (c._reader.msgbuffer.write x x.length).unread = acc ++ x := by
    rw [hb.wf.write_unread (Nat.le_refl _) hroom, hb.unread, List.take_length]
  by_cases hlt : x.length + acc.length < size
  · refine ⟨{ c with
      _readsize := x.length
      _reader := { c._reader with msgbuffer := c._reader.msgbuffer.write x x.length } }, rfl,
      .inl ⟨?_, hw, ho.trans hb.offset, hb.header, hsmall, hun, ?_⟩⟩
    · simp only [_cutMsgPack, hx, he, hlen, hsum, hb.header, if_pos hlt]
    · rw [List.length_append]
      omega
  · have hn : toU32 ((size : ℤ) - acc.length) = x.length := by
      rw [toU32_of_lt (by omega) (by simp only [socketPackSize] at hsmall; omega)]
      omega
    refine ⟨{ c with
      _readsize := (x.drop x.length).length
      _reader := ⟨c._reader.msgbuffer.write x x.length, { c._reader.curheader with size := 0 }⟩ },
      rfl, .inr ⟨by omega, ?_, hw, hun, rfl, ?_⟩⟩
    · simp only [_cutMsgPack, hx, he, hlen, hsum, hb.header, if_neg hlt, hn]
    · rw [List.drop_length]
      rfl

/-- What a loop that returns a buffer has done first. -/
theorem recvLoop_some {x : RecvSome} {rs rs' : List RecvSome} {b : Buffer} {c' : SyncConnector}
    (h : c.recvLoop (x :: rs) = some (some b, c', rs')) : ∃ bytes, x = .data bytes ∧
      ((∃ c₁, (c.recvSome (.data bytes))._cutMsgPack = (false, c₁) ∧
          c₁.recvLoop rs = some (some b, c', rs')) ∨
        (c.recvSome (.data bytes))._cutMsgPack = (true, c') ∧ b = c'._reader.msgbuffer ∧
          rs' = rs) := by
  cases x with
  | fail ret => cases h
  | data bytes =>
    refine ⟨bytes, rfl, ?_⟩
    simp only [recvLoop] at h
    split at h
    · cases h
    · split at h
      · rename_i c₁ hcut
        cases h
        exact .inr ⟨hcut, rfl, rfl⟩
      · rename_i c₁ hcut
        exact .inl ⟨c₁, hcut, h⟩

/-- The loop of `Recv` in a payload, on reads that hold no more than its rest: a buffer that is
returned holds the payload. -/
theorem recvLoop_body {size : ℕ} (rs : List RecvSome) : ∀ {c : SyncConnector} {acc : List Byte},
    c._flag = .start → Body c._reader size acc →
    acc.length + (rs.flatMap RecvSome.bytes).length ≤ size →
    ∀ {b : Buffer} {c' : SyncConnector}, c.recvLoop rs = some (some b, c', []) →
      b.unread = acc ++ rs.flatMap RecvSome.bytes ∧
        acc.length + (rs.flatMap RecvSome.bytes).length = size ∧
        b = c'._reader.msgbuffer ∧ c'.Idle := by
  induction rs with
  | nil =>
    intro c acc _ _ _ b c' h
    cases h
  | cons x rs ih =>
    intro c acc hf hb hle b c' h
    obtain ⟨bytes, rfl, hstep⟩ := recvLoop_some h
    rw [List.flatMap_cons, RecvSome.bytes, List.length_append] at hle ⊢
    obtain ⟨c₁, hf₁, hcut⟩ := cut_body (c := c.recvSome (.data bytes)) hb recvSome_take (by omega)
    rcases hcut with ⟨hcut, hb₁⟩ | ⟨hfull, hcut, hw, hun, hz, hrs⟩
    · -- the payload goes on
      rcases hstep with ⟨c₂, hc₂, hloop⟩ | ⟨hc₂, -⟩
      · rw [hcut] at hc₂
        cases hc₂
        have := ih (hf₁.trans hf) hb₁ (by rw [List.length_append]; omega) hloop
        rw [List.append_assoc, List.length_append] at this
        exact ⟨this.1, by omega, this.2.2⟩
      · rw [hcut] at hc₂
        cases hc₂
    · rcases hstep with ⟨c₂, hc₂, -⟩ | ⟨hc₂, rfl, rfl⟩
      · rw [hcut] at hc₂
        cases hc₂
      · rw [hcut] at hc₂
        cases hc₂
        rw [List.flatMap_nil, List.append_nil, List.length_nil]
        exact ⟨hun, by omega, rfl, hf₁.trans hf, hrs, hw, hz⟩

theorem nextFrame_whole (timestamp : ℕ) {payload : List Byte}
    (hp : payload.length ≤ socketPackSize) :
    nextFrame payload.length (encodeFrame timestamp payload) =
      .frame payload (encodeFrame timestamp payload).length := by
  have h32 : payload.length < 2 ^ 32 := by
    simp only [socketPackSize] at hp
    omega
  have happ : nextFrame payload.length (encodeFrame timestamp payload ++ []) = _ :=
    nextFrame_encode (Nat.le_refl _) h32 []
  rw [List.append_nil] at happ
  exact happ

/-- The frame found in a beginning of one encoded frame is that one, and the beginning is all. -/
theorem frame_of_prefix {timestamp n : ℕ} {payload s more p : List Byte}
    (hp : payload.length ≤ socketPackSize) (hn : nextFrame limit s = .frame p n)
    (hmore : s ++ more = encodeFrame timestamp payload) :
    p = payload ∧ n = s.length ∧ more = [] := by
  have hfirst := (frames limit).frame_append more hn
  rw [frames_next, hmore] at hfirst
  obtain ⟨hpay, hlen, -⟩ := nextFrame_frame (nextFrame_whole timestamp hp)
  obtain ⟨hp', hn', -⟩ := nextFrame_frame hfirst
  have hle := (nextFrame_frame hn).2.2
  have htotal := congrArg List.length hmore
  rw [List.length_append] at htotal
  exact ⟨hp'.trans hpay.symm, by omega, List.length_eq_zero_iff.mp (by omega)⟩

/-- After a header over the limit, at the end of a read, the loop takes the payload in the reads to
come. -/
theorem recvLoop_rejected {timestamp : ℕ} {payload s more buf : List Byte}
    (hp : payload.length ≤ socketPackSize) (rs : List RecvSome) (hf : c._flag = .start)
    (hn : nextFrame limit s = .reject) (hr : Ready (frameSize s) c._reader s buf)
    (hnil : c._reader.msgbuffer.unread = [])
    (hmore : s ++ (rs.flatMap RecvSome.bytes ++ more) = encodeFrame timestamp payload) {b : Buffer}
    {c' : SyncConnector} (h : c.recvLoop rs = some (some b, c', [])) :
    b.unread = payload ∧ more = [] ∧ b = c'._reader.msgbuffer ∧ c'.Idle := by
  obtain ⟨hpay, hsize, -⟩ := nextFrame_frame (nextFrame_whole timestamp hp)
  have hlen := encodeFrame_length timestamp payload
  obtain ⟨h8, hbig⟩ := nextFrame_reject hn
  have hfs := frameSize_append h8 (rs.flatMap RecvSome.bytes ++ more)
  rw [hmore] at hfs
  have htotal := congrArg List.length hmore
  rw [List.length_append, List.length_append] at htotal
  have hbody : Body c._reader payload.length [] :=
    ⟨hr.wf, hr.offset, by rw [hr.size]; omega, hp, hnil, by
      rw [List.length_nil]
      omega⟩
  obtain ⟨hun, hall, hb, hidle⟩ := recvLoop_body rs hf hbody (by rw [List.length_nil]; omega) h
  rw [List.length_nil] at hall
  obtain rfl : more = [] := List.length_eq_zero_iff.mp (by omega)
  rw [List.append_nil] at hmore
  refine ⟨?_, rfl, hb, hidle⟩
  -- the header has ended a read
  have hdrop : (encodeFrame timestamp payload).drop hdrlen = rs.flatMap RecvSome.bytes := by
    rw [← hmore]
    exact List.drop_left' (by omega)
  rw [hun, List.nil_append, ← hdrop]
  refine (List.take_of_length_le ?_).symm.trans hpay.symm
  rw [List.length_drop]
  omega

/-- **The loop of `Recv` on the bytes of one frame**, of any size that a socket sends: a buffer
that is returned holds its payload, and no byte is left over. -/
theorem recvLoop_one {timestamp : ℕ} {payload : List Byte} (hp : payload.length ≤ socketPackSize)
    (rs : List RecvSome) : ∀ {c : SyncConnector} {tail : List Byte}, c._flag = .start →
    Holds limit c._reader tail → (∀ x ∈ rs, x.bytes.length ≤ socketReadSize) →
    tail ++ rs.flatMap RecvSome.bytes <+: encodeFrame timestamp payload →
    ∀ {b : Buffer} {c' : SyncConnector}, c.recvLoop rs = some (some b, c', []) →
      b.unread = payload ∧ tail ++ rs.flatMap RecvSome.bytes = encodeFrame timestamp payload ∧
        b = c'._reader.msgbuffer ∧ c'.Idle := by
  induction rs with
  | nil =>
    intro c tail _ _ _ _ b c' h
    cases h
  | cons x rs ih =>
    intro c tail hf hr hsmall hpre b c' h
    obtain ⟨bytes, rfl, hstep⟩ := recvLoop_some h
    rw [List.flatMap_cons, RecvSome.bytes, ← List.append_assoc] at hpre ⊢
    have hbytes : bytes.length + socketPackSize < 2 ^ 32 := by
      have := hsmall _ List.mem_cons_self
      simp only [RecvSome.bytes, socketReadSize, socketPackSize] at *
      omega
    obtain ⟨more, hmore⟩ := hpre
    rw [List.append_assoc] at hmore
    obtain ⟨c₁, hf₁, -, hcut⟩ := cut_spec (c := c.recvSome (.data bytes)) hr
      (by rw [recvSome_take]; exact hbytes)
    rw [recvSome_take] at hcut
    rcases hcut with ⟨-, hcut, hr'⟩ | ⟨p, n, hn, hcut, hw, hun, hz, hrs⟩ |
      ⟨hn, hcut, buf, hover, hnil⟩
    · -- the frame goes on
      rcases hstep with ⟨c₂, hc₂, hloop⟩ | ⟨hc₂, -⟩
      · rw [hcut] at hc₂
        cases hc₂
        exact ih (hf₁.trans hf) hr' (fun y hy => hsmall y (List.mem_cons_of_mem _ hy))
          ⟨more, by rw [List.append_assoc]; exact hmore⟩ hloop
      · rw [hcut] at hc₂
        cases hc₂
    · -- it ends in this read
      rcases hstep with ⟨c₂, hc₂, -⟩ | ⟨hc₂, rfl, rfl⟩
      · rw [hcut] at hc₂
        cases hc₂
      · rw [hcut] at hc₂
        cases hc₂
        rw [List.flatMap_nil, List.nil_append] at hmore
        obtain ⟨rfl, hlen, rfl⟩ := frame_of_prefix hp hn hmore
        rw [List.append_nil] at hmore
        rw [List.flatMap_nil, List.append_nil]
        refine ⟨hun, hmore, rfl, hf₁.trans hf, ?_, hw, hz⟩
        rw [hrs]
        omega
    · -- its size is over the limit: the rest of this read is dropped
      rcases hstep with ⟨c₂, hc₂, hloop⟩ | ⟨hc₂, -⟩
      · rw [hcut] at hc₂
        cases hc₂
        obtain ⟨hun, rfl, hb, hidle⟩ :=
          recvLoop_rejected hp rs (hf₁.trans hf) hn hover hnil hmore hloop
        rw [List.append_nil] at hmore
        exact ⟨hun, hmore, hb, hidle⟩
      · rw [hcut] at hc₂
        cases hc₂

/-- **A call of `Recv`** on at most one frame, when no byte is left over from before. -/
theorem recv_one (h : c.Idle) {timestamp : ℕ} {payload : List Byte}
    (hp : payload.length ≤ socketPackSize) {rs : List RecvSome}
    (hsmall : ∀ x ∈ rs, x.bytes.length ≤ socketReadSize)
    (hpre : rs.flatMap RecvSome.bytes <+: encodeFrame timestamp payload) {b : Buffer}
    {c' : SyncConnector} (hrecv : c.recv rs = some (some b, c', [])) :
    b.unread = payload ∧ rs.flatMap RecvSome.bytes = encodeFrame timestamp payload ∧
      b = c'._reader.msgbuffer ∧ c'.Idle := by
  have hflag : ¬ c._flag ≠ .start := by rw [h.flag]; decide
  have hsize : ¬ c.clearRcvbuffer._readsize > 0 := Nat.not_lt.mpr (Nat.le_of_eq h.readsize)
  rw [recv, if_neg hflag] at hrecv
  simp only [if_neg hsize] at hrecv
  have hcleared : Holds limit c.clearRcvbuffer._reader [] := by
    have hc : Holds limit ⟨c._reader.msgbuffer.clear, ⟨c._reader.curheader.timestamp, 0⟩⟩ [] :=
      Holds.cleared h.wf _
    rwa [← h.header] at hc
  exact recvLoop_one hp rs (c := c.clearRcvbuffer) h.flag hcleared hsmall hpre hrecv

/-! ## Sequences of calls -/

/-- The buffers returned hold the payloads. -/
def Delivers (ps : List (List Byte)) (cs : List (List Byte)) : Prop :=
  ∃ bs, recvs ps.length connected (cs.map .data) = some bs ∧
    List.Forall₂ (fun b p => b.length = p.length ∧ b.unread = p) bs ps

/-- What is seen of a frame decides what is found. -/
theorem nextFrame_seen {s p : List Byte} {timestamp : ℕ} (hp : p.length ≤ limit)
    (hs : hdrlen + p.length ≤ s.length) :
    (s.take (encodeFrame timestamp p).length).drop 4 = (encodeFrame timestamp p).drop 4 ↔
      frameSize s = p.length ∧ (s.drop hdrlen).take p.length = p := by
  have h32 : p.length < 2 ^ 32 := by
    have := limit_le
    simp only [socketPackSize] at this; omega
  have h4 : ((s.drop 4).take 4).length = 4 := by
    simp only [List.length_take, List.length_drop, hdrlen] at *; omega
  have hsplit : (s.take (hdrlen + p.length)).drop 4 =
      (s.drop 4).take 4 ++ (s.drop hdrlen).take p.length := by
    rw [List.drop_take, show hdrlen + p.length - 4 = 4 + p.length by simp only [hdrlen]; omega,
      List.take_add, List.drop_drop]
    rfl
  rw [encodeFrame_length, hsplit, encodeFrame_drop]
  constructor
  · intro h
    obtain ⟨h1, h2⟩ := List.append_inj h (by rw [h4, be32_length])
    exact ⟨by rw [frameSize, h1, ofBe32_be32 h32], h2⟩
  · rintro ⟨h1, h2⟩
    rw [h2, ← h1, frameSize, be32_ofBe32 h4]

/-- **A call of `Recv` that returns a payload** has seen its frame right, and is past it. -/
theorem recv_payload {r : ReadPos} (h : c.At r) (timestamp : ℕ) {p : List Byte}
    (hp : p.length ≤ limit) (hlen : hdrlen + p.length ≤ r.seen.length) {b : Buffer}
    {c' : SyncConnector} {rs' : List RecvSome}
    (hr : c.recv (r.rest.map .data) = some (some b, c', rs'))
    (hbl : b.length = p.length) (hbu : b.unread = p) :
    (r.seen.take (encodeFrame timestamp p).length).drop 4 = (encodeFrame timestamp p).drop 4 ∧
      c'.At (advance r.last r.left (encodeFrame timestamp p).length r.rest) ∧
      rs' = (advance r.last r.left (encodeFrame timestamp p).length r.rest).rest.map .data := by
  -- a buffer of the right length fixes the size that was seen
  have hsz := recv_size h (by omega) hr
  have hfs : frameSize r.seen = p.length := hsz.symm.trans hbl
  have hn : nextFrame limit r.seen =
      .frame ((r.seen.drop hdrlen).take p.length) (encodeFrame timestamp p).length := by
    rw [nextFrame, hfs, if_neg (by omega), if_neg (by omega), if_neg (by omega),
      encodeFrame_length]
  obtain ⟨b', c'', h1, -, h3, h4⟩ := recv_frame h hn
  rw [hr] at h1
  simp only [Option.some.injEq, Prod.mk.injEq] at h1
  obtain ⟨rfl, rfl, rfl⟩ := h1
  exact ⟨(nextFrame_seen hp hlen).mpr ⟨hfs, h3.symm.trans hbu⟩, h4, rfl⟩

theorem recvs_at (fs : List (ℕ × List Byte)) (hfs : ∀ f ∈ fs, f.2.length ≤ limit) :
    ∀ (c : SyncConnector) (r : ReadPos), c.At r →
      (fs.flatMap fun f => encodeFrame f.1 f.2).length ≤ r.seen.length →
      ((∃ bs, recvs fs.length c (r.rest.map .data) = some bs ∧
          List.Forall₂ (fun b p => b.length = p.length ∧ b.unread = p) bs (fs.map Prod.snd)) ↔
        SeesFrames (fs.map fun f => encodeFrame f.1 f.2) r) := by
  induction fs with
  | nil =>
    intro c r _ _
    exact ⟨fun _ => trivial, fun _ => ⟨[], rfl, .nil⟩⟩
  | cons f fs ih =>
    intro c r h hlen
    obtain ⟨t, p⟩ := f
    have hp : p.length ≤ limit := hfs (t, p) List.mem_cons_self
    specialize ih fun g hg => hfs g (List.mem_cons_of_mem _ hg)
    rw [List.flatMap_cons, List.length_append, encodeFrame_length] at hlen
    change hdrlen + p.length + _ ≤ _ at hlen
    have hseen : (r.seen.take (encodeFrame t p).length).drop 4 = (encodeFrame t p).drop 4 ↔
        frameSize r.seen = p.length ∧ (r.seen.drop hdrlen).take p.length = p :=
      nextFrame_seen hp (by omega)
    have hn : frameSize r.seen = p.length → nextFrame limit r.seen =
        .frame ((r.seen.drop hdrlen).take p.length) (encodeFrame t p).length := by
      intro hsz
      rw [nextFrame, hsz, if_neg (by omega), if_neg (by omega), if_neg (by omega), encodeFrame_length]
    -- the bytes seen after this frame
    have hrest : (fs.flatMap fun f => encodeFrame f.1 f.2).length ≤
        (advance r.last r.left (encodeFrame t p).length r.rest).seen.length := by
      have hsl : r.seen.length = r.left + r.rest.flatten.length := by
        rw [seen, List.length_append, h.take_length]
      rw [(seen_advance r.rest r.last r.left _ h.left_le
        (by rw [encodeFrame_length]; omega)).1, encodeFrame_length]
      omega
    constructor
    · rintro ⟨bs, hbs, hall⟩
      simp only [List.length_cons, recvs] at hbs
      rcases hr : c.recv (r.rest.map .data) with _ | ⟨_ | b, c', rs'⟩
      · rw [hr] at hbs; cases hbs
      · rw [hr] at hbs; cases hbs
      · rw [hr] at hbs
        rcases hrs : recvs fs.length c' rs' with _ | bs'
        · simp [hrs] at hbs
        · simp only [Option.bind_eq_bind, Option.bind_some, hrs, Option.pure_def,
            Option.some.injEq] at hbs
          subst hbs
          rw [List.map_cons, List.forall₂_cons] at hall
          obtain ⟨⟨hbl, hbu⟩, hall'⟩ := hall
          obtain ⟨hf, h4, rfl⟩ := recv_payload h t hp (by omega) hr hbl hbu
          exact ⟨hf, (ih c' _ h4 hrest).mp ⟨bs', hrs, hall'⟩⟩
    · rintro ⟨hf, hsees⟩
      obtain ⟨hsz, hpay⟩ := hseen.mp hf
      obtain ⟨b, c', h1, h2, h3, h4⟩ := recv_frame h (hn hsz)
      obtain ⟨bs', hrs, hall'⟩ := (ih c' _ h4 hrest).mpr hsees
      refine ⟨b :: bs', ?_, .cons ⟨?_, h3.trans hpay⟩ hall'⟩
      · simp only [List.length_cons, recvs, h1, Option.bind_eq_bind, Option.bind_some, hrs,
          Option.pure_def]
      · rw [← h2.unread_length, h3, hpay]

/-- **What the connector delivers.** Frames with payloads of 1 to 65527 bytes arrive, and
perhaps more bytes after them, cut into reads in any way. The stream reader delivers
their payloads from these bytes; the calls of `Recv` return them exactly when every
frame is seen right. -/
theorem recvs_iff (fs : List (ℕ × List Byte)) (hfs : ∀ f ∈ fs, 1 ≤ f.2.length ∧ f.2.length ≤ limit)
    (cs : List (List Byte)) (hcs : Reads cs) (more : List Byte)
    (hstream : cs.flatten = (fs.flatMap fun f => encodeFrame f.1 f.2) ++ more) :
    ((frames socketPackSize).decode cs.flatten).frames.take fs.length = fs.map Prod.snd ∧
      (Delivers (fs.map Prod.snd) cs ↔
        SeesFrames (fs.map fun f => encodeFrame f.1 f.2) ⟨[], 0, cs⟩) := by
  constructor
  · have hl : ∀ f ∈ fs, f.2.length ≤ socketPackSize ∧ f.2.length < 2 ^ 32 := by
      intro f hf
      have h1 := (hfs f hf).2
      have h2 := limit_le
      exact ⟨by omega, by simp only [socketPackSize] at h2; omega⟩
    rw [hstream, decode_encodeFrames fs hl, List.take_left' (List.length_map _)]
  · have := recvs_at fs (fun f hf => (hfs f hf).2) connected ⟨[], 0, cs⟩ (connected_at hcs)
      (by rw [seen, List.take_nil, List.nil_append, hstream, List.length_append]; omega)
    rw [Delivers, List.length_map]
    exact this

/-- Two frames, each in a read of its own. -/
theorem recvs_iff_two :
    ((frames socketPackSize).decode
        [encodeFrame 0 [1], encodeFrame 0 [2]].flatten).frames.take 2 = [[1], [2]] ∧
      (Delivers [[1], [2]] [encodeFrame 0 [1], encodeFrame 0 [2]] ↔
        SeesFrames [encodeFrame 0 [1], encodeFrame 0 [2]]
          ⟨[], 0, [encodeFrame 0 [1], encodeFrame 0 [2]]⟩) := by
  exact recvs_iff [(0, [1]), (0, [2])] (by decide) [encodeFrame 0 [1], encodeFrame 0 [2]]
    (by unfold Reads; decide) [] rfl

/-- **Two frames in one read**: the second `Recv` returns the first payload again. -/
theorem not_recvs : ¬ Delivers [[1], [2]] [encodeFrame 0 [1] ++ encodeFrame 0 [2]] := by
  have hrecvs : (recvs 2 connected [.data (encodeFrame 0 [1] ++ encodeFrame 0 [2])]).map
      (List.map Buffer.unread) = some [[1], [1]] := by
    decide +kernel
  rintro ⟨bs, hbs, hall⟩
  have hbs' : recvs 2 connected [.data (encodeFrame 0 [1] ++ encodeFrame 0 [2])] = some bs := hbs
  rw [hbs', Option.map_some, Option.some.injEq] at hrecvs
  obtain ⟨b₁, b₂, rfl⟩ : ∃ b₁ b₂, bs = [b₁, b₂] := by
    cases hall with
    | cons _ h => cases h with
      | cons _ h => cases h; exact ⟨_, _, rfl⟩
  simp only [List.forall₂_cons] at hall
  simp only [List.map_cons, List.map_nil, List.cons.injEq, and_true] at hrecvs
  have := hall.2.1.2.symm.trans hrecvs.2
  cases this

end SyncConnector

end Netlib
