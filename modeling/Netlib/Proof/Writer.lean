import Netlib.Spec.Writer
import Netlib.Proof.Header
import Netlib.Lib.Run

/-!
# Nothing sent is lost, and the close is graceful

The invariant `Settled` says when a socket that is not inside a call is consistent:
a posted write covers `msgbuffer1` as it is, a socket without a posted write holds
no bytes, and `_socket->Close` was called exactly when the flag is `close`. Every
function keeps it, and changes the bytes held only at their ends, so in every run
the bytes on the wire and those held are the bytes accepted (`conserves`), and the
close comes after the last of them (`graceful`).
-/

namespace Netlib

open Lib

namespace WriterInfo

/-- The bytes that have not been sent. -/
def held (wr : WriterInfo) : List Byte := wr.msgbuffer1.unread ++ wr.msgbuffer2.content

/-- The two buffers are well formed, nothing was read from `msgbuffer2`, and both
respect the limit. -/
structure Sound (wr : WriterInfo) : Prop where
  wf1 : wr.msgbuffer1.WF
  wf2 : wr.msgbuffer2.WF
  offset2 : wr.msgbuffer2._offset = 0
  le1 : wr.msgbuffer1._pos ≤ maxBufferSize
  le2 : wr.msgbuffer2._pos ≤ maxBufferSize

variable {wr : WriterInfo}

theorem Sound.unread2 (h : wr.Sound) : wr.msgbuffer2.unread = wr.msgbuffer2.content := by
  rw [Buffer.unread, h.offset2, List.drop_zero]

/-- More bytes in `msgbuffer2`, within the limit. -/
theorem Sound.write2 (h : wr.Sound) {src : List Byte} {len : ℕ} (hsrc : len ≤ src.length)
    (hle : wr.msgbuffer2._pos + len ≤ maxBufferSize) :
    Sound { wr with msgbuffer2 := wr.msgbuffer2.write src len } ∧
      held { wr with msgbuffer2 := wr.msgbuffer2.write src len } = wr.held ++ src.take len := by
  have hroom : wr.msgbuffer2._pos + len + bufferDefaultSize < 2 ^ 32 := by
    simp only [maxBufferSize, bufferDefaultSize] at hle ⊢; omega
  obtain ⟨hw, hc, hp, ho⟩ := h.wf2.write hsrc hroom
  refine ⟨⟨h.wf1, hw, ho.trans h.offset2, h.le1, ?_⟩, ?_⟩
  · change (wr.msgbuffer2.write src len)._pos ≤ _
    rw [hp]; exact hle
  · simp only [held, hc, List.append_assoc]

/-- A completed write takes its bytes from the front. -/
theorem Sound.cut1 (h : wr.Sound) {n : ℕ} (hn : n ≤ wr.msgbuffer1.length) :
    Sound { wr with msgbuffer1 := wr.msgbuffer1.cutData n } ∧
      wr.msgbuffer1.data.take n ++ held { wr with msgbuffer1 := wr.msgbuffer1.cutData n } =
        wr.held := by
  obtain ⟨he, hw⟩ := h.wf1.cutData hn
  refine ⟨⟨hw, h.wf2, h.offset2, ?_, h.le2⟩, ?_⟩
  · change (wr.msgbuffer1.cutData n)._pos ≤ _
    rw [he]; exact h.le1
  · have hd : wr.msgbuffer1.data.take n = wr.msgbuffer1.unread.take n := by
      rw [← h.wf1.data_take, List.take_take, Nat.min_eq_left hn]
    simp only [held, he, Buffer.unread_offset, hd]
    rw [← List.append_assoc, List.take_append_drop]

end WriterInfo

namespace TcpBaseSocket

open WriterInfo

variable {s : TcpBaseSocket}

/-- The posted write covers `msgbuffer1`, a socket without one holds nothing, and the
close was called once or not at all. -/
structure Balanced (s : TcpBaseSocket) : Prop where
  sound : s._writer.Sound
  busy : s._writer.writing = true → s._socket.posted = some s._writer.msgbuffer1
  idle : s._writer.writing = false → s._socket.posted = none ∧ s._writer.held = []
  open_ : s._flag ≠ .close → s._socket.closes = []
  closed : s._flag = .close → s._writer.writing = false ∧ s._socket.closes = [s._writer]

/-- **The socket between two calls**: it stops only while a write is posted. -/
structure Settled (s : TcpBaseSocket) : Prop extends Balanced s where
  stop : s._flag = .stop → s._writer.writing = true

theorem connected_settled : connected.Settled := by
  refine ⟨⟨⟨Buffer.new_wf, Buffer.new_wf, rfl, Nat.zero_le _, Nat.zero_le _⟩, ?_, ?_, ?_, ?_⟩, ?_⟩
  · intro h; cases h
  · intro _; exact ⟨rfl, rfl⟩
  · intro _; rfl
  · intro h; cases h
  · intro h; cases h

@[simp] theorem setMsgbuffer2_flag (s : TcpBaseSocket) (b : Buffer) :
    (s.setMsgbuffer2 b)._flag = s._flag := rfl

@[simp] theorem setMsgbuffer2_socket (s : TcpBaseSocket) (b : Buffer) :
    (s.setMsgbuffer2 b)._socket = s._socket := rfl

@[simp] theorem setMsgbuffer2_msgbuffer1 (s : TcpBaseSocket) (b : Buffer) :
    (s.setMsgbuffer2 b)._writer.msgbuffer1 = s._writer.msgbuffer1 := rfl

/-! ## The close -/

theorem Balanced.close (h : s.Balanced) : s._close.Settled := by
  unfold TcpBaseSocket._close
  split
  · -- closed before
    rename_i hf
    exact ⟨h, fun hst => by rw [hf] at hst; cases hst⟩
  · rename_i hf
    split
    · -- a write is posted: its completion will close
      rename_i hw
      refine ⟨⟨h.sound, h.busy, ?_, fun _ => h.open_ hf, ?_⟩, fun _ => hw⟩
      · intro hi; rw [hw] at hi; cases hi
      · intro hc; cases hc
    · -- nothing is posted, so nothing is held
      rename_i hw
      have hw' : s._writer.writing = false := by simpa using hw
      refine ⟨⟨h.sound, h.busy, h.idle, fun hc => absurd rfl hc, ?_⟩, ?_⟩
      · intro _
        refine ⟨hw', ?_⟩
        change s._socket.closes ++ [s._writer] = _
        rw [h.open_ hf, List.nil_append]
      · intro hc; cases hc

@[simp] theorem close_writer (s : TcpBaseSocket) : s._close._writer = s._writer := by
  unfold _close; split_ifs <;> rfl

/-- After `_Close` no `Send` is accepted. -/
theorem close_flag (s : TcpBaseSocket) : s._close._flag ≠ .start := by
  unfold _close
  split_ifs with h1 h2
  · rw [h1]; decide
  · intro h; cases h
  · intro h; cases h

/-- The invariant does not look at the shutdowns. -/
theorem Balanced.shutdown (h : s.Balanced) (rd wr : Bool) :
    Balanced { s with _socket := { s._socket with shutdownRd := rd, shutdownWr := wr } } :=
  ⟨h.sound, h.busy, h.idle, h.open_, h.closed⟩

/-! ## `_TrySendData` -/

theorem swap_spec (h : s._writer.Sound) (h1 : s._writer.msgbuffer1.length = 0) :
    s._swap._writer.Sound ∧ s._swap._writer.held = s._writer.held ∧
      s._swap._writer.msgbuffer2.content = [] := by
  have hnil : s._writer.msgbuffer1.unread = [] := by
    rw [← List.length_eq_zero_iff, h.wf1.unread_length, h1]
  have hspent : ∀ b : Buffer, b.WF → b._pos ≤ maxBufferSize →
      Sound ⟨s._writer.writing, s._writer.msgbuffer2, b.clear⟩ := by
    intro b hb _
    exact ⟨h.wf2, hb.clear, rfl, h.le2, Nat.zero_le _⟩
  refine ⟨?_, ?_, Buffer.clear_content _⟩
  · unfold _swap
    split
    · exact hspent _ Buffer.new_wf (Nat.zero_le _)
    · exact hspent _ h.wf1 h.le1
  · simp only [held, _swap, hnil, h.unread2, Buffer.clear_content, List.append_nil, List.nil_append]

/-- **`_TrySendData`** when no write is posted: it posts the front of the bytes held,
or there are none. -/
theorem trySendData_spec (h : s._writer.Sound) (hw : s._writer.writing = false) :
    ∃ wr, (wr : WriterInfo).Sound ∧ wr.held = s._writer.held ∧ wr.writing = false ∧
      ((s._trySendData false = (true, { s with
          _writer := { wr with writing := true }
          _socket := { s._socket with posted := some wr.msgbuffer1 } })) ∨
        (s._trySendData false = (false, { s with _writer := wr }) ∧ wr.held = [])) := by
  have hnw : ¬ s._writer.writing = true := by rw [hw]; decide
  by_cases h1 : s._writer.msgbuffer1.length = 0
  · -- `msgbuffer1` is spent: `msgbuffer2` takes its place
    obtain ⟨hs, hh, h2⟩ := swap_spec h h1
    refine ⟨s._swap._writer, hs, hh, hw, ?_⟩
    by_cases hpos : s._swap._writer.msgbuffer1.length > 0
    · left
      simp only [_trySendData, if_neg hnw, if_pos h1, if_pos hpos]
      rfl
    · right
      refine ⟨by simp only [_trySendData, if_neg hnw, if_pos h1, if_neg hpos]; rfl, ?_⟩
      have : s._swap._writer.msgbuffer1.unread = [] := by
        rw [← List.length_eq_zero_iff, hs.wf1.unread_length]; omega
      rw [held, this, h2]; rfl
  · -- the rest of `msgbuffer1` goes first
    refine ⟨s._writer, h, rfl, hw, .inl ?_⟩
    have hpos : s._writer.msgbuffer1.length > 0 := by omega
    simp only [_trySendData, if_neg hnw, if_neg h1, if_pos hpos]
    rfl

/-- `_TrySendData` keeps the bytes held and the flag. -/
theorem trySendData_balanced (hs : s._writer.Sound)
    (busy : s._writer.writing = true → s._socket.posted = some s._writer.msgbuffer1)
    (idle : s._writer.writing = false → s._socket.posted = none)
    (hf : s._flag ≠ .close) (hc : s._socket.closes = []) :
    (s._trySendData false).2.Balanced ∧
      (s._trySendData false).2._writer.held = s._writer.held ∧
      (s._trySendData false).2._flag = s._flag ∧
      ((s._trySendData false).1 = true → (s._trySendData false).2._writer.writing = true) := by
  by_cases hw : s._writer.writing = true
  · have he : s._trySendData false = (true, s) := by rw [_trySendData, if_pos hw]
    rw [he]
    refine ⟨⟨hs, busy, ?_, fun _ => hc, fun h => absurd h hf⟩, rfl, rfl, fun _ => hw⟩
    intro hi; rw [hw] at hi; cases hi
  · have hw' : s._writer.writing = false := by simpa using hw
    obtain ⟨wr, hsound, hheld, hwr, he | ⟨he, hnil⟩⟩ := trySendData_spec hs hw'
    · rw [he]
      refine ⟨⟨⟨hsound.wf1, hsound.wf2, hsound.offset2, hsound.le1, hsound.le2⟩, fun _ => rfl, ?_,
        fun _ => hc, fun h => absurd h hf⟩, hheld, rfl, fun _ => rfl⟩
      intro hi; cases hi
    · rw [he]
      refine ⟨⟨hsound, ?_, fun _ => ⟨idle hw', hnil⟩, fun _ => hc, fun h => absurd h hf⟩,
        hheld, rfl, ?_⟩
      · intro hb
        exact absurd (hwr.symm.trans hb) (by decide)
      · intro h; cases h

/-- More bytes in `msgbuffer2`, then `_TrySendData`. -/
theorem Settled.enqueue (h : s.Settled) (hf : s._flag = .start) {b : Buffer} {bytes : List Byte}
    (hs : WriterInfo.Sound { s._writer with msgbuffer2 := b })
    (hb : WriterInfo.held { s._writer with msgbuffer2 := b } = s._writer.held ++ bytes) :
    ((s.setMsgbuffer2 b)._trySendData false).2.Settled ∧
      ((s.setMsgbuffer2 b)._trySendData false).2._writer.held = s._writer.held ++ bytes := by
  have hnc : s._flag ≠ .close := by rw [hf]; decide
  obtain ⟨h1, h2, h3, -⟩ := trySendData_balanced
    (s := s.setMsgbuffer2 b) hs h.busy
    (fun hi => (h.idle hi).1) hnc (h.open_ hnc)
  refine ⟨⟨h1, ?_⟩, h2.trans hb⟩
  intro hst
  have : Flag.stop = Flag.start := hst.symm.trans (h3.trans hf)
  cases this

/-! ## The calls and the handlers -/

/-- **`Send(data, len)`** adds the encoding of the frame when it returns true, and
nothing when it returns false. -/
theorem Settled.send (h : s.Settled) (now : ℕ) (data : List Byte) :
    (s.send now data false).2.Settled ∧
      (s.send now data false).2._writer.held =
        s._writer.held ++ if (s.send now data false).1 then encodeFrame (u32 now) data else [] := by
  have hno : ∀ r, r = (false, s) → r.2.Settled ∧
      r.2._writer.held = s._writer.held ++ if r.1 then encodeFrame (u32 now) data else [] := by
    rintro r rfl
    exact ⟨h, (List.append_nil _).symm⟩
  -- the tests in the order of the source
  by_cases h0 : data.length = 0
  · exact hno _ (by rw [TcpBaseSocket.send, if_pos h0])
  by_cases hbig : data.length > socketPackSize
  · exact hno _ (by rw [TcpBaseSocket.send, if_neg h0, if_pos hbig])
  by_cases hf : s._flag ≠ .start
  · exact hno _ (by rw [TcpBaseSocket.send, if_neg h0, if_neg hbig, if_pos hf])
  have hf' : s._flag = .start := by simpa using hf
  have hu : u32 (s._writer.msgbuffer2.size + (data.length + hdrlen)) =
      s._writer.msgbuffer2._pos + (data.length + hdrlen) := by
    have := h.sound.le2
    exact u32_of_lt (by simp only [Buffer.size, maxBufferSize, socketPackSize, hdrlen] at *; omega)
  by_cases hmax : u32 (s._writer.msgbuffer2.size + (data.length + hdrlen)) > maxBufferSize
  · exact hno _ (by
      rw [TcpBaseSocket.send, if_neg h0, if_neg hbig, if_neg hf]
      exact if_pos hmax)
  have hle : s._writer.msgbuffer2._pos + (data.length + hdrlen) ≤ maxBufferSize := by omega
  -- the header is written, then the payload
  set hdr := (MessageHeader.mk (u32 now) data.length).h2n with hhdr
  have h8 : hdr.bytes.length = hdrlen := rfl
  obtain ⟨hs1, hb1⟩ := h.sound.write2 (Nat.le_of_eq h8.symm) (by omega)
  have hpos : (s._writer.msgbuffer2.write hdr.bytes hdrlen)._pos =
      s._writer.msgbuffer2._pos + hdrlen := by
    have := h.sound.le2
    exact (h.sound.wf2.write (Nat.le_of_eq h8.symm)
      (by simp only [maxBufferSize, bufferDefaultSize, hdrlen] at *; omega)).2.2.1
  obtain ⟨hs2, hb2⟩ := hs1.write2 (Nat.le_refl data.length)
    (by change (s._writer.msgbuffer2.write hdr.bytes hdrlen)._pos + _ ≤ _; omega)
  have hbytes : hdr.bytes.take hdrlen ++ data.take data.length = encodeFrame (u32 now) data := by
    rw [List.take_length, List.take_of_length_le (Nat.le_of_eq h8), hhdr,
      MessageHeader.bytes_h2n, encodeFrame]
  rw [hb1, List.append_assoc, hbytes] at hb2
  obtain ⟨h1, h2⟩ := h.enqueue hf' hs2 hb2
  have he : s.send now data false = (true, ((s.setMsgbuffer2
      ((s._writer.msgbuffer2.write hdr.bytes hdrlen).write data data.length))._trySendData
        false).2) := by
    rw [TcpBaseSocket.send, if_neg h0, if_neg hbig, if_neg hf]
    exact if_neg hmax
  rw [he]
  exact ⟨h1, h2⟩

/-- The size of a buffer that passes the tests of `Send(const Buffer*)`. -/
theorem snd_len_eq {n m : ℕ} (hm : m ≤ maxBufferSize) (hn : n < 2 ^ 32)
    (hmax : ¬ u32 (m + toU32 (toInt32 n)) > maxBufferSize)
    (hfits : ¬ (2 ^ 31 ≤ n ∧ u32 (m + n) ≤ maxBufferSize)) :
    toU32 (toInt32 n) = n ∧ m + n ≤ maxBufferSize := by
  have hu : toU32 (toInt32 n) = n := by
    simp only [toInt32, toU32, u32]
    split_ifs <;> omega
  rw [hu] at hmax
  refine ⟨hu, ?_⟩
  by_cases hneg : 2 ^ 31 ≤ n
  · -- the `int` is negative, and the sum is within the limit only when it wraps
    exact absurd ⟨hneg, by omega⟩ hfits
  · rw [u32_of_lt (by simp only [maxBufferSize] at hm; omega)] at hmax
    omega

/-- **`Send(const Buffer*)`** adds the bytes of the buffer when it returns true. -/
theorem Settled.sendBuffer (h : s.Settled) (b : Option { b : Buffer // b.WF })
    (hfits : ∀ b', b = some b' → ¬ (s._flag = .start ∧ b'.val.length ≠ 0 ∧ 2 ^ 31 ≤ b'.val.size ∧
      u32 (s._writer.msgbuffer2.size + b'.val.size) ≤ maxBufferSize)) :
    (s.sendBuffer (b.map Subtype.val) false).2.Settled ∧
      (s.sendBuffer (b.map Subtype.val) false).2._writer.held = s._writer.held ++
        if (s.sendBuffer (b.map Subtype.val) false).1 then (b.map fun b => b.val.content).getD []
        else [] := by
  have hno : ∀ r, r = (false, s) → r.2.Settled ∧ r.2._writer.held = s._writer.held ++
      if r.1 then (b.map fun b => b.val.content).getD [] else [] := by
    rintro r rfl
    exact ⟨h, (List.append_nil _).symm⟩
  rcases b with _ | b
  · exact hno _ rfl
  have hb := b.property
  specialize hfits b rfl
  change (s.sendBuffer (some b.val) false).2.Settled ∧ _
  by_cases h0 : b.val.length = 0
  · exact hno _ (if_pos h0)
  by_cases hpack : toInt32 b.val.size > socketPackSize
  · exact hno _ ((if_neg h0).trans (if_pos hpack))
  by_cases hf : s._flag ≠ .start
  · exact hno _ ((if_neg h0).trans ((if_neg hpack).trans (if_pos hf)))
  by_cases hmax : u32 (s._writer.msgbuffer2.size + toU32 (toInt32 b.val.size)) > maxBufferSize
  · exact hno _ ((if_neg h0).trans ((if_neg hpack).trans ((if_neg hf).trans (if_pos hmax))))
  have hf' : s._flag = .start := by simpa using hf
  obtain ⟨hlen, hle⟩ := snd_len_eq h.sound.le2 hb.pos_lt hmax
    (fun hbad => hfits ⟨hf', h0, hbad⟩)
  have hraw : b.val._pos ≤ b.val.raw.length := by rw [Buffer.raw, hb.data]; exact hb.pos_le
  obtain ⟨hs1, hb1⟩ := h.sound.write2 hraw hle
  obtain ⟨h1, h2⟩ := h.enqueue hf' hs1 hb1
  have he : s.sendBuffer (some b.val) false = (true, ((s.setMsgbuffer2
      (s._writer.msgbuffer2.write b.val.raw b.val._pos))._trySendData false).2) := by
    rw [← hlen]
    exact (if_neg h0).trans ((if_neg hpack).trans ((if_neg hf).trans (if_neg hmax)))
  change (s.sendBuffer (some b.val) false).2.Settled ∧ (s.sendBuffer (some b.val) false).2._writer.held
    = s._writer.held ++ if (s.sendBuffer (some b.val) false).1 then b.val.content else []
  rw [he]
  exact ⟨h1, h2⟩

/-- The socket when the count of a completed write has been taken off. -/
def _written (s : TcpBaseSocket) (n : ℕ) : TcpBaseSocket :=
  ({ s with _writer := { s._writer with writing := false } } : TcpBaseSocket).setMsgbuffer1
    (s._writer.msgbuffer1.cutData (toInt32 n))

theorem writeHandler_eq (s : TcpBaseSocket) (n : ℕ) (error err : Bool) :
    s._writeHandler n error err =
      if error then ({ s with _writer := { s._writer with writing := false } } : TcpBaseSocket)._close
      else if n = 0 then
        ({ s with _writer := { s._writer with writing := false } } : TcpBaseSocket)._close
      else if !((s._written n)._trySendData err).1 &&
          ((s._written n)._trySendData err).2._flag ≠ .start then
        ({ ((s._written n)._trySendData err).2 with _socket :=
          { ((s._written n)._trySendData err).2._socket with shutdownWr := true } } :
            TcpBaseSocket)._close
      else ((s._written n)._trySendData err).2 := by
  unfold _writeHandler _written
  rfl

/-- With no bytes in either buffer `_TrySendData` posts nothing. -/
theorem trySendData_empty (hw : s._writer.writing = false) (h1 : s._writer.msgbuffer1.length = 0)
    (h2 : s._writer.msgbuffer2.length = 0) (err : Bool) :
    s._trySendData err = (false, s._swap) := by
  have hpos : ¬ s._swap._writer.msgbuffer1.length > 0 := by
    change ¬ s._writer.msgbuffer2.length > 0
    omega
  have hnw : ¬ s._writer.writing = true := by rw [hw]; decide
  simp only [_trySendData, if_neg hnw, if_pos h1, if_neg hpos]

/-- A buffer of at least 2 ^ 31 bytes is accepted when the sum wraps, and then written
over the end of `msgbuffer2`. -/
theorem sendBuffer_wraps (hf : s._flag = .start) (hw : s._writer.writing = true) {b : Buffer}
    (hb : b.WF) (h0 : b.length ≠ 0) (hn : 2 ^ 31 ≤ b._pos)
    (hwrap : u32 (s._writer.msgbuffer2._pos + b._pos) ≤ maxBufferSize) (err : Bool) :
    s.sendBuffer (some b) err =
      (true, s.setMsgbuffer2 (s._writer.msgbuffer2.write b.raw b._pos)) := by
  have hlt := hb.pos_lt
  have hint : toInt32 b._pos = (b._pos : ℤ) - 2 ^ 32 := by
    rw [toInt32, u32_of_lt hlt, if_neg (by omega)]
  have hu : toU32 (toInt32 b._pos) = b._pos := by
    rw [hint, toU32]; omega
  have hpack : ¬ toInt32 b._pos > socketPackSize := by rw [hint]; omega
  have hns : ¬ s._flag ≠ .start := by rw [hf]; decide
  have hmax : ¬ u32 (s._writer.msgbuffer2._pos + b._pos) > maxBufferSize := by omega
  have htry : ∀ b', (s.setMsgbuffer2 b')._trySendData err = (true, s.setMsgbuffer2 b') := by
    intro b'
    exact if_pos hw
  simp only [sendBuffer, Buffer.size, if_neg h0, if_neg hpack, if_neg hns, hu, if_neg hmax, htry]

/-- **A completed write** takes its bytes from the front of those held. -/
theorem Settled.complete (h : s.Settled) {b : Buffer} (hp : s._socket.posted = some b) {n : ℕ}
    (h0 : 0 < n) (hn : n ≤ b.length) :
    ((s.setPosted none)._writeHandler n false false).Settled ∧
      b.data.take n ++ ((s.setPosted none)._writeHandler n false false)._writer.held = s._writer.held := by
  have hw : s._writer.writing = true := by
    by_contra hw
    have := (h.idle (by simpa using hw)).1
    rw [hp] at this; cases this
  -- the posted bytes are those of `msgbuffer1`, as they were posted
  have hb : s._writer.msgbuffer1 = b := Option.some.inj ((h.busy hw).symm.trans hp)
  subst hb
  have hnc : s._flag ≠ .close := by
    intro hc
    have := (h.closed hc).1
    rw [hw] at this; cases this
  obtain ⟨hs, hheld⟩ := h.sound.cut1 hn
  have hint : toInt32 n = n := by
    have h1 := h.sound.le1
    have h2 := h.sound.wf1.length_eq
    have hu : u32 n = n := u32_of_lt (by simp only [maxBufferSize] at h1; omega)
    rw [toInt32, hu, if_pos (by simp only [maxBufferSize] at h1; omega)]
  have hs' : (s.setPosted none)._written n = { s with
      _writer := { s._writer with
        writing := false
        msgbuffer1 := s._writer.msgbuffer1.cutData n }
      _socket := { s._socket with posted := none } } := by
    rw [_written, hint]; rfl
  have hn0 : ¬ n = 0 := by omega
  rw [writeHandler_eq, if_neg Bool.false_ne_true, if_neg hn0, hs']
  set s' : TcpBaseSocket := { s with
    _writer := { s._writer with
      writing := false
      msgbuffer1 := s._writer.msgbuffer1.cutData n }
    _socket := { s._socket with posted := none } }
  obtain ⟨h1, h2, h3, h4⟩ := trySendData_balanced (s := s')
    ⟨hs.wf1, hs.wf2, hs.offset2, hs.le1, hs.le2⟩ (fun hb => by cases hb) (fun _ => rfl) hnc
    (h.open_ hnc)
  split_ifs with hcond
  · -- nothing left and no longer started: the connection is closed
    refine ⟨(h1.shutdown _ true).close, ?_⟩
    rw [close_writer]
    change _ ++ (s'._trySendData false).2._writer.held = _
    rw [h2]; exact hheld
  · refine ⟨⟨h1, fun hst => h4 ?_⟩, by rw [h2]; exact hheld⟩
    by_contra hsent
    apply hcond
    rw [Bool.eq_false_iff.mpr hsent, hst]
    decide

/-- The read handler posts a close or leaves the sending side alone. -/
theorem readHandler_spec (s : TcpBaseSocket) (tran_byte : ℕ) (error cut err : Bool) :
    s._readHandler tran_byte error cut err = s ∨
      ∃ rd, s._readHandler tran_byte error cut err =
        ({ s with _socket := { s._socket with
          shutdownRd := rd, shutdownWr := s._socket.shutdownWr } } : TcpBaseSocket)._close := by
  unfold _readHandler _postClose
  split_ifs
  · exact .inr ⟨s._socket.shutdownRd, rfl⟩
  · exact .inr ⟨s._socket.shutdownRd, rfl⟩
  · exact .inr ⟨s._socket.shutdownRd, rfl⟩
  · exact .inr ⟨s._socket.shutdownRd, rfl⟩
  · exact .inl rfl
  · exact .inr ⟨true, rfl⟩

/-- Once the socket has left `E_STATE_START`, `Send` returns false. -/
theorem send_refused (hf : s._flag ≠ .start) (now : ℕ) (data : List Byte) (err : Bool) :
    s.send now data err = (false, s) := by
  unfold send
  split_ifs <;> rfl

/-- The length of data that `Send` accepts. -/
theorem send_length {now : ℕ} {data : List Byte} {err : Bool} (h : (s.send now data err).1 = true) :
    0 < data.length ∧ data.length ≤ socketPackSize := by
  unfold send at h
  split at h
  · cases h
  split at h
  · cases h
  · rename_i h0 hle
    exact ⟨Nat.pos_of_ne_zero h0, Nat.le_of_not_lt hle⟩

/-- **`Send` accepts** data that fits. -/
theorem send_accepted {data : List Byte} (hf : s._flag = .start) (now : ℕ) (err : Bool)
    (h0 : 0 < data.length) (hle : data.length ≤ socketPackSize)
    (hroom : s._writer.msgbuffer2.size + (data.length + hdrlen) ≤ maxBufferSize) :
    (s.send now data err).1 = true := by
  have hu : u32 (s._writer.msgbuffer2.size + (data.length + hdrlen)) =
      s._writer.msgbuffer2.size + (data.length + hdrlen) :=
    u32_of_lt (by simp only [maxBufferSize] at hroom; omega)
  rw [send, if_neg (Nat.ne_of_gt h0), if_neg (Nat.not_lt.mpr hle), if_neg (by rw [hf]; decide)]
  simp only [hu]
  rw [if_neg (Nat.not_lt.mpr hroom)]

theorem sendBuffer_refused (hf : s._flag ≠ .start) (b : Option Buffer) (err : Bool) :
    s.sendBuffer b err = (false, s) := by
  rcases b with _ | b
  · rfl
  · simp only [sendBuffer, if_pos hf]
    split_ifs <;> rfl

/-- The flag does not go back to `E_STATE_START`. -/
theorem trySendData_flag (hf : s._flag ≠ .start) (err : Bool) :
    (s._trySendData err).2._flag ≠ .start := by
  have hpost : ∀ t : TcpBaseSocket, t._flag ≠ .start →
      ((if t._writer.msgbuffer1.length > 0 then
          if err then (false, t._close)
          else (true, ({ t with
            _writer := { t._writer with writing := true }
            _socket := { t._socket with posted := some t._writer.msgbuffer1 } } : TcpBaseSocket))
        else (false, t)) : Bool × TcpBaseSocket).2._flag ≠ .start := by
    intro t ht
    split_ifs
    · exact close_flag t
    · exact ht
    · exact ht
  unfold _trySendData
  split
  · exact hf
  · refine hpost _ ?_
    split
    · exact hf
    · exact hf

theorem writeHandler_flag (hf : s._flag ≠ .start) (n : ℕ) (error err : Bool) :
    (s._writeHandler n error err)._flag ≠ .start := by
  rw [writeHandler_eq]
  split_ifs
  · exact close_flag _
  · exact close_flag _
  · exact close_flag _
  · exact trySendData_flag (s := s._written n) hf err

theorem readHandler_flag (hf : s._flag ≠ .start) (n : ℕ) (error cut err : Bool) :
    (s._readHandler n error cut err)._flag ≠ .start := by
  obtain h | ⟨rd, h⟩ := readHandler_spec s n error cut err
  · rw [h]; exact hf
  · rw [h]; exact close_flag _

end TcpBaseSocket

/-! ## Runs -/

namespace SendWorld

open TcpBaseSocket

/-- The runs without a failing write in which every buffer handed to `Send` fits. -/
abbrev Run : SendWorld → Prop := Reach step (fun w a => NoError a ∧ w.Fits a) start

theorem step_send (w : SendWorld) (now : ℕ) (data : List Byte) (err : Bool) :
    w.step (.send now data err) = some { w with
      sock := (w.sock.send now data err).2
      accepted :=
        if (w.sock.send now data err).1 then w.accepted ++ encodeFrame (u32 now) data
        else w.accepted } := rfl

theorem step_sendBuffer (w : SendWorld) (b : Option { b : Buffer // b.WF }) (err : Bool) :
    w.step (.sendBuffer b err) = some { w with
      sock := (w.sock.sendBuffer (b.map Subtype.val) err).2
      accepted :=
        if (w.sock.sendBuffer (b.map Subtype.val) err).1 then
          w.accepted ++ (b.map fun b => b.val.content).getD []
        else w.accepted } := rfl

/-- A completion is one of the posted write. -/
theorem step_complete {w w' : SendWorld} {n : ℕ} {error err : Bool}
    (h : w.step (.complete n error err) = some w') :
    ∃ b, w.sock._socket.posted = some b ∧ n ≤ b.length ∧ w' = { w with
      sock := (w.sock.setPosted none)._writeHandler n error err
      wire := w.wire ++ b.data.take n } := by
  simp only [step] at h
  split at h
  · cases h
  · rename_i b hp
    split at h
    · rename_i hn
      exact ⟨b, hp, hn, (Option.some.inj h).symm⟩
    · cases h

/-- **The invariant of the runs.** -/
structure Balanced (w : SendWorld) : Prop where
  settled : w.sock.Settled
  bytes : w.wire ++ w.sock._writer.held = w.accepted

theorem Balanced.step {w w' : SendWorld} {a : SendAction} (h : w.Balanced)
    (hc : NoError a ∧ w.Fits a) (hs : w.step a = some w') : w'.Balanced := by
  obtain ⟨hne, hfits⟩ := hc
  cases a with
  | send now data err =>
    obtain rfl : err = false := hne
    obtain ⟨h1, h2⟩ := h.settled.send now data
    rw [step_send] at hs
    obtain rfl := Option.some.inj hs
    refine ⟨h1, ?_⟩
    change w.wire ++ (w.sock.send now data false).2._writer.held = _
    rw [h2, ← List.append_assoc, h.bytes]
    cases (w.sock.send now data false).1 <;> simp
  | sendBuffer b err =>
    obtain rfl : err = false := hne
    obtain ⟨h1, h2⟩ := h.settled.sendBuffer b (by rintro b' rfl; exact hfits)
    rw [step_sendBuffer] at hs
    obtain rfl := Option.some.inj hs
    refine ⟨h1, ?_⟩
    change w.wire ++ (w.sock.sendBuffer (b.map Subtype.val) false).2._writer.held = _
    rw [h2, ← List.append_assoc, h.bytes]
    cases (w.sock.sendBuffer (b.map Subtype.val) false).1 <;> simp
  | close =>
    obtain rfl := Option.some.inj hs
    refine ⟨h.settled.toBalanced.close, ?_⟩
    change w.wire ++ w.sock._close._writer.held = _
    rw [close_writer, h.bytes]
  | complete n error err =>
    obtain ⟨h0, rfl, rfl⟩ := hne
    obtain ⟨b, hp, hn, rfl⟩ := step_complete hs
    obtain ⟨h1, h2⟩ := h.settled.complete hp h0 hn
    refine ⟨h1, ?_⟩
    change w.wire ++ b.data.take n ++ _ = _
    rw [List.append_assoc, h2, h.bytes]
  | read n error cut err =>
    obtain rfl := Option.some.inj hs
    obtain he | ⟨rd, he⟩ := readHandler_spec w.sock n error cut err
    · rw [he]; exact h
    · rw [he]
      refine ⟨(h.settled.toBalanced.shutdown rd _).close, ?_⟩
      change w.wire ++ WriterInfo.held (_close _)._writer = _
      rw [close_writer]
      exact h.bytes

theorem start_balanced : start.Balanced := ⟨connected_settled, rfl⟩

theorem Run.balanced {w : SendWorld} (h : Run w) : w.Balanced :=
  h.inv start_balanced fun _ _ _ hb hc hs => hb.step hc hs

/-- The bytes completed on the wire, then those of `msgbuffer1` not sent yet, then those
of `msgbuffer2` are the encodings of the `Send` calls that returned true, in lock
order; the posted write covers `msgbuffer1` as it was posted; and both buffers stay
within 3 MiB. -/
def Conserved (w : SendWorld) : Prop :=
  w.wire ++ w.sock._writer.msgbuffer1.unread ++ w.sock._writer.msgbuffer2.content = w.accepted ∧
    (∀ b, w.sock._socket.posted = some b → w.sock._writer.msgbuffer1 = b) ∧
    w.sock._writer.msgbuffer1.size ≤ maxBufferSize ∧
    w.sock._writer.msgbuffer2.size ≤ maxBufferSize

/-- **Nothing sent is lost, duplicated or reordered**, in any state of a run. -/
theorem conserves {w : SendWorld} (h : Run w) : w.Conserved := by
  have hb := h.balanced
  refine ⟨(List.append_assoc _ _ _).trans hb.bytes, ?_, hb.settled.sound.le1, hb.settled.sound.le2⟩
  intro b hp
  cases hw : w.sock._writer.writing with
  | true => exact Option.some.inj ((hb.settled.busy hw).symm.trans hp)
  | false =>
    have := (hb.settled.idle hw).1
    rw [hp] at this; cases this

/-- A buffer with three bytes. -/
def threeBytes : { b : Buffer // b.WF } :=
  ⟨⟨3, 3, 0, [1, 2, 3]⟩, by decide, by decide, by decide, rfl⟩

/-- A frame of one byte, a buffer that waits behind it, and the completion of the frame. -/
theorem conserves_one : ∃ w, [SendAction.send 0 [7] false, .sendBuffer (some threeBytes) false,
    .complete 9 false false].foldlM step start = some w ∧ w.Conserved :=
  ⟨_, rfl, conserves (.next (a := .complete 9 false false)
    (.next (a := .sendBuffer (some threeBytes) false) (.single (a := .send 0 [7] false) ⟨rfl, trivial⟩ rfl)
      ⟨rfl, fun h => absurd h.2.2.1 (by decide)⟩ rfl)
    ⟨⟨by decide, rfl, rfl⟩, trivial⟩ rfl)⟩

/-- The flag never goes back to `E_STATE_START`. -/
theorem step_flag {w w' : SendWorld} {a : SendAction} (hf : w.sock._flag ≠ .start)
    (hs : w.step a = some w') : w'.sock._flag ≠ .start := by
  cases a with
  | send now data err =>
    rw [step_send] at hs
    obtain rfl := Option.some.inj hs
    change (w.sock.send now data err).2._flag ≠ _
    rw [send_refused hf]; exact hf
  | sendBuffer b err =>
    rw [step_sendBuffer] at hs
    obtain rfl := Option.some.inj hs
    change (w.sock.sendBuffer (b.map Subtype.val) err).2._flag ≠ _
    rw [sendBuffer_refused hf]; exact hf
  | close =>
    obtain rfl := Option.some.inj hs
    exact close_flag _
  | complete n error err =>
    obtain ⟨b, -, -, rfl⟩ := step_complete hs
    exact writeHandler_flag (s := w.sock.setPosted none) hf n error err
  | read n error cut err =>
    obtain rfl := Option.some.inj hs
    exact readHandler_flag hf n error cut err

end SendWorld

namespace TcpBaseSocket

/-- A property of the flag and of the closes that `_Close` keeps. -/
structure CloseStable (P : TcpBaseSocket → Prop) : Prop where
  frame : ∀ {s s' : TcpBaseSocket}, P s → s'._flag = s._flag →
    s'._socket.closes = s._socket.closes → P s'
  close : ∀ {s : TcpBaseSocket}, P s → P s._close

section CloseStable

variable {P : TcpBaseSocket → Prop} (hp : CloseStable P)
include hp

theorem CloseStable.trySendData (h : P s) (err : Bool) : P (s._trySendData err).2 := by
  unfold _trySendData
  split
  · exact h
  · have hswap : P (if s._writer.msgbuffer1.length = 0 then s._swap else s) := by
      split
      · exact hp.frame h rfl rfl
      · exact h
    simp only
    generalize (if s._writer.msgbuffer1.length = 0 then s._swap else s) = t at hswap
    split_ifs
    · exact hp.close hswap
    · exact hp.frame hswap rfl rfl
    · exact hswap

theorem CloseStable.send (h : P s) (now : ℕ) (data : List Byte) (err : Bool) :
    P (s.send now data err).2 := by
  unfold TcpBaseSocket.send
  split_ifs
  · exact h
  · exact h
  · exact h
  · simp only
    split
    · exact h
    · generalize (s._writer.msgbuffer2.write _ _).write _ _ = b
      have hput : P (s.setMsgbuffer2 b) := hp.frame h rfl rfl
      exact hp.trySendData hput err

theorem CloseStable.sendBuffer (h : P s) (b : Option Buffer) (err : Bool) :
    P (s.sendBuffer b err).2 := by
  unfold TcpBaseSocket.sendBuffer
  cases b with
  | none => exact h
  | some b =>
    simp only
    split_ifs
    · exact h
    · exact h
    · exact h
    · exact h
    · generalize s._writer.msgbuffer2.write _ _ = b
      have hput : P (s.setMsgbuffer2 b) := hp.frame h rfl rfl
      exact hp.trySendData hput err

theorem CloseStable.writeHandler (h : P s) (n : ℕ) (error err : Bool) :
    P (s._writeHandler n error err) := by
  rw [writeHandler_eq]
  have hwritten : P (s._written n) := hp.frame h rfl rfl
  split_ifs
  · exact hp.close (hp.frame h rfl rfl)
  · exact hp.close (hp.frame h rfl rfl)
  · exact hp.close (hp.frame (hp.trySendData hwritten err) rfl rfl)
  · exact hp.trySendData hwritten err

theorem CloseStable.readHandler (h : P s) (n : ℕ) (error cut err : Bool) :
    P (s._readHandler n error cut err) := by
  rcases readHandler_spec s n error cut err with he | ⟨rd, he⟩
  · rw [he]
    exact h
  · rw [he]
    exact hp.close (hp.frame h rfl rfl)

/-- **Every step keeps it.** -/
theorem CloseStable.step {w w' : SendWorld} {a : SendAction} (h : P w.sock) (hs : w.step a = some w') :
    P w'.sock := by
  cases a with
  | send now data err =>
    rw [SendWorld.step_send] at hs
    obtain rfl := Option.some.inj hs
    exact hp.send h now data err
  | sendBuffer b err =>
    rw [SendWorld.step_sendBuffer] at hs
    obtain rfl := Option.some.inj hs
    exact hp.sendBuffer h _ err
  | close =>
    obtain rfl := Option.some.inj hs
    exact hp.close h
  | complete n error err =>
    obtain ⟨b, -, -, rfl⟩ := SendWorld.step_complete hs
    have hposted : P (w.sock.setPosted none) := hp.frame h rfl rfl
    exact hp.writeHandler hposted n error err
  | read n error cut err =>
    obtain rfl := Option.some.inj hs
    exact hp.readHandler h n error cut err

end CloseStable

/-- `_socket->Close` has been called. -/
def Called (s : TcpBaseSocket) : Prop := s._socket.closes ≠ []

theorem called_stable : CloseStable Called where
  frame h _ hc := by
    unfold Called
    rw [hc]
    exact h
  close h := by
    unfold Called _close
    split_ifs
    · exact h
    · exact h
    · exact List.append_ne_nil_of_left_ne_nil h _

end TcpBaseSocket

namespace SendWorld

open TcpBaseSocket

/-- `_socket->Close` was called at most once, with no write in flight and both buffers
empty, after all bytes accepted have completed; and after a `Close()` every `Send`
returns false, whatever happens. -/
def Graceful (w : SendWorld) : Prop :=
  w.sock._socket.closes.length ≤ 1 ∧
    (∀ wr ∈ w.sock._socket.closes,
      wr.writing = false ∧ wr.msgbuffer1.length = 0 ∧ wr.msgbuffer2.length = 0) ∧
    (w.sock._socket.closes ≠ [] → w.wire = w.accepted) ∧
    (∀ w₁ w₂, w.step .close = some w₁ → Reach step always w₁ w₂ →
      (∀ now data err, (w₂.sock.send now data err).1 = false) ∧
      (∀ b err, (w₂.sock.sendBuffer b err).1 = false))

/-- **The close is graceful** in every run. -/
theorem graceful {w : SendWorld} (h : Run w) : w.Graceful := by
  have hb := h.balanced
  refine ⟨?_, ?_, ?_, ?_⟩
  · by_cases hf : w.sock._flag = .close
    · rw [(hb.settled.closed hf).2]; exact Nat.le_refl 1
    · rw [hb.settled.open_ hf]; exact Nat.zero_le 1
  · intro wr hwr
    by_cases hf : w.sock._flag = .close
    · obtain ⟨hw, hc⟩ := hb.settled.closed hf
      rw [hc, List.mem_singleton] at hwr
      subst hwr
      obtain ⟨h1, h2⟩ := List.append_eq_nil_iff.mp (hb.settled.idle hw).2
      rw [← hb.settled.sound.unread2] at h2
      refine ⟨hw, ?_, ?_⟩
      · rw [← hb.settled.sound.wf1.unread_length, h1]; rfl
      · rw [← hb.settled.sound.wf2.unread_length, h2]; rfl
    · rw [hb.settled.open_ hf] at hwr; cases hwr
  · intro hne
    by_cases hf : w.sock._flag = .close
    · have hnil := (hb.settled.idle (hb.settled.closed hf).1).2
      have := hb.bytes
      rw [hnil, List.append_nil] at this
      exact this
    · exact absurd (hb.settled.open_ hf) hne
  · intro w₁ w₂ hs hr
    have hf : w₂.sock._flag ≠ .start := by
      refine hr.inv (I := fun w => w.sock._flag ≠ .start) ?_ fun _ _ _ hi _ hst => step_flag hi hst
      obtain rfl := Option.some.inj hs
      exact close_flag _
    exact ⟨fun now data err => by rw [send_refused hf], fun b err => by rw [sendBuffer_refused hf]⟩

/-- A close while a frame is posted and a buffer waits behind it, and their completions. -/
theorem graceful_one : ∃ w : SendWorld, w.sock._socket.closes.length = 1 ∧ w.wire.length = 12 ∧ w.Graceful :=
  ⟨_, rfl, rfl, graceful (.next (a := .complete 3 false false) (.next (a := .complete 9 false false)
    (.next (a := .close)
      (.next (a := .sendBuffer (some threeBytes) false) (.single (a := .send 0 [7] false) ⟨rfl, trivial⟩ rfl)
        ⟨rfl, fun h => absurd h.2.2.1 (by decide)⟩ rfl)
      ⟨trivial, trivial⟩ rfl)
    ⟨⟨by decide, rfl, rfl⟩, trivial⟩ rfl) ⟨⟨by decide, rfl, rfl⟩, trivial⟩ rfl)⟩

/-! ### A buffer of almost 4 GiB -/

/-- A buffer whose size `Send` takes for the `int` `-1025`. -/
def hugeBuffer : { b : Buffer // b.WF } :=
  ⟨⟨2 ^ 32 - 1024, 2 ^ 32 - 1025, 0, List.replicate (2 ^ 32 - 1024) 0⟩,
    Nat.zero_le _, show 2 ^ 32 - 1025 ≤ 2 ^ 32 - 1024 by omega,
    show 2 ^ 32 - 1024 < 2 ^ 32 by omega, List.length_replicate⟩

/-- A first frame is posted, and a second one makes 1025 bytes wait behind it. -/
def crowded : TcpBaseSocket :=
  ((TcpBaseSocket.connected.send 0 [7] false).2.send 0 (List.replicate 1017 0) false).2

theorem crowded_eq : crowded._flag = .start ∧ crowded._writer.writing = true ∧
    crowded._writer.msgbuffer2._pos = 1025 ∧ crowded._writer.msgbuffer2._offset = 0 ∧
    crowded._writer.msgbuffer1.length = 9 := by
  decide +kernel

theorem Run.send {w : SendWorld} (h : Run w) (now : ℕ) (data : List Byte) :
    Run { w with
      sock := (w.sock.send now data false).2
      accepted :=
        if (w.sock.send now data false).1 then w.accepted ++ encodeFrame (u32 now) data
        else w.accepted } :=
  .next (a := .send now data false) h ⟨rfl, trivial⟩ (step_send w now data false)

theorem crowded_run : ∃ w, Run w ∧ w.sock = crowded := by
  have h : Run start := .refl
  exact ⟨_, (h.send 0 [7]).send 0 (List.replicate 1017 0), by simp only [crowded, start]⟩

/-- The run goes on with a `Send` of a buffer of that size, which returns true and leaves
the posted write and an empty `msgbuffer2`. -/
theorem huge_run (huge : { b : Buffer // b.WF }) (hsize : huge.val._pos = 2 ^ 32 - 1025)
    (hoffset : huge.val._offset = 0) : ∃ w b, Reach step (fun _ a => NoError a) start w ∧ b.WF ∧ b.length = 9 ∧
    w.sock._flag = .start ∧ w.sock._socket.posted = some b ∧ w.sock._writer.msgbuffer1 = b ∧
    w.sock._writer.msgbuffer2.length = 0 ∧ w.sock._writer.msgbuffer2.content = [] ∧
    (w.wire ++ b.unread).length < w.accepted.length := by
  obtain ⟨w, hrun, hsock⟩ := crowded_run
  obtain ⟨hf, hw, hp2, ho2, h1⟩ := crowded_eq
  have hb := hrun.balanced
  rw [← hsock] at hf hw hp2 ho2 h1
  have h0 : huge.val.length ≠ 0 := by
    rw [huge.property.length_eq, hsize, hoffset]; omega
  have hsum : u32 (w.sock._writer.msgbuffer2._pos + huge.val._pos) = 0 := by
    rw [hp2, hsize]; rfl
  have hsend := sendBuffer_wraps hf hw huge.property h0 (by rw [hsize]; omega)
    (by rw [hsum]; exact Nat.zero_le _) false
  set b2 := w.sock._writer.msgbuffer2.write huge.val.raw huge.val._pos
  have hpos : b2._pos = 0 := by rw [Buffer.write_pos, hsum]
  have hoff : b2._offset = 0 := by rw [Buffer.write_offset, ho2]
  have hs := step_sendBuffer w (some huge) false
  rw [Option.map_some, hsend] at hs
  have hf2 : (w.sock.setMsgbuffer2 b2)._flag = .start := (setMsgbuffer2_flag _ _).trans hf
  have hne : NoError (.sendBuffer (some huge) false) := rfl
  -- the bytes accepted grow, those held do not
  have hlen := congrArg List.length hb.bytes
  have hcl := huge.property.content_length
  refine ⟨_, w.sock._writer.msgbuffer1, .next (hrun.mono fun _ _ h => h.1) hne hs,
    hb.settled.sound.wf1, h1, hf2, ?_,
    setMsgbuffer2_msgbuffer1 _ _, ?_, ?_, ?_⟩
  · simp only [setMsgbuffer2_socket]
    exact hb.settled.busy hw
  · change b2.length = 0
    rw [Buffer.length, hpos, hoff]; rfl
  · change b2._data.take b2._pos = []
    rw [hpos]; rfl
  · change _ < (w.accepted ++ huge.val.content).length
    rw [WriterInfo.held] at hlen
    simp only [List.length_append] at hlen ⊢
    omega

/-- **Bytes are lost** when the size of a buffer is taken for a negative `int`. -/
theorem not_conserves : ¬ ∀ w, Reach step (fun _ a => NoError a) start w → w.Conserved := by
  intro hall
  obtain ⟨w, b, hr, -, -, -, -, h1, -, h2, hlt⟩ := huge_run hugeBuffer rfl rfl
  have := congrArg List.length (hall w hr).1
  rw [h1, h2, List.append_nil] at this
  omega

/-- **And a later close does not wait for them.** -/
theorem not_graceful : ¬ ∀ w, Reach step (fun _ a => NoError a) start w → w.Graceful := by
  intro hall
  obtain ⟨w, b, hr, hwf, h9, hf, hp, h1, h2, -, hlt⟩ := huge_run hugeBuffer rfl rfl
  -- the write of the first frame completes, and nothing is left to post
  set s := (w.sock.setPosted none)._written 9 with hs
  have hempty : s._writer.msgbuffer1.length = 0 := by
    obtain ⟨he, hw'⟩ := hwf.cutData (Nat.le_of_eq h9.symm)
    have hcut : s._writer.msgbuffer1 = b.cutData (9 : ℕ) := by rw [← h1]; rfl
    have := hwf.length_eq
    rw [hcut, hw'.length_eq, he]
    simp only
    omega
  have htry := trySendData_empty (s := s) rfl hempty h2 false
  have hsf : s._swap._flag = .start := hf
  have hdone : (w.sock.setPosted none)._writeHandler 9 false false = s._swap := by
    rw [writeHandler_eq, if_neg Bool.false_ne_true, if_neg (by decide), ← hs, htry]
    exact if_neg (by rw [hsf]; simp)
  -- so the socket is idle, and `Close` does not wait
  have hstep : w.step (.complete 9 false false) = some { w with
      sock := s._swap
      wire := w.wire ++ b.data.take 9 } := by
    simp only [step, hp, if_pos (Nat.le_of_eq h9.symm), hdone]
  have hne : NoError (.complete 9 false false) := ⟨by decide, rfl, rfl⟩
  have hne' : NoError .close := trivial
  have hclose := (hall _ (.next (.next hr hne hstep) hne' rfl)).2.2.1
  have hcl : s._swap.close = { s._swap with
      _flag := .close
      _socket := { s._swap._socket with closes := s._swap._socket.closes ++ [s._swap._writer] } } := by
    unfold TcpBaseSocket.close _postClose _close
    rw [if_neg (by rw [hsf]; decide)]
    exact if_neg Bool.false_ne_true
  have hcalled : (s._swap.close)._socket.closes ≠ [] := by
    rw [hcl]; simp
  have := congrArg List.length (hclose hcalled)
  have hdl := congrArg List.length hwf.data_take
  rw [h9] at hdl
  simp only [List.length_append] at this hlt
  omega

end SendWorld

end Netlib
