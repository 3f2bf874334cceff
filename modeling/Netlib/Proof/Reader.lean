import Netlib.Spec.Reader
import Netlib.Proof.Header

/-!
# The stream reader decodes the stream

`Holds r tail` ties the reader to the bytes `tail` received after the last
complete frame: fewer than eight of them wait in `msgbuffer` without a header, or
`curheader` holds the size of a header and `msgbuffer` the bytes after it. One
call of `_CutMsgPack` keeps this and does what the reference decoder does with the
bytes of the call (`cutMsgPack_reads`), so any sequence of calls agrees with the
reference decoder (`cutMsgPack_agrees`).
-/

namespace Netlib

open Lib TcpStreamSocket

variable {σ : Type*} {limit : ℕ}

/-- The reader between a complete header and the end of its frame: the stream `s`
starts with the header, and the bytes after it are those of `msgbuffer`, then `buf`. -/
structure Ready (limit : ℕ) (r : ReaderInfo) (s buf : List Byte) : Prop where
  wf : r.msgbuffer.WF
  offset : r.msgbuffer._offset = hdrlen
  len : hdrlen ≤ s.length
  size : r.curheader.size = frameSize s
  size_le : frameSize s ≤ limit
  bytes : r.msgbuffer.unread ++ buf = s.drop hdrlen
  room : r.msgbuffer.unread.length ≤ frameSize s

/-- **The reader's invariant**, for the bytes `tail` of the frame in progress. -/
inductive Holds (limit : ℕ) (r : ReaderInfo) (tail : List Byte) : Prop
  | noHeader (wf : r.msgbuffer.WF) (offset : r.msgbuffer._offset = 0)
      (unread : r.msgbuffer.unread = tail) (size : r.curheader.size = 0) (lt : tail.length < hdrlen)
  | header (ready : Ready limit r tail []) (lt : r.msgbuffer.unread.length < frameSize tail)

theorem Holds.fresh : Holds limit ReaderInfo.fresh [] :=
  .noHeader Buffer.new_wf rfl Buffer.new_unread rfl (by decide)

/-- After a callback the cleared buffer holds nothing. -/
theorem Holds.cleared {b : Buffer} (hb : b.WF) (t : ℕ) : Holds limit ⟨b.clear, ⟨t, 0⟩⟩ [] :=
  .noHeader hb.clear rfl (Buffer.clear_unread b) rfl (by decide)

theorem wf_pos {b : Buffer} (h : b.WF) : b._pos = b._offset + b.unread.length := by
  have := h.offset_le
  rw [h.unread_length, h.length_eq]; omega

/-- The bytes in progress end before the frame does. -/
theorem Holds.length_lt {r : ReaderInfo} {tail : List Byte} (hr : Holds limit r tail)
    (buf : List Byte) :
    tail.length < hdrlen + frameSize (tail ++ buf) := by
  cases hr with
  | noHeader _ _ _ _ lt => omega
  | header ready lt =>
    have h1 := congrArg List.length ready.bytes
    have h2 := ready.len
    rw [frameSize_append ready.len]
    simp only [List.length_append, List.length_drop, List.length_nil] at h1; omega

/-- `msgbuffer.Read(curheader)` when a whole header waits. -/
theorem readHeader_eq {r : ReaderInfo} (hwf : r.msgbuffer.WF)
    (h8 : r.msgbuffer.unread.length = hdrlen) :
    r.readHeader = ⟨{ r.msgbuffer with _offset := r.msgbuffer._offset + hdrlen },
        MessageHeader.ofBytes r.msgbuffer.unread⟩ ∧
      { r.msgbuffer with _offset := r.msgbuffer._offset + hdrlen }.WF := by
  obtain ⟨hread, hwf'⟩ := hwf.read (show hdrlen ≤ _ by rw [← hwf.unread_length, h8])
  refine ⟨?_, hwf'⟩
  rw [List.take_of_length_le (Nat.le_of_eq h8)] at hread
  rw [ReaderInfo.readHeader, hread]

/-- The header is completed from the bytes of the call. -/
theorem header_complete {r : ReaderInfo} {buf : List Byte} (size : r.curheader.size = 0)
    (hfull : ¬ u32 (buf.length + r.msgbuffer.length) < hdrlen)
    (hpart : ¬ r.msgbuffer.length ≥ hdrlen) {r' : ReaderInfo}
    (hr' : { r with msgbuffer := r.msgbuffer.write buf (hdrlen - r.msgbuffer.length) }.readHeader = r') :
    r.header limit buf =
      if r'.curheader.n2h.size > limit then
        .reject { r' with curheader := r'.curheader.n2h } (buf.drop (hdrlen - r.msgbuffer.length))
      else .ready { r' with curheader := r'.curheader.n2h } (buf.drop (hdrlen - r.msgbuffer.length)) := by
  simp only [ReaderInfo.header, if_pos size, if_neg hfull, if_neg hpart, hr']

/-- The header part of the loop while no header is there. -/
theorem header_none {r : ReaderInfo} {tail buf : List Byte} (wf : r.msgbuffer.WF)
    (offset : r.msgbuffer._offset = 0) (unread : r.msgbuffer.unread = tail)
    (size : r.curheader.size = 0) (lt : tail.length < hdrlen)
    (hbuf : buf.length + socketPackSize < 2 ^ 32) :
    (∃ r', r.header limit buf = .more r' ∧ (tail ++ buf).length < hdrlen ∧ Holds limit r' (tail ++ buf)) ∨
    (∃ r' buf', r.header limit buf = .reject r' buf' ∧ limit < frameSize (tail ++ buf) ∧
      Ready (frameSize (tail ++ buf)) r' (tail ++ buf) buf' ∧ r'.msgbuffer.unread = []) ∨
    (∃ r' buf', r.header limit buf = .ready r' buf' ∧ Ready limit r' (tail ++ buf) buf') := by
  have hp := wf_pos wf
  rw [offset, unread, Nat.zero_add] at hp
  have hlen : r.msgbuffer.length = tail.length := by rw [← wf.unread_length, unread]
  have hsum : (tail ++ buf).length = tail.length + buf.length := List.length_append
  have hu : u32 (buf.length + r.msgbuffer.length) = buf.length + tail.length := by
    rw [hlen]
    exact u32_of_lt (by simp only [hdrlen, socketPackSize] at lt hbuf; omega)
  by_cases hshort : buf.length + tail.length < hdrlen
  · -- still no header: all bytes of the call are kept
    have hroom : r.msgbuffer._pos + buf.length + bufferDefaultSize < 2 ^ 32 := by
      simp only [bufferDefaultSize, hdrlen] at hshort ⊢; omega
    obtain ⟨hw, -, -, ho⟩ := wf.write (Nat.le_refl buf.length) hroom
    have hh : r.header limit buf = .more { r with msgbuffer := r.msgbuffer.write buf buf.length } := by
      rw [← hu] at hshort
      simp only [ReaderInfo.header, if_pos size, if_pos hshort]
    refine .inl ⟨_, hh, by omega, .noHeader hw (ho.trans offset) ?_ size (by omega)⟩
    change (r.msgbuffer.write buf buf.length).unread = _
    rw [wf.write_unread (Nat.le_refl _) hroom, unread, List.take_length]
  · -- the header is completed from the call's bytes, and read
    have hk : hdrlen - r.msgbuffer.length ≤ buf.length := by omega
    have hroom : r.msgbuffer._pos + (hdrlen - r.msgbuffer.length) + bufferDefaultSize < 2 ^ 32 := by
      simp only [bufferDefaultSize, hdrlen] at lt ⊢; omega
    obtain ⟨hw, -, -, ho⟩ := wf.write hk hroom
    have hun : (r.msgbuffer.write buf (hdrlen - r.msgbuffer.length)).unread =
        (tail ++ buf).take hdrlen := by
      have htail : tail.take hdrlen = tail := List.take_of_length_le (by omega)
      rw [wf.write_unread hk hroom, unread, hlen, List.take_append, htail]
    have hl8 : ((tail ++ buf).take hdrlen).length = hdrlen := by rw [List.length_take]; omega
    obtain ⟨hread, hwf⟩ := readHeader_eq
      (r := { r with msgbuffer := r.msgbuffer.write buf (hdrlen - r.msgbuffer.length) }) hw
      (by rw [hun, hl8])
    have hsz : (MessageHeader.ofBytes
        (r.msgbuffer.write buf (hdrlen - r.msgbuffer.length)).unread).n2h.size =
          frameSize (tail ++ buf) := by
      rw [hun, MessageHeader.ofBytes_n2h_size hl8, frameSize_take (by omega)]
    have hh : r.header limit buf = _ := header_complete size (by rw [hu]; exact hshort) (by omega) hread
    simp only [hsz] at hh
    -- the header is all that was in the buffer
    have hempty : { r.msgbuffer.write buf (hdrlen - r.msgbuffer.length) with
        _offset := (r.msgbuffer.write buf (hdrlen - r.msgbuffer.length))._offset + hdrlen }.unread
          = [] := by
      rw [Buffer.unread_offset, hun]
      exact List.drop_of_length_le (Nat.le_of_eq hl8)
    have hready : ∀ l, frameSize (tail ++ buf) ≤ l → Ready l ⟨{ r.msgbuffer.write buf
        (hdrlen - r.msgbuffer.length) with
          _offset := (r.msgbuffer.write buf (hdrlen - r.msgbuffer.length))._offset + hdrlen },
        (MessageHeader.ofBytes (r.msgbuffer.write buf (hdrlen - r.msgbuffer.length)).unread).n2h⟩
        (tail ++ buf) (buf.drop (hdrlen - r.msgbuffer.length)) := by
      intro l hl
      refine ⟨hwf, ?_, by omega, hsz, hl, ?_, ?_⟩
      · change (r.msgbuffer.write buf (hdrlen - r.msgbuffer.length))._offset + hdrlen = hdrlen
        rw [ho, offset, Nat.zero_add]
      · have htail : tail.drop hdrlen = [] := List.drop_of_length_le (by omega)
        rw [hempty, List.nil_append, hlen, List.drop_append, htail, List.nil_append]
      · rw [hempty]; exact Nat.zero_le _
    by_cases hbig : frameSize (tail ++ buf) > limit
    · rw [if_pos hbig] at hh
      exact .inr (.inl ⟨_, _, hh, hbig, hready _ (Nat.le_refl _), hempty⟩)
    · rw [if_neg hbig] at hh
      exact .inr (.inr ⟨_, _, hh, hready _ (Nat.le_of_not_lt hbig)⟩)

/-- The header part of the loop. -/
theorem header_spec {r : ReaderInfo} {tail : List Byte} (hr : Holds limit r tail) {buf : List Byte}
    (hbuf : buf.length + socketPackSize < 2 ^ 32) :
    (∃ r', r.header limit buf = .more r' ∧ (tail ++ buf).length < hdrlen ∧ Holds limit r' (tail ++ buf)) ∨
    (∃ r' buf', r.header limit buf = .reject r' buf' ∧ limit < frameSize (tail ++ buf) ∧
      Ready (frameSize (tail ++ buf)) r' (tail ++ buf) buf' ∧ r'.msgbuffer.unread = []) ∨
    (∃ r' buf', r.header limit buf = .ready r' buf' ∧ Ready limit r' (tail ++ buf) buf') := by
  cases hr with
  | noHeader wf offset unread size lt => exact header_none wf offset unread size lt hbuf
  | header ready lt =>
    -- fewer bytes than the size says wait, so the size is not 0
    have hne : ¬ r.curheader.size = 0 := by rw [ready.size]; omega
    have hfs := frameSize_append ready.len buf
    have hh : r.header limit buf = .ready r buf := by simp only [ReaderInfo.header, if_neg hne]
    refine .inr (.inr ⟨r, buf, hh, ready.wf, ready.offset, ?_, ?_, ?_, ?_, ?_⟩)
    · rw [List.length_append]; exact Nat.le_trans ready.len (Nat.le_add_right _ _)
    · rw [hfs]; exact ready.size
    · rw [hfs]; exact ready.size_le
    · rw [List.drop_append_of_le_length ready.len, ← ready.bytes, List.append_nil]
    · rw [hfs]; exact Nat.le_of_lt lt

/-! ## The body part -/

section Body

variable {r : ReaderInfo} {s buf : List Byte}

theorem Ready.length_eq (h : Ready limit r s buf) :
    s.length = hdrlen + r.msgbuffer.unread.length + buf.length := by
  have h1 := congrArg List.length h.bytes
  have h2 := h.len
  simp only [List.length_append, List.length_drop] at h1; omega

/-- The number of payload bytes to take from the call. -/
theorem Ready.missing (h : Ready limit r s buf) (hlim : limit ≤ socketPackSize) :
    toU32 ((r.curheader.size : ℤ) - r.msgbuffer.length) =
      frameSize s - r.msgbuffer.unread.length := by
  have h1 := h.room
  have h2 := h.size_le
  rw [h.size, ← h.wf.unread_length,
    toU32_of_lt (by omega) (by simp only [socketPackSize] at hlim; omega)]
  omega

/-- Whether the payload is complete. -/
theorem Ready.next (h : Ready limit r s buf) :
    (frames limit).next s =
      if buf.length + r.msgbuffer.unread.length < frameSize s then .more
      else .frame ((s.drop hdrlen).take (frameSize s)) (hdrlen + frameSize s) := by
  have h1 := h.length_eq
  have h2 := h.size_le
  rw [frames_next, nextFrame, if_neg (by omega), if_neg (by omega)]
  by_cases hlt : buf.length + r.msgbuffer.unread.length < frameSize s
  · rw [if_pos hlt, if_pos (by omega)]
  · rw [if_neg hlt, if_neg (by omega)]

/-- Not all of the payload is there. -/
theorem Ready.more (h : Ready limit r s buf) (hlim : limit ≤ socketPackSize)
    (hlt : buf.length + r.msgbuffer.unread.length < frameSize s) :
    Holds limit { r with msgbuffer := r.msgbuffer.write buf buf.length } s := by
  have hp := wf_pos h.wf
  have hroom : r.msgbuffer._pos + buf.length + bufferDefaultSize < 2 ^ 32 := by
    have h1 := h.size_le
    have h2 := h.offset
    simp only [bufferDefaultSize, hdrlen, socketPackSize] at *; omega
  obtain ⟨hw, -, -, ho⟩ := h.wf.write (Nat.le_refl buf.length) hroom
  have hun : (r.msgbuffer.write buf buf.length).unread = s.drop hdrlen := by
    rw [h.wf.write_unread (Nat.le_refl _) hroom, List.take_length, h.bytes]
  have hl : (s.drop hdrlen).length < frameSize s := by
    rw [← h.bytes, List.length_append]; omega
  refine .header ⟨hw, ho.trans h.offset, h.len, h.size, h.size_le, ?_, ?_⟩ ?_
  · rw [List.append_nil]; exact hun
  · rw [hun]; exact Nat.le_of_lt hl
  · rw [hun]; exact hl

/-- The payload is complete. -/
theorem Ready.full (h : Ready limit r s buf) (hlim : limit ≤ socketPackSize)
    (hle : ¬ buf.length + r.msgbuffer.unread.length < frameSize s) :
    (r.msgbuffer.write buf (frameSize s - r.msgbuffer.unread.length)).WF ∧
      (r.msgbuffer.write buf (frameSize s - r.msgbuffer.unread.length)).unread =
        (s.drop hdrlen).take (frameSize s) ∧
      buf.drop (frameSize s - r.msgbuffer.unread.length) = s.drop (hdrlen + frameSize s) := by
  have hp := wf_pos h.wf
  have hk : frameSize s - r.msgbuffer.unread.length ≤ buf.length := by omega
  have hroom : r.msgbuffer._pos + (frameSize s - r.msgbuffer.unread.length) + bufferDefaultSize
      < 2 ^ 32 := by
    have h1 := h.size_le
    have h2 := h.offset
    have h3 := h.room
    simp only [bufferDefaultSize, hdrlen, socketPackSize] at *; omega
  refine ⟨(h.wf.write hk hroom).1, ?_, ?_⟩
  · rw [h.wf.write_unread hk hroom, ← h.bytes, List.take_append, List.take_of_length_le h.room]
  · rw [← List.drop_drop, ← h.bytes, List.drop_append, List.drop_of_length_le h.room, List.nil_append]

/-- The sum that is compared with the size of the payload. -/
theorem Ready.sum_eq {r₀ : ReaderInfo} {tail buf' : List Byte} (hr : Holds limit r₀ tail)
    (h : Ready limit r (tail ++ buf) buf') (hlim : limit ≤ socketPackSize)
    (hbuf : buf.length + socketPackSize < 2 ^ 32) :
    u32 (buf'.length + r.msgbuffer.length) = buf'.length + r.msgbuffer.unread.length := by
  have h1 := h.length_eq
  have h2 := hr.length_lt buf
  have h3 := h.size_le
  rw [List.length_append] at h1
  rw [h.wf.unread_length]
  apply u32_of_lt
  rw [← h.wf.unread_length]
  omega

end Body

/-- The user's state `u'` after callbacks with buffers of the kind `P` for the payloads
`ps`, from `u`. -/
def Receiver.Through (io : Receiver σ) (P : Buffer → Prop) (u : σ) (ps : List (List Byte)) (u' : σ) :
    Prop :=
  ∃ bs : List Buffer, (∀ b ∈ bs, P b) ∧ bs.map Buffer.unread = ps ∧
    bs.foldl (fun u b => (io.onReceiveData u b).1) u = u'

variable {io : Receiver σ} {P : Buffer → Prop}

theorem Receiver.Through.nil (io : Receiver σ) (P : Buffer → Prop) (u : σ) : io.Through P u [] u :=
  ⟨[], by simp, rfl, rfl⟩

theorem Receiver.Through.cons {b : Buffer} (hb : P b) {u u' : σ} {ps : List (List Byte)}
    (h : io.Through P (io.onReceiveData u b).1 ps u') : io.Through P u (b.unread :: ps) u' := by
  obtain ⟨bs, hP, hps, hu⟩ := h
  exact ⟨b :: bs, List.forall_mem_cons.mpr ⟨hb, hP⟩, by rw [List.map_cons, hps], hu⟩

theorem Receiver.Through.append {u u' u'' : σ} {ps qs : List (List Byte)}
    (h : io.Through P u ps u') (h' : io.Through P u' qs u'') : io.Through P u (ps ++ qs) u'' := by
  obtain ⟨bs, hP, hps, hu⟩ := h
  obtain ⟨cs, hP', hqs, hu'⟩ := h'
  refine ⟨bs ++ cs, ?_, by rw [List.map_append, hps, hqs], by rw [List.foldl_append, hu, hu']⟩
  intro b hb
  exact (List.mem_append.mp hb).elim (hP b) (hP' b)

/-- The loop does what the reference decoder does with the bytes in progress
followed by those of the call. -/
theorem cutMsgPackLoop_spec (io : Receiver σ) :
    ∀ (fuel : ℕ) (s : ReadState σ) (tail buf : List Byte), Holds socketPackSize s.reader tail →
      buf.length + socketPackSize < 2 ^ 32 → buf.length < fuel →
      ∃ s', _cutMsgPackLoop io fuel s buf =
          some (((frames socketPackSize).decode (tail ++ buf)).ok,
            ((frames socketPackSize).decode (tail ++ buf)).frames, s') ∧
        io.Through Handed s.user ((frames socketPackSize).decode (tail ++ buf)).frames s'.user ∧
        (((frames socketPackSize).decode (tail ++ buf)).ok = true →
          Holds socketPackSize s'.reader ((frames socketPackSize).decode (tail ++ buf)).tail) := by
  intro fuel
  induction fuel with
  | zero => intro s tail buf _ _ hf; omega
  | succ fuel ih =>
    intro s tail buf hr hbuf hf
    rw [_cutMsgPackLoop]
    rcases header_spec hr hbuf with ⟨r', he, hlt, hr'⟩ | ⟨r', _, he, hbig, hover, -⟩ |
      ⟨r', buf', he, hready⟩
    · -- no complete header
      have hn : (frames socketPackSize).next (tail ++ buf) = .more := by
        rw [frames_next, nextFrame, if_pos hlt]
      rw [he, Framing.decode_more hn]
      exact ⟨_, rfl, .nil io _ _, fun _ => hr'⟩
    · -- an over-long header
      have hn : (frames socketPackSize).next (tail ++ buf) = .reject := by
        rw [frames_next, nextFrame, if_neg (Nat.not_lt.mpr hover.len), if_pos hbig]
      rw [he, Framing.decode_reject hn]
      exact ⟨_, rfl, .nil io _ _, fun h => by simp at h⟩
    · have hlim := Nat.le_refl socketPackSize
      have hnext := hready.next
      simp only [he, hready.sum_eq hr hlim hbuf, hready.missing hlim]
      rw [hready.size]
      by_cases hlt : buf'.length + r'.msgbuffer.unread.length < frameSize (tail ++ buf)
      · -- the payload is not complete
        rw [if_pos hlt] at hnext
        rw [if_pos hlt, Framing.decode_more hnext]
        exact ⟨_, rfl, .nil io _ _, fun _ => hready.more hlim hlt⟩
      · -- a complete frame: notify, clear, and go on with the rest of the call
        rw [if_neg hlt] at hnext
        obtain ⟨hw, hpay, hrest⟩ := hready.full hlim hlt
        have hoff : (r'.msgbuffer.write buf'
            (frameSize (tail ++ buf) - r'.msgbuffer.unread.length))._offset = hdrlen := by
          rw [Buffer.write_offset, hready.offset]
        rw [if_neg hlt, hrest, hpay]
        set msgbuffer := r'.msgbuffer.write buf'
          (frameSize (tail ++ buf) - r'.msgbuffer.unread.length)
        -- the frame ends after the bytes that were there before the call
        have hrl : ((tail ++ buf).drop (hdrlen + frameSize (tail ++ buf))).length < buf.length := by
          have h1 := hr.length_lt buf
          have h2 := hready.length_eq
          rw [List.length_append] at h2
          rw [List.length_drop, List.length_append]; omega
        obtain ⟨s', hs', hu', hr'⟩ := ih ⟨⟨(io.onReceiveData s.user msgbuffer).2.clear,
            { r'.curheader with size := 0 }⟩, (io.onReceiveData s.user msgbuffer).1⟩ []
          ((tail ++ buf).drop (hdrlen + frameSize (tail ++ buf)))
          (Holds.cleared (io.wf _ _ hw) _) (by omega) (by omega)
        rw [Framing.decode_frame hnext]
        rw [List.nil_append] at hs' hu' hr'
        refine ⟨s', by rw [hs']; rfl, ?_, hr'⟩
        rw [← hpay]
        exact .cons ⟨hw, hoff⟩ hu'

/-- **One call of `_CutMsgPack`**, as long as the 32-bit byte counts do not wrap. -/
theorem cutMsgPack_reads (io : Receiver σ) :
    (frames socketPackSize).Reads (fun s tail => Holds socketPackSize s.reader tail)
      (fun c => c.length + socketPackSize < 2 ^ 32) (_cutMsgPack io) := by
  intro s tail c hr _ hc
  obtain ⟨s', hs', -, hr'⟩ := cutMsgPackLoop_spec io (c.length + 1) s tail c hr hc (by omega)
  exact ⟨s', hs', hr'⟩

/-- **The user's state after any calls** on a stream that is not rejected is that after the
callbacks for its payloads. -/
theorem cutMsgPack_handed (io : Receiver σ) (chunks : List (List Byte)) :
    ∀ (s : ReadState σ) (tail : List Byte), Holds socketPackSize s.reader tail →
      (frames socketPackSize).next tail = .more →
      (∀ c ∈ chunks, c.length + socketPackSize < 2 ^ 32) →
      ((frames socketPackSize).decode (tail ++ chunks.flatten)).ok = true →
      ∃ answers s', calls (_cutMsgPack io) s chunks = some (answers, s') ∧
        io.Through Handed s.user ((frames socketPackSize).decode (tail ++ chunks.flatten)).frames s'.user := by
  induction chunks with
  | nil =>
    intro s tail hr hmore _ _
    rw [List.flatten_nil, List.append_nil, Framing.decode_more hmore]
    exact ⟨[], s, rfl, .nil io _ _⟩
  | cons c cs ih =>
    intro s tail hr _ hchunks hok
    obtain ⟨s₁, hs₁, hu₁, hr₁⟩ := cutMsgPackLoop_spec io (c.length + 1) s tail c hr
      (hchunks c List.mem_cons_self) (by omega)
    rw [List.flatten_cons, ← List.append_assoc, Framing.decode_append] at hok ⊢
    split at hok
    · rename_i hok₁
      rw [if_pos hok₁]
      obtain ⟨answers, s', hcalls, hu⟩ := ih s₁ _ (hr₁ hok₁) (Framing.next_tail _ hok₁)
        (fun x hx => hchunks x (List.mem_cons_of_mem _ hx)) hok
      have hcall : _cutMsgPack io s c = _ := hs₁
      refine ⟨(true, ((frames socketPackSize).decode (tail ++ c)).frames) :: answers, s', ?_, hu₁.append hu⟩
      simp only [calls, hcall, hok₁, hcalls, Option.bind_eq_bind, Option.bind_some, if_true]
      rfl
    · cases hok

/-- **One frame in any reads** from a frame boundary on: one callback, with a buffer that
holds the payload. -/
theorem frame_handed (io : Receiver σ) {r : ReaderInfo} (hr : Holds socketPackSize r []) (u : σ)
    (t : ℕ) {body : List Byte} (hle : body.length ≤ socketPackSize) {chunks : List (List Byte)}
    (hchunks : chunks.flatten = encodeFrame t body) :
    ∃ answers s' b, calls (_cutMsgPack io) ⟨r, u⟩ chunks = some (answers, s') ∧ Handed b ∧
      b.unread = body ∧ s'.user = (io.onReceiveData u b).1 := by
  have hpack : body.length ≤ 409600 := hle
  have hnext : (frames socketPackSize).next (encodeFrame t body ++ []) = _ :=
    nextFrame_encode hle (by omega) []
  have hdecode : (frames socketPackSize).decode ([] ++ chunks.flatten) = ⟨[body], [], true⟩ := by
    rw [hchunks, List.nil_append, ← List.append_nil (encodeFrame t body), Framing.decode_frame hnext,
      List.drop_left, Framing.decode_more (nextFrame_nil socketPackSize)]
    rfl
  have hsmall : ∀ x ∈ chunks, x.length + socketPackSize < 2 ^ 32 := by
    intro x hx
    have hxle : x.length ≤ chunks.flatten.length := (List.sublist_flatten_of_mem hx).length_le
    rw [hchunks, encodeFrame_length] at hxle
    simp only [hdrlen, socketPackSize] at hxle ⊢
    omega
  obtain ⟨answers, s', hcalls, hrec⟩ := cutMsgPack_handed io chunks ⟨r, u⟩ [] hr
    (nextFrame_nil socketPackSize) hsmall (by rw [hdecode])
  rw [hdecode] at hrec
  obtain ⟨bs, hP, hun, hu⟩ := hrec
  rcases bs with _ | ⟨b, _ | ⟨b', bs⟩⟩
  · cases hun
  · exact ⟨answers, s', b, hcalls, hP b List.mem_cons_self, List.singleton_inj.mp hun, hu.symm⟩
  · cases hun

/-- **The stream reader decodes the stream**, for every cut of it into reads and
whatever the callback does with the buffer it is handed: each call returns; the
payloads delivered after each call are those of the reference decoder on the bytes
received so far; and the first call that returns false is the one that completes an
over-long header. A chunk has to fit the 32-bit sum `tran_byte + datalen`; the
reads of `_TryRecvData` bring at most `M_SOCKET_READ_SIZE` bytes. -/
theorem TcpStreamSocket.cutMsgPack_agrees (io : Receiver σ) (u : σ) (chunks : List (List Byte))
    (hchunks : ∀ c ∈ chunks, c.length + socketPackSize < 2 ^ 32) :
    ∃ answers s', calls (_cutMsgPack io) ⟨ReaderInfo.fresh, u⟩ chunks = some (answers, s') ∧
      Agrees (frames socketPackSize) chunks answers := by
  exact (cutMsgPack_reads io).agrees Holds.fresh (nextFrame_nil socketPackSize) hchunks

/-- A callback that clears the buffer, on a frame of two bytes cut inside its header
and a header of 2 ^ 24 bytes. -/
theorem TcpStreamSocket.cutMsgPack_agrees_cut :
    ∃ answers s', calls (_cutMsgPack ⟨fun u b => (u + 1, b.clear), fun _ _ h => h.clear⟩)
        ⟨ReaderInfo.fresh, 0⟩ [[0, 0, 0], [0, 0, 0, 0, 2, 7, 8, 0], [0, 0, 0, 1, 0, 0, 0]] =
          some (answers, s') ∧
      Agrees (frames socketPackSize) [[0, 0, 0], [0, 0, 0, 0, 2, 7, 8, 0], [0, 0, 0, 1, 0, 0, 0]]
        answers := by
  exact TcpStreamSocket.cutMsgPack_agrees _ 0 _ (by decide)

end Netlib
