import Netlib.Spec.Peers
import Netlib.Proof.Reader
import Netlib.Proof.Writer

/-!
# What one end sends, the other hands out

`Sending` is the invariant of an end that writes, also when writes fail: until the socket is
closed the bytes on the wire and those held are the frames accepted, and nothing is posted after
that, so the wire is always a prefix of them. `Reads` ties the reader of the other end to the
bytes that have come. Every step of either end keeps both (`Joined.step`), so a run hands out
a prefix of what was accepted (`delivers`), and all of it when no write has failed, nothing is
left to write and everything has come (`delivers_all`).
-/

namespace Netlib

open Lib TcpBaseSocket

variable {σ : Type*}

/-! ## Frames on the wire -/

theorem encodeFrames_append (fs gs : List (ℕ × List Byte)) :
    encodeFrames (fs ++ gs) = encodeFrames fs ++ encodeFrames gs := List.flatMap_append

theorem encodeFrames_snoc (fs : List (ℕ × List Byte)) (t : ℕ) (data : List Byte) :
    encodeFrames (fs ++ [(t, data)]) = encodeFrames fs ++ encodeFrame t data := by
  rw [encodeFrames_append]
  exact congrArg _ (List.append_nil _)

/-- The frames fit the limit of the reader. -/
def Fitting (fs : List (ℕ × List Byte)) : Prop := ∀ f ∈ fs, f.2.length ≤ socketPackSize

theorem Fitting.lt {fs : List (ℕ × List Byte)} (h : Fitting fs) :
    ∀ f ∈ fs, f.2.length ≤ socketPackSize ∧ f.2.length < 2 ^ 32 := by
  intro f hf
  have hle := h f hf
  refine ⟨hle, ?_⟩
  simp only [socketPackSize] at hle
  omega

/-- **Frames that fit are decoded to their payloads**, with nothing left. -/
theorem decode_frames {fs : List (ℕ × List Byte)} (h : Fitting fs) :
    (frames socketPackSize).decode (encodeFrames fs) = ⟨fs.map Prod.snd, [], true⟩ := by
  induction fs with
  | nil => exact Framing.decode_more (nextFrame_nil socketPackSize)
  | cons f fs ih =>
    obtain ⟨hle, hlt⟩ := h.lt f List.mem_cons_self
    have hnext : (frames socketPackSize).next (encodeFrame f.1 f.2 ++ encodeFrames fs) = _ :=
      nextFrame_encode hle hlt _
    have hrest := ih fun g hg => h g (List.mem_cons_of_mem _ hg)
    change (frames socketPackSize).decode (encodeFrame f.1 f.2 ++ encodeFrames fs) = _
    rw [Framing.decode_frame hnext, List.drop_left, hrest]
    rfl

/-- The frames whose last byte is within a prefix of the stream are decoded from it. -/
theorem frames_prefix {fs : List (ℕ × List Byte)} (h : Fitting fs) {s : List Byte}
    (hs : s <+: encodeFrames fs) {k : ℕ} (hk : (encodeFrames (fs.take k)).length ≤ s.length) :
    (fs.take k).map Prod.snd <+: ((frames socketPackSize).decode s).frames := by
  have hpre : encodeFrames (fs.take k) <+: s := by
    refine List.prefix_of_prefix_length_le ?_ hs hk
    rw [← List.take_append_drop k fs, encodeFrames_append, List.take_append_drop]
    exact List.prefix_append _ _
  have hfit : Fitting (fs.take k) := fun f hf => h f (List.mem_of_mem_take hf)
  obtain ⟨r, rfl⟩ := hpre
  rw [Framing.decode_append, decode_frames hfit]
  exact List.prefix_append _ _

/-! ## The sending side, with failing writes -/

namespace TcpBaseSocket

variable {s : TcpBaseSocket}

/-- A posted write covers `msgbuffer1`, which holds some bytes, and keeps the socket open. -/
structure Posting (s : TcpBaseSocket) : Prop where
  sound : s._writer.Sound
  busy : s._writer.writing = true → s._socket.posted = some s._writer.msgbuffer1 ∧ s._flag ≠ .close ∧
    0 < s._writer.msgbuffer1.length
  idle : s._writer.writing = false → s._socket.posted = none

@[simp] theorem close_posted (s : TcpBaseSocket) : s._close._socket.posted = s._socket.posted := by
  unfold _close; split_ifs <;> rfl

@[simp] theorem close_shutdownRd (s : TcpBaseSocket) :
    s._close._socket.shutdownRd = s._socket.shutdownRd := by
  unfold _close; split_ifs <;> rfl

/-- `_Close` with no write posted closes the socket. -/
theorem close_idle (h : s._writer.writing = false) : s._close._flag = .close := by
  unfold _close
  split_ifs with hf
  · exact hf
  · rename_i hw
    rw [h] at hw
    cases hw
  · rfl

theorem Posting.close (h : s.Posting) : s._close.Posting := by
  refine ⟨by rw [close_writer]; exact h.sound, ?_, ?_⟩
  · intro hw
    rw [close_writer] at hw ⊢
    obtain ⟨hp, hf, hpos⟩ := h.busy hw
    refine ⟨(close_posted s).trans hp, ?_, hpos⟩
    unfold _close
    rw [if_neg hf, if_pos hw]
    intro hc
    cases hc
  · intro hw
    rw [close_writer] at hw
    exact (close_posted s).trans (h.idle hw)

/-- **`_TrySendData`, whether `AsyncSendSome` fails or not**: the bytes held stay, and so does the flag
unless the socket is closed with no write posted. -/
theorem Posting.trySendData (h : s.Posting) (hf : s._flag ≠ .close) (err : Bool) :
    (s._trySendData err).2.Posting ∧
      (s._trySendData err).2._writer.held = s._writer.held ∧
      (s._trySendData err).2._socket.shutdownRd = s._socket.shutdownRd ∧
      ((s._trySendData err).2._flag = s._flag ∨ err = true ∧ (s._trySendData err).2._flag = .close) ∧
      ((s._trySendData err).1 = true → (s._trySendData err).2._writer.writing = true) ∧
      (err = false → (s._trySendData err).1 = false → (s._trySendData err).2._writer.held = []) := by
  by_cases hw : s._writer.writing = true
  · -- the posted write goes on
    have he : s._trySendData err = (true, s) := if_pos hw
    rw [he]
    exact ⟨h, rfl, rfl, .inl rfl, fun _ => hw, fun _ hno => Bool.noConfusion hno⟩
  have hw' : s._writer.writing = false := by simpa using hw
  -- the socket whose `msgbuffer1` is what goes next
  obtain ⟨t, ht, hheld, hflag, hsock, hwr, hnil, hcut⟩ : ∃ t : TcpBaseSocket, t._writer.Sound ∧
      t._writer.held = s._writer.held ∧ t._flag = s._flag ∧ t._socket = s._socket ∧
      t._writer.writing = false ∧ (t._writer.msgbuffer1.length = 0 → t._writer.held = []) ∧
      s._trySendData err = if t._writer.msgbuffer1.length > 0 then
          if err then (false, t._close)
          else (true, { t with
            _writer := { t._writer with writing := true }
            _socket := { t._socket with posted := some t._writer.msgbuffer1 } })
        else (false, t) := by
    by_cases h1 : s._writer.msgbuffer1.length = 0
    · obtain ⟨hs, hh, h2⟩ := swap_spec h.sound h1
      refine ⟨s._swap, hs, hh, rfl, rfl, hw', ?_, ?_⟩
      · intro h0
        have hun : s._swap._writer.msgbuffer1.unread = [] := by
          rw [← List.length_eq_zero_iff, hs.wf1.unread_length, h0]
        rw [WriterInfo.held, hun, h2]
        rfl
      · simp only [_trySendData, if_neg hw, if_pos h1]
    · refine ⟨s, h.sound, rfl, rfl, rfl, hw', fun h0 => absurd h0 h1, ?_⟩
      simp only [_trySendData, if_neg hw, if_neg h1]
  have hposting : t.Posting := by
    refine ⟨ht, fun hb => ?_, fun _ => by rw [hsock]; exact h.idle hw'⟩
    rw [hwr] at hb
    cases hb
  rw [hcut]
  by_cases hpos : t._writer.msgbuffer1.length > 0
  · rw [if_pos hpos]
    cases err with
    | true =>
      refine ⟨hposting.close, ?_, ?_, .inr ⟨rfl, close_idle hwr⟩, fun hok => Bool.noConfusion hok,
        fun hno => Bool.noConfusion hno⟩
      · change t._close._writer.held = _
        rw [close_writer, hheld]
      · change t._close._socket.shutdownRd = _
        rw [close_shutdownRd, hsock]
    | false =>
      refine ⟨⟨⟨ht.wf1, ht.wf2, ht.offset2, ht.le1, ht.le2⟩, fun _ => ⟨rfl, ?_, hpos⟩,
        fun hidle => Bool.noConfusion hidle⟩, hheld, ?_, .inl hflag, fun _ => rfl,
        fun _ hno => Bool.noConfusion hno⟩
      · change t._flag ≠ .close
        rw [hflag]
        exact hf
      · change t._socket.shutdownRd = _
        rw [hsock]
  · rw [if_neg hpos]
    exact ⟨hposting, hheld, by rw [hsock], .inl hflag, fun hok => Bool.noConfusion hok,
      fun _ _ => hnil (by omega)⟩

/-- **`Send(data, len)`**: it refuses and changes nothing, or the frame goes to the end of the
bytes held and `_TrySendData` runs. -/
theorem send_cases (h : s._writer.Sound) (now : ℕ) (data : List Byte) (err : Bool) :
    s.send now data err = (false, s) ∨
      ∃ b, WriterInfo.Sound { s._writer with msgbuffer2 := b } ∧
        WriterInfo.held { s._writer with msgbuffer2 := b } =
          s._writer.held ++ encodeFrame (u32 now) data ∧
        s._flag = .start ∧ data.length ≤ socketPackSize ∧
        s.send now data err = (true, ((s.setMsgbuffer2 b)._trySendData err).2) := by
  -- the tests in the order of the source
  by_cases h0 : data.length = 0
  · exact .inl (if_pos h0)
  by_cases hbig : data.length > socketPackSize
  · exact .inl ((if_neg h0).trans (if_pos hbig))
  by_cases hf : s._flag ≠ .start
  · exact .inl ((if_neg h0).trans ((if_neg hbig).trans (if_pos hf)))
  by_cases hmax : u32 (s._writer.msgbuffer2.size + (data.length + hdrlen)) > maxBufferSize
  · exact .inl ((if_neg h0).trans ((if_neg hbig).trans ((if_neg hf).trans (if_pos hmax))))
  have hpos2 := h.le2
  have hu : u32 (s._writer.msgbuffer2.size + (data.length + hdrlen)) =
      s._writer.msgbuffer2._pos + (data.length + hdrlen) :=
    u32_of_lt (by simp only [Buffer.size, maxBufferSize, socketPackSize, hdrlen] at *; omega)
  have hle : s._writer.msgbuffer2._pos + (data.length + hdrlen) ≤ maxBufferSize := by omega
  -- the header is written, then the payload
  have h8 : (MessageHeader.mk (u32 now) data.length).h2n.bytes.length = hdrlen := rfl
  obtain ⟨hs1, hb1⟩ := h.write2 (Nat.le_of_eq h8.symm) (by omega)
  have hpos : (s._writer.msgbuffer2.write
      (MessageHeader.mk (u32 now) data.length).h2n.bytes hdrlen)._pos =
        s._writer.msgbuffer2._pos + hdrlen :=
    (h.wf2.write (Nat.le_of_eq h8.symm)
      (by simp only [maxBufferSize, bufferDefaultSize, hdrlen] at *; omega)).2.2.1
  obtain ⟨hs2, hb2⟩ := hs1.write2 (Nat.le_refl data.length)
    (by
      change (s._writer.msgbuffer2.write
        (MessageHeader.mk (u32 now) data.length).h2n.bytes hdrlen)._pos + _ ≤ _
      omega)
  have hbytes : (MessageHeader.mk (u32 now) data.length).h2n.bytes.take hdrlen ++
      data.take data.length = encodeFrame (u32 now) data := by
    rw [List.take_length, List.take_of_length_le (Nat.le_of_eq h8), MessageHeader.bytes_h2n, encodeFrame]
  rw [hb1, List.append_assoc, hbytes] at hb2
  refine .inr ⟨_, hs2, hb2, by simpa using hf, by omega, ?_⟩
  exact (if_neg h0).trans ((if_neg hbig).trans ((if_neg hf).trans (if_neg hmax)))

/-- The socket with the posted write gone and `n` bytes taken off. -/
theorem Posting.written (h : s.Posting) {b : Buffer} (hp : s._socket.posted = some b) {n : ℕ}
    (hn : n ≤ b.length) :
    ((s.setPosted none)._written n).Posting ∧
      ((s.setPosted none)._written n)._writer.held = s._writer.held.drop n ∧
      ((s.setPosted none)._written n)._writer.writing = false ∧
      ((s.setPosted none)._written n)._socket.shutdownRd = s._socket.shutdownRd ∧
      ((s.setPosted none)._written n)._flag ≠ .close := by
  have hw : s._writer.writing = true := by
    by_contra hw
    rw [h.idle (by simpa using hw)] at hp
    cases hp
  obtain ⟨hposted, hflag, -⟩ := h.busy hw
  obtain rfl : s._writer.msgbuffer1 = b := Option.some.inj (hposted.symm.trans hp)
  obtain ⟨hs, hheld⟩ := h.sound.cut1 hn
  have hint : toInt32 n = n := by
    have h1 := h.sound.le1
    have h2 := h.sound.wf1.length_eq
    have hu : u32 n = n := u32_of_lt (by simp only [maxBufferSize] at h1; omega)
    rw [toInt32, hu, if_pos (by simp only [maxBufferSize] at h1; omega)]
  have he : (s.setPosted none)._written n = { s with
      _writer := { s._writer with
        writing := false
        msgbuffer1 := s._writer.msgbuffer1.cutData n }
      _socket := { s._socket with posted := none } } := by
    rw [_written, hint]
    rfl
  have hlen : (s._writer.msgbuffer1.data.take n).length = n := by
    have htake : s._writer.msgbuffer1.data.take n = s._writer.msgbuffer1.unread.take n := by
      rw [← h.sound.wf1.data_take, List.take_take, Nat.min_eq_left hn]
    rw [htake, List.length_take, h.sound.wf1.unread_length, Nat.min_eq_left hn]
  rw [he]
  refine ⟨⟨⟨hs.wf1, hs.wf2, hs.offset2, hs.le1, hs.le2⟩, fun hbusy => Bool.noConfusion hbusy,
    fun _ => rfl⟩, ?_, rfl, rfl, hflag⟩
  rw [← hheld, List.drop_left' hlen]
  rfl

/-- **A completed write**: `n` bytes are taken off the front, or the socket is closed. When nothing
fails, a socket that posts no write again holds nothing. -/
theorem Posting.complete (h : s.Posting) {b : Buffer} (hp : s._socket.posted = some b) {n : ℕ}
    (hn : n ≤ b.length) (error err : Bool) :
    ((s.setPosted none)._writeHandler n error err).Posting ∧
      ((s.setPosted none)._writeHandler n error err)._socket.shutdownRd = s._socket.shutdownRd ∧
      (((s.setPosted none)._writeHandler n error err)._flag = .close ∨
        ((s.setPosted none)._writeHandler n error err)._writer.held = s._writer.held.drop n) ∧
      (error = false → err = false → 0 < n →
        ((s.setPosted none)._writeHandler n error err)._writer.held = s._writer.held.drop n ∧
        (((s.setPosted none)._writeHandler n error err)._writer.writing = false →
          ((s.setPosted none)._writeHandler n error err)._writer.held = [])) := by
  obtain ⟨hpost, hheld, hidle, hrd, hflag⟩ := h.written hp hn
  -- the socket that is closed without a look at the bytes
  have hclosed : ∀ t : TcpBaseSocket, t = { s.setPosted none with
      _writer := { s._writer with writing := false } } →
      t._close.Posting ∧ t._close._socket.shutdownRd = s._socket.shutdownRd ∧ t._close._flag = .close := by
    rintro t rfl
    have ht : Posting { s.setPosted none with _writer := { s._writer with writing := false } } :=
      ⟨⟨h.sound.wf1, h.sound.wf2, h.sound.offset2, h.sound.le1, h.sound.le2⟩,
        nofun, fun _ => rfl⟩
    exact ⟨ht.close, close_shutdownRd _, close_idle rfl⟩
  rw [writeHandler_eq]
  cases error with
  | true =>
    obtain ⟨h1, h2, h3⟩ := hclosed _ rfl
    exact ⟨h1, h2, .inl h3, nofun⟩
  | false =>
    rw [if_neg Bool.false_ne_true]
    by_cases h0 : n = 0
    · obtain ⟨h1, h2, h3⟩ := hclosed _ rfl
      rw [if_pos h0]
      exact ⟨h1, h2, .inl h3, fun _ _ hpos => by omega⟩
    rw [if_neg h0]
    obtain ⟨h1, h2, h3, -, hposts, h5⟩ := hpost.trySendData hflag err
    rw [hheld] at h2
    rw [hrd] at h3
    by_cases hlast : (!(((s.setPosted none)._written n)._trySendData err).1 &&
        decide ((((s.setPosted none)._written n)._trySendData err).2._flag ≠ .start)) = true
    · -- all is sent and the socket is closing
      rw [if_pos hlast]
      have hsent : (((s.setPosted none)._written n)._trySendData err).1 = false := by
        rw [Bool.and_eq_true, Bool.not_eq_true'] at hlast
        exact hlast.1
      have ht : Posting { (((s.setPosted none)._written n)._trySendData err).2 with
          _socket := { (((s.setPosted none)._written n)._trySendData err).2._socket with
            shutdownWr := true } } := ⟨h1.sound, h1.busy, h1.idle⟩
      refine ⟨ht.close, (close_shutdownRd _).trans h3, .inr ?_, fun _ hne _ => ⟨?_, fun _ => ?_⟩⟩
      · rw [close_writer]
        exact h2
      · rw [close_writer]
        exact h2
      · rw [close_writer]
        exact h5 hne hsent
    · rw [if_neg hlast]
      refine ⟨h1, h3, .inr h2, fun _ hne _ => ⟨h2, fun hw => h5 hne ?_⟩⟩
      by_contra hsent
      rw [hposts (by simpa using hsent)] at hw
      cases hw

end TcpBaseSocket

/-! ## One end -/

namespace PeerSocket

variable {io : Receiver σ} {u : σ} {e e' : PeerSocket σ} {wire : List Byte} {a : PeerAction}

/-- The bytes held that the system has not taken. -/
def rest (e : PeerSocket σ) : List Byte := e.sock._writer.held.drop (e.taken.getD 0)

/-- **The invariant of the writes**: until the socket is closed nothing is lost. -/
structure Sending (e : PeerSocket σ) : Prop where
  posting : e.sock.Posting
  taken : ∀ n, e.taken = some n → ∃ b, e.sock._socket.posted = some b ∧ n ≤ b.length
  fitting : Fitting e.accepted
  wire : e.wire <+: encodeFrames e.accepted
  bytes : e.sock._flag ≠ .close → e.wire ++ e.rest = encodeFrames e.accepted

/-- **The invariant of the reads**, where `wire` is what the system has taken from the peer. -/
structure Receives (io : Receiver σ) (u : σ) (e : PeerSocket σ) (wire : List Byte) : Prop where
  le : e.received ≤ wire.length
  seen : ∃ m ≤ e.received, e.got = ((frames socketPackSize).decode (wire.take m)).frames ∧
    (e.reading = .posted → m = e.received)
  holds : e.reading = .posted →
    Holds socketPackSize e.read.reader ((frames socketPackSize).decode (wire.take e.received)).tail
  handed : io.Through Handed u e.got e.read.user
  accepts : e.sock._socket.shutdownRd = false

theorem start_sending (u : σ) : (start u).Sending := by
  refine ⟨⟨connected_settled.sound, nofun, fun _ => rfl⟩, nofun, nofun, List.prefix_rfl, fun _ => rfl⟩

theorem start_receives (io : Receiver σ) (u : σ) : (start u).Receives io u [] := by
  have hd : (frames socketPackSize).decode [] = ⟨[], [], true⟩ :=
    Framing.decode_more (nextFrame_nil socketPackSize)
  refine ⟨Nat.le_refl _, ⟨0, Nat.le_refl _, ?_, fun _ => rfl⟩, fun _ => ?_, .nil io _ _, rfl⟩
  · rw [List.take_nil, hd]
    rfl
  · rw [List.take_nil, hd]
    exact .fresh

/-- A posted write is of an open socket, and what the system may take of it is at the front of the
bytes held. -/
theorem Sending.posted (h : e.Sending) {b : Buffer} (hp : e.sock._socket.posted = some b) :
    e.sock._flag ≠ .close ∧ e.sock._writer.writing = true ∧
      ∀ n ≤ b.length, b.data.take n = e.sock._writer.held.take n ∧ n ≤ e.sock._writer.held.length := by
  have hw : e.sock._writer.writing = true := by
    by_contra hw
    rw [h.posting.idle (by simpa using hw)] at hp
    cases hp
  obtain ⟨hposted, hflag, -⟩ := h.posting.busy hw
  obtain rfl : e.sock._writer.msgbuffer1 = b := Option.some.inj (hposted.symm.trans hp)
  refine ⟨hflag, hw, fun n hn => ?_⟩
  have hwf := h.posting.sound.wf1
  have hlen : n ≤ e.sock._writer.msgbuffer1.unread.length := by rw [hwf.unread_length]; exact hn
  have hfront : e.sock._writer.held.take n = e.sock._writer.msgbuffer1.unread.take n :=
    List.take_append_of_le_length hlen
  refine ⟨?_, ?_⟩
  · rw [hfront, ← hwf.data_take, List.take_take, Nat.min_eq_left hn]
  · rw [WriterInfo.held, List.length_append]
    omega

/-- The bytes taken of a posted write are among those held. -/
theorem Sending.taken_le (h : e.Sending) : e.taken.getD 0 ≤ e.sock._writer.held.length := by
  cases ht : e.taken with
  | none => exact Nat.zero_le _
  | some n =>
    obtain ⟨b, hp, hn⟩ := h.taken n ht
    exact ((h.posted hp).2.2 n hn).2

/-- The reader and its counts are nothing to the writes, nor is a shutdown of the reads. -/
theorem Sending.of_eq (h : e.Sending) (hw : e'.sock._writer = e.sock._writer)
    (hf : e'.sock._flag = e.sock._flag) (hp : e'.sock._socket.posted = e.sock._socket.posted)
    (ht : e'.taken = e.taken) (hwire : e'.wire = e.wire) (ha : e'.accepted = e.accepted) :
    e'.Sending := by
  have hr : e'.rest = e.rest := by rw [rest, rest, hw, ht]
  refine ⟨⟨?_, ?_, ?_⟩, ?_, ?_, ?_, ?_⟩
  · rw [hw]; exact h.posting.sound
  · rw [hw, hp, hf]; exact h.posting.busy
  · rw [hw, hp]; exact h.posting.idle
  · rw [ht, hp]; exact h.taken
  · rw [ha]; exact h.fitting
  · rw [hwire, ha]; exact h.wire
  · rw [hf, hwire, hr, ha]; exact h.bytes

theorem Sending.send (h : e.Sending) (now : ℕ) (data : List Byte) (err : Bool) :
    Sending { e with
      sock := (e.sock.send now data err).2
      accepted :=
        if (e.sock.send now data err).1 then e.accepted ++ [(u32 now, data)] else e.accepted } := by
  obtain he | ⟨b, hs, hheld, hstart, hle, he⟩ := send_cases h.posting.sound now data err
  · rw [he]
    exact h
  rw [he]
  have hnc : (e.sock.setMsgbuffer2 b)._flag ≠ .close := by
    rw [setMsgbuffer2_flag, hstart]
    decide
  have hpost : (e.sock.setMsgbuffer2 b).Posting := ⟨hs, h.posting.busy, h.posting.idle⟩
  obtain ⟨h1, h2, -, h4, -⟩ := hpost.trySendData hnc err
  refine ⟨h1, ?_, ?_, ?_, ?_⟩
  · -- a write that the system has begun to take goes on
    intro n hn
    obtain ⟨b', hp, hle'⟩ := h.taken n hn
    have hkeep : (e.sock.setMsgbuffer2 b)._trySendData err = (true, e.sock.setMsgbuffer2 b) :=
      if_pos (h.posted hp).2.1
    rw [hkeep]
    exact ⟨b', hp, hle'⟩
  · intro f hf
    obtain hf | hf := List.mem_append.mp hf
    · exact h.fitting f hf
    · obtain rfl := List.mem_singleton.mp hf
      exact hle
  · change e.wire <+: encodeFrames (e.accepted ++ [(u32 now, data)])
    rw [encodeFrames_snoc]
    exact h.wire.trans (List.prefix_append _ _)
  · intro _
    change e.wire ++ List.drop (e.taken.getD 0) ((e.sock.setMsgbuffer2 b)._trySendData err).2._writer.held =
      encodeFrames (e.accepted ++ [(u32 now, data)])
    have hbytes := h.bytes (by rw [hstart]; decide)
    have hheld' : (e.sock.setMsgbuffer2 b)._writer.held =
        e.sock._writer.held ++ encodeFrame (u32 now) data := hheld
    rw [h2, hheld', List.drop_append_of_le_length h.taken_le, ← List.append_assoc, encodeFrames_snoc,
      ← hbytes]
    rfl

theorem Sending.close (h : e.Sending) : Sending { e with sock := e.sock._close } := by
  have hrest : rest { e with sock := e.sock._close } = e.rest := by
    rw [rest, rest, close_writer]
  refine ⟨h.posting.close, ?_, h.fitting, h.wire, ?_⟩
  · intro n hn
    obtain ⟨b, hp, hle⟩ := h.taken n hn
    exact ⟨b, (close_posted e.sock).trans hp, hle⟩
  · intro hf
    rw [hrest]
    refine h.bytes fun hc => hf ?_
    change e.sock._close._flag = .close
    rw [_close, if_pos hc]
    exact hc

theorem Sending.take (h : e.Sending) {b : Buffer} (hp : e.sock._socket.posted = some b)
    (ht : e.taken = none) {n : ℕ} (hn : n ≤ b.length) :
    Sending { e with taken := some n, wire := e.wire ++ b.data.take n } := by
  obtain ⟨hflag, -, hfront⟩ := h.posted hp
  have hbytes : (e.wire ++ b.data.take n) ++ e.sock._writer.held.drop n = encodeFrames e.accepted := by
    rw [(hfront n hn).1, List.append_assoc, List.take_append_drop, ← h.bytes hflag, rest, ht]
    rfl
  refine ⟨h.posting, ?_, h.fitting, ?_, fun _ => hbytes⟩
  · intro m hm
    obtain rfl := Option.some.inj hm
    exact ⟨b, hp, hn⟩
  · rw [← hbytes]
    exact List.prefix_append _ _

theorem Sending.taken_le_posted (h : e.Sending) {b : Buffer} (hp : e.sock._socket.posted = some b) :
    e.taken.getD 0 ≤ b.length := by
  cases ht : e.taken with
  | none => exact Nat.zero_le _
  | some n =>
    obtain ⟨b', hp', hle⟩ := h.taken n ht
    obtain rfl := Option.some.inj (hp'.symm.trans hp)
    exact hle

theorem Sending.complete (h : e.Sending) {b : Buffer} (hp : e.sock._socket.posted = some b)
    (error err : Bool) :
    Sending { e with
      sock := (e.sock.setPosted none)._writeHandler (e.taken.getD 0) error err
      taken := none } := by
  have hn := h.taken_le_posted hp
  obtain ⟨h1, -, h3, -⟩ := h.posting.complete hp hn error err
  refine ⟨h1, nofun, h.fitting, h.wire, fun hf => ?_⟩
  have hheld := h3.resolve_left hf
  rw [← h.bytes (h.posted hp).1]
  exact congrArg _ hheld

/-! ### Reads -/

/-- What an end reads does not depend on what it writes. -/
theorem Receives.of_eq (h : e.Receives io u wire) (hread : e'.read = e.read)
    (hr : e'.reading = e.reading) (hn : e'.received = e.received) (hg : e'.got = e.got)
    (ha : e'.sock._socket.shutdownRd = e.sock._socket.shutdownRd) : e'.Receives io u wire := by
  refine ⟨?_, ?_, ?_, ?_, ?_⟩
  · rw [hn]; exact h.le
  · rw [hn, hg, hr]; exact h.seen
  · rw [hr, hread, hn]; exact h.holds
  · rw [hg, hread]; exact h.handed
  · rw [ha]; exact h.accepts

/-- No further read is posted. -/
theorem Receives.stop (h : e.Receives io u wire) {r : Reading} (hr : r ≠ .posted) :
    Receives io u { e with reading := r } wire := by
  obtain ⟨m, hm, hg, -⟩ := h.seen
  exact ⟨h.le, ⟨m, hm, hg, fun hp => absurd hp hr⟩, fun hp => absurd hp hr, h.handed, h.accepts⟩

/-- The peer writes on. -/
theorem Receives.append (h : e.Receives io u wire) {wire' : List Byte} (hw : wire <+: wire') :
    e.Receives io u wire' := by
  have htake : ∀ m ≤ e.received, wire'.take m = wire.take m := by
    intro m hm
    obtain ⟨r, rfl⟩ := hw
    exact List.take_append_of_le_length (Nat.le_trans hm h.le)
  obtain ⟨m, hm, hg, hp⟩ := h.seen
  refine ⟨Nat.le_trans h.le hw.length_le, ⟨m, hm, ?_, hp⟩, fun hr => ?_, h.handed, h.accepts⟩
  · rw [htake m hm]; exact hg
  · rw [htake _ (Nat.le_refl _)]; exact h.holds hr

/-- **A read of `n` bytes** of a stream that is not rejected: the handler returns, and the reader is
that of the longer prefix. -/
theorem Receives.read (h : e.Receives io u wire)
    (hok : ((frames socketPackSize).decode wire).ok = true) (hr : e.reading = .posted) {n : ℕ}
    (hn : n ≤ socketReadSize) (hle : e.received + n ≤ wire.length) (err : Bool) :
    ∃ e', e._readHandler io ((wire.drop e.received).take n) err = some e' ∧ e'.Receives io u wire ∧
      e'.received = e.received + n ∧
      (e.sock._flag = .start → err = false → e'.reading = .posted) := by
  set bytes := (wire.drop e.received).take n with hbytes
  have hlen : bytes.length = n := by
    rw [hbytes, List.length_take, List.length_drop]
    omega
  obtain ⟨m, hm, hgot, hmr⟩ := h.seen
  obtain rfl := hmr hr
  by_cases hf : e.sock._flag ≠ .start
  · -- the bytes are dropped
    refine ⟨{ e with received := e.received + bytes.length, reading := .closing }, if_pos hf, ?_,
      congrArg _ hlen, fun hc => absurd hc hf⟩
    refine ⟨?_, ⟨e.received, Nat.le_add_right _ _, hgot, nofun⟩, nofun, h.handed, h.accepts⟩
    change e.received + bytes.length ≤ _
    rw [hlen]
    exact hle
  · have hmore : wire.take (e.received + bytes.length) = wire.take e.received ++ bytes := by
      rw [hlen, hbytes, List.take_add]
    have hacc : ((frames socketPackSize).decode (wire.take e.received ++ bytes)).ok = true := by
      rw [← hmore]
      exact (Framing.decode_prefix (List.take_prefix _ _) hok).1
    have hold : ((frames socketPackSize).decode (wire.take e.received)).ok = true :=
      (Framing.decode_prefix (List.take_prefix _ _) hok).1
    have happ := Framing.decode_append (F := frames socketPackSize) (wire.take e.received) bytes
    rw [if_pos hold] at happ
    set d := (frames socketPackSize).decode
      (((frames socketPackSize).decode (wire.take e.received)).tail ++ bytes) with hd
    obtain ⟨read', hcut, hthrough, hholds⟩ := cutMsgPackLoop_spec io (bytes.length + 1) e.read _ bytes
      (h.holds hr) (by rw [hlen]; simp only [socketReadSize] at hn; simp only [socketPackSize]; omega)
      (Nat.lt_succ_self _)
    rw [← hd] at hcut hthrough hholds
    have hdok : d.ok = true := by
      rw [happ] at hacc
      exact hacc
    refine ⟨{ e with
      received := e.received + bytes.length
      read := read'
      got := e.got ++ d.frames
      reading := if err then .closing else .posted }, ?_, ?_, congrArg _ hlen, ?_⟩
    · have hcall : TcpStreamSocket._cutMsgPack io e.read bytes = some (d.ok, d.frames, read') := hcut
      simp only [_readHandler, if_neg hf, hcall, Option.map_some, hdok, if_true]
    · refine ⟨?_, ⟨e.received + bytes.length, Nat.le_refl _, ?_, fun _ => rfl⟩, fun _ => ?_,
        h.handed.append hthrough, h.accepts⟩
      · change e.received + bytes.length ≤ _
        rw [hlen]
        exact hle
      · change e.got ++ d.frames = _
        rw [hmore, happ, hgot]
      · change Holds socketPackSize read'.reader
          ((frames socketPackSize).decode (wire.take (e.received + bytes.length))).tail
        rw [hmore, happ]
        exact hholds hdok
    · rintro - rfl
      rfl

/-- The read handler does not touch what the writes look at. -/
theorem readHandler_frame {bytes : List Byte} {err : Bool}
    (hs : e._readHandler io bytes err = some e') :
    e'.sock._writer = e.sock._writer ∧ e'.sock._flag = e.sock._flag ∧
      e'.sock._socket.posted = e.sock._socket.posted ∧ e'.taken = e.taken ∧ e'.wire = e.wire ∧
      e'.accepted = e.accepted := by
  simp only [_readHandler] at hs
  split at hs
  · obtain rfl := Option.some.inj hs
    exact ⟨rfl, rfl, rfl, rfl, rfl, rfl⟩
  · obtain ⟨⟨ok, payloads, read'⟩, -, he⟩ := Option.map_eq_some_iff.mp hs
    cases ok with
    | true =>
      obtain rfl := he
      exact ⟨rfl, rfl, rfl, rfl, rfl, rfl⟩
    | false =>
      obtain rfl := he
      exact ⟨rfl, rfl, rfl, rfl, rfl, rfl⟩

/-! ### Steps -/

theorem step_send (e : PeerSocket σ) (now : ℕ) (data : List Byte) (err : Bool) :
    e.step io wire (.send now data err) = some { e with
      sock := (e.sock.send now data err).2
      accepted :=
        if (e.sock.send now data err).1 then e.accepted ++ [(u32 now, data)] else e.accepted } := rfl

theorem step_take {n : ℕ} (hs : e.step io wire (.take n) = some e') :
    ∃ b, e.sock._socket.posted = some b ∧ e.taken = none ∧ n ≤ b.length ∧
      e' = { e with taken := some n, wire := e.wire ++ b.data.take n } := by
  simp only [step] at hs
  split at hs
  · rename_i b hp ht
    split at hs
    · rename_i hn
      exact ⟨b, hp, ht, hn, (Option.some.inj hs).symm⟩
    · cases hs
  · cases hs

theorem step_complete {error err : Bool}
    (hs : e.step io wire (.complete error err) = some e') :
    ∃ b, e.sock._socket.posted = some b ∧ e' = { e with
      sock := (e.sock.setPosted none)._writeHandler (e.taken.getD 0) error err
      taken := none } := by
  simp only [step] at hs
  split at hs
  · cases hs
  · rename_i hp
    obtain ⟨b, hb⟩ := Option.ne_none_iff_exists'.mp hp
    exact ⟨b, hb, (Option.some.inj hs).symm⟩

/-- **Every step keeps the writes consistent**, and what is on the wire stays there. -/
theorem Sending.step (h : e.Sending) (hs : e.step io wire a = some e') :
    e'.Sending ∧ e.wire <+: e'.wire := by
  cases a with
  | send now data err =>
    rw [step_send] at hs
    obtain rfl := Option.some.inj hs
    exact ⟨h.send now data err, List.prefix_rfl⟩
  | close =>
    obtain rfl := Option.some.inj hs
    exact ⟨h.close, List.prefix_rfl⟩
  | take n =>
    obtain ⟨b, hp, ht, hn, rfl⟩ := step_take hs
    exact ⟨h.take hp ht hn, List.prefix_append _ _⟩
  | complete error err =>
    obtain ⟨b, hp, rfl⟩ := step_complete hs
    exact ⟨h.complete hp error err, List.prefix_rfl⟩
  | read n err =>
    obtain ⟨-, hs'⟩ := Option.ite_none_right_eq_some.mp hs
    obtain ⟨hw, hf, hp, ht, hwire, ha⟩ := readHandler_frame hs'
    exact ⟨h.of_eq hw hf hp ht hwire ha, hwire ▸ List.prefix_rfl⟩
  | readFails =>
    obtain ⟨-, hs'⟩ := Option.ite_none_right_eq_some.mp hs
    obtain rfl := Option.some.inj hs'
    exact ⟨h.of_eq rfl rfl rfl rfl rfl rfl, List.prefix_rfl⟩
  | postClose =>
    obtain ⟨-, hs'⟩ := Option.ite_none_right_eq_some.mp hs
    obtain rfl := Option.some.inj hs'
    exact ⟨h.close.of_eq rfl rfl rfl rfl rfl rfl, List.prefix_rfl⟩

/-- **Every step keeps the reads consistent** when the peer's stream is not rejected. -/
theorem Receives.step (h : e.Receives io u wire) (hsend : e.Sending)
    (hok : ((frames socketPackSize).decode wire).ok = true) (hs : e.step io wire a = some e') :
    e'.Receives io u wire := by
  cases a with
  | send now data err =>
    rw [step_send] at hs
    obtain rfl := Option.some.inj hs
    refine h.of_eq rfl rfl rfl rfl ?_
    change (e.sock.send now data err).2._socket.shutdownRd = _
    obtain he | ⟨b, hsound, -, hstart, -, he⟩ := send_cases hsend.posting.sound now data err
    · rw [he]
    · rw [he]
      have hpost : (e.sock.setMsgbuffer2 b).Posting :=
        ⟨hsound, hsend.posting.busy, hsend.posting.idle⟩
      exact (hpost.trySendData (by rw [setMsgbuffer2_flag, hstart]; decide) err).2.2.1
  | close =>
    obtain rfl := Option.some.inj hs
    exact h.of_eq rfl rfl rfl rfl (close_shutdownRd e.sock)
  | take n =>
    obtain ⟨b, -, -, -, rfl⟩ := step_take hs
    exact h.of_eq rfl rfl rfl rfl rfl
  | complete error err =>
    obtain ⟨b, hp, rfl⟩ := step_complete hs
    have hn : e.taken.getD 0 ≤ b.length := hsend.taken_le_posted hp
    exact h.of_eq rfl rfl rfl rfl (hsend.posting.complete hp hn error err).2.1
  | read n err =>
    obtain ⟨⟨hr, -, hn, hle⟩, hs'⟩ := Option.ite_none_right_eq_some.mp hs
    obtain ⟨e₁, he₁, h₁, -⟩ := h.read hok hr hn hle err
    obtain rfl := Option.some.inj (he₁.symm.trans hs')
    exact h₁
  | readFails =>
    obtain ⟨-, hs'⟩ := Option.ite_none_right_eq_some.mp hs
    obtain rfl := Option.some.inj hs'
    exact h.stop (by decide)
  | postClose =>
    obtain ⟨-, hs'⟩ := Option.ite_none_right_eq_some.mp hs
    obtain rfl := Option.some.inj hs'
    exact (h.stop (r := .done) (by decide)).of_eq rfl rfl rfl rfl (close_shutdownRd e.sock)

/-- The stream of an end is not rejected by a reader with the same limit. -/
theorem Sending.decode_wire (h : e.Sending) :
    ((frames socketPackSize).decode e.wire).ok = true := by
  refine (Framing.decode_prefix h.wire ?_).1
  rw [decode_frames h.fitting]

/-- **The two invariants are what was promised.** -/
theorem Receives.prefixes {p : PeerSocket σ} (h : e.Receives io u p.wire) (hp : p.Sending) :
    e.Delivers io u p := by
  have hd := decode_frames hp.fitting
  obtain ⟨m, hm, hgot, hmr⟩ := h.seen
  have hpre : p.wire.take m <+: encodeFrames p.accepted := (List.take_prefix _ _).trans hp.wire
  refine ⟨?_, h.handed, h.accepts, ?_, ?_⟩
  · have := (Framing.decode_prefix hpre (by rw [hd])).2
    rw [hd] at this
    rw [hgot]
    exact this
  · intro hr k hk
    obtain rfl := hmr hr
    have hlen : (p.wire.take e.received).length = e.received := by
      rw [List.length_take, Nat.min_eq_left h.le]
    rw [hgot]
    exact frames_prefix hp.fitting hpre (by rw [hlen]; exact hk)
  · intro n err hr h0 hn hle hnone
    obtain ⟨e', he', -⟩ := h.read hp.decode_wire hr hn hle err
    have hs : e.step io p.wire (.read n err) = some e' := (if_pos ⟨hr, h0, hn, hle⟩).trans he'
    rw [hs] at hnone
    cases hnone

end PeerSocket

/-! ## Runs -/

theorem Side.peer_peer (i : Side) : i.peer.peer = i := by cases i <;> rfl

theorem Side.peer_ne (i : Side) : i.peer ≠ i := by cases i <;> decide

theorem Side.eq_or (i j : Side) : i = j ∨ i = j.peer := by cases i <;> cases j <;> decide

namespace Peers

open PeerSocket

variable {io : Receiver σ} {user : Side → σ}

/-- **The invariant of the runs.** -/
structure Joined (io : Receiver σ) (user : Side → σ) (w : Peers σ) : Prop where
  sending : ∀ i, (w i).Sending
  receives : ∀ i, (w i).Receives io (user i) (w i.peer).wire

theorem start_joined : Joined io user (start user) :=
  ⟨fun i => start_sending (user i), fun i => start_receives io (user i)⟩

theorem Joined.step {w w' : Peers σ} {a : Side × PeerAction} (h : Joined io user w)
    (hs : step io w a = some w') : Joined io user w' := by
  obtain ⟨j, a⟩ := a
  obtain ⟨e', he', rfl⟩ := Option.map_eq_some_iff.mp hs
  change (w j).step io (w j.peer).wire a = some e' at he'
  change Joined io user (Function.update w j e')
  obtain ⟨hsend, hwire⟩ := (h.sending j).step he'
  have hrecv := (h.receives j).step (h.sending j) (h.sending j.peer).decode_wire he'
  have hself : Function.update w j e' j = e' := Function.update_self j e' w
  have hpeer : Function.update w j e' j.peer = w j.peer := Function.update_of_ne j.peer_ne e' w
  refine ⟨fun i => ?_, fun i => ?_⟩
  · obtain rfl | rfl := i.eq_or j
    · rw [hself]; exact hsend
    · rw [hpeer]; exact h.sending _
  · obtain rfl | rfl := i.eq_or j
    · rw [hself, hpeer]
      exact hrecv
    · -- the peer of the end that moved sees a longer stream
      rw [hpeer, j.peer_peer, hself]
      have hold := h.receives j.peer
      rw [j.peer_peer] at hold
      exact hold.append hwire

/-- **Delivery between two connected sockets.** In every run of both ends, with writes and reads
that fail at any point and every order of the steps, each end hands out what its peer has accepted:
in order, nothing twice, nothing left out, nothing rejected. -/
theorem delivers {w : Peers σ} (h : Reach (step io) always (start user) w) (i : Side) :
    (w i).Delivers io (user i) (w i.peer) := by
  have hjoined := h.inv (I := Joined io user) start_joined fun _ _ _ hi _ hs => hi.step hs
  exact (hjoined.receives i).prefixes (hjoined.sending i.peer)

/-- A callback that counts, and a frame of one byte that arrives before its `_WriteHandler` runs. -/
theorem delivers_one : ∃ (io : Receiver ℕ) (w : Peers ℕ), (w .right).got = [[7]] ∧
    (w .right).Delivers io 0 (w .left) := by
  have h : Reach (step ⟨fun n b => (n + 1, b), fun _ _ h => h⟩) always (start fun _ => 0) _ :=
    .next (a := (.right, .read 9 false))
      (.next (a := (.left, .take 9)) (.single (a := (.left, .send 0 [7] false)) trivial rfl) trivial rfl)
      trivial rfl
  exact ⟨_, _, rfl, delivers h .right⟩

/-! ## Without failing writes -/

/-- Nothing that was accepted is lost, and what is held waits for a write that is posted. -/
structure Lossless (e : PeerSocket σ) : Prop where
  bytes : e.wire ++ e.rest = encodeFrames e.accepted
  idle : e.sock._writer.writing = false → e.sock._writer.held = []
  taken : ∀ n, e.taken = some n → 0 < n

theorem Lossless.of_eq {e e' : PeerSocket σ} (h : Lossless e) (hw : e'.sock._writer = e.sock._writer)
    (ht : e'.taken = e.taken) (hwire : e'.wire = e.wire) (ha : e'.accepted = e.accepted) :
    Lossless e' := by
  have hr : e'.rest = e.rest := by rw [rest, rest, hw, ht]
  exact ⟨by rw [hwire, hr, ha]; exact h.bytes, by rw [hw]; exact h.idle, by rw [ht]; exact h.taken⟩

theorem Lossless.send {e : PeerSocket σ} (h : Lossless e) (hs : e.Sending) (now : ℕ)
    (data : List Byte) :
    Lossless { e with
      sock := (e.sock.send now data false).2
      accepted :=
        if (e.sock.send now data false).1 then e.accepted ++ [(u32 now, data)] else e.accepted } := by
  have hsend := hs.send now data false
  obtain he | ⟨b, hsound, -, hstart, -, he⟩ := send_cases hs.posting.sound now data false
  · rw [he]
    exact h
  have hpost : (e.sock.setMsgbuffer2 b).Posting := ⟨hsound, hs.posting.busy, hs.posting.idle⟩
  have hnc : (e.sock.setMsgbuffer2 b)._flag ≠ .close := by
    rw [setMsgbuffer2_flag, hstart]
    decide
  obtain ⟨-, -, -, hflag, hwrites, hnil⟩ := hpost.trySendData hnc false
  refine ⟨hsend.bytes ?_, ?_, h.taken⟩
  · change (e.sock.send now data false).2._flag ≠ .close
    rw [he]
    obtain hf | ⟨hc, -⟩ := hflag
    · exact fun hc => hnc (hf.symm.trans hc)
    · cases hc
  · change (e.sock.send now data false).2._writer.writing = false →
      (e.sock.send now data false).2._writer.held = []
    rw [he]
    intro hw
    refine hnil rfl ?_
    by_contra hsent
    have hbusy := hwrites (by simpa using hsent)
    exact absurd (hbusy.symm.trans hw) (by decide)

theorem Lossless.close {e : PeerSocket σ} (h : Lossless e) :
    Lossless { e with sock := e.sock._close } := by
  have hrest : rest { e with sock := e.sock._close } = e.rest := by rw [rest, rest, close_writer]
  refine ⟨by rw [hrest]; exact h.bytes, ?_, h.taken⟩
  change e.sock._close._writer.writing = false → e.sock._close._writer.held = []
  rw [close_writer]
  exact h.idle

/-- A write that completes without error takes its bytes off the front. -/
theorem Lossless.complete {e : PeerSocket σ} (h : Lossless e) (hs : e.Sending) {b : Buffer}
    (hp : e.sock._socket.posted = some b) (ht : e.taken ≠ none) :
    ((e.sock.setPosted none)._writeHandler (e.taken.getD 0) false false)._writer.held = e.rest ∧
      (((e.sock.setPosted none)._writeHandler (e.taken.getD 0) false false)._writer.writing = false →
        ((e.sock.setPosted none)._writeHandler (e.taken.getD 0) false false)._writer.held = []) := by
  obtain ⟨n, hn⟩ := Option.ne_none_iff_exists'.mp ht
  have hpos : 0 < e.taken.getD 0 := by
    rw [hn]
    exact h.taken n hn
  exact (hs.posting.complete hp (hs.taken_le_posted hp) false false).2.2.2 rfl rfl hpos

/-- A step without a failing write. -/
theorem Lossless.step {w w' : Peers σ} {i : Side} {a : Side × PeerAction} (h : Lossless (w i))
    (hs : (w i).Sending) (hc : NoFail i w a) (hstep : step io w a = some w') : Lossless (w' i) := by
  obtain ⟨j, a⟩ := a
  obtain ⟨e', he', rfl⟩ := Option.map_eq_some_iff.mp hstep
  change (w j).step io (w j.peer).wire a = some e' at he'
  change Lossless (Function.update w j e' i)
  by_cases hij : j = i
  swap
  · rw [Function.update_of_ne (Ne.symm hij)]
    exact h
  obtain rfl := hij
  rw [Function.update_self]
  have hc := hc rfl
  cases a with
  | send now data err =>
    obtain rfl : err = false := hc
    rw [step_send] at he'
    obtain rfl := Option.some.inj he'
    exact h.send hs now data
  | close =>
    obtain rfl := Option.some.inj he'
    exact h.close
  | take n =>
    obtain ⟨b, hp, ht, hn, rfl⟩ := step_take he'
    refine ⟨(hs.take hp ht hn).bytes (hs.posted hp).1, h.idle, fun m hm => ?_⟩
    obtain rfl := Option.some.inj hm
    exact hc
  | complete error err =>
    obtain ⟨rfl, rfl, hsome⟩ := hc
    obtain ⟨b, hp, rfl⟩ := step_complete he'
    obtain ⟨hheld, hnil⟩ := h.complete hs hp hsome
    refine ⟨?_, hnil, nofun⟩
    rw [← h.bytes]
    exact congrArg _ hheld
  | read n err =>
    obtain ⟨-, hs'⟩ := Option.ite_none_right_eq_some.mp he'
    obtain ⟨hw, -, -, ht, hwire, ha⟩ := readHandler_frame hs'
    exact h.of_eq hw ht hwire ha
  | readFails =>
    obtain ⟨-, hs'⟩ := Option.ite_none_right_eq_some.mp he'
    obtain rfl := Option.some.inj hs'
    exact h.of_eq rfl rfl rfl rfl
  | postClose =>
    obtain ⟨-, hs'⟩ := Option.ite_none_right_eq_some.mp he'
    obtain rfl := Option.some.inj hs'
    exact h.close.of_eq rfl rfl rfl rfl

/-- The runs in which no write of the peer of `i` fails. -/
abbrev Served (io : Receiver σ) (i : Side) : Peers σ → Peers σ → Prop :=
  Reach (step io) (NoFail i.peer)

/-- What the runs without a failing write keep, for the reader `i`. -/
structure Served.Inv (io : Receiver σ) (user : Side → σ) (i : Side) (w : Peers σ) : Prop where
  joined : Joined io user w
  lossless : Lossless (w i.peer)

theorem Served.keep {i : Side} {w w' : Peers σ} (h : Inv io user i w) (hr : Served io i w w') :
    Inv io user i w' :=
  Reach.inv (I := Inv io user i) h (fun _ _ _ hi hc hs =>
    ⟨hi.joined.step hs, hi.lossless.step (hi.joined.sending _) hc hs⟩) hr

theorem Served.start_inv (i : Side) : Inv io user i (start user) :=
  ⟨start_joined, ⟨rfl, fun _ => rfl, nofun⟩⟩

/-- While a write is posted, the run can go on to a state in which fewer bytes are held. -/
theorem Served.write_on {i : Side} {w : Peers σ} (h : Inv io user i w)
    (hw : (w i.peer).sock._writer.writing = true) :
    ∃ w', Served io i w w' ∧ w' i = w i ∧ (w' i.peer).accepted = (w i.peer).accepted ∧
      (w' i.peer).sock._writer.held.length < (w i.peer).sock._writer.held.length := by
  have hi : i ≠ i.peer := Ne.symm i.peer_ne
  obtain ⟨hp, hnc, hpos⟩ := (h.joined.sending i.peer).posting.busy hw
  -- the system takes the bytes, if it has not taken some
  obtain ⟨w₁, hr₁, hi₁, ha₁, hsock, ht⟩ : ∃ w₁, Served io i w w₁ ∧ w₁ i = w i ∧
      (w₁ i.peer).accepted = (w i.peer).accepted ∧ (w₁ i.peer).sock = (w i.peer).sock ∧ (w₁ i.peer).taken ≠ none := by
    by_cases ht : (w i.peer).taken = none
    · set n := (w i.peer).sock._writer.msgbuffer1.length
      set e₁ : PeerSocket σ := { w i.peer with
        taken := some n
        wire := (w i.peer).wire ++ (w i.peer).sock._writer.msgbuffer1.data.take n } with he₁
      have hs : (w i.peer).step io (w i.peer.peer).wire (.take n) = some e₁ := by
        simp only [PeerSocket.step, hp, ht]
        exact if_pos (Nat.le_refl _)
      have hstep : step io w (i.peer, .take n) = some (Function.update w i.peer e₁) := congrArg _ hs
      refine ⟨_, .single (fun _ => hpos) hstep, Function.update_of_ne hi e₁ w, ?_, ?_, ?_⟩
      · rw [Function.update_self]
      · rw [Function.update_self]
      · rw [Function.update_self]
        nofun
    · exact ⟨w, .refl, rfl, rfl, rfl, ht⟩
  have h₁ := Served.keep h hr₁
  have hp₁ : (w₁ i.peer).sock._socket.posted = some (w i.peer).sock._writer.msgbuffer1 := by rw [hsock, hp]
  -- and the write completes
  set e₂ : PeerSocket σ := { w₁ i.peer with
    sock := ((w₁ i.peer).sock.setPosted none)._writeHandler ((w₁ i.peer).taken.getD 0) false false
    taken := none } with he₂
  have hs : (w₁ i.peer).step io (w₁ i.peer.peer).wire (.complete false false) = some e₂ :=
    if_neg (by rw [hp₁]; nofun)
  have hstep : step io w₁ (i.peer, .complete false false) = some (Function.update w₁ i.peer e₂) := congrArg _ hs
  refine ⟨_, .next (a := (i.peer, .complete false false)) hr₁ (fun _ => ⟨rfl, rfl, ht⟩) hstep, ?_, ?_, ?_⟩
  · rw [Function.update_of_ne hi, hi₁]
  · rw [Function.update_self, ← ha₁]
  · rw [Function.update_self]
    obtain ⟨n, hn⟩ := Option.ne_none_iff_exists'.mp ht
    have hheld := (h₁.lossless.complete (h₁.joined.sending i.peer) hp₁ ht).1
    have hle := (h₁.joined.sending i.peer).taken_le
    have hn0 := h₁.lossless.taken n hn
    change (((w₁ i.peer).sock.setPosted none)._writeHandler ((w₁ i.peer).taken.getD 0) false
      false)._writer.held.length < _
    rw [hheld, rest, List.length_drop, ← hsock, hn]
    rw [hn] at hle
    simp only [Option.getD_some] at hle ⊢
    omega

/-- The peer's writes can all complete. -/
theorem Served.write_out {i : Side} {w : Peers σ} (h : Inv io user i w) :
    ∃ w', Served io i w w' ∧ w' i = w i ∧ (w' i.peer).accepted = (w i.peer).accepted ∧
      (w' i.peer).sock._writer.writing = false := by
  induction hn : (w i.peer).sock._writer.held.length using Nat.strongRecOn generalizing w with
  | _ n ih =>
    by_cases hw : (w i.peer).sock._writer.writing = true
    · obtain ⟨w₁, hr₁, hi₁, ha₁, hlt⟩ := write_on h hw
      obtain ⟨w', hr, hi', ha', hw'⟩ := ih _ (hn ▸ hlt) (Served.keep h hr₁) rfl
      exact ⟨w', hr₁.trans hr, hi'.trans hi₁, ha'.trans ha₁, hw'⟩
    · exact ⟨w, .refl, rfl, rfl, by simpa using hw⟩

/-- The reads can bring all that is on the wire. -/
theorem Served.read_out {i : Side} {w : Peers σ} (h : Inv io user i w)
    (hr : (w i).reading = .posted) (hf : (w i).sock._flag = .start) :
    ∃ w', Served io i w w' ∧ w' i.peer = w i.peer ∧ (w' i).reading = .posted ∧
      (w' i).received = (w' i.peer).wire.length := by
  induction hn : (w i.peer).wire.length - (w i).received using Nat.strongRecOn generalizing w with
  | _ k ih =>
    have hrecv := h.joined.receives i
    by_cases hall : (w i).received = (w i.peer).wire.length
    · exact ⟨w, .refl, rfl, hr, hall⟩
    · -- one more read
      have hle := hrecv.le
      set n := min socketReadSize ((w i.peer).wire.length - (w i).received) with hmin
      have h0 : 0 < n := by
        rw [hmin, Nat.lt_min]
        exact ⟨by decide, by omega⟩
      have hn1 : n ≤ socketReadSize := Nat.min_le_left _ _
      have hn2 : (w i).received + n ≤ (w i.peer).wire.length := by
        have := Nat.min_le_right socketReadSize ((w i.peer).wire.length - (w i).received)
        omega
      obtain ⟨e', he', -, hreceived, hposted⟩ :=
        hrecv.read (h.joined.sending i.peer).decode_wire hr hn1 hn2 false
      have hs : (w i).step io (w i.peer).wire (.read n false) = some e' :=
        (if_pos ⟨hr, h0, hn1, hn2⟩).trans he'
      have hstep : step io w (i, .read n false) = some (Function.update w i e') := congrArg _ hs
      have hrun : Served io i w (Function.update w i e') :=
        .single (fun hc => absurd hc.symm i.peer_ne) hstep
      have hpeer : Function.update w i e' i.peer = w i.peer := Function.update_of_ne i.peer_ne e' w
      have hself : Function.update w i e' i = e' := Function.update_self i e' w
      obtain ⟨w', hr', hp', hpost', hall'⟩ := ih ((w i.peer).wire.length - e'.received) (by omega)
        (Served.keep h hrun) (by rw [hself]; exact hposted hf rfl)
        (by rw [hself]; exact (readHandler_frame he').2.1.trans hf) (by rw [hself, hpeer])
      exact ⟨w', hrun.trans hr', hp'.trans hpeer, hpost', hall'⟩

/-- When nothing is left to write and all has come, all that was accepted has been handed out. -/
theorem Served.Inv.all {i : Side} {w : Peers σ} (h : Inv io user i w)
    (hr : (w i).reading = .posted) (hw : (w i.peer).sock._writer.writing = false)
    (hall : (w i).received = (w i.peer).wire.length) :
    (w i).got = (w i.peer).accepted.map Prod.snd := by
  have hsend := h.joined.sending i.peer
  have hdel := (h.joined.receives i).prefixes hsend
  have hnil : (w i.peer).rest = [] := by
    rw [rest, h.lossless.idle hw, List.drop_nil]
  have hwire : (w i.peer).wire = encodeFrames (w i.peer).accepted := by
    rw [← h.lossless.bytes, hnil, List.append_nil]
  have hk := hdel.prompt hr (w i.peer).accepted.length
  rw [List.take_length] at hk
  exact hdel.inOrder.eq_of_length_le (hk (by rw [hall, hwire])).length_le

/-- **Nothing that was accepted is stuck.** In every run in which no write of the peer fails, an end
that still reads has handed out all that its peer has accepted as soon as the peer has nothing to
write and the bytes have come; and from every state on the run can go there. -/
theorem drains {w : Peers σ} {i : Side} (h : Served io i (start user) w)
    (hr : (w i).reading = .posted) (hf : (w i).sock._flag = .start) :
    ((w i.peer).sock._writer.writing = false → (w i).received = (w i.peer).wire.length →
      (w i).got = (w i.peer).accepted.map Prod.snd) ∧
    ∃ w', Served io i w w' ∧ (w' i.peer).accepted = (w i.peer).accepted ∧
      (w' i).got = (w i.peer).accepted.map Prod.snd := by
  have hinv : Served.Inv io user i w := Served.keep (Served.start_inv i) h
  refine ⟨hinv.all hr, ?_⟩
  obtain ⟨w₁, hr₁, hi₁, ha₁, hw₁⟩ := Served.write_out hinv
  have hinv₁ := Served.keep hinv hr₁
  obtain ⟨w₂, hr₂, hp₂, hpost, hall⟩ := Served.read_out hinv₁ (by rw [hi₁]; exact hr) (by rw [hi₁]; exact hf)
  have hgot := (Served.keep hinv₁ hr₂).all hpost (by rw [hp₂]; exact hw₁) hall
  refine ⟨w₂, hr₁.trans hr₂, by rw [hp₂, ha₁], ?_⟩
  rw [hgot, hp₂, ha₁]

/-- A second frame waits in `msgbuffer2` behind the first, whose write is posted. -/
theorem drains_two : ∃ (io : Receiver ℕ) (w w' : Peers ℕ), (w .right).got = [] ∧
    Served io .right w w' ∧ (w' .right).got = [[7], [8]] := by
  have h : Served ⟨fun n b => (n + 1, b), fun _ _ h => h⟩ .right (start fun _ => 0) _ :=
    .next (a := (.left, .send 0 [8] false))
      (.single (a := (.left, .send 0 [7] false)) (fun _ => rfl) rfl) (fun _ => rfl) rfl
  obtain ⟨w', hr, -, hgot⟩ := (drains h rfl rfl).2
  exact ⟨_, _, w', rfl, hr, hgot⟩

end Peers

end Netlib
