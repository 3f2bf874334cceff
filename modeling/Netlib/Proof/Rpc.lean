import Netlib.Spec.Rpc
import Netlib.Proof.Reader
import Netlib.Proof.Writer

/-!
# Requests and dealers

A request that `_FillRequest` builds is three words and the payload (`fill_filled`), and
what leaves the client for it is one frame (`Sent.frame`). `OnReceiveData` reads the words
back and calls the dealer that the way names (`onReceiveData_request`), so a request is
dealt with as `SyncCall` says exactly when the client passes the way on
(`request_dealt_iff`).
-/

namespace Netlib

open Lib

/-! ## Words in buffers -/

namespace Buffer

variable {b : Buffer}

/-- A buffer that holds `l`, none of it read. -/
structure Filled (b : Buffer) (l : List Byte) : Prop where
  wf : b.WF
  offset : b._offset = 0
  content : b.content = l

theorem Filled.unread {l : List Byte} (h : b.Filled l) : b.unread = l := by
  rw [Buffer.unread, h.offset, h.content, List.drop_zero]

theorem Filled.pos {l : List Byte} (h : b.Filled l) : b._pos = l.length := by
  rw [← h.content, h.wf.content_length]

theorem WF.filled_clear (h : b.WF) : b.clear.Filled [] := ⟨h.clear, rfl, clear_content b⟩

theorem Filled.write {l src : List Byte} (h : b.Filled l)
    (hroom : l.length + src.length + bufferDefaultSize < 2 ^ 32) :
    (b.write src src.length).Filled (l ++ src) := by
  obtain ⟨hwf, hcontent, -, hoffset⟩ := h.wf.write (Nat.le_refl src.length)
    (by rw [h.pos]; exact hroom)
  rw [h.content, List.take_length] at hcontent
  exact ⟨hwf, hoffset.trans h.offset, hcontent⟩

theorem Filled.writeWord {l : List Byte} (h : b.Filled l) (n : ℕ)
    (hroom : l.length + 4 + bufferDefaultSize < 2 ^ 32) : (b.writeWord n).Filled (l ++ le32 n) := by
  have hw : (b.write (le32 n) (le32 n).length).Filled (l ++ le32 n) := h.write hroom
  exact hw

theorem WF.sendData (h : b.WF) : b.sendData = b.unread := h.data_take

theorem WF.readWord (h : b.WF) {n : ℕ} {b' : Buffer} (hr : b.readWord = (n, b')) : b'.WF := by
  unfold Buffer.readWord Buffer.read at hr
  by_cases hlt : u32 (b._offset + 4) > b._pos
  · rw [if_pos hlt] at hr
    cases hr
    exact h
  · rw [if_neg hlt] at hr
    cases hr
    exact ⟨Nat.le_of_not_lt hlt, h.pos_le, h.size_lt, h.data⟩

/-- Four bytes that are there are read. -/
theorem WF.readWord_take (h : b.WF) (hlen : 4 ≤ b.unread.length) :
    b.readWord = (ofLe32 (b.unread.take 4), { b with _offset := b._offset + 4 }) ∧
      { b with _offset := b._offset + 4 }.WF := by
  obtain ⟨hread, hwf⟩ := h.read (show 4 ≤ b.length by rw [← h.unread_length]; exact hlen)
  refine ⟨?_, hwf⟩
  unfold Buffer.readWord
  rw [hread]

/-- A word that is there is read. -/
theorem WF.readWord_eq (h : b.WF) {n : ℕ} {t : List Byte} (hn : n < 2 ^ 32)
    (hun : b.unread = le32 n ++ t) :
    b.readWord = (n, { b with _offset := b._offset + 4 }) ∧
      { b with _offset := b._offset + 4 }.WF ∧
      { b with _offset := b._offset + 4 }.unread = t := by
  have hlen : 4 ≤ b.unread.length := by
    rw [hun, List.length_append, le32_length]
    exact Nat.le_add_right 4 _
  obtain ⟨hread, hwf⟩ := h.readWord_take hlen
  refine ⟨?_, hwf, ?_⟩
  · rw [hread, hun, List.take_append_of_le_length (Nat.le_of_eq (le32_length n).symm),
      show (le32 n).take 4 = le32 n from rfl, ofLe32_le32 hn]
  · rw [unread_offset, hun]
    rfl

/-- `CutData(-4)` after the `Read` of a word gives the word back. -/
theorem WF.unreadWord (h : b.WF) : { b with _offset := b._offset + 4 }.cutData (-4) = b := by
  have h1 := h.offset_le
  have h2 := h.pos_lt
  have hu : toU32 (((b._offset + 4 : ℕ) : ℤ) + (-4)) = b._offset := by
    rw [toU32_of_lt (by omega) (by omega)]
    omega
  unfold Buffer.cutData
  rw [hu, if_neg (by simp only; omega)]

end Buffer

/-! ## What leaves the client -/

namespace BaseScClient

/-- The three words of a request or a reply. -/
def words (way msg_type idx : ℕ) : List Byte := le32 way ++ le32 msg_type ++ le32 idx

theorem words_length (way msg_type idx : ℕ) : (words way msg_type idx).length = 12 := rfl

/-- Three words after `Clear`. -/
theorem filled_words {b : Buffer} (h : b.WF) (way msg_type idx : ℕ) :
    (((b.clear.writeWord way).writeWord msg_type).writeWord idx).Filled (words way msg_type idx) := by
  have h1 := h.filled_clear.writeWord way (by decide)
  have h2 := h1.writeWord msg_type (by rw [List.nil_append, le32_length]; decide)
  exact h2.writeWord idx (by rw [List.nil_append, List.length_append, le32_length, le32_length]; decide)

variable {c : BaseScClient}

/-- **A request** is the three words and the payload. -/
theorem fill_filled (h : c._request.WF) (way : ℕ) (msg_type : ℤ) {msg : List Byte}
    (hlen : 12 + msg.length + bufferDefaultSize < 2 ^ 32) :
    (c._fillRequest way msg_type msg)._request.Filled
      (words way (toU32 msg_type) (u32 (c._packidx + 1)) ++ msg) := by
  apply (filled_words h way (toU32 msg_type) (u32 (c._packidx + 1))).write
  rw [words_length]
  exact hlen

/-- What is sent of a request, whatever `_request` was before. -/
theorem fill_sendData (c : BaseScClient) (way : ℕ) (msg_type : ℤ) (msg : List Byte)
    (hlen : 12 + msg.length + bufferDefaultSize < 2 ^ 32) :
    0 < (c._fillRequest way msg_type msg)._request.sendData.length ∧
      (c._fillRequest way msg_type msg)._request.sendData.length ≤ 12 + msg.length := by
  set b3 := ((c._request.clear.writeWord way).writeWord (toU32 msg_type)).writeWord
    (u32 (c._packidx + 1)) with hb3
  have hpos : b3._pos = 12 := by
    simp only [hb3, Buffer.writeWord, Buffer.write_pos, Buffer.clear]
    rfl
  have hoffset : b3._offset = 0 := by
    simp only [hb3, Buffer.writeWord, Buffer.write_offset, Buffer.clear]
  have hdata : b3._data ≠ [] := by
    apply Buffer.write_data_ne_nil
    · simp only [Buffer.writeWord, Buffer.write_pos, Buffer.clear]
      decide
    · right
      exact List.ne_nil_of_length_eq_add_one (n := 3) (le32_length _)
  have hlength : (b3.write msg msg.length).length = 12 + msg.length := by
    rw [Buffer.length, Buffer.write_pos, Buffer.write_offset, hpos, hoffset, u32_of_lt (by omega),
      toU32_of_lt (by omega) (by omega)]
    omega
  have hne : (b3.write msg msg.length)._data ≠ [] :=
    Buffer.write_data_ne_nil (by rw [hpos]; exact hlen) (.inl hdata)
  have hsend : (c._fillRequest way msg_type msg)._request.sendData =
      (b3.write msg msg.length)._data.take (12 + msg.length) := by
    change Buffer.sendData (b3.write msg msg.length) = _
    rw [Buffer.sendData, hlength, Buffer.data, Buffer.write_offset, hoffset, List.drop_zero]
  have := List.length_pos_iff.mpr hne
  rw [hsend, List.length_take]
  omega

/-- **The check of a reply** compares its third word, and leaves what follows. -/
theorem checkReply_eq (c : BaseScClient) {b : Buffer} (h : b.WF) (hlen : 12 ≤ b.unread.length) :
    ∃ b', c._checkReply (some b) = (decide (ofLe32 ((b.unread.drop 8).take 4) = c._packidx), some b') ∧
      b'.WF ∧ b'.unread = b.unread.drop 12 := by
  obtain ⟨hr1, hwf1⟩ := h.readWord_take (by omega)
  obtain ⟨hr2, hwf2⟩ := hwf1.readWord_take (by rw [Buffer.unread_offset, List.length_drop]; omega)
  obtain ⟨hr3, hwf3⟩ := hwf2.readWord_take (by
    simp only [Nat.add_assoc, Buffer.unread_offset, List.length_drop]
    omega)
  refine ⟨_, ?_, hwf3, ?_⟩
  · simp only [_checkReply, hr1, hr2, hr3, Nat.add_assoc, Buffer.unread_offset, Nat.reduceAdd]
  · simp only [Nat.add_assoc, Buffer.unread_offset, Nat.reduceAdd]

end BaseScClient

namespace SyncConnector

/-- A loop of `Send` that returns true has sent all bytes. -/
theorem sendLoop_true (as : List SendSome) : ∀ {b : Buffer} {bytes : List Byte}, b.WF →
    b._pos < 2 ^ 31 → sendLoop b as = some (true, bytes) → bytes = b.unread := by
  induction as with
  | nil =>
    intro b bytes _ _ h
    cases h
  | cons a as ih =>
    intro b bytes hwf hpos h
    cases a with
    | fail => cases h
    | sent n =>
      unfold sendLoop at h
      split at h
      · rename_i hn
        have hle := hwf.length_eq
        have hint : toInt32 n = n := by
          rw [toInt32, u32_of_lt (by omega), if_pos (by omega)]
        obtain ⟨hcut, hcwf⟩ := hwf.cutData hn
        have htake : b.data.take n = b.unread.take n := by
          rw [← hwf.data_take, List.take_take, Nat.min_eq_left hn]
        have hrest : (b.cutData n).unread = b.unread.drop n := by rw [hcut, Buffer.unread_offset]
        simp only [hint, htake] at h
        split at h
        · -- nothing is left
          rename_i h0
          cases h
          rw [← hcwf.unread_length, hrest, List.length_drop, hwf.unread_length] at h0
          exact List.take_of_length_le (by rw [hwf.unread_length]; omega)
        · rw [Option.map_eq_some_iff] at h
          obtain ⟨⟨ok, rest⟩, hloop, heq⟩ := h
          cases heq
          rw [ih hcwf (by rw [hcut]; exact hpos) hloop, hrest, List.take_append_drop]
      · cases h

theorem sendLoop_once {b : Buffer} (h : b.WF) (hpos : b._pos < 2 ^ 31) :
    sendLoop b [.sent b.length] = some (true, b.data.take b.length) := by
  have hle := h.length_eq
  have hint : toInt32 b.length = b.length := by
    rw [toInt32, u32_of_lt (by omega), if_pos (by omega)]
  obtain ⟨hcut, hcwf⟩ := h.cutData (Nat.le_refl b.length)
  have hempty : (b.cutData b.length).length = 0 := by
    rw [← hcwf.unread_length, hcut, Buffer.unread_offset, List.length_drop, h.unread_length,
      Nat.sub_self]
  simp only [sendLoop, if_pos (Nat.le_refl b.length), hint, hempty, if_true]

/-- What `Send` puts into `_sndbuffer`. -/
theorem sndbuffer_filled (now : ℕ) {data : List Byte} (hlen : data.length ≤ limit) :
    ((Buffer.new.write (MessageHeader.mk (u32 now) data.length).h2n.bytes hdrlen).write data
      data.length).Filled (encodeFrame (u32 now) data) := by
  have hmax : data.length ≤ 65527 := hlen
  have hnew : Buffer.new.Filled [] := ⟨Buffer.new_wf, rfl, rfl⟩
  set hdr := (MessageHeader.mk (u32 now) data.length).h2n with hhdr
  have h8 : hdr.bytes.length = hdrlen := rfl
  have hfirst : (Buffer.new.write hdr.bytes hdrlen).Filled ([] ++ hdr.bytes) :=
    hnew.write (by rw [h8]; decide)
  have hbytes : encodeFrame (u32 now) data = [] ++ hdr.bytes ++ data := by
    rw [List.nil_append, hhdr, MessageHeader.bytes_h2n, encodeFrame]
  rw [hbytes]
  apply hfirst.write
  rw [List.nil_append, h8]
  simp only [hdrlen, bufferDefaultSize]
  omega

/-- A `Send` that returns true has sent the frame. -/
theorem send_true {c c' : SyncConnector} {now : ℕ} {data bytes : List Byte} {as : List SendSome}
    (h : c.send now data as = some (true, bytes, c')) :
    bytes = encodeFrame (u32 now) data ∧ 0 < data.length ∧ data.length ≤ limit ∧ c' = c := by
  unfold send at h
  split at h
  · cases h
  split at h
  · rename_i hlen
    simp only [Option.map_eq_some_iff] at h
    obtain ⟨⟨ok, sent⟩, hloop, heq⟩ := h
    cases heq
    have hfilled := sndbuffer_filled now hlen.2
    have hmax : data.length ≤ 65527 := hlen.2
    have hsmall := hfilled.pos
    rw [encodeFrame_length] at hsmall
    refine ⟨?_, hlen.1, hlen.2, rfl⟩
    rw [sendLoop_true as hfilled.wf (by rw [hsmall]; simp only [hdrlen]; omega) hloop, hfilled.unread]
  · cases h

end SyncConnector

namespace ScKind

/-- **One frame leaves the client** for a `Send` that returns true. -/
theorem Sent.frame {k : ScKind} {data bytes : List Byte} (h : k.Sent data bytes) :
    ∃ t, bytes = encodeFrame t data ∧ 0 < data.length ∧ data.length ≤ k.maxData := by
  cases h with
  | @scClient c c' now as bytes h =>
    obtain ⟨hbytes, h0, hle, -⟩ := SyncConnector.send_true h
    exact ⟨u32 now, hbytes, h0, hle⟩
  | @coScClient w now err bytes hok h =>
    have hacc : w.accepted ++ bytes = w.accepted ++ encodeFrame (u32 now) data := by
      rw [SendWorld.step_send, hok, if_pos rfl] at h
      exact (Option.some.inj h).symm
    exact ⟨u32 now, List.append_cancel_left hacc, TcpBaseSocket.send_length hok⟩

/-- Data of every length that `Send` takes can leave. -/
theorem Sent.of_length (k : ScKind) (data : List Byte) (h0 : 0 < data.length)
    (hle : data.length ≤ k.maxData) : ∃ bytes, k.Sent data bytes := by
  cases k with
  | scClient =>
    -- `SendSome` takes all bytes at once
    have hfilled := SyncConnector.sndbuffer_filled 0 hle
    have hsmall := hfilled.pos
    have hmax : data.length ≤ 65527 := hle
    rw [encodeFrame_length] at hsmall
    have hloop := SyncConnector.sendLoop_once hfilled.wf (by rw [hsmall]; simp only [hdrlen]; omega)
    rw [hfilled.wf.data_take, hfilled.unread] at hloop
    revert hloop
    generalize [SendSome.sent _] = as
    intro hloop
    have hsend : SyncConnector.connected.send 0 data as =
        some (true, encodeFrame (u32 0) data, .connected) := by
      rw [SyncConnector.send, if_neg (by decide), if_pos ⟨h0, hle⟩]
      simp only [hloop, Option.map_some, if_true]
    exact ⟨_, .scClient hsend⟩
  | coScClient =>
    have hsend : (SendWorld.start.sock.send 0 data false).1 = true := by
      apply TcpBaseSocket.send_accepted rfl 0 false h0 hle
      have hpack : data.length ≤ 409600 := hle
      change 0 + (data.length + hdrlen) ≤ maxBufferSize
      simp only [hdrlen, maxBufferSize]
      omega
    refine ⟨encodeFrame (u32 0) data, .coScClient hsend ?_⟩
    rw [SendWorld.step_send, hsend, if_pos rfl]
    rfl

end ScKind

/-! ## The server -/

/-- The buffer of the connection's data is well formed. -/
def ScConn.WF {ω : Type*} (s : ScConn ω) : Prop := ∀ i, s.info = some i → i.buffer.WF

namespace ScServer

open BaseScClient

variable {ω : Type*} {_handlers : ℕ → Option (IServerHandler ω)}

theorem onReceiveData_wf {s : ScConn ω} (hs : s.WF) {b : Buffer} (hb : b.WF) :
    (onReceiveData _handlers s b).1.WF ∧ (onReceiveData _handlers s b).2.WF := by
  unfold onReceiveData
  cases hi : s.info with
  | none => exact ⟨hs, hb⟩
  | some pscinfo =>
    have hinfo := hs _ hi
    rcases hr0 : b.readWord with ⟨msgid, b0⟩
    have h0 := hb.readWord hr0
    simp only
    by_cases hkeep : msgid = keepaliveId
    · rw [if_pos hkeep]
      refine ⟨?_, (h0.filled_clear.writeWord _ (by decide)).wf⟩
      rintro i ⟨⟩
      exact hinfo
    rw [if_neg hkeep]
    cases _handlers pscinfo.id with
    | none => exact ⟨hs, h0⟩
    | some handler =>
      have h1 := h0.cutData_wf (-4)
      rcases hr2 : (b0.cutData (-4)).readWord with ⟨way_type, b2⟩
      have h2 := h1.readWord hr2
      rcases hr3 : b2.readWord with ⟨msg_type, b3⟩
      have h3 := h2.readWord hr3
      rcases hr4 : b3.readWord with ⟨pack_idx, b4⟩
      have h4 := h3.readWord hr4
      have hreply := (filled_words hinfo way_type msg_type pack_idx).wf
      simp only
      split
      · refine ⟨?_, handler.wf_oneWay _ _ _ h4⟩
        rintro i ⟨⟩
        exact hreply
      split
      · have hw := handler.wf_twoWay s.user (toInt32 msg_type) _ _ h4 hreply
        refine ⟨?_, hw.1⟩
        rintro i ⟨⟩
        exact hw.2
      · refine ⟨?_, h4⟩
        rintro i ⟨⟩
        exact hreply

instance (b : Buffer) : Decidable b.WF :=
  decidable_of_iff (b._offset ≤ b._pos ∧ b._pos ≤ b._size ∧ b._size < 2 ^ 32 ∧ b._data.length = b._size)
    ⟨fun h => ⟨h.1, h.2.1, h.2.2.1, h.2.2.2⟩, fun h => ⟨h.offset_le, h.pos_le, h.size_lt, h.data⟩⟩

/-- The server as the user of a stream reader, which hands out well-formed buffers only. -/
def receiver (_handlers : ℕ → Option (IServerHandler ω)) : Receiver { s : ScConn ω // s.WF } where
  onReceiveData s b :=
    if h : b.WF then
      (⟨(onReceiveData _handlers s.val b).1, (onReceiveData_wf s.property h).1⟩,
        (onReceiveData _handlers s.val b).2)
    else (s, b)
  wf s b h := by
    rw [dif_pos h]
    exact (onReceiveData_wf s.property h).2

/-- How a request is dealt with. -/
def dealt (way : ℕ) (msg_type : ℤ) (request : List Byte) : List Dealt :=
  if way = onewayType then [.oneWay msg_type request]
  else if way = twowayType then [.twoWay msg_type request]
  else []

/-- **A request is read back** and handed to the dealer of its way. -/
theorem onReceiveData_request {s : ScConn ω} {pscinfo : ScInfo} (hi : s.info = some pscinfo)
    (hh : (_handlers pscinfo.id).isSome) {b : Buffer} (hb : b.WF) {way msg_type idx : ℕ}
    {payload : List Byte} (hway : way < 2 ^ 32) (hkeep : way ≠ keepaliveId)
    (hmsg : msg_type < 2 ^ 32) (hidx : idx < 2 ^ 32)
    (hun : b.unread = words way msg_type idx ++ payload) :
    (onReceiveData _handlers s b).1.dealt = s.dealt ++ dealt way (toInt32 msg_type) payload := by
  obtain ⟨handler, hh⟩ := Option.isSome_iff_exists.mp hh
  have hun1 : b.unread = le32 way ++ (le32 msg_type ++ (le32 idx ++ payload)) := by
    rw [hun, words, List.append_assoc, List.append_assoc]
  -- the first word is read twice
  obtain ⟨hr1, hwf1, hun2⟩ := hb.readWord_eq hway hun1
  obtain ⟨hr2, hwf2, hun3⟩ := hwf1.readWord_eq hmsg hun2
  obtain ⟨hr3, -, hun4⟩ := hwf2.readWord_eq hidx hun3
  unfold onReceiveData dealt
  simp only [hi, hr1, if_neg hkeep, hh, hb.unreadWord, hr2, hr3, hun4]
  split
  · rfl
  split
  · rfl
  · exact (List.append_nil _).symm

/-- The callback of a well-formed buffer. -/
theorem receiver_eq {s : { s : ScConn ω // s.WF }} {b : Buffer} (hb : b.WF) :
    ((receiver _handlers).onReceiveData s b).1.val = (onReceiveData _handlers s.val b).1 := by
  rw [receiver]
  simp only [dif_pos hb]

end ScServer

/-! ## Requests are dealt with -/

open BaseScClient ScServer TcpStreamSocket

/-- The way that `_Sync` of the class fills in for a call. -/
def ScKind.wayOf (k : ScKind) (reply : Bool) : ℕ :=
  if k = .coScClient ∨ reply = true then twowayType else onewayType

theorem ScKind.syncCall_eq (k : ScKind) (c : BaseScClient) (reply : Bool) (msg_type : ℤ)
    (msg : List Byte) : k.syncCall c reply msg_type msg = c._fillRequest (k.wayOf reply) msg_type msg := by
  cases k <;> cases reply <;> rfl

theorem toU32_lt (z : ℤ) : toU32 z < 2 ^ 32 := by
  unfold toU32
  omega

variable {ω : Type*}

/-- **A request on the wire**, in any reads from a frame boundary on: one callback, and the
dealer of its way. -/
theorem request_received (k : ScKind) {c : BaseScClient} (hc : c._request.WF)
    (_handlers : ℕ → Option (IServerHandler ω)) {r : ReaderInfo} (hr : Holds socketPackSize r [])
    {s : { s : ScConn ω // s.WF }} {pscinfo : ScInfo} (hi : s.val.info = some pscinfo)
    (hh : (_handlers pscinfo.id).isSome) (reply : Bool) {msg_type : ℤ}
    (hmsg : -2 ^ 31 ≤ msg_type ∧ msg_type < 2 ^ 31) {payload : List Byte}
    (hlen : 12 + payload.length ≤ k.maxData) {bytes : List Byte}
    (hsent : k.Sent (k.syncCall c reply msg_type payload)._request.sendData bytes)
    {chunks : List (List Byte)} (hchunks : chunks.flatten = bytes) :
    ∃ answers s', calls (_cutMsgPack (receiver _handlers)) ⟨r, s⟩ chunks = some (answers, s') ∧
      s'.user.val.dealt = s.val.dealt ++ dealt (k.wayOf reply) msg_type payload := by
  have hmax : k.maxData ≤ socketPackSize := by cases k <;> decide
  have hroom : 12 + payload.length + bufferDefaultSize < 2 ^ 32 := by
    simp only [socketPackSize, bufferDefaultSize] at hmax ⊢
    omega
  have hfill := fill_filled hc (k.wayOf reply) msg_type hroom
  rw [← ScKind.syncCall_eq] at hfill
  rw [hfill.wf.sendData, hfill.unread] at hsent
  set data := words (k.wayOf reply) (toU32 msg_type) (u32 (c._packidx + 1)) ++ payload with hdata
  obtain ⟨t, rfl, -, hle⟩ := hsent.frame
  obtain ⟨answers, s', b, hcalls, hb, hun, hu⟩ := frame_handed (receiver _handlers) hr s t
    (Nat.le_trans hle hmax) hchunks
  refine ⟨answers, s', hcalls, ?_⟩
  have hway : k.wayOf reply < 2 ^ 32 ∧ k.wayOf reply ≠ keepaliveId := by
    cases k <;> cases reply <;> decide
  rw [hu, receiver_eq hb.wf, onReceiveData_request hi hh hb.wf hway.1 hway.2 (toU32_lt msg_type) (Nat.mod_lt _ (by decide))
    hun, toInt32_toU32 hmsg.1 hmsg.2]

/-- **Requests are dealt with as they were called**: with a reply argument by the two-way
dealer and without one by the one-way dealer, once, with the message type and the payload.
This is so exactly when the class passes the way on, or there is a reply argument. -/
theorem request_dealt_iff (k : ScKind) {c : BaseScClient} (hc : c._request.WF)
    (_handlers : ℕ → Option (IServerHandler ω)) {r : ReaderInfo} (hr : Holds socketPackSize r [])
    {s : { s : ScConn ω // s.WF }} {pscinfo : ScInfo} (hi : s.val.info = some pscinfo)
    (hh : (_handlers pscinfo.id).isSome) (reply : Bool) {msg_type : ℤ}
    (hmsg : -2 ^ 31 ≤ msg_type ∧ msg_type < 2 ^ 31) {payload : List Byte}
    (hlen : 12 + payload.length ≤ k.maxData) {bytes : List Byte}
    (hsent : k.Sent (k.syncCall c reply msg_type payload)._request.sendData bytes)
    {chunks : List (List Byte)} (hchunks : chunks.flatten = bytes) :
    (∃ answers s', calls (_cutMsgPack (receiver _handlers)) ⟨r, s⟩ chunks = some (answers, s') ∧
      s'.user.val.dealt = s.val.dealt ++
        [if reply then .twoWay msg_type payload else .oneWay msg_type payload]) ↔
    (k = .scClient ∨ reply = true) := by
  obtain ⟨answers, s', hcalls, hdealt⟩ :=
    request_received k hc _handlers hr hi hh reply hmsg hlen hsent hchunks
  refine ⟨?_, fun hcond => ⟨answers, s', hcalls, ?_⟩⟩
  · rintro ⟨answers', s'', hcalls', hdealt'⟩
    rw [hcalls] at hcalls'
    cases hcalls'
    rw [hdealt, List.append_cancel_left_eq] at hdealt'
    -- the other class and no reply argument: the two-way dealer is called
    cases k
    · exact .inl rfl
    · cases reply
      · cases hdealt'
      · exact .inr rfl
  · rw [hdealt]
    cases k <;> cases reply
    · rfl
    · rfl
    · exact absurd hcond (by decide)
    · rfl

/-- A handler that only looks. -/
def idleHandler : IServerHandler Unit where
  onOneWayDealer u _ b := (u, b)
  onTwoWayDealer u _ b r := (u, b, r)
  wf_oneWay _ _ _ h := h
  wf_twoWay _ _ _ _ h h' := ⟨h, h'⟩

/-- A connection to port 80. -/
def idleConn : { s : ScConn Unit // s.WF } :=
  ⟨⟨some ⟨80, .new⟩, (), [], []⟩, by rintro i ⟨⟩; exact Buffer.new_wf⟩

theorem request_dealt_iff_oneWay :
    ∃ bytes, ScKind.Sent (ScKind.scClient.syncCall .new false 7 [1])._request.sendData .scClient bytes ∧
      ((∃ answers s', calls (_cutMsgPack (receiver fun _ => some idleHandler)) ⟨.fresh, idleConn⟩
          [bytes] = some (answers, s') ∧
        s'.user.val.dealt = idleConn.val.dealt ++
          [if false then .twoWay 7 [1] else .oneWay 7 [1]]) ↔
        (ScKind.scClient = .scClient ∨ false = true)) := by
  obtain ⟨bytes, hsent⟩ := ScKind.Sent.of_length .scClient
    (ScKind.scClient.syncCall .new false 7 [1])._request.sendData (by decide) (by decide)
  exact ⟨bytes, hsent, request_dealt_iff .scClient Buffer.new_wf _ Holds.fresh rfl rfl false
    (by decide) (by decide) hsent (List.append_nil bytes)⟩

/-- A one-way call of a `CoScClient` is dealt with as a two-way call. -/
theorem not_request_dealt :
    ∃ bytes, ScKind.Sent (ScKind.coScClient.syncCall .new false 7 [1])._request.sendData
        .coScClient bytes ∧
      ¬ ∃ answers s', calls (_cutMsgPack (receiver fun _ => some idleHandler)) ⟨.fresh, idleConn⟩
          [bytes] = some (answers, s') ∧
        s'.user.val.dealt = idleConn.val.dealt ++ [.oneWay 7 [1]] := by
  obtain ⟨bytes, hsent⟩ := ScKind.Sent.of_length .coScClient
    (ScKind.coScClient.syncCall .new false 7 [1])._request.sendData (by decide) (by decide)
  obtain ⟨answers, s', hcalls, hdealt⟩ := request_received .coScClient Buffer.new_wf
    (fun _ => some idleHandler) Holds.fresh (s := idleConn) rfl rfl false (by decide) (by decide) hsent
    (show [bytes].flatten = bytes from List.append_nil bytes)
  refine ⟨bytes, hsent, ?_⟩
  rintro ⟨answers', s'', hcalls', hdealt'⟩
  rw [hcalls] at hcalls'
  cases hcalls'
  rw [hdealt] at hdealt'
  exact absurd hdealt' (by decide)

end Netlib
