import Netlib.Spec.Header
import Netlib.Proof.Buffer
import Mathlib.Tactic.Common

/-!
# Headers on the wire

A header written after `h2n` is its two words in big-endian order, and a header
read and converted by `n2h` holds the big-endian words of the bytes
(`bytes_h2n`, `ofBytes_n2h_size`). The frames of a stream are a framing (`frames`),
and `encodeFrame` is decoded to its payload (`nextFrame_encode`).
-/

namespace Netlib

open Lib

theorem le32_length (n : ℕ) : (le32 n).length = 4 := rfl

theorem be32_length (n : ℕ) : (be32 n).length = 4 := rfl

theorem le32_ofLe32 {l : List Byte} (h : l.length = 4) : le32 (ofLe32 l) = l := by
  obtain ⟨a, b, c, d, rfl⟩ : ∃ a b c d, l = [a, b, c, d] := by
    match l, h with
    | [a, b, c, d], _ => exact ⟨a, b, c, d, rfl⟩
  have ha := a.toNat_lt
  have hb := b.toNat_lt
  have hc := c.toNat_lt
  have hd := d.toNat_lt
  simp only [le32, ofLe32, List.cons.injEq, and_true, ← UInt8.toNat_inj, UInt8.toNat_ofNat']
  omega

theorem ofLe32_le32 {n : ℕ} (h : n < 2 ^ 32) : ofLe32 (le32 n) = n := by
  simp only [le32, ofLe32, UInt8.toNat_ofNat']
  omega

theorem ofBe32_be32 {n : ℕ} (h : n < 2 ^ 32) : ofBe32 (be32 n) = n := by
  rw [ofBe32, be32, List.reverse_reverse, ofLe32_le32 h]

theorem be32_ofBe32 {l : List Byte} (h : l.length = 4) : be32 (ofBe32 l) = l := by
  rw [be32, ofBe32, le32_ofLe32 (by rw [List.length_reverse, h]), List.reverse_reverse]

theorem ofLe32_lt (l : List Byte) : ofLe32 l < 2 ^ 32 := by
  unfold ofLe32
  split
  · rename_i a b c d
    have ha := a.toNat_lt
    have hb := b.toNat_lt
    have hc := c.toNat_lt
    have hd := d.toNat_lt
    omega
  · omega

theorem frameSize_lt (s : List Byte) : frameSize s < 2 ^ 32 := ofLe32_lt _

/-- **A header in network order is written big-endian.** -/
theorem MessageHeader.bytes_h2n (h : MessageHeader) :
    h.h2n.bytes = be32 h.timestamp ++ be32 h.size := by
  simp only [h2n, bytes, htonl]
  rw [le32_ofLe32 (be32_length _), le32_ofLe32 (be32_length _)]

/-- **A header read from the wire has the big-endian size.** -/
theorem MessageHeader.ofBytes_n2h_size {l : List Byte} (h : l.length = hdrlen) :
    (ofBytes l).n2h.size = frameSize l := by
  have h4 : ((l.drop 4).take 4).length = 4 := by
    simp only [List.length_take, List.length_drop, hdrlen] at *; omega
  simp only [ofBytes, n2h, ntohl, frameSize]
  rw [le32_ofLe32 h4]

theorem frameSize_append {s : List Byte} (h : hdrlen ≤ s.length) (t : List Byte) :
    frameSize (s ++ t) = frameSize s := by
  simp only [hdrlen] at h
  rw [frameSize, frameSize, List.drop_append_of_le_length (by omega),
    List.take_append_of_le_length (by rw [List.length_drop]; omega)]

/-- The size word is among the first eight bytes. -/
theorem frameSize_take {s : List Byte} (h : hdrlen ≤ s.length) :
    frameSize (s.take hdrlen) = frameSize s := by
  conv_rhs => rw [← List.take_append_drop hdrlen s]
  rw [frameSize_append (by rw [List.length_take]; omega)]

/-- **The framing of a stream of frames** whose sizes are at most `limit`. -/
def frames (limit : ℕ) : Framing Byte (List Byte) where
  next := nextFrame limit
  frame_pos := by
    intro s p n h
    unfold nextFrame at h
    split_ifs at h
    simp only [Next.frame.injEq] at h
    simp only [hdrlen] at *; omega
  frame_append := by
    intro s p n t h
    unfold nextFrame at h ⊢
    split_ifs at h with h1 h2 h3
    simp only [Next.frame.injEq] at h
    obtain ⟨rfl, rfl⟩ := h
    have hl : hdrlen ≤ s.length := by omega
    rw [frameSize_append hl, if_neg (by rw [List.length_append]; omega), if_neg h2,
      if_neg (by rw [List.length_append]; omega), List.drop_append_of_le_length hl,
      List.take_append_of_le_length (by rw [List.length_drop]; omega)]
  reject_append := by
    intro s t h
    unfold nextFrame at h ⊢
    split_ifs at h with h1 h2 h3
    rw [frameSize_append (by omega), if_neg (by rw [List.length_append]; omega), if_pos h2]

theorem frames_next (limit : ℕ) : (frames limit).next = nextFrame limit := rfl

theorem nextFrame_nil (limit : ℕ) : nextFrame limit [] = .more := rfl

/-- A frame that is found. -/
theorem nextFrame_frame {limit : ℕ} {s p : List Byte} {n : ℕ} (h : nextFrame limit s = .frame p n) :
    p = (s.drop hdrlen).take (frameSize s) ∧ n = hdrlen + frameSize s ∧ n ≤ s.length := by
  unfold nextFrame at h
  split_ifs at h
  simp only [Next.frame.injEq] at h
  exact ⟨h.1.symm, h.2.symm, by omega⟩

theorem nextFrame_reject {limit : ℕ} {s : List Byte} (h : nextFrame limit s = .reject) :
    hdrlen ≤ s.length ∧ limit < frameSize s := by
  unfold nextFrame at h
  split_ifs at h
  exact ⟨by omega, by assumption⟩

/-- A frame that is not complete ends after the bytes that are there. -/
theorem nextFrame_more_lt {limit : ℕ} {s t p : List Byte} {n : ℕ} (h : nextFrame limit s = .more)
    (ht : nextFrame limit (s ++ t) = .frame p n) : s.length < n := by
  obtain ⟨-, hn, -⟩ := nextFrame_frame ht
  by_cases h8 : s.length < hdrlen
  · omega
  · -- the header is there, and the payload is not
    rw [frameSize_append (by omega)] at hn
    unfold nextFrame at h
    split_ifs at h
    omega

theorem encodeFrame_length (timestamp : ℕ) (payload : List Byte) :
    (encodeFrame timestamp payload).length = hdrlen + payload.length := by
  simp only [encodeFrame, List.length_append, be32_length, hdrlen]

/-- All of an encoded frame but its timestamp. -/
theorem encodeFrame_drop (timestamp : ℕ) (payload : List Byte) :
    (encodeFrame timestamp payload).drop 4 = be32 payload.length ++ payload := by
  rw [encodeFrame, List.append_assoc]
  exact List.drop_left' (be32_length _)

/-- **Decoding an encoded frame** gives its payload and the bytes after it. -/
theorem nextFrame_encode {limit timestamp : ℕ} {payload : List Byte}
    (hl : payload.length ≤ limit) (h32 : payload.length < 2 ^ 32) (t : List Byte) :
    nextFrame limit (encodeFrame timestamp payload ++ t) =
      .frame payload (encodeFrame timestamp payload).length := by
  have hlen := encodeFrame_length timestamp payload
  have hsz : frameSize (encodeFrame timestamp payload) = payload.length := by
    have h4 : (be32 timestamp).length = 4 := rfl
    simp only [frameSize, encodeFrame, List.append_assoc]
    rw [List.drop_left' h4, List.take_left' (be32_length _), ofBe32_be32 h32]
  have h8 : (encodeFrame timestamp payload).drop hdrlen = payload :=
    List.drop_left' (by simp only [List.length_append, be32_length, hdrlen])
  unfold nextFrame
  rw [frameSize_append (by omega), hsz, if_neg (by rw [List.length_append]; omega),
    if_neg (by omega), if_neg (by rw [List.length_append]; omega),
    List.drop_append_of_le_length (by omega), h8, hlen, List.take_left' rfl]

/-- **Decoding encoded frames** gives their payloads, then what the rest holds. -/
theorem decode_encodeFrames {limit : ℕ} (fs : List (ℕ × List Byte))
    (hl : ∀ f ∈ fs, f.2.length ≤ limit ∧ f.2.length < 2 ^ 32) (t : List Byte) :
    ((frames limit).decode ((fs.flatMap fun f => encodeFrame f.1 f.2) ++ t)).frames =
      fs.map Prod.snd ++ ((frames limit).decode t).frames := by
  induction fs with
  | nil => rfl
  | cons f fs ih =>
    obtain ⟨h1, h2⟩ := hl f List.mem_cons_self
    have hnext : (frames limit).next (encodeFrame f.1 f.2 ++
        ((fs.flatMap fun f => encodeFrame f.1 f.2) ++ t)) = _ := nextFrame_encode h1 h2 _
    rw [List.flatMap_cons, List.append_assoc, Framing.decode_frame hnext, List.drop_left]
    have := ih fun f hf => hl f (List.mem_cons_of_mem _ hf)
    simp only [Decoded.cons, this, List.map_cons, List.cons_append]

end Netlib
