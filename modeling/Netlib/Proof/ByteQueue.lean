import Netlib.Spec.ByteQueue
import Netlib.Proof.TypedBuffer

/-!
# Buffers refine queues of bytes

`Write` adds to the bytes below `_pos` (`Holds.write`), `Read` and `CutData` move the border at
`_offset` in them (`Holds.move`), and nothing wraps below `2 ^ 31`.
So a call that is allowed on a queue is defined on the buffer, gives the same and leaves a buffer
for the queue (`call_ok`), and by induction every sequence of calls does (`refines_queues`).
-/

namespace Netlib

open Lib
open Function (update)

namespace Buffer

variable {b : Buffer} {q : Queue Byte}

namespace Holds

theorem pos_eq (h : Holds b q) : b._pos = q.history.length := by
  rw [← h.wf.content_length, h.content]

theorem unread (h : Holds b q) : b.unread = q.elems := by
  rw [Buffer.unread, h.content, h.offset, q.history_drop_consumed]

theorem length (h : Holds b q) : b.length = q.elems.length := by
  rw [← h.wf.unread_length, h.unread]

/-- The bytes before `_offset` are below `_pos`. -/
theorem consumed (h : Holds b q) : b._data.take b._offset = q.consumed := by
  have hle := h.wf.offset_le
  have htake : b._data.take b._offset = b.content.take b._offset := by
    rw [Buffer.content, List.take_take, Nat.min_eq_left hle]
  rw [htake, h.content, h.offset, q.history_take_consumed]

/-- **A reallocation keeps the bytes below `_pos`.** -/
theorem grow (h : Holds b q) {len : ℕ} (hlen : b._pos + len < 2 ^ 31) :
    (b.grow len).WF ∧ (b.grow len)._data.take b._pos = b._data.take b._pos ∧
      (b.grow len)._pos = b._pos ∧ (b.grow len)._offset = b._offset := by
  have hwrap : b._pos + len + bufferDefaultSize < 2 ^ 32 := by
    simp only [bufferDefaultSize]
    omega
  obtain ⟨hwf, hcontent, hpos, hoffset, -⟩ := h.wf.grow hwrap
  refine ⟨hwf, ?_, hpos, hoffset⟩
  rw [Buffer.content, hpos] at hcontent
  exact hcontent

theorem represents (h : Holds b q) : Represents b q where
  toHolds := h
  unread := h.unread
  consumed := h.consumed
  length := h.length
  grow _ hlen := h.grow hlen

theorem new : Holds new .empty := ⟨new_wf, rfl, rfl, by decide⟩

/-! ## The calls -/

/-- **`Write` appends.** -/
theorem write (h : Holds b q) {src : List Byte} (hlen : q.history.length + src.length < 2 ^ 31) :
    ∃ b', b.writeIn src = some b' ∧ Holds b' (q.append src) := by
  have hpos := h.pos_eq
  have hfits : b.WriteFits src.length := by
    right
    simp only [bufferDefaultSize]
    omega
  obtain ⟨b', hwrite, hwf, hcontent, hpos', hoffset⟩ := h.wf.writeIn hfits
  refine ⟨b', hwrite, hwf, ?_, ?_, ?_⟩
  · rw [hcontent, h.content, q.history_append]
  · rw [hoffset, h.offset, q.consumed_append]
  · omega

/-- **The border moves** in the same history. -/
theorem move (h : Holds b q) {q' : Queue Byte} (hq : q'.history = q.history) :
    Holds { b with _offset := q'.consumed.length } q' := by
  have hpos : b._pos = q'.consumed.length + q'.elems.length := by
    rw [h.pos_eq, ← hq, q'.history_length]
  have hwf : WF { b with _offset := q'.consumed.length } :=
    ⟨by rw [hpos]; exact Nat.le_add_right .., h.wf.pos_le, h.wf.size_lt, h.wf.data⟩
  refine ⟨hwf, ?_, rfl, h.lt⟩
  rw [hq]
  exact h.content

theorem advance (h : Holds b q) {n : ℕ} (hn : n ≤ q.elems.length) :
    Holds (b.advance n) (q.drop n) := by
  have hborder : b._offset + n = (q.drop n).consumed.length := by
    rw [q.consumed_drop_length, h.offset, Nat.min_eq_left hn]
  rw [Buffer.advance, hborder]
  exact h.move (q.history_drop n)

/-- **`Read` takes from the front**, and copies what it takes. -/
theorem read (h : Holds b q) {dst : List Byte} {len : ℕ} (hlen : len ≤ q.elems.length)
    (hdst : len ≤ dst.length) :
    ∃ b', b.readIn dst len = some (q.elems.take len ++ dst.drop len, b') ∧
      Holds b' (q.drop len) := by
  have hle : len ≤ b.unread.length := by rwa [h.unread]
  have hcopy : memcpy dst 0 (q.elems.take len) = q.elems.take len ++ dst.drop len := by
    have htake : (q.elems.take len).length = len := by
      rw [List.length_take, Nat.min_eq_left hlen]
    rw [memcpy, htake, List.take_zero, List.nil_append, Nat.zero_add]
  have hread := h.wf.readIn hle hdst
  rw [h.unread, hcopy] at hread
  exact ⟨_, hread, h.advance hlen⟩

/-- **`CutData` takes from the front**, and everything when there is less. -/
theorem drop (h : Holds b q) {n : ℕ} (hn : n < 2 ^ 31) : Holds (b.cutData n) (q.drop n) := by
  have hborder := q.consumed_drop_length n
  have hoffset := h.offset
  have hlt := h.lt
  have hpos : b._pos = q.consumed.length + q.elems.length := by
    rw [h.pos_eq, q.history_length]
  -- the sum does not wrap, it may be beyond `_pos`
  have hu : toU32 ((b._offset : ℤ) + n) = b._offset + n := by
    rw [toU32_of_lt (by omega) (by omega)]
    omega
  have hcut : b.cutData n = { b with _offset := (q.drop n).consumed.length } := by
    rw [cutData, hu]
    split
    · have hall : b._pos = (q.drop n).consumed.length := by omega
      rw [hall]
    · have hsome : b._offset + n = (q.drop n).consumed.length := by omega
      rw [hsome]
  rw [hcut]
  exact h.move (q.history_drop n)

/-- **`CutData` with a negative length puts back**: the sum wraps to the smaller offset. -/
theorem restore (h : Holds b q) {n : ℕ} (hn : n ≤ q.consumed.length) :
    Holds (b.cutData (-n)) (q.restore n) := by
  have hborder := q.consumed_restore_length n
  have hoffset := h.offset
  have hoff := h.wf.offset_le
  have hlt := h.lt
  have hu : toU32 ((b._offset : ℤ) + -n) = (q.restore n).consumed.length := by
    rw [toU32_of_lt (by omega) (by omega)]
    omega
  have hcut : b.cutData (-n) = { b with _offset := (q.restore n).consumed.length } := by
    rw [cutData, hu, if_neg (by omega)]
  rw [hcut]
  exact h.move (q.history_restore n)

theorem clear (h : Holds b q) : Holds b.clear .empty :=
  ⟨h.wf.clear, b.clear_content, rfl, Nat.two_pow_pos 31⟩

end Holds

/-! ## Sequences of calls -/

variable {s : ℕ → Buffer} {m m' : ℕ → Queue Byte} {c : ByteQueueCall} {o : ByteQueueAnswer}

/-- **One call** that is allowed on the queues is defined on the buffers and gives the same. -/
theorem call_ok (h : ∀ i, Holds (s i) (m i)) (hc : queueCall m c = some (o, m')) :
    ∃ s', call s c = some (o, s') ∧ ∀ i, Holds (s' i) (m' i) := by
  cases c with
  | write i src =>
    obtain ⟨hlen, hpair⟩ := Option.ite_none_right_eq_some.mp hc
    cases hpair
    obtain ⟨b, hwrite, hb⟩ := (h i).write hlen
    exact ⟨_, by rw [call, hwrite]; rfl, related_update h hb⟩
  | read i dst len =>
    obtain ⟨⟨hlen, hdst⟩, hpair⟩ := Option.ite_none_right_eq_some.mp hc
    cases hpair
    obtain ⟨b, hread, hb⟩ := (h i).read hlen hdst
    exact ⟨_, by rw [call, hread]; rfl, related_update h hb⟩
  | cutData i len =>
    have hlt := BitVec.toInt_lt (x := len)
    rw [queueCall] at hc
    split at hc
    · -- bytes are taken
      rename_i hpos
      cases hc
      have hcast : len.toInt = (len.toInt.toNat : ℤ) := (Int.toNat_of_nonneg hpos).symm
      have hb := (h i).drop (n := len.toInt.toNat) (by omega)
      rw [← hcast] at hb
      exact ⟨_, rfl, related_update h hb⟩
    · -- bytes are put back
      rename_i hneg
      obtain ⟨hlen, hpair⟩ := Option.ite_none_right_eq_some.mp hc
      cases hpair
      have hcast : -((-len.toInt).toNat : ℤ) = len.toInt := by omega
      have hb := (h i).restore hlen
      rw [hcast] at hb
      exact ⟨_, rfl, related_update h hb⟩
  | clear i =>
    cases hc
    exact ⟨_, rfl, related_update h (h i).clear⟩
  | swap i buffer =>
    cases hc
    -- one buffer at a time, which is also right when both are the same
    have hfirst : ∀ j, Holds (update s i (s buffer) j) (update m i (m buffer) j) :=
      related_update h (h buffer)
    exact ⟨_, rfl, related_update hfirst (h i)⟩
  | length i =>
    cases hc
    refine ⟨s, ?_, h⟩
    rw [call, (h i).length]

/-- **Buffers are queues of bytes**: for any number of default-constructed buffers and every
sequence of calls, as far as the calls are allowed on the queues, each call is defined, gives what
it gives for the queues and leaves buffers that represent them. -/
theorem refines_queues :
    (∀ _ : ℕ, Represents new .empty) ∧ ∀ l : List ByteQueueCall,
      Refines call queueCall (fun s m => ∀ i, Represents (s i) (m i)) (fun _ => new)
        (fun _ => .empty) l := by
  have hnew : ∀ _ : ℕ, Represents new .empty := fun _ => Holds.new.represents
  refine ⟨hnew, fun l => refines_of_step ?_ l _ _ hnew⟩
  intro s m c o m' h hc
  obtain ⟨s', hs', h'⟩ := call_ok (fun i => (h i).toHolds) hc
  exact ⟨s', hs', fun i => (h' i).represents⟩

end Buffer

end Netlib
