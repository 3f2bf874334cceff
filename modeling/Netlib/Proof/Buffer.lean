import Netlib.Spec.Buffer
import Mathlib.Tactic.Common

/-!
# The buffer operations on the bytes held

On a well-formed buffer whose size stays in the 32-bit range, `Write` appends,
`Read` and `CutData` drop from the front of the unread bytes, and `Clear`
empties. Each lemma says what an operation does to `content`, `unread` and the
two positions, so that no later proof unfolds an operation.
-/

namespace Netlib

theorem u32_of_lt {n : ℕ} (h : n < 2 ^ 32) : u32 n = n := Nat.mod_eq_of_lt h

theorem toU32_of_lt {z : ℤ} (h0 : 0 ≤ z) (h : z < 2 ^ 32) : toU32 z = z.toNat := by
  unfold toU32; rw [Int.emod_eq_of_lt h0 h]

theorem toInt32_of_lt {n : ℕ} (h : n < 2 ^ 31) : toInt32 n = n := by
  have hu : u32 n = n := u32_of_lt (by omega)
  rw [toInt32, hu, if_pos h]

theorem toInt32_neg {n : ℕ} (hlo : 2 ^ 31 ≤ n) (hhi : n < 2 ^ 32) : toInt32 n = n - 2 ^ 32 := by
  have hu : u32 n = n := u32_of_lt hhi
  rw [toInt32, hu, if_neg (by omega)]

/-- An `int` goes through the word and back. -/
theorem toInt32_toU32 {z : ℤ} (hlo : -2 ^ 31 ≤ z) (hhi : z < 2 ^ 31) : toInt32 (toU32 z) = z := by
  unfold toInt32 toU32 u32
  split_ifs <;> omega

theorem memcpy_length {dst src : List Byte} {i : ℕ} (h : i + src.length ≤ dst.length) :
    (memcpy dst i src).length = dst.length := by
  simp only [memcpy, List.length_append, List.length_take, List.length_drop]; omega

theorem memcpy_take (dst src : List Byte) {i : ℕ} (h : i ≤ dst.length) :
    (memcpy dst i src).take (i + src.length) = dst.take i ++ src := by
  have hl : (dst.take i ++ src).length = i + src.length := by simp [Nat.min_eq_left h]
  rw [memcpy, ← hl, List.take_left]

namespace Buffer

variable {b : Buffer}

theorem new_wf : new.WF := ⟨Nat.le_refl _, by decide, by decide, by simp [new, malloc]⟩

@[simp] theorem new_unread : new.unread = [] := by simp [unread, content, new]

theorem WF.clear (h : b.WF) : b.clear.WF := ⟨Nat.le_refl _, Nat.zero_le _, h.size_lt, h.data⟩

@[simp] theorem clear_content (b : Buffer) : b.clear.content = [] := by simp [content, Buffer.clear]

@[simp] theorem clear_unread (b : Buffer) : b.clear.unread = [] := by simp [unread]

theorem WF.pos_lt (h : b.WF) : b._pos < 2 ^ 32 := Nat.lt_of_le_of_lt h.pos_le h.size_lt

theorem WF.content_length (h : b.WF) : b.content.length = b._pos := by
  have h1 := h.data
  have h2 := h.pos_le
  simp only [content, List.length_take]; omega

theorem WF.length_eq (h : b.WF) : b.length = b._pos - b._offset := by
  have h1 := h.offset_le
  have h2 := h.pos_lt
  rw [length, toU32_of_lt (by omega) (by omega)]; omega

theorem WF.unread_length (h : b.WF) : b.unread.length = b.length := by
  rw [h.length_eq, unread, List.length_drop, h.content_length]

/-- The memory at `Data()` starts with the unread bytes. -/
theorem WF.data_take (h : b.WF) : b.data.take b.length = b.unread := by
  rw [h.length_eq, unread, content, Buffer.data, List.drop_take]

/-! ## `Write` -/

@[simp] theorem grow_pos (b : Buffer) (len : ℕ) : (b.grow len)._pos = b._pos := by
  unfold grow; split <;> rfl

@[simp] theorem grow_offset (b : Buffer) (len : ℕ) : (b.grow len)._offset = b._offset := by
  unfold grow; split <;> rfl

theorem write_pos (b : Buffer) (src : List Byte) (len : ℕ) :
    (b.write src len)._pos = u32 (b._pos + len) := by
  simp only [write, grow_pos]

theorem write_offset (b : Buffer) (src : List Byte) (len : ℕ) :
    (b.write src len)._offset = b._offset := by
  simp only [write, grow_offset]

theorem WF.grow (h : b.WF) {len : ℕ} (hlen : b._pos + len + bufferDefaultSize < 2 ^ 32) :
    (b.grow len).WF ∧ (b.grow len).content = b.content ∧ (b.grow len)._pos = b._pos ∧
      (b.grow len)._offset = b._offset ∧ b._pos + len ≤ (b.grow len)._size := by
  have hd := h.data
  have hp := h.pos_le
  have hu : u32 (b._pos + len) = b._pos + len := u32_of_lt (by omega)
  by_cases hgt : b._pos + len > b._size
  · -- a larger allocation, with the bytes below `_pos` copied over
    have hs : u32 (bufferDefaultSize * ((b._pos + len) / bufferDefaultSize + 1)) =
        bufferDefaultSize * ((b._pos + len) / bufferDefaultSize + 1) :=
      u32_of_lt (by simp only [bufferDefaultSize] at *; omega)
    have hlt : b._pos + len < bufferDefaultSize * ((b._pos + len) / bufferDefaultSize + 1) := by
      simp only [bufferDefaultSize]; omega
    have hub : bufferDefaultSize * ((b._pos + len) / bufferDefaultSize + 1) < 2 ^ 32 := by
      simp only [bufferDefaultSize] at *; omega
    set size := bufferDefaultSize * ((b._pos + len) / bufferDefaultSize + 1)
    have hg : b.grow len =
        { b with _size := size, _data := memcpy (malloc size) 0 (b._data.take b._pos) } := by
      rw [Buffer.grow, hu, if_pos hgt, hs]
    have hcl : (b._data.take b._pos).length = b._pos := by rw [List.length_take]; omega
    rw [hg]
    refine ⟨⟨h.offset_le, Nat.le_of_lt (by omega : b._pos < size), hub, ?_⟩, ?_, rfl, rfl,
      Nat.le_of_lt hlt⟩
    · change (memcpy (malloc size) 0 (b._data.take b._pos)).length = size
      rw [memcpy_length (by rw [hcl]; simp only [malloc, List.length_replicate]; omega)]
      simp [malloc]
    · change (memcpy (malloc size) 0 (b._data.take b._pos)).take b._pos = b._data.take b._pos
      have := memcpy_take (malloc size) (b._data.take b._pos) (Nat.zero_le _)
      rw [hcl, Nat.zero_add] at this
      rw [this]; simp
  · -- room enough
    have hg : b.grow len = b := by rw [Buffer.grow, hu, if_neg hgt]
    rw [hg]
    exact ⟨h, rfl, rfl, rfl, by omega⟩

/-- `Write` once there is room: the bytes come after those that are there. -/
theorem write_of_grow {src : List Byte} {len : ℕ} (hsrc : len ≤ src.length)
    (hg : (b.grow len).WF) (hc : (b.grow len).content = b.content)
    (hs : b._pos + len ≤ (b.grow len)._size) :
    (b.write src len).WF ∧ (b.write src len).content = b.content ++ src.take len ∧
      (b.write src len)._pos = b._pos + len ∧ (b.write src len)._offset = b._offset := by
  have hp := grow_pos b len
  have ho := grow_offset b len
  have hsize := hg.size_lt
  have hl : (src.take len).length = len := by rw [List.length_take]; omega
  have hu : u32 (b._pos + len) = b._pos + len := u32_of_lt (by omega)
  have hgd := hg.data
  have hgo := hg.offset_le
  have hw : b.write src len = { b.grow len with
      _data := memcpy (b.grow len)._data b._pos (src.take len), _pos := b._pos + len } := by
    rw [Buffer.write, hp, hu]
  have hcd : (b.grow len)._data.take b._pos = b.content := by rw [← hp]; exact hc
  rw [hw]
  refine ⟨⟨Nat.le_trans hgo (by rw [hp]; exact Nat.le_add_right _ _), hs, hg.size_lt, ?_⟩, ?_,
    rfl, ho⟩
  · exact (memcpy_length (by rw [hl]; omega)).trans hgd
  · have := memcpy_take (b.grow len)._data (src.take len) (show b._pos ≤ _ by omega)
    rw [hl, hcd] at this
    exact this

/-- **`Write` appends** the bytes it is given, and keeps the invariant. -/
theorem WF.write (h : b.WF) {src : List Byte} {len : ℕ} (hsrc : len ≤ src.length)
    (hlen : b._pos + len + bufferDefaultSize < 2 ^ 32) :
    (b.write src len).WF ∧ (b.write src len).content = b.content ++ src.take len ∧
      (b.write src len)._pos = b._pos + len ∧ (b.write src len)._offset = b._offset := by
  obtain ⟨hg, hc, -, -, hs⟩ := h.grow hlen
  exact write_of_grow hsrc hg hc hs

/-- `Write` appends to the unread bytes. -/
theorem WF.write_unread (h : b.WF) {src : List Byte} {len : ℕ} (hsrc : len ≤ src.length)
    (hlen : b._pos + len + bufferDefaultSize < 2 ^ 32) :
    (b.write src len).unread = b.unread ++ src.take len := by
  obtain ⟨-, hc, -, ho⟩ := h.write hsrc hlen
  rw [unread, hc, ho, unread, List.drop_append_of_le_length]
  rw [h.content_length]; exact h.offset_le

/-! ## `Read` and `CutData` -/

/-- **`Read` of bytes that are there** copies them out and drops them. -/
theorem WF.read (h : b.WF) {len : ℕ} (hlen : len ≤ b.length) :
    b.read len = (some (b.unread.take len), { b with _offset := b._offset + len }) ∧
      { b with _offset := b._offset + len }.WF := by
  rw [h.length_eq] at hlen
  have h1 := h.offset_le
  have h2 := h.pos_lt
  have hu : u32 (b._offset + len) = b._offset + len := u32_of_lt (by omega)
  refine ⟨?_, ⟨by simp only; omega, h.pos_le, h.size_lt, h.data⟩⟩
  rw [Buffer.read, hu, if_neg (by omega), unread, content, List.drop_take, List.take_take,
    Nat.min_eq_left (by omega)]

theorem WF.cutData_wf (h : b.WF) (z : ℤ) : (b.cutData z).WF := by
  unfold Buffer.cutData
  split
  · exact ⟨Nat.le_refl _, h.pos_le, h.size_lt, h.data⟩
  · rename_i hle
    exact ⟨Nat.le_of_not_lt hle, h.pos_le, h.size_lt, h.data⟩

/-- **`CutData` of bytes that are there** drops them. -/
theorem WF.cutData (h : b.WF) {len : ℕ} (hlen : len ≤ b.length) :
    b.cutData len = { b with _offset := b._offset + len } ∧ (b.cutData len).WF := by
  rw [h.length_eq] at hlen
  have h1 := h.offset_le
  have h2 := h.pos_lt
  have hu : toU32 ((b._offset : ℤ) + len) = b._offset + len := by
    rw [toU32_of_lt (by omega) (by omega)]; omega
  have he : b.cutData len = { b with _offset := b._offset + len } := by
    rw [Buffer.cutData, hu, if_neg (by omega)]
  exact ⟨he, by rw [he]; exact ⟨by simp only; omega, h.pos_le, h.size_lt, h.data⟩⟩

/-- Moving the offset on drops unread bytes. -/
@[simp] theorem unread_offset (b : Buffer) (n : ℕ) :
    { b with _offset := b._offset + n }.unread = b.unread.drop n := by
  simp only [unread, content, List.drop_drop]

theorem memcpy_ne_nil {dst src : List Byte} {i : ℕ} (h : dst ≠ [] ∨ src ≠ []) :
    memcpy dst i src ≠ [] := by
  intro hnil
  have hlen := congrArg List.length hnil
  simp only [memcpy, List.length_append, List.length_take, List.length_drop, List.length_nil] at hlen
  rcases h with h | h
  · have := List.length_pos_iff.mpr h
    omega
  · have := List.length_pos_iff.mpr h
    omega

/-- The memory is not empty after a `Write`. -/
theorem write_data_ne_nil {b : Buffer} {src : List Byte} {len : ℕ}
    (hlen : b._pos + len + bufferDefaultSize < 2 ^ 32) (h : b._data ≠ [] ∨ src.take len ≠ []) :
    (b.write src len)._data ≠ [] := by
  apply memcpy_ne_nil
  rcases h with h | h
  · left
    unfold grow
    split
    · -- a new allocation is not empty
      apply memcpy_ne_nil
      left
      rw [malloc, ne_eq, List.replicate_eq_nil_iff, u32_of_lt (n := b._pos + len) (by omega)]
      have hdiv := Nat.div_mul_le_self (b._pos + len) bufferDefaultSize
      rw [u32_of_lt (by rw [Nat.mul_comm] at hdiv; simp only [bufferDefaultSize] at *; omega)]
      simp only [bufferDefaultSize]
      omega
    · exact h
  · exact .inr h

end Buffer

end Netlib
