import Netlib.Spec.TypedBuffer
import Netlib.Proof.Buffer
import Netlib.Proof.Header
import Mathlib.Algebra.Order.BigOperators.Group.List
import Mathlib.Algebra.Order.Group.Nat
import Mathlib.Data.List.TakeWhile

/-!
# Reads of a buffer, and values that come back

On a well-formed buffer `Write` is defined exactly when `WriteFits`, and `Read` of bytes that are
not there leaves everything as it was exactly when its 32-bit sum does not wrap. `Read` of a
string takes the length before it knows that the characters are there. So the reads of a run are
atomic when every call is bounded (`atomic_iff`), and values come back when no block wraps and
every string is one that a C string can hold (`roundTrip_iff`).
-/

namespace Netlib

open Lib
open Function (update)

namespace Buffer

variable {b b' : Buffer} {src dst value : List Byte} {len : ℕ} {m : Malloc}

/-! ## `Write` -/

/-- There is room: the block stays. -/
theorem grow_of_le (h : b.WF) (hlen : b._pos + len ≤ b._size) : b.grow len = b := by
  have hlt := h.size_lt
  have hu : u32 (b._pos + len) = b._pos + len := u32_of_lt (by omega)
  unfold grow
  rw [hu, if_neg (by omega)]

/-- The size of a block has 32 bits. -/
theorem grow_size_lt (h : b.WF) (len : ℕ) : (b.grow len)._size < 2 ^ 32 := by
  unfold grow
  split
  · exact Nat.mod_lt _ (Nat.two_pow_pos 32)
  · exact h.size_lt

/-- **What `Write` does when it fits.** -/
theorem WF.writeIn (h : b.WF) (hfits : b.WriteFits src.length) :
    ∃ b', b.writeIn src = some b' ∧ b'.WF ∧ b'.content = b.content ++ src ∧
      b'._pos = b._pos + src.length ∧ b'._offset = b._offset := by
  have hdata := h.data
  have hpos := h.pos_le
  obtain ⟨hg, hc, hs⟩ : (b.grow src.length).WF ∧ (b.grow src.length).content = b.content ∧
      b._pos + src.length ≤ (b.grow src.length)._size := by
    rcases hfits with hle | hlt
    · rw [grow_of_le h hle]
      exact ⟨h, rfl, hle⟩
    · obtain ⟨hg, hc, -, -, hs⟩ := h.grow hlt
      exact ⟨hg, hc, hs⟩
  obtain ⟨hw, hcontent, hp, ho⟩ := write_of_grow (Nat.le_refl _) hg hc hs
  rw [List.take_length] at hcontent
  refine ⟨_, ?_, hw, hcontent, hp, ho⟩
  unfold Buffer.writeIn
  rw [if_pos ⟨by omega, hs⟩]

/-- **`Write` leaves the block when it does not fit**: the size that it asks for has wrapped. -/
theorem WF.writeFits (h : b.WF) (hw : b.writeIn src = some b') : b.WriteFits src.length := by
  by_contra hno
  unfold WriteFits at hno
  rw [not_or] at hno
  obtain ⟨hsize, hwrap⟩ := hno
  have hlt := grow_size_lt h src.length
  have hinside : ¬ b._pos + src.length ≤ (b.grow src.length)._size := by
    intro hle
    have hu : u32 (b._pos + src.length) = b._pos + src.length := u32_of_lt (by omega)
    have hdiv : (b._pos + src.length) / bufferDefaultSize + 1 = 2 ^ 22 := by
      simp only [bufferDefaultSize] at *
      omega
    have hgrow : (b.grow src.length)._size = 0 := by
      unfold Buffer.grow
      rw [hu, if_pos (by omega), hdiv]
      rfl
    omega
  unfold Buffer.writeIn at hw
  rw [if_neg fun hand => hinside hand.2] at hw
  cases hw

/-! ## `Read` -/

theorem WF.advance (h : b.WF) (hlen : len ≤ b.unread.length) :
    (b.advance len).WF ∧ (b.advance len).unread = b.unread.drop len := by
  rw [h.unread_length] at hlen
  exact ⟨(h.read hlen).2, unread_offset b len⟩

theorem WF.unread_length_eq (h : b.WF) : b.unread.length = b._pos - b._offset := by
  rw [h.unread_length, h.length_eq]

/-- **`Read` of bytes that are there.** -/
theorem WF.readIn (h : b.WF) (hlen : len ≤ b.unread.length) (hdst : len ≤ dst.length) :
    b.readIn dst len = some (memcpy dst 0 (b.unread.take len), b.advance len) := by
  have hun := h.unread_length_eq
  have hdata := h.data
  have hpos := h.pos_le
  have hoff := h.offset_le
  have hlen' : len ≤ b.length := by rwa [← h.unread_length]
  have hread := (h.read hlen').1
  unfold Buffer.readIn
  rw [hread]
  dsimp only
  rw [if_pos ⟨by omega, hdst⟩]
  rfl

/-- **`Read` of bytes that are not there**, when the sum does not wrap. -/
theorem WF.readIn_short (h : b.WF) (hlen : b.unread.length < len)
    (hwrap : b._offset + len < 2 ^ 32) : b.readIn dst len = some (dst, b) := by
  have hun := h.unread_length_eq
  have hoff := h.offset_le
  have hread : b.read len = (none, b) := by
    unfold Buffer.read
    rw [u32_of_lt hwrap, if_pos (by omega)]
  unfold Buffer.readIn
  rw [hread]

/-- When the sum wraps the check is passed, and bytes beyond the block are copied. -/
theorem WF.readIn_wrap (h : b.WF) (hlen : len < 2 ^ 32) (hwrap : 2 ^ 32 ≤ b._offset + len) :
    b.readIn dst len = none := by
  have hdata := h.data
  have hsize := h.size_lt
  have hpos := h.pos_le
  have hoff := h.offset_le
  have hu : u32 (b._offset + len) = b._offset + len - 2 ^ 32 := by
    unfold u32
    omega
  have hread : b.read len = (some ((b._data.drop b._offset).take len),
      { b with _offset := b._offset + len - 2 ^ 32 }) := by
    unfold Buffer.read
    rw [hu, if_neg (by omega)]
  unfold Buffer.readIn
  rw [hread]
  dsimp only
  rw [if_neg (by omega)]

theorem memcpy_all {dst bytes : List Byte} (h : bytes.length = dst.length) :
    memcpy dst 0 bytes = bytes := by
  simp [memcpy, h]

/-- A value is read when all its bytes are there. -/
theorem WF.readValue (h : b.WF) (hlen : value.length ≤ b.unread.length) :
    b.readValue value = some (b.unread.take value.length, b.advance value.length) := by
  unfold Buffer.readValue
  rw [h.readIn hlen (Nat.le_refl _), memcpy_all (by rw [List.length_take]; omega)]

/-- **`Read` of a string** once its length is there: the length is taken, and then the characters,
if they are there as well. -/
theorem WF.readString_eq (h : b.WF) (h4 : 4 ≤ b.unread.length) (m : Malloc) (value : List Byte) :
    b.readString m value =
      if b.stringLength > 0 then
        ((b.advance 4).readIn (m.block (u32 (b.stringLength + 1))) b.stringLength).bind
          fun (tmp, b') =>
            if b.stringLength < tmp.length then some (cstr (tmp.set b.stringLength 0), b')
            else none
      else some (value, b.advance 4) := by
  have hword : b.readValue (le32 0) = some (b.unread.take 4, b.advance 4) :=
    h.readValue (by rwa [le32_length])
  unfold Buffer.readString
  rw [hword]
  rfl

/-- The null character behind the characters ends the C string, at the latest. -/
theorem cstr_append_zero {chars rest : List Byte} :
    cstr (chars ++ 0 :: rest) = chars.takeWhile (· != 0) := by
  unfold cstr
  induction chars with
  | nil => rfl
  | cons c chars ih =>
    rw [List.cons_append, List.takeWhile_cons, List.takeWhile_cons, ih]

/-- **`Read` of a string that is there.** -/
theorem WF.readString (h : b.WF) (hs : b.HasString) (m : Malloc) (value : List Byte) :
    b.readString m value =
      some (if b.stringLength = 0 then value else cstr b.stringChars,
        b.advance (4 + b.stringLength)) := by
  obtain ⟨h4, hlen⟩ := hs
  obtain ⟨hw, hun⟩ := h.advance h4
  have hpos := h.pos_lt
  have hunread := h.unread_length_eq
  rw [h.readString_eq h4]
  unfold stringChars
  generalize b.stringLength = n at *
  by_cases h0 : n = 0
  · rw [if_neg (by omega), if_pos h0, h0]
  · have hu : u32 (n + 1) = n + 1 := u32_of_lt (by omega)
    have hblock := m.length_block (n + 1)
    have htake : ((b.unread.drop 4).take n).length = n := by
      rw [List.length_take, List.length_drop]
      omega
    have hlen' : n ≤ (b.advance 4).unread.length := by
      rw [hun, List.length_drop]
      omega
    have hdst : n ≤ (m.block (n + 1)).length := by omega
    have hread := hw.readIn hlen' hdst
    rw [if_pos (by omega), if_neg h0, hu, hread, hun, Option.bind_some]
    dsimp only
    rw [memcpy_length (by omega), if_pos (by omega)]
    -- the characters, the null character, and nothing else
    have hmem : (memcpy (m.block (n + 1)) 0 ((b.unread.drop 4).take n)).set n 0 =
        (b.unread.drop 4).take n ++ 0 :: [] := by
      unfold memcpy
      obtain ⟨x, hx⟩ : ∃ x, (m.block (n + 1)).drop (0 + ((b.unread.drop 4).take n).length) = [x] := by
        apply List.length_eq_one_iff.mp
        rw [List.length_drop]
        omega
      rw [hx, List.take_zero, List.nil_append, List.set_append_right _ _ (by omega), htake,
        Nat.sub_self, List.set_cons_zero]
    have hadd : (b.advance 4).advance n = b.advance (4 + n) := by
      simp only [Buffer.advance, Nat.add_assoc]
    rw [hmem, cstr_append_zero, hadd]
    rfl

/-- A string that is not there is not read without a trace. -/
theorem WF.not_unchanged (h : b.WF) (h4 : 4 ≤ b.unread.length) (hs : ¬ b.HasString) (m : Malloc)
    (value : List Byte) : b.readString m value ≠ some (value, b) := by
  obtain ⟨hw, hun⟩ := h.advance h4
  have hlen : b.unread.length < 4 + b.stringLength := by
    by_contra hle
    exact hs ⟨h4, Nat.le_of_not_lt hle⟩
  have hlt : b.stringLength < 2 ^ 32 := ofLe32_lt _
  rw [h.readString_eq h4]
  generalize b.stringLength = n at *
  rw [if_pos (by omega)]
  intro heq
  obtain ⟨⟨tmp, b'⟩, hread, hpair⟩ := Option.bind_eq_some_iff.mp heq
  have hoff : b'._offset = b._offset + 4 := by
    rcases Nat.lt_or_ge ((b.advance 4)._offset + n) (2 ^ 32) with hno | hwrap
    · rw [hw.readIn_short (by rw [hun, List.length_drop]; omega) hno] at hread
      cases hread
      rfl
    · rw [hw.readIn_wrap hlt hwrap] at hread
      cases hread
  dsimp only at hpair
  split at hpair
  · cases hpair
    omega
  · cases hpair

/-! ## One call -/

theorem newHdr_wf (m : Malloc) (hdrlen : ℕ) : (newHdr m hdrlen).WF := by
  have hsize : bufferDefaultSize < 2 ^ 32 := by decide
  have hblock := m.length_block bufferDefaultSize
  unfold newHdr
  dsimp only
  split
  · rename_i hle
    have hpos : new._pos + hdrlen ≤ new._size := by
      rw [show new._pos = 0 from rfl, Nat.zero_add]
      exact hle
    exact ⟨Nat.zero_le _, hpos, hsize, hblock⟩
  · exact ⟨Nat.le_refl 0, Nat.zero_le _, hsize, hblock⟩

variable {s : ℕ → Buffer} {c : BufferCall}

/-- A family of well-formed buffers after one of them has changed. -/
theorem wf_update (h : ∀ i, (s i).WF) (i : ℕ) (hb : b.WF) : ∀ j, (update s i b j).WF := by
  rw [Function.forall_update_iff s fun _ b => b.WF]
  exact ⟨hb, fun j _ => h j⟩

/-- A call that is no `Read`. -/
theorem atomic_of_step (h : ∀ i, (s i).WF) {s' : ℕ → Buffer} (hs : step s c = some s')
    (h' : ∀ i, (s' i).WF) (hread : ∀ i dst, c ≠ .read i dst)
    (hstring : ∀ i m value, c ≠ .readString i m value) : Atomic s c where
  before := h
  after := ⟨s', hs, h'⟩
  read i dst hc := absurd hc (hread i dst)
  string i m value hc := absurd hc (hstring i m value)

/-- **A bounded call is atomic.** -/
theorem atomic_of_bounded (h : ∀ i, (s i).WF) (hb : Bounded s c) : Atomic s c := by
  cases c with
  | write i src =>
    obtain ⟨b', hw, hwf, -⟩ := (h i).writeIn hb
    have hs : step s (.write i src) = some (update s i b') := by
      rw [step, hw]
      rfl
    exact atomic_of_step h hs (wf_update h i hwf) nofun nofun
  | read i dst =>
    have hwrap : (s i)._offset + dst.bytes.length < 2 ^ 32 := hb
    by_cases hlen : dst.bytes.length ≤ (s i).unread.length
    · have hread := (h i).readValue hlen
      refine ⟨h, ⟨_, ?_, wf_update h i ((h i).advance hlen).1⟩, ?_, ?_⟩
      · rw [step, hread]
        rfl
      · intro _ _ hc
        cases hc
        rw [if_pos hlen, hread]
      · intro _ _ _ hc
        cases hc
    · have hread : (s i).readValue dst.bytes = some (dst.bytes, s i) :=
        (h i).readIn_short (Nat.lt_of_not_le hlen) hwrap
      refine ⟨h, ⟨_, ?_, wf_update h i (h i)⟩, ?_, ?_⟩
      · rw [step, hread]
        rfl
      · intro _ _ hc
        cases hc
        rw [if_neg hlen, hread]
      · intro _ _ _ hc
        cases hc
  | readString i m value =>
    by_cases h4 : 4 ≤ (s i).unread.length
    · rw [Bounded, if_pos h4] at hb
      have hread := (h i).readString hb m value
      refine ⟨h, ⟨_, ?_, wf_update h i ((h i).advance hb.2).1⟩, ?_, ?_⟩
      · rw [step, hread]
        rfl
      · intro _ _ hc
        cases hc
      · intro _ _ _ hc
        cases hc
        rw [if_pos hb, hread]
    · rw [Bounded, if_neg h4] at hb
      have hno : ¬ (s i).HasString := fun hs => h4 hs.1
      have hword : (s i).readValue (le32 0) = some (le32 0, s i) :=
        (h i).readIn_short (Nat.lt_of_not_le h4) hb
      have hread : (s i).readString m value = some (value, s i) := by
        unfold Buffer.readString
        rw [hword]
        rfl
      refine ⟨h, ⟨_, ?_, wf_update h i (h i)⟩, ?_, ?_⟩
      · rw [step, hread]
        rfl
      · intro _ _ hc
        cases hc
      · intro _ _ _ hc
        cases hc
        rw [if_neg hno, hread]
  | cutData i z =>
    exact atomic_of_step h rfl (wf_update h i ((h i).cutData_wf z)) nofun nofun
  | clear i => exact atomic_of_step h rfl (wf_update h i (h i).clear) nofun nofun
  | swap i buffer =>
    have hfirst := wf_update h i (h buffer)
    exact atomic_of_step h rfl (wf_update hfirst buffer (h i)) nofun nofun

/-- **An atomic call is bounded.** -/
theorem bounded_of_atomic (ha : Atomic s c) : Bounded s c := by
  have h := ha.before
  obtain ⟨s', hs, -⟩ := ha.after
  cases c with
  | write i src =>
    obtain ⟨b', hw, -⟩ := Option.map_eq_some_iff.mp hs
    exact (h i).writeFits hw
  | read i dst =>
    obtain ⟨p, hread, -⟩ := Option.map_eq_some_iff.mp hs
    by_contra hwrap
    have hnone : (s i).readIn dst.bytes dst.bytes.length = none :=
      (h i).readIn_wrap dst.lt (Nat.le_of_not_lt hwrap)
    unfold Buffer.readValue at hread
    rw [hnone] at hread
    cases hread
  | readString i m value =>
    have hstring := ha.string i m value rfl
    obtain ⟨p, hread, -⟩ := Option.map_eq_some_iff.mp hs
    by_cases h4 : 4 ≤ (s i).unread.length
    · rw [Bounded, if_pos h4]
      by_contra hno
      rw [if_neg hno] at hstring
      exact (h i).not_unchanged h4 hno m value hstring
    · rw [Bounded, if_neg h4]
      by_contra hwrap
      have hnone : (s i).readIn (le32 0) 4 = none :=
        (h i).readIn_wrap (by decide) (Nat.le_of_not_lt hwrap)
      unfold Buffer.readString Buffer.readValue at hread
      rw [le32_length, hnone] at hread
      cases hread
  | cutData i z => trivial
  | clear i => trivial
  | swap i buffer => trivial

/-- **When the reads of buffers are bounded and atomic**: for every sequence of calls on any
number of buffers, from the constructors on, every call uses the allocations only, keeps the
representation and reads all or nothing exactly as long as every call is bounded. -/
theorem atomic_iff (m : ℕ → Malloc) (hdrlen : ℕ → ℕ) (l : List BufferCall) :
    Along step Atomic (start m hdrlen) l ↔ Along step Bounded (start m hdrlen) l := by
  refine along_iff (I := fun s => ∀ i, (s i).WF) ?_ ?_ l _ fun i => newHdr_wf (m i) (hdrlen i)
  · intro s c s' _ ha hs
    obtain ⟨s₁, hs₁, hwf⟩ := ha.after
    rw [hs] at hs₁
    cases hs₁
    exact hwf
  · intro s c h
    exact ⟨bounded_of_atomic, atomic_of_bounded h⟩

/-- Memory that is all 0. -/
def zeros : Malloc := ⟨Netlib.malloc, fun _ => List.length_replicate⟩

/-- A length of 5 and one character. -/
def cutString : Block := ⟨le32 5 ++ [1], by decide⟩

/-- A string that is cut off after its length: the length is taken all the same. -/
theorem not_atomic : ¬ ∀ (m : ℕ → Malloc) (hdrlen : ℕ → ℕ) (l : List BufferCall),
    Along step Atomic (start m hdrlen) l := by
  intro hall
  have hrun := hall (fun _ => zeros) (fun _ => 0) [.write 0 cutString, .readString 0 zeros []]
  obtain ⟨-, hrest⟩ := hrun
  let b := (newHdr zeros 0).write cutString.bytes cutString.bytes.length
  have hwrite : step (start (fun _ => zeros) fun _ => 0) (.write 0 cutString) =
      some (update (start (fun _ => zeros) fun _ => 0) 0 b) := by
    have hin : (newHdr zeros 0).writeIn cutString.bytes = some b := by decide +kernel
    rw [step, show start (fun _ => zeros) (fun _ => 0) 0 = newHdr zeros 0 from rfl, hin]
    rfl
  obtain ⟨ha, -⟩ := hrest _ hwrite
  have hstring := ha.string 0 zeros [] rfl
  have hno : ¬ b.HasString := by decide +kernel
  have hread : b.readString zeros [] ≠ some ([], b) := by decide +kernel
  rw [Function.update_self, if_neg hno] at hstring
  exact hread hstring
end Buffer

/-! ## Values that are read back -/

namespace Item

variable {m : Malloc} {b b' : Buffer} {x : Item} {items : List Item}

/-- The bytes that `operator<<` writes. -/
def bytes (x : Item) : List Byte := x.pieces.flatten

/-- What is in the variable after `operator>>`. -/
def got : Item → List Byte
  | fixed value _ _ => value
  | str value old => if value = [] then old else cstr value

theorem got_eq_value_iff (x : Item) : x.got = x.value ↔ x.Plain := by
  cases x with
  | fixed value old hlen => exact iff_of_true rfl trivial
  | str value old =>
    by_cases hv : value = []
    · subst hv
      simp [got, Item.value, Plain]
    · have hcstr : cstr value = value ↔ 0 ∉ value := by
        unfold cstr
        rw [List.takeWhile_eq_self_iff]
        simp only [bne_iff_ne, ne_eq]
        constructor
        · intro hall hmem
          exact hall 0 hmem rfl
        · rintro hno c hc rfl
          exact hno hc
      have hgot : (str value old).got = cstr value := if_neg hv
      have hplain : (str value old).Plain ↔ 0 ∉ value := by simp [Plain, hv]
      rw [hgot, hplain]
      exact hcstr

/-- `operator<<` writes its pieces, when a length is one of 32 bits. -/
theorem write_eq (hsize : x.size < 2 ^ 32) : x.write b = x.pieces.foldlM Buffer.writeIn b := by
  cases x with
  | fixed value old hlen =>
    rw [pieces, List.foldlM_cons, write]
    cases b.writeIn value <;> rfl
  | str value old =>
    have hlt : value.length < 2 ^ 32 := by
      have htotal : 4 + value.length < 2 ^ 32 := hsize
      omega
    have hu : u32 value.length = value.length := u32_of_lt hlt
    rw [pieces, write, Buffer.writeString, hu, List.take_length, List.foldlM_cons]
    refine congrArg _ (funext fun b₁ => ?_)
    rw [List.foldlM_cons]
    cases b₁.writeIn value <;> rfl

theorem foldlM_write (hsize : ∀ x ∈ items, x.size < 2 ^ 32) :
    items.foldlM write b = (items.flatMap pieces).foldlM Buffer.writeIn b := by
  induction items generalizing b with
  | nil => rfl
  | cons x items ih =>
    rw [List.foldlM_cons, List.flatMap_cons, List.foldlM_append, write_eq (hsize x (by simp))]
    refine congrArg _ (funext fun b₁ => ?_)
    exact ih fun y hy => hsize y (List.mem_cons_of_mem x hy)

/-- The pieces are behind what was there. -/
theorem foldlM_writeIn (h : b.WF) {l : List (List Byte)}
    (hl : l.foldlM Buffer.writeIn b = some b') :
    b'.WF ∧ b'.content = b.content ++ l.flatten ∧ b'._offset = b._offset := by
  induction l generalizing b with
  | nil =>
    obtain rfl := Option.some.inj hl
    simp [h]
  | cons src l ih =>
    rw [List.foldlM_cons, Option.bind_eq_bind] at hl
    obtain ⟨b₁, hsrc, hl⟩ := Option.bind_eq_some_iff.mp hl
    obtain ⟨b₂, hb₂, hw, hc, -, ho⟩ := h.writeIn (h.writeFits hsrc)
    rw [hsrc] at hb₂
    obtain rfl := Option.some.inj hb₂
    obtain ⟨hw', hc', ho'⟩ := ih hw hl
    rw [hc] at hc'
    refine ⟨hw', ?_, ho'.trans ho⟩
    simp [hc']

/-- `Write` is defined for all the pieces exactly when each of them fits. -/
theorem along_writeFits (h : b.WF) (l : List (List Byte)) :
    Along Buffer.writeIn (fun b src => b.WriteFits src.length) b l ↔
      ∃ b', l.foldlM Buffer.writeIn b = some b' := by
  refine along_iff_defined (I := Buffer.WF) ?_ ?_ l b h
  · intro b src b' hb hs
    obtain ⟨b₁, hb₁, hw, -⟩ := hb.writeIn (hb.writeFits hs)
    rw [hs] at hb₁
    obtain rfl := Option.some.inj hb₁
    exact hw
  · intro b src hb
    constructor
    · intro hfits
      obtain ⟨b', hw, -⟩ := hb.writeIn hfits
      exact ⟨b', hw⟩
    · rintro ⟨b', hw⟩
      exact hb.writeFits hw

/-- One value is read from its bytes. -/
theorem read_eq (h : b.WF) (hsize : x.size < 2 ^ 32) {rest : List Byte}
    (hun : b.unread = x.bytes ++ rest) (m : Malloc) :
    ∃ b', x.read m b = some (x.got, b') ∧ b'.WF ∧ b'.unread = rest := by
  cases x with
  | fixed value old hlen =>
    have hbytes : b.unread = value ++ rest := by simpa [bytes, pieces] using hun
    have hle : old.length ≤ b.unread.length := by
      rw [hbytes, List.length_append]
      omega
    obtain ⟨hw, hadv⟩ := h.advance hle
    refine ⟨b.advance old.length, ?_, hw, ?_⟩
    · have htake : b.unread.take old.length = value := by
        rw [hbytes, hlen, List.take_left']
        rfl
      rw [read, h.readValue hle, htake]
      rfl
    · rw [hadv, hbytes, hlen, List.drop_left']
      rfl
  | str value old =>
    have hbytes : b.unread = le32 value.length ++ (value ++ rest) := by
      simpa [bytes, pieces] using hun
    have hlt : value.length < 2 ^ 32 := by
      have htotal : 4 + value.length < 2 ^ 32 := hsize
      omega
    have hword : b.unread.take 4 = le32 value.length := by
      rw [hbytes]
      rfl
    have hchars : b.unread.drop 4 = value ++ rest := by
      rw [hbytes]
      rfl
    have hn : b.stringLength = value.length := by
      rw [Buffer.stringLength, hword, ofLe32_le32 hlt]
    have hlen : b.unread.length = 4 + (value.length + rest.length) := by
      rw [hbytes, List.length_append, List.length_append, le32_length]
    have hs : b.HasString := ⟨by omega, by omega⟩
    obtain ⟨hw, hadv⟩ := h.advance hs.2
    refine ⟨_, ?_, hw, ?_⟩
    · rw [read, h.readString hs, Buffer.stringChars, hn, hchars, List.take_left' rfl]
      simp only [got, List.length_eq_zero_iff]
    · rw [hadv, hn, ← List.drop_drop, hchars, List.drop_left' rfl]

theorem readAll_eq (h : b.WF) (hsize : ∀ x ∈ items, x.size < 2 ^ 32) (m : Malloc)
    (hun : b.unread = items.flatMap bytes) :
    ∃ b', readAll m b items = some (items.map got, b') ∧ b'.WF ∧ b'.unread = [] := by
  induction items generalizing b with
  | nil => exact ⟨b, rfl, h, hun⟩
  | cons x items ih =>
    rw [List.flatMap_cons] at hun
    obtain ⟨b₁, hread, hw, hrest⟩ := read_eq h (hsize x (by simp)) hun m
    obtain ⟨b', hall, hw', hnone⟩ := ih hw (fun y hy => hsize y (by simp [hy])) hrest
    refine ⟨b', ?_, hw', hnone⟩
    rw [readAll, hread, Option.bind_some]
    dsimp only
    rw [hall]
    rfl

/-- **When values come back**: for every sequence of values whose size has 32 bits, written into
any buffer that has been cleared and read into any variables, exactly when no block is asked for
whose size wraps and every string is plain. -/
theorem roundTrip_iff (m : Malloc) (b : Buffer) (hb : b.WF) (items : List Item)
    (hsize : (items.map size).sum < 2 ^ 32) :
    RoundTrip m b.clear items ↔ Comes b.clear items := by
  have hclear := hb.clear
  have heach : ∀ x ∈ items, x.size < 2 ^ 32 := by
    intro x hx
    have hle : x.size ≤ (items.map size).sum := List.le_sum_of_mem (List.mem_map_of_mem hx)
    omega
  have hpieces : ∀ b', items.foldlM write b.clear = some b' →
      ∃ b'', readAll m b' items = some (items.map got, b'') ∧ b''.length = 0 := by
    intro b' hw
    rw [foldlM_write heach] at hw
    obtain ⟨hw', hc, ho⟩ := foldlM_writeIn hclear hw
    have hun : b'.unread = items.flatMap bytes := by
      have hflat : (items.flatMap pieces).flatten = items.flatMap bytes := by
        simp only [List.flatMap_def, List.flatten_flatten, List.map_map]
        rfl
      unfold Buffer.unread
      rw [hc, ho, hflat]
      rfl
    obtain ⟨b'', hread, hwf, hnone⟩ := readAll_eq hw' heach m hun
    refine ⟨b'', hread, ?_⟩
    rw [← hwf.unread_length, hnone]
    rfl
  have hdefined := along_writeFits hclear (items.flatMap pieces)
  unfold Comes
  rw [hdefined, ← foldlM_write heach]
  constructor
  · rintro ⟨b', b'', hw, hread, -⟩
    obtain ⟨b₁, hread₁, -⟩ := hpieces b' hw
    rw [hread] at hread₁
    obtain ⟨hvalues, -⟩ := Prod.mk.inj (Option.some.inj hread₁)
    refine ⟨⟨b', hw⟩, fun x hx => ?_⟩
    rw [← got_eq_value_iff]
    exact (List.map_inj_left.mp hvalues x hx).symm
  · rintro ⟨⟨b', hw⟩, hplain⟩
    obtain ⟨b'', hread, hlen⟩ := hpieces b' hw
    have hvalues : items.map got = items.map value :=
      List.map_inj_left.mpr fun x hx => (got_eq_value_iff x).mpr (hplain x hx)
    rw [hvalues] at hread
    exact ⟨b', b'', hw, hread, hlen⟩

/-- Two bytes and a string, read into variables that are not empty. -/
theorem roundTrip_iff_plain :
    RoundTrip Buffer.zeros Buffer.new.clear [fixed [1, 2] [7, 7] rfl, str [65, 66] [67]] := by
  refine (roundTrip_iff Buffer.zeros Buffer.new Buffer.new_wf _ (by decide)).mpr ⟨?_, ?_⟩
  · refine (along_writeFits Buffer.new_wf.clear _).mpr (Option.isSome_iff_exists.mp ?_)
    decide +kernel
  · simp [Plain]

/-- A string with a null character comes back as what is before it. -/
theorem not_roundTrip : ¬ ∀ (m : Malloc) (b : Buffer), b.WF → ∀ items : List Item,
    (items.map size).sum < 2 ^ 32 → RoundTrip m b.clear items := by
  intro hall
  let x := str [65, 0, 66] []
  obtain ⟨b', b'', hw, hread, -⟩ := hall Buffer.zeros Buffer.new Buffer.new_wf [x] (by decide)
  let b := (Buffer.new.write (le32 3) 4).write [65, 0, 66] 3
  have hwrite : [x].foldlM write Buffer.new.clear = some b := by decide +kernel
  rw [hwrite] at hw
  obtain rfl := Option.some.inj hw
  have hgot : (readAll Buffer.zeros b [x]).map Prod.fst = some [[65]] := by decide +kernel
  rw [hread] at hgot
  have hvalues : [x].map value = [[65]] := Option.some.inj hgot
  exact absurd hvalues (by decide)
end Item

end Netlib
