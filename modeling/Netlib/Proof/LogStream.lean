import Netlib.Spec.LogStream
import Mathlib.Data.Nat.Digits.Lemmas

/-!
# Log records as separate lines

The bytes of a record grow with each value, and once the buffer is full nothing is added
(`finish_full`), not even the newline. A value that leaves a byte free is followed by the rest of
the record (`closes_iff_of_room`), so by induction on the values a record closes with a newline
exactly when what is printed of them goes on with the text (`closes_iff_goesOn`). A text that is
printed in full goes on with itself (`goesOn_iff_fit`), and with the header this is `separate_iff`.
-/

namespace Netlib

open HttpSvrSendMsg (decimal)

/-! ## The length of numbers -/

theorem decimal_length_le {z : ℤ} (hlo : -2 ^ 31 ≤ z) (hhi : z < 2 ^ 31) :
    (decimal z).length ≤ 11 := by
  have hdigits : (if z = 0 then [0] else (Nat.digits 10 z.natAbs).reverse).length ≤ 10 := by
    split
    · decide
    · rw [List.length_reverse, Nat.digits_length_le_iff (by decide)]
      omega
  have hsign : (if z < 0 then [45] else ([] : List Byte)).length ≤ 1 := by
    split <;> decide
  unfold decimal
  rw [List.length_append, List.length_map]
  omega

theorem hexadecimal_length_le {n : ℕ} (h : n < 2 ^ 32) : (hexadecimal n).length ≤ 8 := by
  unfold hexadecimal
  rw [List.length_map]
  split
  · decide
  · rw [List.length_reverse, Nat.digits_length_le_iff (by decide)]
    omega

theorem printD_length {w : ℕ} (value : BitVec w) : (printD value).length ≤ 11 := by
  have hlo := BitVec.le_toInt (value.setWidth 32)
  have hhi := BitVec.toInt_lt (x := value.setWidth 32)
  exact decimal_length_le (by omega) (by omega)

theorem printX_length {w : ℕ} (value : BitVec w) : (printX value).length ≤ 10 := by
  have hhex := hexadecimal_length_le (value.setWidth 32).isLt
  have hpre : (chars ['0', 'x']).length = 2 := rfl
  unfold printX
  rw [List.length_append]
  omega

/-- **A number is shorter than the 32 bytes** that `_convert` asks for. -/
theorem LogValue.printed_length {value : LogValue} {printed : List Byte}
    (h : value.piece = .convert printed) : printed.length < 32 := by
  cases value with
  | bool | char | string | array | pchar => cases h
  | short value | ushort value | int value | uint value | longlong value | ulonglong value =>
    cases h
    exact Nat.lt_of_le_of_lt (printD_length _) (by decide)
  | float value | double value =>
    cases h
    exact value.lt
  | pointer value =>
    cases h
    exact Nat.lt_of_le_of_lt (printX_length _) (by decide)

/-- What is written with `append` is the text of the value. -/
theorem LogValue.text_of_append {value : LogValue} {data : List Byte}
    (h : value.piece = .append data) : value.text = data := by
  cases value with
  | bool | char | string | array | pchar =>
    cases h
    rfl
  | short | ushort | int | uint | longlong | ulonglong | float | double | pointer => cases h

/-! ## The buffer -/

namespace Logstream

variable {s : Logstream} {text : List Byte} {value : LogValue} {values : List LogValue}

theorem append_data (s : Logstream) (data : List Byte) :
    (s.append data).data = s.data ++ data.take (4 * 1024 - s.data.length) := rfl

theorem append_of_room {data : List Byte} (h : s.data.length + data.length ≤ 4 * 1024) :
    (s.append data).data = s.data ++ data := by
  have hall : data.length ≤ 4 * 1024 - s.data.length := by omega
  rw [append_data, List.take_of_length_le hall]

theorem convert_eq {printed : List Byte} (h : printed.length < 32) (s : Logstream) :
    s._convert printed = if s.data.length + 32 ≤ 4 * 1024 then s.append printed else s := by
  have hle := s.le
  have havail : s.avail ≥ 32 ↔ s.data.length + 32 ≤ 4 * 1024 := by
    unfold Fixedbuffer.avail
    omega
  unfold _convert
  by_cases hroom : s.avail ≥ 32
  · have hwritten : (snprintf s.avail printed).take printed.length = printed := by
      have hshort : printed.length ≤ s.avail - 1 := by omega
      unfold snprintf
      rw [List.take_of_length_le hshort, List.take_left' rfl]
    rw [if_pos hroom, if_pos (havail.mp hroom), Fixedbuffer.seek, hwritten]
  · rw [if_neg hroom, if_neg fun hle => hroom (havail.mpr hle)]

/-- A value adds bytes, or nothing. -/
theorem put_data (s : Logstream) (value : LogValue) :
    ∃ more, (s.put value).data = s.data ++ more := by
  unfold put
  split
  · exact ⟨_, append_data s _⟩
  · rename_i printed hpiece
    rw [convert_eq (LogValue.printed_length hpiece)]
    split
    · exact ⟨_, append_data s _⟩
    · exact ⟨[], (List.append_nil _).symm⟩

/-- The record from a stream on. -/
def finish (s : Logstream) (values : List LogValue) : List Byte :=
  ((values.foldl put s).append [10]).data

/-- The record goes on from what is in the buffer, and by the newline at least while the buffer is
not full. -/
theorem finish_data (s : Logstream) (values : List LogValue) :
    ∃ rest, finish s values = s.data ++ rest ∧ (s.data.length < 4 * 1024 → rest ≠ []) := by
  induction values generalizing s with
  | nil =>
    refine ⟨_, append_data s [10], fun hlt hnil => ?_⟩
    obtain ⟨n, hn⟩ : ∃ n, 4 * 1024 - s.data.length = n + 1 :=
      ⟨4 * 1024 - s.data.length - 1, by omega⟩
    rw [hn] at hnil
    cases hnil
  | cons value values ih =>
    obtain ⟨more, hmore⟩ := put_data s value
    obtain ⟨rest, hrest, hne⟩ := ih (s.put value)
    refine ⟨more ++ rest, ?_, fun hlt hnil => ?_⟩
    · rw [← List.append_assoc, ← hmore]
      exact hrest
    · obtain ⟨rfl, rfl⟩ := List.append_eq_nil_iff.mp hnil
      rw [List.append_nil] at hmore
      exact hne (by rwa [hmore]) rfl

theorem finish_length (s : Logstream) (values : List LogValue) :
    (finish s values).length ≤ 4 * 1024 := Fixedbuffer.le _

/-- **A full buffer stays as it is**, without a newline. -/
theorem finish_full (h : s.data.length = 4 * 1024) (values : List LogValue) :
    finish s values = s.data := by
  obtain ⟨rest, hrest, -⟩ := finish_data s values
  have hlen := finish_length s values
  rw [hrest, List.length_append] at hlen
  have hnil : rest = [] := List.eq_nil_of_length_eq_zero (by omega)
  rw [hrest, hnil, List.append_nil]

/-! ## Records that close with a newline -/

/-- The rest of the record is a prefix of `text` and a newline. -/
def Closes (s : Logstream) (text : List Byte) (values : List LogValue) : Prop :=
  ∃ t, t <+: text ∧ finish s values = s.data ++ t ++ [10]

theorem closes_nil (h : s.data.length < 4 * 1024) : Closes s text [] := by
  refine ⟨[], List.nil_prefix, ?_⟩
  rw [List.append_nil]
  exact append_of_room h

/-- **A value that leaves a byte free**: the rest of the record comes behind it. -/
theorem closes_iff_of_room {data : List Byte} (hput : s.put value = s.append data)
    (h : s.data.length + data.length < 4 * 1024) :
    Closes s text (value :: values) ↔
      data <+: text ∧ Closes (s.append data) (text.drop data.length) values := by
  have happend : (s.append data).data = s.data ++ data := append_of_room (Nat.le_of_lt h)
  have hfinish : finish s (value :: values) = finish (s.append data) values := by
    rw [← hput]
    rfl
  unfold Closes
  rw [hfinish, happend]
  constructor
  · rintro ⟨t, ht, heq⟩
    obtain ⟨rest, hrest, hne⟩ := finish_data (s.append data) values
    have hpos := hne (by rw [happend, List.length_append]; exact h)
    -- the newline is behind the value, so that the text is
    obtain ⟨rest', x, rfl⟩ : ∃ rest' x, rest = rest' ++ [x] :=
      ⟨rest.dropLast, rest.getLast hpos, (List.dropLast_append_getLast hpos).symm⟩
    rw [happend, heq, List.append_assoc, List.append_assoc, List.append_cancel_left_eq,
      ← List.append_assoc] at hrest
    obtain ⟨rfl, hx⟩ := List.append_inj' hrest rfl
    obtain ⟨more, rfl⟩ := ht
    refine ⟨⟨rest' ++ more, by simp⟩, rest', ⟨more, by simp⟩, ?_⟩
    rw [heq]
    simp
  · rintro ⟨⟨more, rfl⟩, t, ht, heq⟩
    rw [List.drop_left' rfl] at ht
    obtain ⟨last, rfl⟩ := ht
    refine ⟨data ++ t, ⟨last, by simp⟩, ?_⟩
    rw [heq]
    simp

/-- **A value that fills the buffer**: the record ends in it. -/
theorem closes_iff_of_cut {data : List Byte} (hput : s.put value = s.append data)
    (hs : s.data.length < 4 * 1024) (h : 4 * 1024 ≤ s.data.length + data.length) :
    Closes s text (value :: values) ↔
      data.take (4 * 1024 - 1 - s.data.length) <+: text ∧ CutAtNewline s.data.length data := by
  have hfull : (s.append data).data.length = 4 * 1024 := by
    rw [append_data, List.length_append, List.length_take]
    omega
  have hfinish : finish s (value :: values) = finish (s.append data) values := by
    rw [← hput]
    rfl
  obtain ⟨n, hn⟩ : ∃ n, 4 * 1024 - s.data.length = n + 1 :=
    ⟨4 * 1024 - s.data.length - 1, by omega⟩
  have hn' : 4 * 1024 - 1 - s.data.length = n := by omega
  have hlt : n < data.length := by omega
  have htake : data.take (n + 1) = data.take n ++ [data[n]] := by
    rw [List.take_add_one, List.getElem?_eq_getElem hlt]
    rfl
  unfold Closes CutAtNewline
  rw [hfinish, finish_full hfull, append_data, hn, hn', htake, List.getElem?_eq_getElem hlt,
    Option.some_inj]
  constructor
  · rintro ⟨t, ht, heq⟩
    rw [List.append_assoc, List.append_cancel_left_eq] at heq
    obtain ⟨rfl, hx⟩ := List.append_inj' heq rfl
    exact ⟨ht, List.singleton_inj.mp hx⟩
  · rintro ⟨ht, hx⟩
    exact ⟨_, ht, by rw [hx, List.append_assoc]⟩

/-- **When a record closes**: exactly when what is printed of the values goes on with the text. -/
theorem closes_iff_goesOn (h : s.data.length < 4 * 1024) :
    Closes s text values ↔ GoesOn s.data.length text values := by
  induction values generalizing s text with
  | nil => exact iff_of_true (closes_nil h) trivial
  | cons value values ih =>
    cases hpiece : value.piece with
    | append data =>
      have hput : s.put value = s.append data := by rw [put, hpiece]
      by_cases hroom : s.data.length + data.length < 4 * 1024
      · have hlen : (s.append data).data.length = s.data.length + data.length := by
          rw [append_of_room (Nat.le_of_lt hroom), List.length_append]
        have hrest : Closes (s.append data) (text.drop data.length) values ↔ _ := ih (by omega)
        rw [hlen] at hrest
        rw [closes_iff_of_room hput hroom, hrest, GoesOn, hpiece]
        dsimp only
        rw [if_pos hroom]
      · rw [closes_iff_of_cut hput h (Nat.le_of_not_lt hroom), GoesOn, hpiece]
        dsimp only
        rw [if_neg hroom]
    | convert printed =>
      have hlt := LogValue.printed_length hpiece
      have hput : s.put value = s._convert printed := by rw [put, hpiece]
      rw [convert_eq hlt] at hput
      by_cases hroom : s.data.length + 32 ≤ 4 * 1024
      · rw [if_pos hroom] at hput
        have hlen : (s.append printed).data.length = s.data.length + printed.length := by
          rw [append_of_room (by omega), List.length_append]
        have hrest : Closes (s.append printed) (text.drop printed.length) values ↔ _ :=
          ih (by omega)
        rw [hlen] at hrest
        rw [closes_iff_of_room hput (by omega), hrest, GoesOn, hpiece]
        dsimp only
        rw [if_pos hroom]
      · -- the number is dropped
        rw [if_neg hroom] at hput
        have hsame : Closes s text (value :: values) ↔ Closes s text values := by
          unfold Closes finish
          rw [List.foldl_cons, hput]
        rw [hsame, ih h, GoesOn, hpiece]
        dsimp only
        rw [if_neg hroom]

end Logstream

/-! ## The condition -/

/-- A text that is printed in full goes on with itself. -/
theorem goesOn_iff_fit (level : ℕ) (values : List LogValue) :
    GoesOn level (textOf values) values ↔ Fit level values := by
  induction values generalizing level with
  | nil => exact Iff.rfl
  | cons value values ih =>
    have htext : textOf (value :: values) = value.text ++ textOf values := List.flatMap_cons
    cases hpiece : value.piece with
    | append data =>
      have hdata := LogValue.text_of_append hpiece
      rw [GoesOn, Fit, hpiece]
      dsimp only
      rw [htext, hdata, List.drop_left' rfl, ih]
      split
      · exact and_iff_right (List.prefix_append _ _)
      · have htake := (List.take_prefix (4 * 1024 - 1 - level) data).trans
          (List.prefix_append data (textOf values))
        exact and_iff_right htake
    | convert printed =>
      rw [Fit, hpiece]
      dsimp only
      split
      · rename_i hfull
        obtain ⟨hroom, rfl⟩ := hfull
        rw [GoesOn, hpiece]
        dsimp only
        rw [if_pos hroom, htext, List.drop_left' rfl, ih]
        exact and_iff_right (List.prefix_append _ _)
      · exact Iff.rfl

namespace LogThread

variable {t : LogThread} {level : Loglevel}

theorem desc_length (level : Loglevel) : level.desc.length = 6 := by
  cases level <;> rfl

theorem header_length (t : LogThread) (level : Loglevel) : (t.header level).length ≤ 60 := by
  have htime := t.time_length
  have hmil := t.mil_length
  have hid := t.thrid_length
  have hdesc := desc_length level
  unfold header
  simp only [List.length_append, List.length_take]
  omega

/-- The header is written in full. -/
theorem logimpl_data (t : LogThread) (level : Loglevel) :
    (t.logimpl level).data = t.header level := by
  have hlen := header_length t level
  unfold header at hlen
  unfold logimpl header
  generalize t._time_str.take 17 = time at *
  generalize t._mil_str.take 5 = mil at *
  simp only [List.length_append] at hlen
  let s₀ : Logstream := Fixedbuffer.new
  have h0 : s₀.data.length = 0 := rfl
  have h1 : (s₀.append time).data = time := Logstream.append_of_room (by omega)
  have h2 : ((s₀.append time).append mil).data = time ++ mil := by
    rw [Logstream.append_of_room (by rw [h1]; omega), h1]
  have h3 : (((s₀.append time).append mil).append level.desc).data =
      time ++ mil ++ level.desc := by
    rw [Logstream.append_of_room (by rw [h2, List.length_append]; omega), h2]
  rw [Logstream.append_of_room (by rw [h3]; simp only [List.length_append]; omega), h3]

/-- **When records stay separate lines**: for every level and every values, exactly when they fit
behind the header. -/
theorem separate_iff (t : LogThread) (level : Loglevel) (values : List LogValue) :
    t.Separate level values ↔ Fit (t.header level).length values := by
  have hdata := logimpl_data t level
  have hlt : (t.logimpl level).data.length < 4 * 1024 := by
    have hlen := header_length t level
    rw [hdata]
    omega
  rw [← goesOn_iff_fit, ← hdata, ← Logstream.closes_iff_goesOn hlt]
  unfold Separate Logstream.Closes
  rw [hdata]
  exact and_iff_right (Logstream.finish_length _ values)

/-- A thread whose texts are all 0. -/
def zeros : LogThread :=
  ⟨.replicate 32 48, .replicate 10 48, [48, 32], rfl, rfl, by decide⟩

/-- A string that fills the buffer: there is no newline. -/
theorem not_separate : ¬ ∀ (t : LogThread) (level : Loglevel) (values : List LogValue),
    t.Separate level values := by
  intro hall
  obtain ⟨-, text, -, heq⟩ := hall zeros .info [.string (.replicate 4096 97)]
  have hlast : (zeros.record .info [.string (.replicate 4096 97)]).getLast? = some 97 := by
    decide +kernel
  rw [heq, List.getLast?_append] at hlast
  have hnl : (some 10 : Option Byte) = some 97 := hlast
  exact absurd hnl (by decide)

end LogThread

end Netlib
