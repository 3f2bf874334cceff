import Netlib.Spec.HttpLength
import Netlib.Proof.HttpSocket
import Mathlib.Tactic.Ring

/-!
# Where the look-up of the Content-Length is right

`_CheckContentLen` compares 14 characters of the name and passes the next two. So the
result is the value of the Content-Length line exactly under `LookupOk` (`lookup_iff`).
It is looked up when a byte of the body comes: a head without a body is complete at its
end exactly when the read goes on (`completes_iff`).
-/

namespace Netlib

open Lib

namespace HttpMsg

variable {k : HttpKind} {t : HttpText} {m : HttpMsg}

/-! ## The head in any reads -/

/-- A parser that holds the head has read its lines. -/
theorem AtHead.read (h : AtHead k t m) :
    HeadRead (headStart k t.line1 t.line2 t.line3) m t.headers ∧ m._checkContentLen = contentLen t.headers := by
  obtain ⟨chunks, ns, hc, hfeed⟩ := h
  obtain ⟨m', hread, hparse⟩ := HttpText.parse_head_text k t []
  have hall : parse k (clear k) (chunks.flatten ++ []) = .ok ((chunks.flatten ++ []).length, m') := by
    rw [hc, hparse, List.append_nil]
    rfl
  obtain ⟨m₁, hfeed₁, hlast⟩ := (parse_resumable k).feed_all chunks hall
  rw [parse_nil] at hlast
  rw [hfeed] at hfeed₁
  cases hfeed₁
  cases hlast
  exact ⟨hread, checkContentLen_head hread⟩

/-- The head can be read in any chunks. -/
theorem atHead_feed (k : HttpKind) {chunks : List (List Byte)} (h : chunks.flatten = t.head) :
    ∃ m, Parser.feed (parse k) (clear k) chunks = .ok (chunks.map List.length, m) ∧ AtHead k t m := by
  obtain ⟨m', -, hparse⟩ := HttpText.parse_head_text k t []
  have hall : parse k (clear k) (chunks.flatten ++ []) = .ok ((chunks.flatten ++ []).length, m') := by
    rw [h, hparse, List.append_nil]
    rfl
  obtain ⟨m, hfeed, -⟩ := (parse_resumable k).feed_all chunks hall
  exact ⟨m, hfeed, chunks, _, h, hfeed⟩

/-! ## The value of a Content-Length line -/

theorem sp_not_digit {ds : List Byte} (h : ∀ x ∈ ds, 48 ≤ x ∧ x ≤ 57) : ∀ x ∈ ds, x ≠ cr := by
  rintro x hx rfl
  exact absurd (h cr hx).1 (by decide)

/-- The text that a Content-Length line is read from: one character is lost. -/
theorem lenValue_form {ds : List Byte} (n : ℕ) (hd : ∀ x ∈ ds, 48 ≤ x ∧ x ≤ 57) :
    lenValue (lengthName ++ List.replicate n sp ++ ds) =
      match n with
      | 0 => ds.drop 1
      | n + 1 => List.replicate n sp ++ ds := by
  have hkeep : ∀ v : List Byte, (∀ x ∈ v, x ≠ cr) → v.takeWhile (· ≠ cr) = v := by
    intro v hv
    exact List.takeWhile_eq_self_iff.mpr fun x hx => decide_eq_true (hv x hx)
  have hcr := sp_not_digit hd
  have hname : lengthName.length = 15 := rfl
  cases n with
  | zero =>
    have hdrop : (lengthName ++ List.replicate 0 sp ++ ds).drop 16 = ds.drop 1 := by
      rw [List.replicate_zero, List.append_nil, show 16 = lengthName.length + 1 from rfl,
        ← List.drop_drop, List.drop_left]
    rw [lenValue, hdrop]
    exact hkeep _ fun x hx => hcr x (List.mem_of_mem_drop hx)
  | succ n =>
    have hdrop : (lengthName ++ List.replicate (n + 1) sp ++ ds).drop 16 = List.replicate n sp ++ ds := by
      rw [List.replicate_succ, List.append_assoc, show 16 = lengthName.length + 1 from rfl,
        ← List.drop_drop, List.drop_left]
      rfl
    rw [lenValue, hdrop]
    refine hkeep _ fun x hx => ?_
    rcases List.mem_append.mp hx with hx | hx
    · rw [List.eq_of_mem_replicate hx]; decide
    · exact hcr x hx

theorem value_cons (x : Byte) (ds : List Byte) :
    HttpText.value (x :: ds) = (x.toNat - 48) * 10 ^ ds.length + HttpText.value ds := by
  have hfold : ∀ (l : List Byte) (acc : ℕ), l.foldl (fun acc x => 10 * acc + (x.toNat - 48)) acc =
      acc * 10 ^ l.length + l.foldl (fun acc x => 10 * acc + (x.toNat - 48)) 0 := by
    intro l
    induction l with
    | nil => intro acc; simp
    | cons y l ih =>
      intro acc
      rw [List.foldl_cons, List.foldl_cons, ih, ih (10 * 0 + (y.toNat - 48)), List.length_cons,
        Nat.pow_succ]
      ring
  rw [HttpText.value, List.foldl_cons, hfold, HttpText.value]
  simp

/-- `atoi` passes the blanks. -/
theorem atoi_blanks (n : ℕ) (v : List Byte) : atoi (List.replicate n sp ++ v) = atoi v := by
  have hdrop : (List.replicate n sp ++ v).dropWhile isSpace = v.dropWhile isSpace := by
    induction n with
    | zero => rfl
    | succ n ih => rw [List.replicate_succ, List.cons_append, List.dropWhile_cons_of_pos (by decide), ih]
  rw [atoi, atoi, hdrop]

/-- Digits that fill the array are read past its end. -/
theorem atoiDigits_full {ds : List Byte} (hd : ∀ x ∈ ds, 48 ≤ x ∧ x ≤ 57) :
    ∀ acc, atoiDigits acc ds = none := by
  induction ds with
  | nil => exact fun _ => rfl
  | cons x ds ih =>
    intro acc
    rw [atoiDigits, if_pos (hd x List.mem_cons_self), ih fun y hy => hd y (List.mem_cons_of_mem _ hy)]

theorem atoi_full {ds : List Byte} (hne : ds ≠ []) (hd : ∀ x ∈ ds, 48 ≤ x ∧ x ≤ 57) : atoi ds = none := by
  rcases ds with _ | ⟨x, ds⟩
  · exact absurd rfl hne
  rw [HttpText.atoi_first (hd x List.mem_cons_self), atoiDigits_full hd]
  rfl

/-- **How blanks and digits are read**: the array must be longer. -/
theorem readLen_digits (n : ℕ) {ds : List Byte} (hne : ds ≠ []) (hd : ∀ x ∈ ds, 48 ≤ x ∧ x ≤ 57)
    (hb : HttpText.value ds < 2 ^ 31) (z : ℤ) :
    readLen (List.replicate n sp ++ ds) = .ok z ↔ n + ds.length < 11 ∧ z = HttpText.value ds := by
  have hlen : (List.replicate n sp ++ ds).length = n + ds.length := by simp
  rw [readLen, hlen]
  by_cases hroom : n + ds.length ≤ scratchSize
  · rw [if_pos hroom, scratch, hlen, List.append_assoc, atoi_blanks]
    rw [scratchSize] at hroom ⊢
    rcases hk : 11 - (n + ds.length) with _ | j
    · -- no room for a NUL
      rw [List.replicate_zero, List.append_nil, atoi_full hne hd]
      constructor
      · intro h; cases h
      · rintro ⟨h, -⟩; omega
    · have hmod : Int.bmod (HttpText.value ds : ℤ) (2 ^ 32) = HttpText.value ds :=
        Int.bmod_eq_of_le (by omega) (by omega)
      rw [List.replicate_succ, HttpText.atoi_digits _ hne hd, hmod]
      constructor
      · intro h
        cases h
        exact ⟨by omega, rfl⟩
      · rintro ⟨-, rfl⟩
        rfl
  · rw [if_neg hroom]
    rw [scratchSize] at hroom
    constructor
    · intro h; cases h
    · rintro ⟨h, -⟩; omega

/-- **When a Content-Length line is read right.** -/
theorem readLen_form {l : List Byte} {n : ℕ} {ds : List Byte} (h : LengthLine l n ds) :
    readLen (lenValue l) = .ok (HttpText.value ds : ℤ) ↔ FormOk n ds := by
  have hne : ds ≠ [] := List.ne_nil_of_length_pos h.pos
  have hcount := h.count
  rw [h.line, lenValue_form n h.digits, FormOk]
  cases n with
  | zero =>
    -- the first digit is lost
    obtain ⟨x, ds, rfl⟩ := List.exists_cons_of_ne_nil hne
    have hx := h.digits x List.mem_cons_self
    have hlo : 48 ≤ x.toNat := UInt8.le_iff_toNat_le.mp hx.1
    have hval := value_cons x ds
    have hb := h.bound
    rw [List.length_cons] at hcount
    have hzero : x = 48 ↔ (x.toNat - 48) * 10 ^ ds.length = 0 := by
      have hpow : 10 ^ ds.length ≠ 0 := Nat.pos_iff_ne_zero.mp (Nat.pow_pos (by decide))
      rw [Nat.mul_eq_zero, or_iff_left hpow, ← UInt8.toNat_inj]
      change x.toNat = 48 ↔ _
      omega
    have hread : readLen ((x :: ds).drop 1) = .ok (HttpText.value (x :: ds) : ℤ) ↔ x = 48 := by
      rw [hzero]
      generalize (x.toNat - 48) * 10 ^ ds.length = lead at hval
      by_cases hds : ds = []
      · -- nothing is left, and that is 0
        subst hds
        have hnil : readLen [] = .ok 0 := by decide
        rw [show (x :: ([] : List Byte)).drop 1 = [] from rfl, hnil, hval, Except.ok.injEq,
          show HttpText.value [] = 0 from rfl]
        omega
      · have hr := readLen_digits 0 hds (fun y hy => h.digits y (List.mem_cons_of_mem _ hy))
          (by omega) (HttpText.value (x :: ds))
        rw [List.replicate_zero, List.nil_append] at hr
        rw [List.drop_one, List.tail_cons, hr, hval]
        omega
    rw [hread]
    simp
  | succ n =>
    simp only
    rw [readLen_digits n hne h.digits h.bound]
    omega

/-! ## The first line -/

/-- The first of a kind that is of a second kind too is the first of both. -/
theorem find?_and {α : Type*} {p q : α → Bool} {l : List α} {a : α} (h : l.find? p = some a)
    (hq : q a = true) : l.find? (fun x => p x && q x) = some a := by
  induction l with
  | nil => cases h
  | cons x l ih =>
    rw [List.find?_cons] at h ⊢
    cases hp : p x with
    | true =>
      rw [hp] at h
      cases h
      simp only [hq, Bool.and_self]
    | false =>
      rw [hp] at h
      simpa only [Bool.false_and] using ih h

theorem contentLen_eq (ls : List (List Byte)) : contentLen ls = lineLen (ls.find? isContentLen) := by
  unfold contentLen lineLen
  cases ls.find? isContentLen <;> rfl

/-- The look-up among the lines with the name. -/
theorem contentLen_named (ls : List (List Byte)) :
    contentLen (ls.filter named) = lineLen (ls.find? fun l => named l && isContentLen l) := by
  rw [contentLen_eq, List.find?_filter]
  congr 2
  funext l
  simp

theorem LengthLine.named {l : List Byte} {n : ℕ} {ds : List Byte} (h : LengthLine l n ds) :
    isContentLen l = true := by
  have hpos := h.pos
  have htake : l.take 14 = _constr.take 14 := by
    rw [h.line, List.append_assoc, List.take_append_of_le_length (by decide)]
    rfl
  have hlen : 16 ≤ l.length := by
    rw [h.line, List.length_append, List.length_append, show lengthName.length = 15 from rfl]
    omega
  simp [isContentLen, htake, hlen]

/-- The lines of other names do not matter exactly when the first line with the 14
characters is one with the name, or is read as that one. -/
theorem contentLen_others (ls : List (List Byte)) :
    contentLen (ls.filter named) = contentLen ls ↔
      ∀ l, ls.find? isContentLen = some l → named l = false →
        readLen (lenValue l) = lineLen (ls.find? fun l => named l && isContentLen l) := by
  rw [contentLen_named, contentLen_eq]
  cases hf : ls.find? isContentLen with
  | none =>
    have hboth : ls.find? (fun l => named l && isContentLen l) = none := by
      rw [List.find?_eq_none] at hf ⊢
      intro l hl h
      exact hf l hl (Bool.and_eq_true_iff.mp h).2
    rw [hboth]
    simp
  | some l =>
    cases hn : named l with
    | true =>
      have hboth : ls.find? (fun l => named l && isContentLen l) = some l := by
        have := find?_and hf hn
        simpa only [Bool.and_comm] using this
      rw [hboth]
      simp [hn]
    | false =>
      constructor
      · intro h l' hl' _
        cases hl'
        exact h.symm
      · intro h
        exact (h l rfl hn).symm

/-- **When the look-up is right.** -/
theorem lookup_iff (h : AtHead k t m) : Lookup k t m._checkContentLen ↔ LookupOk t.headers := by
  rw [h.read.2]
  -- the head with the lines of the name alone
  have hlines : ∀ l ∈ t.headers.filter named, l ≠ [] ∧ line l = none :=
    fun l hl => t.crlf_headers l (List.mem_filter.mp hl).1
  have hothers : (∀ (u : HttpText) m, u.headers = t.headers.filter named → AtHead k u m →
      m._checkContentLen = contentLen t.headers) ↔
        contentLen (t.headers.filter named) = contentLen t.headers := by
    constructor
    · intro h
      obtain ⟨u, hu, -⟩ : ∃ u : HttpText, u.headers = t.headers.filter named ∧ u.body = t.body :=
        ⟨{ t with headers := _, crlf_headers := hlines }, rfl, rfl⟩
      have hone : [u.head].flatten = u.head := List.append_nil _
      obtain ⟨m', -, hm'⟩ := atHead_feed k hone
      rw [← h u m' hu hm', hm'.read.2, hu]
    · intro h u m' hu hm'
      rw [hm'.read.2, hu, h]
  -- the first line with the name is the one that is read
  have hform : contentLen (t.headers.filter named) = contentLen t.headers →
      ∀ l n ds, t.headers.find? named = some l → LengthLine l n ds →
        (contentLen t.headers = .ok (HttpText.value ds : ℤ) ↔ FormOk n ds) := by
    intro hsame l n ds hl hline
    rw [← hsame, contentLen_named, find?_and hl hline.named]
    exact readLen_form hline
  constructor
  · intro hlook
    have hsame := hothers.mp hlook.others
    refine ⟨?_, (contentLen_others _).mp hsame⟩
    intro l n ds hl hline
    exact (hform hsame l n ds hl hline).mp (hlook.found l n ds hl hline)
  · intro hok
    have hsame := (contentLen_others _).mpr hok.other
    refine ⟨?_, ?_, hothers.mpr hsame⟩
    · intro l n ds hl hline
      exact (hform hsame l n ds hl hline).mpr (hok.form l n ds hl hline)
    · intro hnone
      have hboth : t.headers.find? (fun l => named l && isContentLen l) = none := by
        rw [List.find?_eq_none] at hnone ⊢
        intro l hl h
        exact hnone l hl (Bool.and_eq_true_iff.mp h).1
      rw [← hsame, contentLen_named, hboth]
      rfl

/-- **The look-up after a head in any reads.** -/
theorem checkContentLen_lookup (k : HttpKind) (t : HttpText) {chunks : List (List Byte)}
    (h : chunks.flatten = t.head) :
    ∃ m, Parser.feed (parse k) (clear k) chunks = .ok (chunks.map List.length, m) ∧
      (Lookup k t m._checkContentLen ↔ LookupOk t.headers) := by
  obtain ⟨m, hfeed, hm⟩ := atHead_feed k h
  exact ⟨m, hfeed, lookup_iff hm⟩

/-- A head without header lines but `l`. -/
def oneLine (l : List Byte) (h : l ≠ [] ∧ line l = none) : HttpText where
  line1 := chars ['G']
  line2 := chars ['/']
  line3 := chars ['H']
  headers := [l]
  body := []
  sp_line1 := by decide
  sp_line2 := by decide
  crlf_line3 := by decide
  crlf_headers := by simpa using h

/-- `Content-Length:5`, without a blank. -/
def noBlank : HttpText := oneLine (lengthName ++ [53]) (by decide)

theorem checkContentLen_lookup_noBlank :
    ∃ m, Parser.feed (parse .svr) (clear .svr) [noBlank.head] = .ok ([noBlank.head].map List.length, m) ∧
      (Lookup .svr noBlank m._checkContentLen ↔ LookupOk noBlank.headers) :=
  checkContentLen_lookup .svr noBlank (List.append_nil _)

/-- The length of `noBlank` is read as 0. -/
theorem not_lookup : ¬ ∀ k t m, AtHead k t m → Lookup k t m._checkContentLen := by
  intro h
  have hone : [noBlank.head].flatten = noBlank.head := List.append_nil _
  obtain ⟨m, -, hm⟩ := atHead_feed .svr hone
  have hform := ((lookup_iff hm).mp (h .svr noBlank m hm)).form (lengthName ++ [53]) 0 [53]
    (by decide +kernel) ⟨rfl, by decide, by decide, by decide +kernel, by decide +kernel⟩
  obtain ⟨-, hzero⟩ | ⟨hblank, -⟩ := hform
  · exact absurd hzero (by decide)
  · exact absurd hblank (by decide)

/-! ## Heads without a body -/

/-- The first call on the bytes after a head ends the message there. -/
theorem parseBody_over (hf : m._flag = .body) (hb : m._bodysize = -1) (more : List Byte) :
    (∃ n m', m._parseBody more = .ok (n, m') ∧ m'._flag = .over ∧ m'._buffer = m._buffer) ↔
      more ≠ [] ∧ m._checkContentLen = .ok 0 := by
  rcases more with _ | ⟨x, more⟩
  · -- the length is not looked up
    constructor
    · rintro ⟨n, m', h, hover, -⟩
      cases h
      rw [hf] at hover
      cases hover
    · rintro ⟨hne, -⟩
      exact absurd rfl hne
  constructor
  · rintro ⟨n, m', h, hover, hbuf⟩
    refine ⟨List.cons_ne_nil _ _, ?_⟩
    -- no byte is consumed
    have htake := parse_buffer .svr (x :: more) ((parse_body .svr hf).trans h)
    rw [hbuf, List.self_eq_append_right] at htake
    have hn : n = 0 := by
      cases n with
      | zero => rfl
      | succ n => cases htake
    rw [_parseBody, if_neg (List.cons_ne_nil _ _), if_pos hb] at h
    cases hlen : m._checkContentLen with
    | error e => rw [hlen] at h; cases h
    | ok z =>
      by_cases hz : z = 0
      · rw [hz]
      -- a body has a byte
      simp only [hlen, if_neg hz] at h
      set m₁ : HttpMsg := { m with _bodysize := z, _body := { m._body with beg := m.size } }
      have hmiss : m₁.missing = z := by
        change z - (m.size - m.size) = z
        omega
      by_cases hneg : m₁.missing < 0
      · rw [copyBody_neg hneg] at h
        cases h
      by_cases hall : m₁.missing ≤ (x :: more).length
      · rw [copyBody_all (by omega) hall] at h
        cases h
        omega
      · rw [copyBody_more (m := m₁) hf (by omega)] at h
        cases h
        cases hn
  · rintro ⟨-, hlen⟩
    refine ⟨0, { m with _bodysize := 0, _flag := .over }, ?_, rfl, rfl⟩
    rw [_parseBody, if_neg (List.cons_ne_nil _ _), if_pos hb, hlen]
    rfl

theorem contentLen_zero (ls : List (List Byte)) :
    contentLen ls = .ok 0 ↔ ∀ l, ls.find? isContentLen = some l → ReadsZero (lenValue l) := by
  have hread : ∀ v, readLen v = .ok 0 ↔ ReadsZero v := by
    intro v
    unfold readLen ReadsZero
    by_cases hv : v.length ≤ scratchSize
    · simp only [hv, if_true, true_and]
      cases atoi (scratch v) with
      | none => simp
      | some z => simp
    · simp only [hv, if_false, false_and]
      simp
  unfold contentLen
  cases ls.find? isContentLen with
  | none => simp
  | some l => simp only [hread, Option.some.injEq, forall_eq']

/-- The reads up to the one that ends the head. -/
theorem feed_head (k : HttpKind) {reads : List (List Byte)} {x more : List Byte}
    (h : reads.flatten ++ x = t.head ++ more) (hlt : reads.flatten.length < t.head.length) :
    ∃ m, HeadRead (headStart k t.line1 t.line2 t.line3) m t.headers ∧
      Parser.feed (parse k) (clear k) (reads ++ [x]) =
        match m._parseBody more with
        | .error e => .error e
        | .ok (n, m') => .ok (reads.map List.length ++ [x.length - more.length + n], m') := by
  -- what the last read has of the head
  obtain ⟨y, hy, hx⟩ : ∃ y, reads.flatten ++ y = t.head ∧ x = y ++ more := by
    rcases List.append_eq_append_iff.mp h with ⟨y, hy, hx⟩ | ⟨y, hy, -⟩
    · exact ⟨y, hy.symm, hx⟩
    · rw [hy, List.length_append] at hlt
      omega
  obtain ⟨m, hread, hparse⟩ := HttpText.parse_head_text k t []
  have hall : parse k (clear k) (reads.flatten ++ y) = .ok ((reads.flatten ++ y).length, m) := by
    rw [hy]
    rw [List.append_nil] at hparse
    exact hparse
  obtain ⟨m₁, hfeed, hlast⟩ := (parse_resumable k).feed_all reads hall
  refine ⟨m, hread, ?_⟩
  have hcall := (parse_resumable k).append m₁ y more
  have hlen : (y ++ more).length - more.length = y.length := by
    rw [List.length_append]; omega
  rw [hlast] at hcall
  simp only [Parser.after, List.drop_length, List.nil_append, parse_body k hread.flag] at hcall
  rw [Parser.feed_append _ _ hfeed, hx, Parser.feed, hcall, hlen]
  cases m._parseBody more with
  | error e => rfl
  | ok r => rfl

/-- **Exactly when a message is complete at the end of its head**: the read that ends the
head goes on, and what is taken for the length is read as 0. -/
theorem completes_iff (k : HttpKind) (t : HttpText) {reads : List (List Byte)}
    {x more : List Byte} (hx : reads.flatten ++ x = t.head ++ more)
    (hlt : reads.flatten.length < t.head.length) :
    Completes k t (reads ++ [x]) ↔
      more ≠ [] ∧ ∀ l, t.headers.find? isContentLen = some l → ReadsZero (lenValue l) := by
  obtain ⟨m, hread, hfeed⟩ := feed_head k hx hlt
  have hbuf : m._buffer = t.head := hread.buffer
  have hover := parseBody_over hread.flag hread.bodysize more
  rw [checkContentLen_head hread, contentLen_zero, hbuf] at hover
  rw [← hover, Completes, hfeed]
  cases m._parseBody more with
  | error e => simp
  | ok r =>
    obtain ⟨n, m'⟩ := r
    simp

/-- `Content-Length: 0`. -/
def zeroLength : HttpText := oneLine (lengthName ++ [sp, 48]) (by decide)

theorem completes_iff_zeroLength :
    Completes .cli zeroLength ([zeroLength.head.take 3] ++ [zeroLength.head.drop 3 ++ [sp]]) ↔
      [sp] ≠ [] ∧ ∀ l, zeroLength.headers.find? isContentLen = some l → ReadsZero (lenValue l) :=
  completes_iff .cli zeroLength (show _ = zeroLength.head ++ [sp] by decide) (by decide)

/-- A head without a body that comes alone is not complete. -/
theorem not_completes : ¬ ∀ k t (reads : List (List Byte)) (x more : List Byte), NoBody t.headers →
    reads.flatten ++ x = t.head ++ more → reads.flatten.length < t.head.length →
    Completes k t (reads ++ [x]) := by
  intro h
  have hbody : NoBody zeroLength.headers := by
    intro l hl
    refine ⟨1, 0, ?_⟩
    have hfind : zeroLength.headers.find? named = some (lengthName ++ [sp, 48]) := by decide +kernel
    rw [hfind] at hl
    cases hl
    decide
  obtain ⟨ns, m, hfeed, hover, -⟩ := h .svr zeroLength [] zeroLength.head [] hbody (by simp) (by decide)
  have hflag : (Parser.feed (parse .svr) (clear .svr) ([] ++ [zeroLength.head])).toOption.map
      (fun r => r.2._flag) = some .body := by decide +kernel
  rw [hfeed] at hflag
  simp only [Except.toOption, Option.map_some, Option.some.injEq] at hflag
  rw [hover] at hflag
  cases hflag

end HttpMsg

end Netlib
