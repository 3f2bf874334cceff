import Netlib.Spec.HttpSocket
import Netlib.Proof.HttpHead
import Mathlib.Data.List.TakeWhile

/-!
# What an HTTP socket delivers

A call of `Parse` on a cleared parser reads the head of the next message and as much
of its body as the Content-Length says (`parse_text`). `_CutMsgPack` notifies after
every such call, so the callbacks are right exactly when every read ends a message
(`delivers_iff`).
-/

namespace Netlib

open Lib

namespace HttpMsg

/-! ## The parts are found again -/

theorem token_append {a : List Byte} (t : List Byte) (h : sp ∉ a) :
    token sp (a ++ [sp] ++ t) = some (a, t) := by
  induction a with
  | nil => rfl
  | cons x a ih =>
    rw [List.mem_cons, not_or] at h
    rw [List.cons_append, List.cons_append, token, if_neg (Ne.symm h.1), ih h.2]
    rfl

theorem line_append {a : List Byte} (t : List Byte) (h : line a = none) :
    line (a ++ [cr, lf] ++ t) = some (a, t) := by
  induction a with
  | nil => rfl
  | cons x a ih =>
    rcases a with _ | ⟨y, a⟩
    · -- one byte before the CR LF
      have hx : ¬ (x = cr ∧ cr = lf) := fun h => absurd h.2 (by decide)
      simp only [List.cons_append, List.nil_append, line, if_neg hx]
      rfl
    · rw [line] at h
      split at h
      · cases h
      · rename_i hxy
        rw [Option.map_eq_none_iff] at h
        have hih := ih h
        simp only [List.cons_append] at hih ⊢
        rw [line, if_neg hxy, hih]
        rfl

theorem headerLines_append {ls : List (List Byte)} (t : List Byte)
    (h : ∀ l ∈ ls, l ≠ [] ∧ line l = none) :
    ∀ n, ls.length < n → headerLines n (lineBytes ls ++ t) = some (ls, t) := by
  induction ls with
  | nil =>
    intro n hn
    rcases n with _ | n
    · simp at hn
    rw [headerLines]
    rfl
  | cons l ls ih =>
    intro n hn
    rcases n with _ | n
    · simp at hn
    obtain ⟨hne, hl⟩ := h l List.mem_cons_self
    have hbytes : lineBytes (l :: ls) ++ t = l ++ [cr, lf] ++ (lineBytes ls ++ t) := by
      simp [lineBytes]
    have htail := ih (fun l hl => h l (List.mem_cons_of_mem _ hl)) n (by simpa using hn)
    rcases l with _ | ⟨x, l⟩
    · exact absurd rfl hne
    · rw [headerLines, hbytes, line_append _ hl]
      simp only [htail, Option.map_some]

theorem length_lineBytes (ls : List (List Byte)) : ls.length < (lineBytes ls).length := by
  induction ls with
  | nil => exact Nat.zero_lt_two
  | cons l ls ih =>
    have hbytes : lineBytes (l :: ls) = l ++ [cr, lf] ++ lineBytes ls := by simp [lineBytes]
    rw [hbytes]
    simp only [List.length_append, List.length_cons]
    omega

/-! ## What the getters return -/

variable {m : HttpMsg}

theorem substr_eq {p : StrPos} {a b c : List Byte} (h : m._buffer = a ++ b ++ c)
    (hbeg : p.beg = a.length) (hend : p.end_ = a.length + b.length) : m.substr p = b := by
  rw [substr, h, hbeg, hend, Int.toNat_natCast, List.append_assoc, List.drop_left,
    show (a.length + b.length - a.length : ℤ).toNat = b.length by omega, List.take_left]

theorem substr_linePos (ls : List (List Byte)) : ∀ pre c : List Byte,
    m._buffer = pre ++ lineBytes ls ++ c →
    (linePos pre.length ls).map (fun p => m.substr { p with end_ := p.end_ - 2 }) = ls ++ [[]] := by
  induction ls with
  | nil =>
    intro pre c h
    have hempty : m.substr ⟨pre.length, (pre.length : ℤ) + 2 - 2⟩ = [] :=
      substr_eq (a := pre) (b := []) (c := lineBytes [] ++ c) (by rw [h]; simp) rfl (by simp)
    simp only [linePos, List.map_cons, List.map_nil, hempty, List.nil_append]
  | cons l ls ih =>
    intro pre c h
    have hbytes : lineBytes (l :: ls) = l ++ [cr, lf] ++ lineBytes ls := by simp [lineBytes]
    have hpos : ((pre ++ (l ++ [cr, lf])).length : ℤ) = pre.length + l.length + 2 := by
      simp only [List.length_append, List.length_cons, List.length_nil]; omega
    have hline : m.substr ⟨pre.length, (pre.length : ℤ) + l.length + 2 - 2⟩ = l :=
      substr_eq (a := pre) (b := l) (c := [cr, lf] ++ lineBytes ls ++ c)
        (by rw [h, hbytes]; simp) rfl (by change _ + _ + 2 - 2 = _; omega)
    have htail := ih (pre ++ (l ++ [cr, lf])) c (by rw [h, hbytes]; simp)
    rw [hpos] at htail
    simp only [linePos, List.map_cons, hline, htail, List.cons_append]

end HttpMsg

namespace HttpText

open HttpMsg

variable {k : HttpKind} {m m' : HttpMsg} {t : HttpText}

/-- The parser has the head of the message. -/
structure Heads (t : HttpText) (m : HttpMsg) : Prop where
  line1 : m._line1 = ⟨0, t.line1.length⟩
  line2 : m._line2 = ⟨t.line1.length + 1, t.line1.length + 1 + t.line2.length⟩
  line3 : m._line3 = ⟨t.line1.length + t.line2.length + 2,
    t.line1.length + t.line2.length + 2 + t.line3.length⟩
  header : m._header = ⟨(startLine t.line1 t.line2 t.line3).length, t.head.length⟩
  vec : m._header_vec = linePos (startLine t.line1 t.line2 t.line3).length t.headers
  buffer : t.head <+: m._buffer

/-- The parser has the whole message. -/
structure Held (t : HttpText) (m : HttpMsg) : Prop where
  heads : t.Heads m
  body : m._body = ⟨t.head.length, t.bytes.length⟩
  buffer : m._buffer = t.bytes

theorem Heads.of_read (h : HeadRead (headStart k t.line1 t.line2 t.line3) m t.headers) :
    t.Heads m := by
  have hbuf : m._buffer = t.head := h.buffer
  refine ⟨?_, ?_, ?_, ?_, h.vec, ?_⟩
  · rw [h.line1]
    simp [headStart, endLine1, endLine2, endLine3, push, size, clear]
  · rw [h.line2]
    simp [headStart, endLine1, endLine2, endLine3, push, size, clear]
    omega
  · rw [h.line3]
    simp [headStart, endLine1, endLine2, endLine3, push, size, clear]
    omega
  · rw [h.header, size, hbuf]
    rfl
  · exact hbuf ▸ List.prefix_refl _

theorem Heads.congr (h : t.Heads m) (h1 : m'._line1 = m._line1) (h2 : m'._line2 = m._line2)
    (h3 : m'._line3 = m._line3) (hh : m'._header = m._header) (hv : m'._header_vec = m._header_vec)
    (hb : m._buffer <+: m'._buffer) : t.Heads m' :=
  ⟨h1.trans h.line1, h2.trans h.line2, h3.trans h.line3, hh.trans h.header, hv.trans h.vec,
    h.buffer.trans hb⟩

/-- The components, whatever the body is so far. -/
theorem Heads.parts (h : t.Heads m) {b : List Byte} (hb : m.getBody = b) :
    m.parts = { t.parts with body := b } := by
  obtain ⟨c, hbuf⟩ := h.buffer
  have hbuf' : m._buffer =
      t.line1 ++ [sp] ++ (t.line2 ++ [sp]) ++ (t.line3 ++ [cr, lf]) ++ lineBytes t.headers ++ c :=
    hbuf.symm
  have h1 : m.getLine1 = t.line1 := by
    rw [getLine1, h.line1]
    split
    · rename_i h0
      exact (List.length_eq_zero_iff.mp (Int.ofNat_eq_zero.mp h0)).symm
    · exact substr_eq (a := []) (b := t.line1)
        (c := [sp] ++ (t.line2 ++ [sp]) ++ (t.line3 ++ [cr, lf]) ++ lineBytes t.headers ++ c)
        (by rw [hbuf']; simp) rfl (by simp)
  have h2 : m.getLine2 = t.line2 := by
    rw [getLine2, h.line2, if_neg (by change _ + _ + _ ≠ _; omega)]
    exact substr_eq (a := t.line1 ++ [sp]) (b := t.line2)
      (c := [sp] ++ (t.line3 ++ [cr, lf]) ++ lineBytes t.headers ++ c)
      (by rw [hbuf']; simp) (by simp) (by simp)
  have h3 : m.getLine3 = t.line3 := by
    rw [getLine3, h.line3, if_neg (by change _ + _ + _ + _ ≠ _; omega)]
    exact substr_eq (a := t.line1 ++ [sp] ++ (t.line2 ++ [sp])) (b := t.line3)
      (c := [cr, lf] ++ lineBytes t.headers ++ c) (by rw [hbuf']; simp) (by simp; omega) (by simp; omega)
  have hstart : m.getStartLine = t.line1 ++ [sp] ++ (t.line2 ++ [sp]) ++ t.line3 := by
    rw [getStartLine, h.line1, h.line3, if_neg (by change _ + _ + _ + _ ≠ _; omega)]
    exact substr_eq (a := []) (b := t.line1 ++ [sp] ++ (t.line2 ++ [sp]) ++ t.line3)
      (c := [cr, lf] ++ lineBytes t.headers ++ c) (by rw [hbuf']; simp) rfl (by simp; omega)
  have hhead : m.getHeader = lineBytes t.headers := by
    have hlen : t.head.length =
        (startLine t.line1 t.line2 t.line3).length + (lineBytes t.headers).length :=
      List.length_append
    have hpos : 0 < (lineBytes t.headers).length := by simp [lineBytes]
    rw [getHeader, h.header, if_neg (by change (t.head.length : ℤ) ≠ 0; omega)]
    exact substr_eq (a := startLine t.line1 t.line2 t.line3) (b := lineBytes t.headers) (c := c)
      hbuf.symm rfl (by change (t.head.length : ℤ) = _; omega)
  have hvec : m.headers = t.headers ++ [[]] := by
    rw [HttpMsg.headers, h.vec]
    exact substr_linePos t.headers (startLine t.line1 t.line2 t.line3) c hbuf.symm
  simp only [HttpMsg.parts, HttpText.parts, h1, h2, h3, hstart, hhead, hvec, hb]

/-! ## One call on a cleared parser -/

/-- What is read of a body: how many bytes, and which of them `GetBody` returns. -/
def bodyRead (len : Except HttpFault ℤ) (rest : List Byte) : Except HttpFault (ℕ × List Byte) :=
  if rest = [] then .ok (0, [])
  else
    match len with
    | .error e => .error e
    | .ok z =>
      if z < 0 then .error (.write z)
      else if z ≤ rest.length then .ok (z.toNat, rest.take z.toNat)
      else .ok (rest.length, [])

/-- The first call on the bytes after the head. -/
theorem parseBody_text (h : HeadRead (headStart k t.line1 t.line2 t.line3) m t.headers)
    (rest : List Byte) :
    match bodyRead (contentLen t.headers) rest with
    | .error e => m._parseBody rest = .error e
    | .ok (j, b) =>
      ∃ m', m._parseBody rest = .ok (j, m') ∧ m'.parts = { t.parts with body := b } ∧
        (b ≠ [] → m'._flag = .over) ∧ m'._header_iter = 0 := by
  have hheads := Heads.of_read h
  have hiter : m._header_iter = 0 := h.iter
  have hend : m._body.end_ = 0 := by rw [h.body]; rfl
  rcases rest with _ | ⟨x, rest⟩
  · -- the length is not looked for before a byte of the body is there
    exact ⟨m, rfl, hheads.parts (if_pos hend), fun h => absurd rfl h, hiter⟩
  unfold bodyRead _parseBody
  rw [if_neg (List.cons_ne_nil _ _), if_neg (List.cons_ne_nil _ _),
    if_pos (show m._bodysize = -1 from h.bodysize), checkContentLen_head h]
  cases contentLen t.headers with
  | error e => rfl
  | ok z =>
    by_cases hz : z = 0
    · -- there is no body
      have hlt : ¬ (0 : ℤ) < 0 := by decide
      simp only [hz, if_true, if_neg hlt, if_pos (Int.natCast_nonneg _), Int.toNat_zero,
        List.take_zero]
      have hover : t.Heads { m with _bodysize := 0, _flag := .over } :=
        hheads.congr rfl rfl rfl rfl rfl (List.prefix_refl _)
      exact ⟨_, rfl, hover.parts (if_pos hend), fun h => absurd rfl h, hiter⟩
    · simp only [if_neg hz]
      set m₁ : HttpMsg := { m with _bodysize := z, _body := { m._body with beg := m.size } } with hm₁
      have hmiss : m₁.missing = z := by
        change z - (m.size - m.size) = z
        omega
      by_cases hneg : z < 0
      · simp only [if_pos hneg]
        rw [copyBody_neg (by omega), hmiss]
      simp only [if_neg hneg]
      by_cases hall : z ≤ ((x :: rest).length : ℤ)
      · -- the whole body
        simp only [if_pos hall]
        have hcopy := copyBody_all (m := m₁) (l := x :: rest) (by omega) (by omega)
        rw [hmiss] at hcopy
        have hheads' : t.Heads ((m₁.push ((x :: rest).take z.toNat)).endBody) :=
          hheads.congr rfl rfl rfl rfl rfl (List.prefix_append _ _)
        have hlen : ((x :: rest).take z.toNat).length = z.toNat := by
          rw [List.length_take]; omega
        have hsize : (m₁.push ((x :: rest).take z.toNat)).size = m.size + z := by
          simp only [push, size, List.length_append, hlen, hm₁]
          omega
        have hpos : 0 ≤ m.size := Int.natCast_nonneg _
        have hget : ((m₁.push ((x :: rest).take z.toNat)).endBody).getBody =
            (x :: rest).take z.toNat := by
          rw [getBody, if_neg (by change (m₁.push ((x :: rest).take z.toNat)).size ≠ 0; omega)]
          refine substr_eq (a := m._buffer) (c := []) (List.append_nil _).symm rfl ?_
          change (m₁.push ((x :: rest).take z.toNat)).size = m.size + _
          rw [hsize, hlen]
          omega
        exact ⟨_, hcopy, hheads'.parts hget, fun _ => rfl, hiter⟩
      · -- a part of the body
        simp only [if_neg hall]
        have hheads' : t.Heads (m₁.push (x :: rest)) :=
          hheads.congr rfl rfl rfl rfl rfl (List.prefix_append _ _)
        exact ⟨_, copyBody_more (m := m₁) h.flag (by omega), hheads'.parts (if_pos hend),
          fun h => absurd rfl h, hiter⟩

/-- A call on the head of a message reads the head and goes on with what follows. -/
theorem parse_head_text (k : HttpKind) (t : HttpText) (rest : List Byte) :
    ∃ m, HeadRead (headStart k t.line1 t.line2 t.line3) m t.headers ∧
      parse k (clear k) (t.head ++ rest) = plus t.head.length (m._parseBody rest) := by
  have hbytes : t.head ++ rest = t.line1 ++ [sp] ++ (t.line2 ++ [sp] ++
      (t.line3 ++ [cr, lf] ++ (lineBytes t.headers ++ rest))) := by
    simp only [head, startLine, List.append_assoc]
  have hstart := parse_startLine (k := k) (token_append _ t.sp_line1) (token_append _ t.sp_line2)
    (line_append (lineBytes t.headers ++ rest) t.crlf_line3)
  have hcount : t.headers.length < (lineBytes t.headers ++ rest).length := by
    have := length_lineBytes t.headers
    rw [List.length_append]
    omega
  have hlines := parseHead_lines _ (m := headStart k t.line1 t.line2 t.line3)
    (Nat.le_refl (lineBytes t.headers ++ rest).length) rfl rfl
  rw [headerLines_append rest t.crlf_headers _ hcount] at hlines
  obtain ⟨m, hread, hhead⟩ := hlines
  have hlen : t.head.length =
      (startLine t.line1 t.line2 t.line3).length + (lineBytes t.headers).length := List.length_append
  exact ⟨m, hread, by rw [hbytes, hstart, hhead, plus_plus, ← hlen]⟩

/-- **A call on the head of a message and what follows.** -/
theorem parse_text (k : HttpKind) (t : HttpText) (rest : List Byte) :
    match bodyRead (contentLen t.headers) rest with
    | .error e => parse k (clear k) (t.head ++ rest) = .error e
    | .ok (j, b) =>
      ∃ m, parse k (clear k) (t.head ++ rest) = .ok (t.head.length + j, m) ∧
        m.parts = { t.parts with body := b } ∧ (b ≠ [] → m._flag = .over) ∧ m._header_iter = 0 := by
  obtain ⟨m, hread, hhead⟩ := parse_head_text k t rest
  have hbody := parseBody_text hread rest
  rw [hhead]
  cases hr : bodyRead (contentLen t.headers) rest with
  | error e =>
    rw [hr] at hbody
    simp only [hbody]
    rfl
  | ok r =>
    rw [hr] at hbody
    obtain ⟨m', hm', hparts⟩ := hbody
    exact ⟨m', by rw [hm']; rfl, hparts⟩

/-- **A call on a whole message** whose length the parser finds: where its parts are. -/
theorem parse_sized (k : HttpKind) (hs : t.Sized) (hb : t.body ≠ []) :
    ∃ m, parse k (clear k) t.bytes = .ok (t.bytes.length, m) ∧ t.Held m := by
  obtain ⟨m, hread, hhead⟩ := parse_head_text k t t.body
  have hsize : m.size = t.head.length := congrArg (fun l => (l.length : ℤ)) hread.buffer
  obtain ⟨m₁, hm₁⟩ : ∃ m₁ : HttpMsg, m₁ = { m with
      _bodysize := t.body.length, _body := { m._body with beg := m.size } } := ⟨_, rfl⟩
  have hmiss : m₁.missing = t.body.length := by
    rw [hm₁]
    change (t.body.length : ℤ) - (m.size - m.size) = _
    omega
  have hpos := List.length_pos_iff.mpr hb
  have hbody : m._parseBody t.body = m₁.copyBody t.body := by
    have hlen : m._checkContentLen = .ok t.body.length := (checkContentLen_head hread).trans hs
    rw [_parseBody, if_neg hb, if_pos (show m._bodysize = -1 from hread.bodysize), hlen, hm₁]
    exact if_neg (by omega)
  have hcopy := copyBody_all (m := m₁) (l := t.body) (by omega) (by omega)
  rw [hmiss, Int.toNat_natCast, List.take_length] at hcopy
  have hheads : t.Heads (m₁.push t.body).endBody :=
    (Heads.of_read hread).congr (by rw [hm₁]; rfl) (by rw [hm₁]; rfl) (by rw [hm₁]; rfl)
      (by rw [hm₁]; rfl) (by rw [hm₁]; rfl) (by rw [hm₁]; exact List.prefix_append _ _)
  have hparse : parse k (clear k) t.bytes = .ok (t.bytes.length, (m₁.push t.body).endBody) := by
    rw [bytes, hhead, hbody, hcopy, List.length_append]
    rfl
  have hbuf := parse_buffer k _ hparse
  rw [List.take_length] at hbuf
  refine ⟨_, hparse, hheads, ?_, hbuf⟩
  · have hend : (m₁.push t.body).size = t.bytes.length := by
      rw [bytes, List.length_append, hm₁]
      simp only [push, size, List.length_append] at hsize ⊢
      omega
    change (⟨m₁._body.beg, (m₁.push t.body).size⟩ : StrPos) = _
    rw [hend, hm₁, hsize]

theorem bodyRead_sized (h : t.Sized) (s : List Byte) :
    bodyRead (contentLen t.headers) (t.body ++ s) = .ok (t.body.length, t.body) := by
  unfold bodyRead
  split
  · rename_i hnil
    rw [(List.append_eq_nil_iff.mp hnil).1]
    rfl
  · rw [h]
    have hlt : ¬ (t.body.length : ℤ) < 0 := by omega
    have hle : (t.body.length : ℤ) ≤ ((t.body ++ s).length : ℤ) := by
      rw [List.length_append]; omega
    simp only [if_neg hlt, if_pos hle, Int.toNat_natCast, List.take_left]

theorem atoiDigits_digits (v t : List Byte) (hv : ∀ x ∈ v, 48 ≤ x ∧ x ≤ 57) : ∀ acc,
    atoiDigits acc (v ++ 0 :: t) = some (v.foldl (fun acc x => 10 * acc + (x.toNat - 48)) acc) := by
  induction v with
  | nil => intro acc; rfl
  | cons x v ih =>
    intro acc
    rw [List.cons_append, atoiDigits, if_pos (hv x List.mem_cons_self),
      ih fun y hy => hv y (List.mem_cons_of_mem _ hy)]
    rfl

/-- A number that begins with a digit has no sign. -/
theorem atoi_first {x : Byte} (h : 48 ≤ x ∧ x ≤ 57) (t : List Byte) :
    atoi (x :: t) = (atoiDigits 0 (x :: t)).map fun n => Int.bmod n (2 ^ 32) := by
  have hspace : isSpace x = false := by
    have hlo : 48 ≤ x.toNat := UInt8.le_iff_toNat_le.mp h.1
    simp only [isSpace, sp, Bool.or_eq_false_iff, Bool.and_eq_false_iff, decide_eq_false_iff_not,
      ← UInt8.toNat_inj, UInt8.le_iff_toNat_le, UInt8.reduceToNat]
    omega
  have h45 : x ≠ 45 := by rintro rfl; exact absurd h.1 (by decide)
  have h43 : x ≠ 43 := by rintro rfl; exact absurd h.1 (by decide)
  have hdrop : (x :: t).dropWhile isSpace = x :: t := by
    rw [List.dropWhile_cons, hspace]
    rfl
  rw [atoi, hdrop]
  simp only [if_neg h45, if_neg h43]

theorem atoi_digits {v : List Byte} (t : List Byte) (hne : v ≠ [])
    (hv : ∀ x ∈ v, 48 ≤ x ∧ x ≤ 57) : atoi (v ++ 0 :: t) = some (Int.bmod (value v) (2 ^ 32)) := by
  rcases v with _ | ⟨x, v⟩
  · exact absurd rfl hne
  rw [List.cons_append, atoi_first (hv x List.mem_cons_self), ← List.cons_append,
    atoiDigits_digits _ _ hv]
  rfl

/-- **A Content-Length as the library writes it**: at most 10 digits, a number below 2^31. -/
theorem sized_of_digits {v : List Byte} (hne : v ≠ []) (hv : ∀ x ∈ v, 48 ≤ x ∧ x ≤ 57)
    (hlen : v.length ≤ 10) (hfind : t.headers.find? isContentLen = some (_constr ++ v))
    (hvalue : value v = t.body.length) (hbound : t.body.length < 2 ^ 31) : t.Sized := by
  have hval : lenValue (_constr ++ v) = v := by
    rw [lenValue, show (16 : ℕ) = _constr.length from rfl, List.drop_left]
    refine List.takeWhile_eq_self_iff.mpr fun x hx => decide_eq_true ?_
    rintro rfl
    exact absurd (hv cr hx).1 (by decide)
  obtain ⟨n, hn⟩ : ∃ n, scratchSize - v.length = n + 1 := ⟨scratchSize - v.length - 1, by
    rw [scratchSize]; omega⟩
  have hscratch : scratch v = v ++ 0 :: List.replicate n 0 := by rw [scratch, hn]; rfl
  have hmod : Int.bmod (t.body.length : ℤ) (2 ^ 32) = t.body.length :=
    Int.bmod_eq_of_le (by omega) (by omega)
  rw [Sized, contentLen, hfind]
  simp only [hval, readLen, if_pos (show v.length ≤ scratchSize by rw [scratchSize]; omega), hscratch,
    atoi_digits _ hne hv, hvalue]
  rw [show ((2 : ℕ) ^ 32) = 2 ^ 32 from rfl, hmod]

/-! ## One read -/

open HttpBaseSocket

/-- **A round of the loop** notifies and clears the parser. -/
theorem loop_round {buf : List Byte} {n : ℕ} (h : parse k (clear k) buf = .ok (n, m)) (fuel : ℕ) :
    _cutMsgPackLoop k (fuel + 1) (clear k) buf =
      if buf.drop n = [] then .ok ([m], clear k)
      else (_cutMsgPackLoop k fuel (clear k) (buf.drop n)).map fun (ms, m') => (m :: ms, m') := by
  have hle : n = 0 ∨ n ≤ buf.length := .inr ((parse_resumable k).consumed h).1
  simp only [_cutMsgPackLoop, h, if_pos hle]
  rfl

/-- A call notifies at least once and leaves a cleared parser. -/
theorem loop_clear (fuel : ℕ) : ∀ {buf : List Byte} {ms : List HttpMsg},
    _cutMsgPackLoop k fuel (clear k) buf = .ok (ms, m) → ms ≠ [] ∧ m = clear k := by
  induction fuel with
  | zero => intro buf ms h; cases h
  | succ fuel ih =>
    intro buf ms h
    cases hp : parse k (clear k) buf with
    | error e => simp [_cutMsgPackLoop, hp] at h
    | ok r =>
      obtain ⟨n, m₁⟩ := r
      rw [loop_round hp] at h
      split at h
      · cases h
        exact ⟨List.cons_ne_nil _ _, rfl⟩
      · cases hl : _cutMsgPackLoop k fuel (clear k) (buf.drop n) with
        | error e => rw [hl] at h; cases h
        | ok r =>
          obtain ⟨ms', m'⟩ := r
          rw [hl] at h
          cases h
          exact ⟨List.cons_ne_nil _ _, (ih hl).2⟩

theorem head_pos (t : HttpText) : 0 < t.head.length := by
  have := length_lineBytes t.headers
  rw [head, List.length_append]
  omega

theorem stream_cons (t : HttpText) (ts : List HttpText) :
    stream (t :: ts) = t.head ++ (t.body ++ stream ts) := by
  rw [stream, List.flatMap_cons, bytes, List.append_assoc]
  rfl

theorem stream_append (ts us : List HttpText) : stream (ts ++ us) = stream ts ++ stream us :=
  List.flatMap_append

theorem stream_ne_nil (t : HttpText) (ts : List HttpText) : stream (t :: ts) ≠ [] := by
  intro h
  have := congrArg List.length h
  rw [stream_cons, List.length_append, List.length_nil] at this
  have := head_pos t
  omega

/-- The first round on the bytes of `t` and what follows. -/
theorem loop_text {j : ℕ} {b s : List Byte}
    (h : bodyRead (contentLen t.headers) (t.body ++ s) = .ok (j, b)) (fuel : ℕ) :
    ∃ m, m.parts = { t.parts with body := b } ∧
      _cutMsgPackLoop k (fuel + 1) (clear k) (t.head ++ (t.body ++ s)) =
        if (t.body ++ s).drop j = [] then .ok ([m], clear k)
        else (_cutMsgPackLoop k fuel (clear k) ((t.body ++ s).drop j)).map
          fun (ms, m') => (m :: ms, m') := by
  have htext := parse_text k t (t.body ++ s)
  rw [h] at htext
  obtain ⟨m, hm, hparts, -⟩ := htext
  have hdrop : (t.head ++ (t.body ++ s)).drop (t.head.length + j) = (t.body ++ s).drop j := by
    rw [← List.drop_drop, List.drop_left]
  refine ⟨m, hparts, ?_⟩
  rw [loop_round hm, hdrop]

/-- **A read of whole messages** gives their callbacks. -/
theorem loop_whole (ts : List HttpText) : ∀ (t : HttpText) (fuel : ℕ), WholeRead (t :: ts) →
    (stream (t :: ts)).length < fuel →
    ∃ ms, _cutMsgPackLoop k fuel (clear k) (stream (t :: ts)) = .ok (ms, clear k) ∧
      ms.map HttpMsg.parts = (t :: ts).map parts := by
  induction ts with
  | nil =>
    intro t fuel hw hfuel
    obtain ⟨fuel, rfl⟩ : ∃ n, fuel = n + 1 := ⟨fuel - 1, by omega⟩
    have hread : bodyRead (contentLen t.headers) (t.body ++ []) = .ok (t.body.length, t.body) := by
      rcases hw with hbody | hsized
      · rw [hbody]; rfl
      · exact bodyRead_sized hsized []
    obtain ⟨m, hparts, hloop⟩ := loop_text (k := k) hread fuel
    refine ⟨[m], ?_, congrArg (fun q => [q]) hparts⟩
    rw [stream_cons, show stream [] = [] from rfl, hloop, if_pos (by simp)]
  | cons u ts ih =>
    intro t fuel hw hfuel
    obtain ⟨fuel, rfl⟩ : ∃ n, fuel = n + 1 := ⟨fuel - 1, by omega⟩
    obtain ⟨m, hparts, hloop⟩ := loop_text (k := k) (bodyRead_sized hw.1 (stream (u :: ts))) fuel
    have hlen : (stream (u :: ts)).length < fuel := by
      have := head_pos t
      rw [stream_cons, List.length_append, List.length_append] at hfuel
      omega
    obtain ⟨ms, hms, hmap⟩ := ih u fuel hw.2 hlen
    refine ⟨m :: ms, ?_, congrArg₂ List.cons hparts hmap⟩
    rw [stream_cons, hloop, List.drop_left, if_neg (stream_ne_nil u ts), hms]
    rfl

/-- The body of a message is read right: as many bytes as the head says, or none, when the read
has fewer. -/
theorem bodyRead_right {rest : List Byte} {j : ℕ}
    (hr : bodyRead (contentLen t.headers) (t.body ++ rest) = .ok (j, t.body)) :
    t.body ++ rest = [] ∨ (t.Sized ∧ j = t.body.length) ∨
      (t.body = [] ∧ j = (t.body ++ rest).length) := by
  by_cases hnil : t.body ++ rest = []
  · exact .inl hnil
  unfold bodyRead at hr
  rw [if_neg hnil] at hr
  cases hz : contentLen t.headers with
  | error e =>
    rw [hz] at hr
    cases hr
  | ok z =>
    simp only [hz] at hr
    by_cases hneg : z < 0
    · rw [if_pos hneg] at hr
      cases hr
    rw [if_neg hneg] at hr
    by_cases hall : z ≤ ((t.body ++ rest).length : ℤ)
    · rw [if_pos hall] at hr
      simp only [Except.ok.injEq, Prod.mk.injEq] at hr
      obtain ⟨rfl, htake⟩ := hr
      have hlen := congrArg List.length htake
      rw [List.length_take, Nat.min_eq_left (by omega)] at hlen
      refine .inr (.inl ⟨?_, hlen⟩)
      rw [Sized, hz]
      congr 1
      omega
    · rw [if_neg hall] at hr
      simp only [Except.ok.injEq, Prod.mk.injEq] at hr
      obtain ⟨rfl, hbody⟩ := hr
      exact .inr (.inr ⟨hbody.symm, rfl⟩)

/-- A read whose callbacks are those of the messages in it. -/
theorem loop_right (fuel : ℕ) : ∀ {ts : List HttpText} {ms : List HttpMsg}, ts ≠ [] →
    _cutMsgPackLoop k fuel (clear k) (stream ts) = .ok (ms, m) →
    ms.map HttpMsg.parts = ts.map parts → WholeRead ts := by
  induction fuel with
  | zero => intro ts ms _ h; cases h
  | succ fuel ih =>
    intro ts ms hne h hmap
    rcases ts with _ | ⟨t, ts⟩
    · exact absurd rfl hne
    rw [stream_cons] at h
    cases hr : bodyRead (contentLen t.headers) (t.body ++ stream ts) with
    | error e =>
      -- the round does not return
      have htext := parse_text k t (t.body ++ stream ts)
      rw [hr] at htext
      simp [_cutMsgPackLoop, htext] at h
    | ok r =>
      obtain ⟨j, b⟩ := r
      obtain ⟨m₁, hparts, hloop⟩ := loop_text (k := k) hr fuel
      rw [hloop] at h
      -- the first callback has the body of the first message
      have hfirst : b = t.body ∧
          ((t.body ++ stream ts).drop j = [] ∧ ts = [] ∨ ts ≠ [] ∧ (t.body ++ stream ts).drop j ≠ [] ∧
            ∃ ms', _cutMsgPackLoop k fuel (clear k) ((t.body ++ stream ts).drop j) = .ok (ms', m) ∧
              ms'.map HttpMsg.parts = ts.map parts) := by
        split at h
        · rename_i hd
          cases h
          simp only [List.map_cons, List.map_nil, List.cons.injEq, hparts] at hmap
          exact ⟨congrArg HttpParts.body hmap.1, .inl ⟨hd, List.map_eq_nil_iff.mp hmap.2.symm⟩⟩
        · rename_i hd
          cases hl : _cutMsgPackLoop k fuel (clear k) ((t.body ++ stream ts).drop j) with
          | error e => rw [hl] at h; cases h
          | ok r =>
            obtain ⟨ms', m'⟩ := r
            rw [hl] at h
            cases h
            simp only [List.map_cons, List.cons.injEq, hparts] at hmap
            refine ⟨congrArg HttpParts.body hmap.1, .inr ⟨?_, hd, ms', rfl, hmap.2⟩⟩
            rintro rfl
            exact (loop_clear fuel hl).1 (List.map_eq_nil_iff.mp hmap.2)
      obtain ⟨rfl, hrest⟩ := hfirst
      rcases bodyRead_right hr with hnil | ⟨hsized, rfl⟩ | ⟨hbody, rfl⟩
      · -- the read ends with the head
        obtain ⟨hbody, hts⟩ := List.append_eq_nil_iff.mp hnil
        rcases ts with _ | ⟨u, ts⟩
        · exact .inl hbody
        · exact absurd hts (stream_ne_nil u ts)
      · rw [List.drop_left] at hrest
        rcases ts with _ | ⟨u, ts⟩
        · exact .inr hsized
        · obtain ⟨-, habs⟩ | ⟨hne', -, ms', hms', hmap'⟩ := hrest
          · cases habs
          · exact ⟨hsized, ih hne' hms' hmap'⟩
      · -- nothing is left for the messages after this one
        rw [List.drop_length] at hrest
        obtain ⟨-, rfl⟩ | ⟨-, habs, -⟩ := hrest
        · exact .inl hbody
        · exact absurd rfl habs

/-! ## A sequence of reads -/

theorem bytes_pos (t : HttpText) : 0 < t.bytes.length := by
  have := head_pos t
  rw [bytes, List.length_append]
  omega

theorem completed_prefix (ts : List HttpText) : ∀ n, completed ts n <+: ts := by
  induction ts with
  | nil => exact fun _ => List.prefix_refl _
  | cons t ts ih =>
    intro n
    rw [completed]
    split
    · exact List.prefix_cons_inj t |>.mpr (ih _)
    · exact List.nil_prefix

theorem completed_append (g us : List HttpText) (n : ℕ) :
    completed (g ++ us) ((stream g).length + n) = g ++ completed us n := by
  induction g with
  | nil => rw [List.nil_append, List.nil_append, show (stream []).length + n = n from Nat.zero_add n]
  | cons t g ih =>
    have hlen : (stream (t :: g)).length = t.bytes.length + (stream g).length := by
      rw [stream, List.flatMap_cons, List.length_append]
      rfl
    rw [List.cons_append, completed, if_pos (by omega), hlen, Nat.add_assoc, Nat.add_sub_cancel_left, ih]
    rfl

theorem completed_zero (ts : List HttpText) : completed ts 0 = [] := by
  rcases ts with _ | ⟨t, ts⟩
  · rfl
  · have := bytes_pos t
    rw [completed, if_neg (by omega)]

theorem completed_stream {g ts : List HttpText} (h : g <+: ts) :
    completed ts (stream g).length = g := by
  obtain ⟨us, rfl⟩ := h
  have := completed_append g us 0
  rwa [Nat.add_zero, completed_zero, List.append_nil] at this

theorem cutMsgPacks_cons {r : List Byte} {ms : List HttpMsg}
    (h : _cutMsgPack k (clear k) r = .ok (ms, clear k)) (rs : List (List Byte)) :
    cutMsgPacks k (clear k) (r :: rs) =
      (cutMsgPacks k (clear k) rs).map fun (ms', m) => (ms ++ ms', m) := by
  rw [cutMsgPacks, h]

/-- The callbacks of reads that end messages. -/
theorem cutMsgPacks_whole (groups : List (List HttpText)) (hne : ∀ g ∈ groups, g ≠ [])
    (hw : ∀ g ∈ groups, WholeRead g) :
    ∃ ms, cutMsgPacks k (clear k) (groups.map stream) = .ok (ms, clear k) ∧
      ms.map HttpMsg.parts = groups.flatten.map parts := by
  induction groups with
  | nil => exact ⟨[], rfl, rfl⟩
  | cons g groups ih =>
    obtain ⟨ms', hms', hmap'⟩ := ih (fun g hg => hne g (List.mem_cons_of_mem _ hg))
      (fun g hg => hw g (List.mem_cons_of_mem _ hg))
    rcases g with _ | ⟨t, g⟩
    · exact absurd rfl (hne _ List.mem_cons_self)
    obtain ⟨ms, hms, hmap⟩ := loop_whole (k := k) g t _ (hw _ List.mem_cons_self) (Nat.lt_succ_self _)
    refine ⟨ms ++ ms', ?_, ?_⟩
    · rw [List.map_cons, cutMsgPacks_cons hms, hms']
      rfl
    · rw [List.map_append, hmap, hmap', List.flatten_cons, List.map_append]

theorem flatten_stream (groups : List (List HttpText)) :
    (groups.map stream).flatten = stream groups.flatten := by
  induction groups with
  | nil => rfl
  | cons g groups ih => rw [List.map_cons, List.flatten_cons, List.flatten_cons, stream_append, ih]

theorem delivers_of_whole {ts : List HttpText} {reads : List (List Byte)}
    (hne : ∀ r ∈ reads, r ≠ []) (h : Whole ts reads) : Delivers k ts reads := by
  obtain ⟨groups, hpre, rfl, hw⟩ := h
  intro rs hrs
  -- the reads so far are the first ones of the groups
  obtain ⟨gs, hgs, rfl⟩ : ∃ gs, gs <+: groups ∧ gs.map stream = rs :=
    ⟨groups.take rs.length, List.take_prefix _ _, by rw [List.map_take, ← List.prefix_iff_eq_take.mp hrs]⟩
  have hgne : ∀ g ∈ gs, g ≠ [] := by
    rintro g hg rfl
    exact hne [] (List.mem_map.mpr ⟨[], hgs.subset hg, rfl⟩) rfl
  obtain ⟨ms, hms, hmap⟩ := cutMsgPacks_whole (k := k) gs hgne fun g hg => hw g (hgs.subset hg)
  have hflat : gs.flatten <+: ts := by
    obtain ⟨us, rfl⟩ := hgs
    rw [List.flatten_append] at hpre
    exact (List.prefix_append _ _).trans hpre
  refine ⟨ms, clear k, hms, ?_, ?_⟩
  · rw [flatten_stream, completed_stream hflat, hmap]
  · rw [flatten_stream, completed_stream hflat]
    exact List.append_nil _

theorem whole_of_delivers (reads : List (List Byte)) : ∀ {ts : List HttpText},
    (∀ r ∈ reads, r ≠ []) → Delivers k ts reads → Whole ts reads := by
  induction reads with
  | nil => exact fun _ _ => ⟨[], List.nil_prefix, rfl, fun g hg => by cases hg⟩
  | cons r reads ih =>
    intro ts hne h
    have hr : r ≠ [] := hne r List.mem_cons_self
    -- the first read ends a message
    obtain ⟨ms, m, hms, hmap, hbytes⟩ := h [r] ⟨reads, rfl⟩
    cases hcut : _cutMsgPack k (clear k) r with
    | error e => rw [cutMsgPacks, hcut] at hms; cases hms
    | ok q =>
      obtain ⟨ms₁, m₁⟩ := q
      obtain ⟨-, rfl⟩ := loop_clear _ hcut
      rw [cutMsgPacks_cons hcut] at hms
      cases hms
      rw [List.flatten_cons, List.flatten_nil, List.append_nil] at hmap hbytes
      rw [List.append_nil] at hmap
      obtain ⟨g, hg⟩ : ∃ g, g = completed ts r.length := ⟨_, rfl⟩
      rw [← hg] at hmap hbytes
      have hstream : stream g = r := by
        rw [← hbytes]
        exact (List.append_nil _).symm
      have hgne : g ≠ [] := by
        rintro rfl
        exact hr hstream.symm
      have hwhole : WholeRead g := by
        rw [← hstream] at hcut
        exact loop_right _ hgne hcut hmap
      obtain ⟨us, rfl⟩ : g <+: ts := hg ▸ completed_prefix ts r.length
      -- and the others are those of the messages after it
      have hrest : Delivers k us reads := by
        intro rs hrs
        obtain ⟨ms', m', hms', hmap', hbytes'⟩ := h (r :: rs) (List.prefix_cons_inj r |>.mpr hrs)
        have hcomp : completed (g ++ us) (r :: rs).flatten.length = g ++ completed us rs.flatten.length := by
          rw [List.flatten_cons, List.length_append, ← hstream, completed_append]
        rw [cutMsgPacks_cons hcut] at hms'
        rw [hcomp] at hmap' hbytes'
        cases hl : cutMsgPacks k (clear k) rs with
        | error e => rw [hl] at hms'; cases hms'
        | ok q =>
          obtain ⟨ms₂, m₂⟩ := q
          rw [hl] at hms'
          cases hms'
          refine ⟨ms₂, m', rfl, ?_, ?_⟩
          · rw [List.map_append, List.map_append, hmap] at hmap'
            exact List.append_cancel_left hmap'
          · rw [stream_append, hstream, List.append_assoc, List.flatten_cons] at hbytes'
            exact List.append_cancel_left hbytes'
      obtain ⟨groups, hpre, rfl, hw⟩ := ih (fun r hr => hne r (List.mem_cons_of_mem _ hr)) hrest
      refine ⟨g :: groups, ?_, by rw [List.map_cons, hstream], ?_⟩
      · rw [List.flatten_cons]
        exact List.prefix_append_right_inj g |>.mpr hpre
      · intro g' hg'
        obtain rfl | hg' := List.mem_cons.mp hg'
        · exact hwhole
        · exact hw g' hg'

/-- **Exactly when the callbacks are right**: every read ends a message, and the parser
finds the length of each body. -/
theorem delivers_iff (k : HttpKind) (ts : List HttpText) {reads : List (List Byte)}
    (hne : ∀ r ∈ reads, r ≠ []) : Delivers k ts reads ↔ Whole ts reads :=
  ⟨whole_of_delivers reads hne, delivers_of_whole hne⟩

/-- A message without header lines and body. -/
def plain : HttpText where
  line1 := chars ['a']
  line2 := chars ['b']
  line3 := chars ['c']
  headers := []
  body := []
  sp_line1 := by decide
  sp_line2 := by decide
  crlf_line3 := by decide
  crlf_headers := by simp

/-- Two messages in one read. -/
theorem delivers_iff_plain :
    Delivers .cli [plain, plain] [stream [plain, plain]] ↔
      Whole [plain, plain] [stream [plain, plain]] :=
  delivers_iff .cli [plain, plain] (by decide)

/-- A message in two reads gives a callback for the first part. -/
theorem not_delivers : ¬ ∀ (k : HttpKind) (ts : List HttpText) (reads : List (List Byte)),
    (∀ r ∈ reads, r ≠ []) → reads.flatten = stream ts → Delivers k ts reads := by
  intro h
  obtain ⟨ms, m, hms, hmap, -⟩ := h .svr [plain] [plain.bytes.take 3, plain.bytes.drop 3]
    (by decide) (by decide) [plain.bytes.take 3] ⟨_, rfl⟩
  have hcomp : completed [plain] [plain.bytes.take 3].flatten.length = [] := by decide
  rw [hcomp] at hmap
  have hcut : (cutMsgPacks .svr (clear .svr) [plain.bytes.take 3]).toOption.map
      (fun q => q.1.length) = some 1 := by decide +kernel
  rw [hms, List.map_eq_nil_iff.mp hmap] at hcut
  cases hcut

end HttpText

end Netlib
