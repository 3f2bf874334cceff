import Netlib.Spec.HttpGrammar
import Netlib.Proof.HttpParse

/-!
# When a call of `Parse` is safe

The scans find the parts that `HttpGrammar` describes (`tokenThen_token`,
`lineThen_line`, `parseHead_lines`), and `_CheckContentLen` reads the value of the
first Content-Length line (`checkLines_spec`). So one call on a whole stream does not
fail exactly when the stream meets `HeadOk` (`parse_clear_iff`), and since the
parsers are resumable, the same holds for every call in a sequence of calls.
-/

namespace Netlib

open Lib

namespace HttpMsg

variable {k : HttpKind} {m : HttpMsg}
  {K : HttpMsg → List Byte → Except HttpFault (ℕ × HttpMsg)}

/-! ## The scans -/

theorem tokenThen_token (K) (s : List Byte) : ∀ m : HttpMsg,
    tokenThen K m s =
      match token sp s with
      | none => .ok (s.length, m.push s)
      | some (a, t) => plus (a.length + 1) (K (m.push (a ++ [sp])) t) := by
  induction s with
  | nil => intro m; rw [tokenThen_nil, token, push_nil]; rfl
  | cons x s ih =>
    intro m
    rw [tokenThen_cons, token]
    by_cases hx : x = sp
    · rw [if_pos hx, if_pos hx, hx]; rfl
    · rw [if_neg hx, if_neg hx, ih]
      cases token sp s with
      | none => simp only [Option.map_none, plus_ok, push_push, List.length_cons, Nat.add_comm]; rfl
      | some r => simp only [Option.map_some, plus_plus, push_push, List.length_cons, Nat.add_comm]; rfl

/-- The state when a line is not complete. -/
theorem lineThen_line (hK : ∀ m b t, K (assist m b) t = K m t) (s : List Byte) :
    ∀ m : HttpMsg, m._assistflag = false →
      lineThen K m s =
        match line s with
        | none => .ok (s.length, (m.push s).assist (s.getLast? = some cr))
        | some (a, t) => plus (a.length + 2) (K (m.push (a ++ [cr, lf])) t) := by
  induction s with
  | nil =>
    intro m hm
    rw [lineThen_nil, line, push_nil, assist_self (by simp [hm])]
    · rfl
    · intro x y t h; cases h
  | cons x s ih =>
    intro m hm
    rw [lineThen_fresh hK hm]
    rcases s with _ | ⟨y, s⟩
    · rw [lineThen_nil]
      simp only [line, feed, plus_ok, List.length_cons, List.length_nil, List.getLast?_singleton,
        Option.some.injEq]
    by_cases hxy : x = cr ∧ y = lf
    · obtain ⟨rfl, rfl⟩ := hxy
      rw [lineThen_cons hK, if_pos ⟨by simp [feed], rfl⟩, line, if_pos ⟨rfl, rfl⟩, plus_plus, feed,
        assist_push, hK, push_push]
      rfl
    · -- a CR that no LF follows leaves the same scan as no CR
      have hfeed : lineThen K (m.feed x) (y :: s) = lineThen K (m.push [x]) (y :: s) := by
        by_cases hx : x = cr
        · have hy : y ≠ lf := fun hy => hxy ⟨hx, hy⟩
          rw [lineThen_cons hK, lineThen_cons hK, if_neg (by simp [hy]), if_neg (by simp [hy])]
          rfl
        · rw [feed, assist_self (by simp [hm, hx])]
      rw [hfeed, ih (m.push [x]) hm, line, if_neg hxy]
      cases line (y :: s) with
      | none =>
        simp only [Option.map_none, plus_ok, push_push, List.length_cons, List.getLast?_cons_cons,
          Nat.add_comm, List.cons_append, List.nil_append]
      | some r =>
        simp only [Option.map_some, plus_plus, push_push, List.length_cons, List.cons_append]
        congr 1; omega

theorem line_length {s a t : List Byte} (h : line s = some (a, t)) : s = a ++ cr :: lf :: t := by
  induction s generalizing a with
  | nil => cases h
  | cons x s ih =>
    rcases s with _ | ⟨y, s⟩
    · cases h
    rw [line] at h
    split at h
    · rename_i hxy
      cases h
      rw [hxy.1, hxy.2]; rfl
    · cases hl : line (y :: s) with
      | none => rw [hl] at h; cases h
      | some r =>
        obtain ⟨a', t'⟩ := r
        rw [hl] at h
        simp only [Option.map_some, Option.some.injEq, Prod.mk.injEq] at h
        obtain ⟨rfl, rfl⟩ := h
        rw [ih hl]; rfl

/-! ## The header lines -/

/-- The positions of header lines, then of the empty line, from `p` on. -/
def linePos (p : ℤ) : List (List Byte) → List StrPos
  | [] => [⟨p, p + 2⟩]
  | l :: ls => ⟨p, p + l.length + 2⟩ :: linePos (p + l.length + 2) ls

/-- The state of the head when the lines `ls` and the empty line have been read. -/
structure HeadRead (m m' : HttpMsg) (ls : List (List Byte)) : Prop where
  flag : m'._flag = .body
  buffer : m'._buffer = m._buffer ++ lineBytes ls
  header : m'._header = ⟨m._header.beg, m'.size⟩
  vec : m'._header_vec = m._header_vec ++ linePos m.size ls
  bodysize : m'._bodysize = m._bodysize
  line1 : m'._line1 = m._line1
  line2 : m'._line2 = m._line2
  line3 : m'._line3 = m._line3
  body : m'._body = m._body
  iter : m'._header_iter = m._header_iter

theorem HeadRead.cons {m₁ : HttpMsg} {l : List Byte} {ls : List (List Byte)}
    (h : m₁ = (m.push (l ++ [cr, lf])).pushHeader.startHeader) (hm : m._header2.beg = m.size)
    {m' : HttpMsg} (hr : HeadRead m₁ m' ls) : HeadRead m m' (l :: ls) := by
  have hsize : m₁.size = m.size + l.length + 2 := by
    rw [h]
    simp only [startHeader, pushHeader, push, size, List.length_append, List.length_cons,
      List.length_nil]
    omega
  have hvec : m₁._header_vec = m._header_vec ++ [⟨m.size, m₁.size⟩] := by
    rw [← hm, h]; rfl
  have hbuf : m₁._buffer = m._buffer ++ (l ++ [cr, lf]) := by rw [h]; rfl
  have hhead : m₁._header.beg = m._header.beg := by rw [h]; rfl
  refine ⟨hr.flag, ?_, ?_, ?_, ?_, ?_, ?_, ?_, ?_, ?_⟩
  · rw [hr.buffer, hbuf]; simp [lineBytes]
  · rw [hr.header, hhead]
  · rw [hr.vec, hvec, hsize, linePos, List.append_assoc]; rfl
  · rw [hr.bodysize, h]; rfl
  · rw [hr.line1, h]; rfl
  · rw [hr.line2, h]; rfl
  · rw [hr.line3, h]; rfl
  · rw [hr.body, h]; rfl
  · rw [hr.iter, h]; rfl

/-- **The head lines.** At the start of a line `_ParseHead` either takes all bytes or
reads the lines up to the empty one and goes on with the body. -/
theorem parseHead_lines (n : ℕ) : ∀ {m : HttpMsg} {s : List Byte}, s.length ≤ n →
    m._assistflag = false → m._header2.beg = m.size →
    match headerLines n s with
    | none => ∃ r, m._parseHead s = .ok r
    | some (ls, t) =>
      ∃ m', HeadRead m m' ls ∧ m._parseHead s = plus (lineBytes ls).length (m'._parseBody t) := by
  induction n with
  | zero =>
    intro m s hs _ _
    rw [List.length_eq_zero_iff.mp (Nat.le_zero.mp hs)]
    exact ⟨_, rfl⟩
  | succ n ih =>
    intro m s hs ha hb
    have hline := lineThen_line (K := afterHeader) (fun _ _ _ => rfl) s m ha
    rw [← parseHead_eq] at hline
    rw [headerLines]
    rcases hl : line s with _ | ⟨l, t⟩
    · -- no complete line
      rw [hl] at hline
      exact ⟨_, hline⟩
    have hlen := congrArg List.length (line_length hl)
    simp only [List.length_append, List.length_cons] at hlen
    rw [hl] at hline
    have hsize : (m.push (l ++ [cr, lf])).size = m.size + l.length + 2 := by
      simp only [push, size, List.length_append, List.length_cons, List.length_nil]
      omega
    rcases l with _ | ⟨x, l⟩
    · -- the empty line
      have hend : (m.push ([] ++ [cr, lf])).pushHeader._header2.beg + 2 =
          (m.push ([] ++ [cr, lf])).pushHeader._header2.end_ := by
        change m._header2.beg + 2 = (m.push ([] ++ [cr, lf])).size
        rw [hb, hsize]; simp
      refine ⟨(m.push ([] ++ [cr, lf])).pushHeader.startBody, ⟨rfl, rfl, rfl, ?_, rfl, rfl, rfl, rfl, rfl,
        rfl⟩, ?_⟩
      · change m._header_vec ++ [⟨m._header2.beg, (m.push ([] ++ [cr, lf])).size⟩] = _
        rw [hb, hsize]; simp [linePos]
      · rw [hline]
        simp only [afterHeader, if_pos hend]
        rfl
    · -- a header line, and the lines after it
      have hend : (m.push ((x :: l) ++ [cr, lf])).pushHeader._header2.beg + 2 ≠
          (m.push ((x :: l) ++ [cr, lf])).pushHeader._header2.end_ := by
        change m._header2.beg + 2 ≠ (m.push ((x :: l) ++ [cr, lf])).size
        rw [hb, hsize, List.length_cons]; omega
      obtain ⟨m₁, hm₁⟩ : ∃ m₁, m₁ = (m.push ((x :: l) ++ [cr, lf])).pushHeader.startHeader := ⟨_, rfl⟩
      have hnext : m._parseHead s = plus ((x :: l).length + 2) (m₁._parseHead t) := by
        rw [hline, hm₁]
        simp only [afterHeader, if_neg hend]
      have htail := ih (m := m₁) (s := t) (by omega) (by rw [hm₁]; rfl) (by rw [hm₁]; rfl)
      rcases hr : headerLines n t with _ | ⟨ls, t'⟩
      · rw [hr] at htail
        obtain ⟨⟨i, m'⟩, htail⟩ := htail
        simp only [hr, Option.map_none]
        exact ⟨_, by rw [hnext, htail]; rfl⟩
      · rw [hr] at htail
        obtain ⟨m', hread, htail⟩ := htail
        simp only [hr, Option.map_some]
        refine ⟨m', hread.cons hm₁ hb, ?_⟩
        rw [hnext, htail, plus_plus]
        congr 1
        simp only [lineBytes, List.flatMap_cons, List.length_append, List.length_cons,
          List.length_nil]
        omega

/-! ## The Content-Length -/

/-- The match of a name that a character `c` and a blank follow: `c` is not compared. -/
theorem matchConstr_name {c : Byte} (hc : c ≠ sp) : ∀ (psrc mem : List Byte), sp ∉ psrc →
    psrc.length < mem.length →
    ∃ b mem', matchConstr (psrc ++ [c, sp]) mem = .ok (b, mem') ∧
      (b = true ↔ mem.take psrc.length = psrc) ∧ (b = true → mem' = mem.drop (psrc.length + 1)) := by
  intro psrc
  induction psrc with
  | nil =>
    -- the name is matched, and `c` is passed
    intro mem _ hlen
    rcases mem with _ | ⟨x, mem⟩
    · simp at hlen
    refine ⟨true, mem, ?_, by simp, fun _ => rfl⟩
    simp only [List.nil_append, matchConstr, if_neg hc, if_true, List.head?_cons]
    split <;> simp
  | cons d psrc ih =>
    intro mem hsp hlen
    rcases mem with _ | ⟨x, mem⟩
    · simp at hlen
    simp only [List.mem_cons, not_or] at hsp
    rw [List.cons_append, matchConstr, if_neg (Ne.symm hsp.1)]
    by_cases hx : x = d
    · obtain ⟨b, mem', hmem, hb, hmem'⟩ := ih mem hsp.2 (by simp at hlen; omega)
      refine ⟨b, mem', ?_, ?_, hmem'⟩
      · rw [← hmem]
        simp only [hx, ne_eq, not_true_eq_false, if_false]
      · rw [hb, hx]; simp
    · -- the name does not begin with a blank
      have hhead : (psrc ++ [c, sp]).head? ≠ some sp := by
        rcases psrc with _ | ⟨e, psrc⟩
        · simpa using hc
        · simp only [List.mem_cons, not_or] at hsp
          simpa using Ne.symm hsp.2.1
      refine ⟨false, mem, ?_, by simp [hx], fun h => absurd h Bool.false_ne_true⟩
      simp only [if_pos hx, decide_eq_false hhead]

theorem copyValue_line (t a : List Byte) : ∀ n ≤ scratchSize,
    copyValue n (a ++ cr :: t) =
      if n + (a.takeWhile (· ≠ cr)).length ≤ scratchSize then .ok (a.takeWhile (· ≠ cr))
      else .error .scratchWrite := by
  induction a with
  | nil =>
    intro n hn
    simp [copyValue, hn]
  | cons x a ih =>
    intro n hn
    rw [List.cons_append, copyValue]
    by_cases hx : x = cr
    · simp [hx, hn]
    · have htw : (x :: a).takeWhile (· ≠ cr) = x :: a.takeWhile (· ≠ cr) := by simp [hx]
      rw [if_neg hx, htw, List.length_cons]
      by_cases hlt : n < scratchSize
      · rw [if_pos hlt, ih (n + 1) hlt, Nat.add_right_comm, ← Nat.add_assoc]
        split <;> rfl
      · rw [if_neg hlt, if_neg (by omega)]

theorem readValue_line {l mem t : List Byte} (hl : 16 ≤ l.length)
    (h : mem = (l ++ cr :: t).drop 15) : readValue mem = readLen (lenValue l) := by
  have hmem : mem.drop 1 = l.drop 16 ++ cr :: t := by
    rw [h, List.drop_drop, List.drop_append_of_le_length (by omega)]
  rw [readValue, hmem, copyValue_line t (l.drop 16) 0 (Nat.zero_le _), readLen, lenValue, Nat.zero_add]
  by_cases hv : ((l.drop 16).takeWhile (· ≠ cr)).length ≤ scratchSize
  · simp only [if_pos hv]
    rfl
  · simp only [if_neg hv]

/-- **The search for the Content-Length** over the positions of the lines `ls`. -/
theorem checkLines_spec (m : HttpMsg) (hend : m._header.end_ = m.size) (ls : List (List Byte)) :
    ∀ pre : List Byte, m._buffer = pre ++ lineBytes ls → m._header.beg ≤ pre.length →
      m.checkLines (linePos pre.length ls) = contentLen ls := by
  induction ls with
  | nil =>
    -- only the empty line is left, and it is too short
    intro pre _ _
    have hshort : ((pre.length : ℤ) + 2) - pre.length < 18 := by omega
    rw [linePos, checkLines, if_pos hshort, checkLines, contentLen, List.find?_nil]
  | cons l ls ih =>
    intro pre hbuf hbeg
    have hbytes : lineBytes (l :: ls) = l ++ cr :: lf :: lineBytes ls := by simp [lineBytes]
    have hpos : ((pre ++ (l ++ [cr, lf])).length : ℤ) = pre.length + l.length + 2 := by
      simp only [List.length_append, List.length_cons, List.length_nil]; omega
    have hrest := ih (pre ++ (l ++ [cr, lf])) (by rw [hbuf, hbytes]; simp) (by rw [hpos]; omega)
    rw [hpos] at hrest
    have hwidth : (pre.length + l.length + 2 : ℤ) - pre.length = l.length + 2 := by omega
    simp only [linePos, checkLines, hwidth, contentLen, List.find?_cons]
    by_cases hshort : l.length < 16
    · -- with its CR LF shorter than 18
      have hno : isContentLen l = false := by simp [isContentLen, show ¬ 16 ≤ l.length by omega]
      rw [if_pos (by omega), hno]
      exact hrest
    -- the match begins at the line and may go on to the end of the head
    have hblock : m.block pre.length = .ok (l ++ cr :: lf :: lineBytes ls) := by
      rw [block, if_pos ⟨hbeg, Int.natCast_nonneg _⟩, hend, size, Int.toNat_natCast,
        Int.toNat_natCast, List.take_length, hbuf, List.drop_left, hbytes]
    obtain ⟨b, mem, hmatch, hb, hmem⟩ := matchConstr_name (c := 58) (by decide)
      (_constr.take 14) (l ++ cr :: lf :: lineBytes ls) (by decide)
      (by rw [List.length_append, show (_constr.take 14).length = 14 from rfl]; omega)
    have hconstr : _constr.take 14 ++ [58, sp] = _constr := rfl
    have htake : (l ++ cr :: lf :: lineBytes ls).take (_constr.take 14).length = l.take 14 :=
      List.take_append_of_le_length (by change 14 ≤ l.length; omega)
    rw [hconstr] at hmatch
    rw [htake] at hb
    have hname : isContentLen l = b := by
      rw [Bool.eq_iff_iff, hb, isContentLen]
      simp [show 16 ≤ l.length by omega]
    rw [if_neg (by omega)]
    simp only [hblock, hmatch, hname]
    cases b with
    | true => exact readValue_line (by omega) (hmem rfl)
    | false => exact hrest

/-- A length that is not negative is the length of a value that is read safely. -/
theorem readLen_ok {v : List Byte} : (∃ z, readLen v = .ok z ∧ 0 ≤ z) ↔ ValueOk v := by
  unfold readLen ValueOk
  by_cases hv : v.length ≤ scratchSize
  · simp only [hv, true_and]
    cases atoi (scratch v) with
    | none => simp
    | some z => simp
  · simp only [hv, false_and, iff_false]
    rintro ⟨z, hz, -⟩
    cases hz

/-! ## A call on a whole stream -/

/-- The state after a start line. -/
def headStart (k : HttpKind) (l1 l2 l3 : List Byte) : HttpMsg :=
  (((((clear k).push (l1 ++ [sp])).endLine1 k).push (l2 ++ [sp])).endLine2 k
    |>.push (l3 ++ [cr, lf])).endLine3

/-- **The start line.** -/
theorem parse_startLine {s s1 s2 s3 l1 l2 l3 : List Byte} (h1 : token sp s = some (l1, s1))
    (h2 : token sp s1 = some (l2, s2)) (h3 : line s2 = some (l3, s3)) :
    parse k (clear k) s =
      plus (startLine l1 l2 l3).length ((headStart k l1 l2 l3)._parseHead s3) := by
  have hline := lineThen_line (K := fun m => m.endLine3._parseHead) (fun _ _ _ => rfl) s2
    ((((clear k).push (l1 ++ [sp])).endLine1 k).push (l2 ++ [sp]) |>.endLine2 k) rfl
  rw [parse_line1 k rfl, parseLine1_eq, tokenThen_token, h1]
  simp only [parseLine2_eq, tokenThen_token, h2, parseLine3_eq, hline, h3, plus_plus]
  congr 1
  simp only [startLine, List.length_append, List.length_cons, List.length_nil]
  omega

/-- The start line is not complete. -/
theorem parse_short {s : List Byte}
    (h : ∀ l1 s1 l2 s2, token sp s = some (l1, s1) → token sp s1 = some (l2, s2) → line s2 = none) :
    ∃ r, parse k (clear k) s = .ok r := by
  rw [parse_line1 k rfl, parseLine1_eq, tokenThen_token]
  rcases h1 : token sp s with _ | ⟨l1, s1⟩
  · exact ⟨_, rfl⟩
  simp only [parseLine2_eq, tokenThen_token]
  rcases h2 : token sp s1 with _ | ⟨l2, s2⟩
  · exact ⟨_, rfl⟩
  simp only [parseLine3_eq]
  rw [lineThen_line (fun _ _ _ => rfl) s2 _ rfl, h l1 s1 l2 s2 h1 h2]
  exact ⟨_, rfl⟩

/-- The Content-Length that the parser finds after the head. -/
theorem checkContentLen_head {l1 l2 l3 : List Byte} {ls : List (List Byte)}
    (h : HeadRead (headStart k l1 l2 l3) m ls) :
    m._checkContentLen = contentLen ls := by
  have hbuf : m._buffer = startLine l1 l2 l3 ++ lineBytes ls := h.buffer
  have hvec : m._header_vec = linePos (startLine l1 l2 l3).length ls := h.vec
  have hend : m._header.end_ = m.size := by rw [h.header]
  have hbeg : m._header.beg ≤ (startLine l1 l2 l3).length := by
    rw [h.header]
    exact Int.le_refl _
  rw [_checkContentLen, hvec]
  exact checkLines_spec m hend ls _ hbuf hbeg

/-- The first call on bytes of the body. -/
theorem parseBody_first (hf : m._flag = .body) (hb : m._bodysize = -1) (t : List Byte) :
    (∃ r, m._parseBody t = .ok r) ↔ (t ≠ [] → ∃ z, m._checkContentLen = .ok z ∧ 0 ≤ z) := by
  rcases t with _ | ⟨x, t⟩
  · exact ⟨fun _ h => absurd rfl h, fun _ => ⟨_, rfl⟩⟩
  rw [_parseBody, if_neg (List.cons_ne_nil _ _), if_pos hb]
  cases m._checkContentLen with
  | error e =>
    refine ⟨?_, ?_⟩
    · rintro ⟨r, hr⟩
      cases hr
    · intro h
      obtain ⟨z, hz, -⟩ := h (List.cons_ne_nil _ _)
      cases hz
  | ok n =>
    have hiff : (x :: t ≠ [] → ∃ z, (.ok n : Except HttpFault ℤ) = .ok z ∧ 0 ≤ z) ↔ 0 ≤ n := by
      simp
    rw [hiff]
    by_cases hn : n = 0
    · simp [hn]
    · simp only [if_neg hn]
      set m₁ : HttpMsg := { m with _bodysize := n, _body := { m._body with beg := m.size } }
      have hmiss : m₁.missing = n := by
        change n - (m.size - m.size) = n
        omega
      by_cases hneg : m₁.missing < 0
      · -- `Buffer::Write` of a negative length
        rw [copyBody_neg hneg]
        refine ⟨?_, by omega⟩
        rintro ⟨r, hr⟩
        cases hr
      refine ⟨fun _ => by omega, ?_⟩
      intro _
      by_cases hall : m₁.missing ≤ (x :: t).length
      · rw [copyBody_all (by omega) hall]
        exact ⟨_, rfl⟩
      · rw [copyBody_more (m := m₁) hf (by omega)]
        exact ⟨_, rfl⟩

/-- **One call on a whole stream** does not fail exactly when the stream meets `HeadOk`. -/
theorem parse_clear_iff (k : HttpKind) (s : List Byte) :
    (∃ r, parse k (clear k) s = .ok r) ↔ HeadOk s := by
  by_cases hs : ∃ l1 s1 l2 s2 l3 s3, token sp s = some (l1, s1) ∧ token sp s1 = some (l2, s2) ∧
      line s2 = some (l3, s3)
  · obtain ⟨l1, s1, l2, s2, l3, s3, h1, h2, h3⟩ := hs
    have hhead : headOf s = headerLines s3.length s3 := by
      simp only [headOf, h1, h2, h3, Option.bind_eq_bind, Option.bind_some]
    have hlines := parseHead_lines s3.length (m := headStart k l1 l2 l3) (Nat.le_refl _) rfl rfl
    rw [parse_startLine h1 h2 h3]
    rcases hl : headerLines s3.length s3 with _ | ⟨ls, rest⟩
    · -- the head is not complete
      rw [hl] at hlines hhead
      obtain ⟨⟨n, m'⟩, hlines⟩ := hlines
      refine ⟨?_, fun _ => ⟨_, by rw [hlines]; rfl⟩⟩
      intro _ ls rest h
      rw [hhead] at h
      cases h
    · rw [hl] at hlines hhead
      obtain ⟨m', hread, hparse⟩ := hlines
      have hbody := parseBody_first (m := m') hread.flag hread.bodysize rest
      have hplus : ∀ (n : ℕ) (r : Except HttpFault (ℕ × HttpMsg)),
          (∃ q, plus n r = .ok q) ↔ ∃ q, r = .ok q := by
        intro n r
        rcases r with e | ⟨i, m⟩
        · exact ⟨(fun ⟨_, h⟩ => by cases h), (fun ⟨_, h⟩ => by cases h)⟩
        · exact ⟨fun _ => ⟨_, rfl⟩, fun _ => ⟨_, rfl⟩⟩
      rw [hparse, hplus, hplus, hbody, checkContentLen_head hread]
      have hfind : (∃ z, contentLen ls = .ok z ∧ 0 ≤ z) ↔
          ∀ l, ls.find? isContentLen = some l → ValueOk (lenValue l) := by
        unfold contentLen
        cases ls.find? isContentLen with
        | none => simp
        | some l => simp only [readLen_ok, Option.some.injEq, forall_eq']
      rw [hfind]
      refine ⟨?_, fun h hne => h ls rest hhead hne⟩
      intro h ls' rest' hh hne l hl'
      rw [hhead] at hh
      cases hh
      exact h hne l hl'
  · -- nor is the start line
    have hshort : ∀ l1 s1 l2 s2, token sp s = some (l1, s1) → token sp s1 = some (l2, s2) →
        line s2 = none := by
      intro l1 s1 l2 s2 h1 h2
      rcases h3 : line s2 with _ | ⟨l3, s3⟩
      · rfl
      · exact absurd ⟨l1, s1, l2, s2, l3, s3, h1, h2, h3⟩ hs
    refine ⟨?_, fun _ => parse_short hshort⟩
    intro _ ls rest h
    simp only [headOf, Option.bind_eq_bind, Option.bind_eq_some_iff] at h
    obtain ⟨⟨l1, s1⟩, h1, ⟨l2, s2⟩, h2, ⟨l3, s3⟩, h3, -⟩ := h
    exact absurd ⟨l1, s1, l2, s2, l3, s3, h1, h2, h3⟩ hs

end HttpMsg

end Netlib
