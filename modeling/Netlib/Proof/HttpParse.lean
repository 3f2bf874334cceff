import Netlib.Spec.HttpMsg
import Netlib.Lib.Resumable
import Mathlib.Data.Int.Notation

/-!
# The HTTP parsers do not depend on the cut

In the start line and the head a call on `x :: t` consumes `x` and goes on as a call
on `t` from a state that `x` alone determines (`next`); in the body it counts. So the
parsers are resumable (`parse_resumable`), whatever the state, and parsing `a ++ b`
is parsing `a` and then what is left of it followed by `b` (`Resumable.append`).
-/

namespace Netlib

open Lib

namespace HttpMsg

variable {k : HttpKind} {m : HttpMsg}

/-! ## Small facts -/

@[simp] theorem push_nil (m : HttpMsg) : m.push [] = m := by
  simp only [push, List.append_nil]

@[simp] theorem push_push (m : HttpMsg) (a b : List Byte) : (m.push a).push b = m.push (a ++ b) := by
  simp only [push, List.append_assoc]

@[simp] theorem push_assistflag (m : HttpMsg) (a : List Byte) :
    (m.push a)._assistflag = m._assistflag := rfl

theorem write_nat {buf : List Byte} {n : ℕ} (h : n ≤ buf.length) :
    m.write buf n = .ok (m.push (buf.take n)) := by
  rw [write, if_pos ⟨Int.natCast_nonneg n, Int.ofNat_le.mpr h⟩, Int.toNat_natCast]

theorem parse1_le (chr : Byte) (buf : List Byte) : (parse1 chr buf).2 ≤ buf.length := by
  induction buf with
  | nil => exact Nat.le_refl 0
  | cons x t ih =>
    rw [parse1]
    split
    · exact Nat.succ_le_succ (Nat.zero_le _)
    · exact Nat.succ_le_succ ih

theorem parse2_le (chr1 chr2 : Byte) (buf : List Byte) :
    (parse2 chr1 chr2 buf).2 ≤ buf.length := by
  induction buf with
  | nil => exact Nat.le_refl 0
  | cons x t ih =>
    rcases t with _ | ⟨y, t⟩
    · exact Nat.le_refl 1
    · rw [parse2]
      split
      · simp only [List.length_cons]; omega
      · exact Nat.succ_le_succ ih

theorem parse2_pos (chr1 chr2 : Byte) {buf : List Byte} (hne : buf ≠ []) :
    0 < (parse2 chr1 chr2 buf).2 := by
  rcases buf with _ | ⟨x, _ | ⟨y, t⟩⟩
  · exact absurd rfl hne
  · exact Nat.one_pos
  · rw [parse2]
    split
    · exact Nat.succ_pos _
    · exact Nat.succ_pos _

/-- Both characters are copied. -/
theorem two_le_parse2 {chr1 chr2 : Byte} {buf : List Byte} (h : (parse2 chr1 chr2 buf).1 = true) :
    2 ≤ (parse2 chr1 chr2 buf).2 := by
  induction buf with
  | nil => cases h
  | cons x t ih =>
    rcases t with _ | ⟨y, t⟩
    · cases h
    · rw [parse2] at h ⊢
      split at h
      · rename_i hxy
        rw [if_pos hxy]
      · rename_i hxy
        rw [if_neg hxy]
        exact Nat.le_succ_of_le (ih h)

theorem plus_ok (n i : ℕ) (m : HttpMsg) : plus n (.ok (i, m)) = .ok (n + i, m) := rfl

@[simp] theorem plus_plus (n i : ℕ) (r : Except HttpFault (ℕ × HttpMsg)) :
    plus n (plus i r) = plus (n + i) r := by
  rcases r with e | ⟨j, m⟩
  · rfl
  · simp only [plus, Nat.add_assoc]

/-! ## Scanning a part of the start line -/

/-- The scan for a blank, `then` going on with `K`. -/
def tokenThen (K : HttpMsg → List Byte → Except HttpFault (ℕ × HttpMsg)) (m : HttpMsg)
    (buf : List Byte) : Except HttpFault (ℕ × HttpMsg) :=
  if (parse1 sp buf).1 then
    plus (parse1 sp buf).2 (K (m.push (buf.take (parse1 sp buf).2)) (buf.drop (parse1 sp buf).2))
  else .ok ((parse1 sp buf).2, m.push (buf.take (parse1 sp buf).2))

variable {K : HttpMsg → List Byte → Except HttpFault (ℕ × HttpMsg)}

theorem tokenThen_nil (K) (m : HttpMsg) : tokenThen K m [] = .ok (0, m) := by
  simp [tokenThen, parse1]

theorem tokenThen_cons (K) (m : HttpMsg) (x : Byte) (t : List Byte) :
    tokenThen K m (x :: t) =
      if x = sp then plus 1 (K (m.push [x]) t) else plus 1 (tokenThen K (m.push [x]) t) := by
  by_cases hx : x = sp
  · simp [tokenThen, parse1, hx]
  · by_cases ht : (parse1 sp t).1 = true
    · simp [tokenThen, parse1, hx, ht, Nat.add_comm]
    · simp [tokenThen, parse1, hx, ht, plus_ok, Nat.add_comm]

theorem parseLine1_eq (k : HttpKind) (m : HttpMsg) (buf : List Byte) :
    m.parseLine1 k buf = tokenThen (fun m => (m.endLine1 k).parseLine2 k) m buf := by
  simp only [parseLine1, tokenThen, write_nat (parse1_le sp buf)]

theorem parseLine2_eq (k : HttpKind) (m : HttpMsg) (buf : List Byte) :
    m.parseLine2 k buf = tokenThen (fun m => (m.endLine2 k).parseLine3) m buf := by
  unfold parseLine2
  split
  · rename_i h
    rw [h, tokenThen_nil]
  · simp only [tokenThen, write_nat (parse1_le sp buf)]

/-! ## Scanning a line -/

/-- The scan for CR LF, then going on with `K`. -/
def lineThen (K : HttpMsg → List Byte → Except HttpFault (ℕ × HttpMsg)) (m : HttpMsg)
    (buf : List Byte) : Except HttpFault (ℕ × HttpMsg) :=
  if buf = [] then .ok (0, m)
  else
    match m.readLine buf with
    | .error e => .error e
    | .ok (false, copy_len, m) => .ok (copy_len, m)
    | .ok (true, copy_len, m) => plus copy_len (K m (buf.drop copy_len))

def assist (m : HttpMsg) (b : Bool) : HttpMsg := { m with _assistflag := b }

@[simp] theorem assist_assist (m : HttpMsg) (b c : Bool) : (m.assist b).assist c = m.assist c := rfl

@[simp] theorem assist_push (m : HttpMsg) (b : Bool) (a : List Byte) :
    (m.assist b).push a = (m.push a).assist b := rfl

@[simp] theorem assist_assistflag (m : HttpMsg) (b : Bool) : (m.assist b)._assistflag = b := rfl

theorem assist_self {b : Bool} (h : m._assistflag = b) : m.assist b = m := by
  subst h; rfl

/-- A byte that does not end a line. -/
def feed (m : HttpMsg) (x : Byte) : HttpMsg := (m.push [x]).assist (decide (x = cr))

/-- The assist flag when a CR is pending and the line ends. -/
theorem readLine_lf (h : m._assistflag = true) (t : List Byte) :
    m.readLine (lf :: t) = .ok (true, 1, m.push [lf]) := by
  have hw : m.write (lf :: t) ((1 : ℕ) : ℤ) = .ok (m.push [lf]) :=
    write_nat (Nat.succ_le_succ (Nat.zero_le _))
  simp only [readLine, h, if_true, List.head?_cons, ne_eq, not_true_eq_false, if_false, hw]

/-- A pending CR that no LF follows is forgotten. -/
theorem readLine_other (h : m._assistflag = true) {x : Byte} (hx : x ≠ lf) (t : List Byte) :
    m.readLine (x :: t) = (m.assist false).readLine (x :: t) := by
  have hx' : (x :: t).head? ≠ some lf := by simpa using hx
  simp only [readLine, h, if_true, if_pos hx', assist, Bool.false_eq_true, if_false]

/-- The scan when no CR is pending. -/
theorem readLine_fresh (h : m._assistflag = false) {buf : List Byte} {hit : Bool} {n : ℕ}
    (hp : parse2 cr lf buf = (hit, n)) :
    m.readLine buf =
      if hit then .ok (true, n, m.push (buf.take n))
      else if (m.push (buf.take n))._buffer.getLast? = some cr then
        .ok (false, n, (m.push (buf.take n)).assist true)
      else .ok (false, n, m.push (buf.take n)) := by
  have hn : n ≤ buf.length := by
    have := parse2_le cr lf buf
    rw [hp] at this
    exact this
  simp only [readLine, h, hp, Bool.false_eq_true, if_false, write_nat hn, push_assistflag, true_and,
    assist]

theorem readLine_pos {buf : List Byte} {n : ℕ} {m' : HttpMsg} (hne : buf ≠ [])
    (h : m.readLine buf = .ok (true, n, m')) : 0 < n ∧ n ≤ buf.length := by
  rcases buf with _ | ⟨x, t⟩
  · exact absurd rfl hne
  have hfresh : ∀ m : HttpMsg, m._assistflag = false → m.readLine (x :: t) = .ok (true, n, m') →
      0 < n ∧ n ≤ (x :: t).length := by
    intro m hm h
    rw [readLine_fresh hm rfl] at h
    split at h
    · rename_i hhit
      simp only [Except.ok.injEq, Prod.mk.injEq, true_and] at h
      rw [← h.1]
      exact ⟨parse2_pos _ _ (List.cons_ne_nil x t), parse2_le _ _ _⟩
    · split at h <;> simp at h
  cases hm : m._assistflag with
  | false => exact hfresh m hm h
  | true =>
    by_cases hx : x = lf
    · subst hx
      rw [readLine_lf hm] at h
      simp only [Except.ok.injEq, Prod.mk.injEq, true_and] at h
      rw [← h.1]
      exact ⟨Nat.one_pos, Nat.succ_le_succ (Nat.zero_le _)⟩
    · rw [readLine_other hm hx] at h
      exact hfresh _ rfl h

theorem lineThen_nil (K) (m : HttpMsg) : lineThen K m [] = .ok (0, m) := rfl

/-- A scan from a state without a pending CR. -/
theorem lineThen_fresh (hK : ∀ m b t, K (assist m b) t = K m t)
    (h : m._assistflag = false) (x : Byte) (t : List Byte) :
    lineThen K m (x :: t) = plus 1 (lineThen K (m.feed x) t) := by
  rcases t with _ | ⟨y, t⟩
  · -- the last byte of the call
    have hp : parse2 cr lf [x] = (false, 1) := rfl
    rw [lineThen_nil, plus_ok, lineThen, if_neg (List.cons_ne_nil _ _), readLine_fresh h hp]
    by_cases hx : x = cr
    · simp [push, feed, assist, hx]
    · simp [push, feed, assist, hx, h]
  by_cases hxy : x = cr ∧ y = lf
  · -- the two bytes that end the line
    obtain ⟨rfl, rfl⟩ := hxy
    have hfeed : (m.feed cr)._assistflag = true := rfl
    have hp : parse2 cr lf (cr :: lf :: t) = (true, 2) := by rw [parse2, if_pos ⟨rfl, rfl⟩]
    have hl : lineThen K m (cr :: lf :: t) = plus 2 (K (m.push [cr, lf]) t) := by
      rw [lineThen, if_neg (List.cons_ne_nil _ _), readLine_fresh h hp]
      rfl
    have hr : lineThen K (m.feed cr) (lf :: t) = plus 1 (K ((m.feed cr).push [lf]) t) := by
      rw [lineThen, if_neg (List.cons_ne_nil _ _), readLine_lf hfeed]
      rfl
    have hpush : (m.feed cr).push [lf] = (m.push [cr, lf]).assist true := by
      simp [feed]
    rw [hl, hr, plus_plus, hpush, hK]
  · -- the scan goes on
    obtain ⟨hit, n, hpy⟩ : ∃ hit n, parse2 cr lf (y :: t) = (hit, n) := ⟨_, _, rfl⟩
    have hp : parse2 cr lf (x :: y :: t) = (hit, n + 1) := by rw [parse2, if_neg hxy, hpy]
    have hrest : (m.feed x).readLine (y :: t) = (m.push [x]).readLine (y :: t) := by
      by_cases hx : x = cr
      · have hy : y ≠ lf := fun hy => hxy ⟨hx, hy⟩
        rw [readLine_other (show (m.feed x)._assistflag = true by simp [feed, hx]) hy]
        rw [feed, assist_assist, assist_self (m := m.push [x]) h]
      · rw [feed, assist_self (m := m.push [x]) (by simp [h, hx])]
    have hl := readLine_fresh h hp
    have hr := readLine_fresh (m := m.push [x]) h hpy
    have hpush : m.push ((x :: y :: t).take (n + 1)) = (m.push [x]).push ((y :: t).take n) := by
      rw [push_push]; rfl
    rw [hpush] at hl
    rw [lineThen, lineThen, if_neg (List.cons_ne_nil _ _), if_neg (List.cons_ne_nil _ _), hrest, hl, hr]
    cases hit with
    | true => simp only [if_true, plus_plus, List.drop_succ_cons, Nat.add_comm]
    | false =>
      simp only [Bool.false_eq_true, if_false]
      by_cases hlast : ((m.push [x]).push ((y :: t).take n))._buffer.getLast? = some cr
      · simp only [if_pos hlast, plus_ok, Nat.add_comm]
      · simp only [if_neg hlast, plus_ok, Nat.add_comm]

/-- **One byte of a line scan.** -/
theorem lineThen_cons (hK : ∀ m b t, K (assist m b) t = K m t) (m : HttpMsg)
    (x : Byte) (t : List Byte) :
    lineThen K m (x :: t) =
      if m._assistflag = true ∧ x = lf then plus 1 (K (m.push [x]) t)
      else plus 1 (lineThen K (m.feed x) t) := by
  cases hm : m._assistflag with
  | false =>
    rw [if_neg (by simp)]
    exact lineThen_fresh hK hm x t
  | true =>
    by_cases hx : x = lf
    · -- the LF of a CR that came with an earlier call
      subst hx
      rw [if_pos ⟨rfl, rfl⟩, lineThen, if_neg (List.cons_ne_nil _ _), readLine_lf hm]
      rfl
    · have hfeed : m.feed x = (m.assist false).feed x := rfl
      rw [if_neg (by simp [hx]), hfeed, ← lineThen_fresh (m := m.assist false) hK rfl, lineThen,
        lineThen, readLine_other hm hx]
      simp only [if_neg (List.cons_ne_nil x t)]

/-! ## The head -/

/-- What follows a header line. -/
def afterHeader (m : HttpMsg) (buf : List Byte) : Except HttpFault (ℕ × HttpMsg) :=
  if m.pushHeader._header2.beg + 2 = m.pushHeader._header2.end_ then
    m.pushHeader.startBody._parseBody buf
  else m.pushHeader.startHeader._parseHead buf

/-- The count of calls is enough. -/
theorem parseHead_fuel (f₁ : ℕ) : ∀ (f₂ : ℕ) (m : HttpMsg) (buf : List Byte),
    buf.length ≤ f₁ → buf.length ≤ f₂ → parseHead f₁ m buf = parseHead f₂ m buf := by
  have hnil : ∀ f (m : HttpMsg), parseHead f m [] = .ok (0, m) := by
    intro f m
    cases f <;> rfl
  induction f₁ with
  | zero =>
    intro f₂ m buf h₁ _
    rw [List.length_eq_zero_iff.mp (Nat.le_zero.mp h₁), hnil, hnil]
  | succ f₁ ih =>
    intro f₂ m buf h₁ h₂
    cases f₂ with
    | zero => rw [List.length_eq_zero_iff.mp (Nat.le_zero.mp h₂), hnil, hnil]
    | succ f₂ =>
      by_cases hne : buf = []
      · rw [hne, hnil, hnil]
      · rw [parseHead, parseHead, if_neg hne, if_neg hne]
        split
        · rfl
        · rfl
        · -- a complete line takes at least one byte
          rename_i n m' hr
          obtain ⟨hpos, -⟩ := readLine_pos hne hr
          have hd : (buf.drop n).length ≤ f₁ ∧ (buf.drop n).length ≤ f₂ := by
            rw [List.length_drop]; omega
          simp only [ih f₂ m'.pushHeader.startHeader (buf.drop n) hd.1 hd.2]

theorem parseHead_eq (m : HttpMsg) (buf : List Byte) :
    m._parseHead buf = lineThen afterHeader m buf := by
  rcases buf with _ | ⟨x, t⟩
  · rfl
  · rw [_parseHead, List.length_cons, parseHead, lineThen]
    simp only [if_neg (List.cons_ne_nil x t)]
    rcases hr : m.readLine (x :: t) with e | ⟨hit, n, m'⟩
    · rfl
    · cases hit with
      | false => rfl
      | true =>
        obtain ⟨hpos, -⟩ := readLine_pos (List.cons_ne_nil x t) hr
        have hfuel := parseHead_fuel t.length ((x :: t).drop n).length m'.pushHeader.startHeader
          ((x :: t).drop n) (by rw [List.length_drop, List.length_cons]; omega) (Nat.le_refl _)
        simp only [afterHeader, hfuel]
        split <;> rfl

theorem parseLine3_eq (m : HttpMsg) (buf : List Byte) :
    m.parseLine3 buf = lineThen (fun m => m.endLine3._parseHead) m buf := rfl

/-! ## One byte of the head -/

section Flags

variable (k) {buf : List Byte}

theorem flags_ne : k.flag2 ≠ k.flag1 ∧ k.flag3 ≠ k.flag1 ∧ k.flag3 ≠ k.flag2 ∧
    ParseFlag.head ≠ k.flag1 ∧ ParseFlag.head ≠ k.flag2 ∧ ParseFlag.head ≠ k.flag3 ∧
    ParseFlag.body ≠ k.flag1 ∧ ParseFlag.body ≠ k.flag2 ∧ ParseFlag.body ≠ k.flag3 ∧
    ParseFlag.over ≠ k.flag1 ∧ ParseFlag.over ≠ k.flag2 ∧ ParseFlag.over ≠ k.flag3 := by
  cases k <;> decide

theorem parse_line1 (h : m._flag = k.flag1) : parse k m buf = m.parseLine1 k buf := if_pos h

theorem parse_line2 (h : m._flag = k.flag2) : parse k m buf = m.parseLine2 k buf := by
  obtain ⟨h1, -⟩ := flags_ne k
  rw [parse, h, if_neg h1, if_pos rfl]

theorem parse_line3 (h : m._flag = k.flag3) : parse k m buf = m.parseLine3 buf := by
  obtain ⟨-, h1, h2, -⟩ := flags_ne k
  rw [parse, h, if_neg h1, if_neg h2, if_pos rfl]

theorem parse_head (h : m._flag = .head) : parse k m buf = m._parseHead buf := by
  obtain ⟨-, -, -, h1, h2, h3, -⟩ := flags_ne k
  rw [parse, h, if_neg h1, if_neg h2, if_neg h3, if_pos rfl]

theorem parse_body (h : m._flag = .body) : parse k m buf = m._parseBody buf := by
  obtain ⟨-, -, -, -, -, -, h1, h2, h3, -⟩ := flags_ne k
  rw [parse, h, if_neg h1, if_neg h2, if_neg h3, if_neg (by decide), if_pos rfl]

theorem parse_over (h : m._flag = .over) : parse k m buf = .ok (0, m) := by
  obtain ⟨-, -, -, -, -, -, -, -, -, h1, h2, h3⟩ := flags_ne k
  rw [parse, h, if_neg h1, if_neg h2, if_neg h3, if_neg (by decide), if_neg (by decide)]

end Flags

/-- The end of a header line. -/
def endHeader (m : HttpMsg) : HttpMsg :=
  if m.pushHeader._header2.beg + 2 = m.pushHeader._header2.end_ then m.pushHeader.startBody
  else m.pushHeader.startHeader

theorem afterHeader_eq (k : HttpKind) (m : HttpMsg) (buf : List Byte) :
    afterHeader m buf = parse k m.endHeader buf := by
  unfold afterHeader endHeader
  split
  · exact (parse_body k rfl).symm
  · exact (parse_head k rfl).symm

/-- The parser is in the start line or in the head. -/
def InHead (k : HttpKind) (m : HttpMsg) : Prop :=
  m._flag = k.flag1 ∨ m._flag = k.flag2 ∨ m._flag = k.flag3 ∨ m._flag = .head

/-- **The state after one byte** of the start line or the head. -/
def next (k : HttpKind) (m : HttpMsg) (x : Byte) : HttpMsg :=
  if m._flag = k.flag1 then if x = sp then (m.push [x]).endLine1 k else m.push [x]
  else if m._flag = k.flag2 then if x = sp then (m.push [x]).endLine2 k else m.push [x]
  else if m._flag = k.flag3 then
    if m._assistflag = true ∧ x = lf then (m.push [x]).endLine3 else m.feed x
  else if m._assistflag = true ∧ x = lf then (m.push [x]).endHeader
  else m.feed x

/-- **In the start line and the head bytes are taken one by one.** -/
theorem parse_next (h : m.InHead k) (x : Byte) (t : List Byte) :
    parse k m (x :: t) = plus 1 (parse k (m.next k x) t) := by
  obtain ⟨h21, h31, h32, hh1, hh2, hh3, -⟩ := flags_ne k
  rcases h with h | h | h | h
  · rw [parse_line1 k h, parseLine1_eq, tokenThen_cons]
    simp only [next, h, if_true]
    split
    · rw [parse_line2 k (show ((m.push [x]).endLine1 k)._flag = k.flag2 from rfl)]
    · rw [parse_line1 k (show (m.push [x])._flag = k.flag1 from h), parseLine1_eq]
  · rw [parse_line2 k h, parseLine2_eq, tokenThen_cons]
    simp only [next, h, if_neg h21, if_true]
    split
    · rw [parse_line3 k (show ((m.push [x]).endLine2 k)._flag = k.flag3 from rfl)]
    · rw [parse_line2 k (show (m.push [x])._flag = k.flag2 from h), parseLine2_eq]
  · have hK : ∀ m b t, (fun m : HttpMsg => m.endLine3._parseHead) (assist m b) t =
        (fun m : HttpMsg => m.endLine3._parseHead) m t := fun _ _ _ => rfl
    rw [parse_line3 k h, parseLine3_eq, lineThen_cons hK]
    simp only [next, h, if_neg h31, if_neg h32, if_true]
    split
    · rw [parse_head k (show ((m.push [x]).endLine3)._flag = .head from rfl)]
    · rw [parse_line3 k (show (m.feed x)._flag = k.flag3 from h), parseLine3_eq]
  · have hK : ∀ m b t, afterHeader (assist m b) t = afterHeader m t := fun _ _ _ => rfl
    rw [parse_head k h, parseHead_eq, lineThen_cons hK]
    simp only [next, h, if_neg hh1, if_neg hh2, if_neg hh3]
    split
    · rw [afterHeader_eq k]
    · rw [parse_head k (show (m.feed x)._flag = .head from h), parseHead_eq]

/-! ## The body -/

/-- The bytes of the body that are missing. -/
def missing (m : HttpMsg) : ℤ := m._bodysize - (m.size - m._body.beg)

/-- The body ends here. -/
def endBody (m : HttpMsg) : HttpMsg :=
  { m with _flag := .over, _body := { m._body with end_ := m.size } }

theorem copyBody_neg (h : m.missing < 0) (buf : List Byte) :
    m.copyBody buf = .error (.write m.missing) := by
  have hgt : ¬ m.missing > buf.length := by omega
  have hbad : ¬ (0 ≤ m.missing ∧ m.missing ≤ buf.length) := by omega
  simp only [missing] at hgt hbad
  simp only [copyBody, missing, if_neg hgt, write, if_neg hbad]

theorem copyBody_all {l : List Byte} (h0 : 0 ≤ m.missing) (h : m.missing ≤ l.length) :
    m.copyBody l =
      .ok (m.missing.toNat, (m.push (l.take m.missing.toNat)).endBody) := by
  have hgt : ¬ m.missing > l.length := by omega
  have hw : ({ m with _flag := .over } : HttpMsg).write l m.missing =
      .ok (({ m with _flag := .over } : HttpMsg).push (l.take m.missing.toNat)) := by
    rw [write, if_pos ⟨h0, h⟩]
  simp only [missing] at hgt hw
  simp only [copyBody, missing, if_neg hgt, hw, push, endBody, if_true]
  rfl

theorem copyBody_more (hf : m._flag = .body) {l : List Byte} (h : m.missing > l.length) :
    m.copyBody l = .ok (l.length, m.push l) := by
  have hw : m.write l (l.length : ℤ) = .ok (m.push l) := by
    rw [write_nat (Nat.le_refl _), List.take_length]
  have hover : ¬ (m.push l)._flag = .over := by
    change ¬ m._flag = .over
    rw [hf]; decide
  simp only [missing] at h
  simp only [copyBody, if_pos h, hw, if_neg hover, Int.toNat_natCast]

theorem missing_push (m : HttpMsg) (a : List Byte) : (m.push a).missing = m.missing - a.length := by
  simp only [missing, push, size, List.length_append]
  omega

/-- The body is counted, so it may be cut anywhere. -/
theorem copyBody_cons (hf : m._flag = .body) (h1 : m._bodysize ≠ -1) (h0 : m._bodysize ≠ 0)
    (x : Byte) (t : List Byte) :
    m.copyBody (x :: t) = Parser.after (parse k) (m.copyBody [x]) fun n => [x].drop n ++ t := by
  have hover : ∀ (m : HttpMsg) (n : ℕ) (buf : ℕ → List Byte),
      Parser.after (parse k) (.ok (n, m.endBody)) buf = .ok (n, m.endBody) := by
    intro m n buf
    exact Parser.after_ok (parse_over k rfl)
  by_cases hneg : m.missing < 0
  · -- the same failure, however many bytes come
    rw [copyBody_neg hneg, copyBody_neg hneg]
    rfl
  by_cases hone : m.missing ≤ 1
  · -- the body ends with this byte, or before it
    have hl : m.missing ≤ ([x].length : ℤ) := hone
    have hl' : m.missing ≤ ((x :: t).length : ℤ) := by
      rw [List.length_cons]; omega
    have htake : (x :: t).take m.missing.toNat = [x].take m.missing.toNat := by
      obtain h | h : m.missing.toNat = 0 ∨ m.missing.toNat = 1 := by omega
      · rw [h]; rfl
      · rw [h]; rfl
    rw [copyBody_all (by omega) hl', copyBody_all (by omega) hl, hover, htake]
  · -- this byte is taken, and one fewer is missing
    have hmore : m.missing > ([x].length : ℤ) := by
      change m.missing > (1 : ℤ); omega
    rw [copyBody_more hf hmore]
    have hpush := missing_push m [x]
    have hx : (([x] : List Byte).length : ℤ) = 1 := rfl
    rw [hx] at hpush
    have hbody : parse k (m.push [x]) t = (m.push [x])._parseBody t := parse_body k hf
    rcases t with _ | ⟨y, t⟩
    · rw [copyBody_more hf hmore]
      have hnil : parse k (m.push [x]) ([x].drop [x].length ++ []) = .ok (0, m.push [x]) := hbody
      simp only [Parser.after, hnil]
      rfl
    have hpb : (m.push [x])._parseBody (y :: t) = (m.push [x]).copyBody (y :: t) := by
      rw [_parseBody, if_neg (List.cons_ne_nil _ _), if_neg (show (m.push [x])._bodysize ≠ -1 from h1),
        if_neg (show (m.push [x])._bodysize ≠ 0 from h0)]
    have hlen : ((x :: y :: t).length : ℤ) = ((y :: t).length : ℤ) + 1 := by
      simp only [List.length_cons]; omega
    by_cases hall : m.missing ≤ ((x :: y :: t).length : ℤ)
    · obtain ⟨n, hn⟩ : ∃ n : ℕ, m.missing = n + 1 := ⟨(m.missing - 1).toNat, by omega⟩
      have hn1 : m.missing.toNat = n + 1 := by omega
      have hn2 : (m.push [x]).missing.toNat = n := by omega
      have hrest := copyBody_all (m := m.push [x]) (l := y :: t) (by omega) (by omega)
      rw [hn2, push_push] at hrest
      rw [copyBody_all (by omega) hall, hn1, Parser.after_ok (hbody.trans (hpb.trans hrest)),
        List.take_succ_cons, Nat.add_comm]
      rfl
    · have hrest := copyBody_more (m := m.push [x]) (l := y :: t) hf (by omega)
      rw [push_push] at hrest
      rw [copyBody_more hf (by omega), Parser.after_ok (hbody.trans (hpb.trans hrest)),
        List.length_cons, Nat.add_comm]
      rfl

theorem parseBody_cons (hf : m._flag = .body) (x : Byte) (t : List Byte) :
    m._parseBody (x :: t) = Parser.after (parse k) (m._parseBody [x]) fun n => [x].drop n ++ t := by
  unfold _parseBody
  rw [if_neg (List.cons_ne_nil _ _), if_neg (List.cons_ne_nil _ _)]
  by_cases h1 : m._bodysize = -1
  · rw [if_pos h1, if_pos h1]
    cases hc : m._checkContentLen with
    | error e => rfl
    | ok n =>
      by_cases hn : n = 0
      · simp only [if_pos hn]
        exact (Parser.after_ok (parse_over k rfl)).symm
      · simp only [if_neg hn]
        set m₁ : HttpMsg := { m with _bodysize := n, _body := { m._body with beg := m.size } }
        by_cases hm1 : n = -1
        · -- the length -1 would be looked for again, but it fails at once
          have hneg : m₁.missing < 0 := by
            change n - (m.size - m.size) < 0
            omega
          rw [copyBody_neg hneg, copyBody_neg hneg]
          rfl
        · exact copyBody_cons (m := m₁) hf hm1 hn x t
  · rw [if_neg h1, if_neg h1]
    by_cases h0 : m._bodysize = 0
    · -- nothing is taken any more
      rw [if_pos h0, if_pos h0]
      have hstay : parse k m ([x].drop 0 ++ t) = .ok (0, m) := by
        rw [parse_body k hf, _parseBody, if_neg (by simp), if_neg h1, if_pos h0]
      simp only [Parser.after, hstay]
    · rw [if_neg h0, if_neg h0]
      exact copyBody_cons hf h1 h0 x t

/-- A call on one byte of the body takes it, or does nothing more whatever the bytes are. -/
theorem parseBody_single (hf : m._flag = .body) {x : Byte} {n : ℕ} {m' : HttpMsg}
    (h : m._parseBody [x] = .ok (n, m')) :
    n = 1 ∧ m'._buffer = m._buffer ++ [x] ∨
    n = 0 ∧ m'._buffer = m._buffer ∧ (∀ t, parse k m' t = .ok (0, m')) ∧
      ∀ y, m._parseBody [y] = .ok (0, m') := by
  have hcopy : ∀ m : HttpMsg, m._flag = .body → m.copyBody [x] = .ok (n, m') →
      n = 1 ∧ m'._buffer = m._buffer ++ [x] ∨
      n = 0 ∧ m'._buffer = m._buffer ∧ (∀ t, parse k m' t = .ok (0, m')) ∧
        ∀ y, m.copyBody [y] = .ok (0, m') := by
    intro m hf h
    by_cases hneg : m.missing < 0
    · rw [copyBody_neg hneg] at h; cases h
    by_cases hone : m.missing ≤ (([x] : List Byte).length : ℤ)
    · rw [copyBody_all (by omega) hone] at h
      obtain h0 | h1 : m.missing.toNat = 0 ∨ m.missing.toNat = 1 := by
        simp only [List.length_singleton] at hone; omega
      · rw [h0] at h
        cases h
        refine .inr ⟨rfl, List.append_nil _, fun _ => parse_over k rfl, ?_⟩
        intro y
        rw [copyBody_all (by omega) (by simp only [List.length_singleton]; omega), h0]
        rfl
      · rw [h1] at h
        cases h
        exact .inl ⟨rfl, rfl⟩
    · rw [copyBody_more hf (by omega)] at h
      cases h
      exact .inl ⟨rfl, rfl⟩
  have hne : ∀ y : Byte, ([y] : List Byte) ≠ [] := fun _ => List.cons_ne_nil _ _
  by_cases h1 : m._bodysize = -1
  · cases hc : m._checkContentLen with
    | error e =>
      rw [_parseBody, if_neg (hne x), if_pos h1, hc] at h
      cases h
    | ok i =>
      by_cases hi : i = 0
      · have hstep : ∀ y, m._parseBody [y] = .ok (0, { m with _bodysize := 0, _flag := .over }) := by
          intro y
          rw [_parseBody, if_neg (hne y), if_pos h1, hc]
          exact if_pos hi
        rw [hstep] at h
        cases h
        exact .inr ⟨rfl, rfl, fun _ => parse_over k rfl, hstep⟩
      · have hstep : ∀ y, m._parseBody [y] =
            { m with _bodysize := i, _body := { m._body with beg := m.size } }.copyBody [y] := by
          intro y
          rw [_parseBody, if_neg (hne y), if_pos h1, hc]
          exact if_neg hi
        rw [hstep] at h
        simp only [hstep]
        exact hcopy { m with _bodysize := i, _body := { m._body with beg := m.size } } hf h
  · by_cases h0 : m._bodysize = 0
    · have hstep : ∀ y, m._parseBody [y] = .ok (0, m) := by
        intro y
        rw [_parseBody, if_neg (hne y), if_neg h1, if_pos h0]
      rw [hstep] at h
      cases h
      refine .inr ⟨rfl, rfl, ?_, hstep⟩
      intro t
      rw [parse_body k hf, _parseBody, if_neg h1, if_pos h0, ite_self]
    · have hstep : ∀ y, m._parseBody [y] = m.copyBody [y] := by
        intro y
        rw [_parseBody, if_neg (hne y), if_neg h1, if_neg h0]
      rw [hstep] at h
      simp only [hstep]
      exact hcopy m hf h

/-! ## The parsers are resumable -/

theorem parse_nil (k : HttpKind) (m : HttpMsg) : parse k m [] = .ok (0, m) := by
  unfold parse
  split_ifs
  · rw [parseLine1_eq, tokenThen_nil]
  · rfl
  · rfl
  · rfl
  · rfl
  · rfl

/-- A flag that `Parse` does nothing for. -/
theorem parse_other (h : ¬ m.InHead k) (hb : m._flag ≠ .body) (buf : List Byte) :
    parse k m buf = .ok (0, m) := by
  simp only [InHead, not_or] at h
  obtain ⟨h1, h2, h3, h4⟩ := h
  rw [parse, if_neg h1, if_neg h2, if_neg h3, if_neg h4, if_neg hb]

/-- **The parsers are resumable**, in any state. -/
theorem parse_resumable (k : HttpKind) : Parser.Resumable (parse k) where
  nil := parse_nil k
  cons m x t := by
    by_cases h : m.InHead k
    · have hx : parse k m [x] = .ok (1, m.next k x) := by
        rw [parse_next h, parse_nil]; rfl
      rw [hx, parse_next h]
      simp only [Parser.after, List.drop_one, List.tail_cons, List.nil_append]
      cases parse k (m.next k x) t <;> rfl
    · by_cases hb : m._flag = .body
      · rw [parse_body k hb, parse_body k hb]
        exact parseBody_cons hb x t
      · rw [parse_other h hb, parse_other h hb]
        exact (Parser.after_ok (parse_other h hb _)).symm
  le_one m x n m' hp := by
    by_cases h : m.InHead k
    · rw [parse_next h, parse_nil] at hp
      cases hp
      exact Nat.le_refl 1
    · by_cases hb : m._flag = .body
      · rw [parse_body k hb] at hp
        obtain ⟨rfl, -⟩ | ⟨rfl, -⟩ := parseBody_single (k := k) hb hp
        · exact Nat.le_refl 1
        · exact Nat.zero_le 1
      · rw [parse_other h hb] at hp
        cases hp
        exact Nat.zero_le 1
  stuck m x m' hp := by
    by_cases h : m.InHead k
    · rw [parse_next h, parse_nil] at hp
      cases hp
    · by_cases hb : m._flag = .body
      · rw [parse_body k hb] at hp
        obtain ⟨h, -⟩ | ⟨-, -, hstuck, -⟩ := parseBody_single (k := k) hb hp
        · cases h
        · exact hstuck
      · rw [parse_other h hb] at hp
        cases hp
        exact parse_other h hb

/-! ## What a call appends -/

theorem next_buffer (k : HttpKind) (m : HttpMsg) (x : Byte) :
    (m.next k x)._buffer = m._buffer ++ [x] := by
  unfold next endHeader
  split_ifs <;> rfl

theorem parse_single {x : Byte} {n : ℕ} {m' : HttpMsg} (h : parse k m [x] = .ok (n, m')) :
    m'._buffer = m._buffer ++ [x].take n := by
  by_cases hh : m.InHead k
  · rw [parse_next hh, parse_nil] at h
    cases h
    exact next_buffer k m x
  by_cases hb : m._flag = .body
  · rw [parse_body k hb] at h
    obtain ⟨rfl, hbuf⟩ | ⟨rfl, hbuf, -⟩ := parseBody_single (k := k) hb h
    · exact hbuf
    · rw [hbuf, List.take_zero, List.append_nil]
  · rw [parse_other hh hb] at h
    cases h
    exact (List.append_nil _).symm

/-- **A call appends what it consumes.** -/
theorem parse_buffer (k : HttpKind) (buf : List Byte) : ∀ {m : HttpMsg} {n : ℕ} {m' : HttpMsg},
    parse k m buf = .ok (n, m') → m'._buffer = m._buffer ++ buf.take n := by
  have hP := parse_resumable k
  induction buf with
  | nil =>
    intro m n m' h
    rw [parse_nil] at h
    cases h
    exact (List.append_nil _).symm
  | cons x t ih =>
    intro m n m' h
    obtain ⟨rfl, hx⟩ | ⟨m₁, i, hx, ht, rfl⟩ := hP.cons_ok h
    · exact parse_single hx
    · rw [ih ht, parse_single hx, Nat.add_comm 1 i, List.take_succ_cons, List.append_assoc]
      rfl

/-- A call that consumes nothing does not look at the bytes. -/
theorem parse_zero {x : Byte} {t : List Byte} {m' : HttpMsg} (h : parse k m (x :: t) = .ok (0, m'))
    (y : Byte) (s : List Byte) : parse k m (y :: s) = .ok (0, m') := by
  have hP := parse_resumable k
  have hsingle : parse k m [x] = .ok (0, m') := by
    obtain ⟨-, hx⟩ | ⟨_, i, -, -, hi⟩ := hP.cons_ok h
    · exact hx
    · omega
  have hy : parse k m [y] = .ok (0, m') := by
    by_cases hh : m.InHead k
    · rw [parse_next hh, parse_nil] at hsingle
      cases hsingle
    by_cases hb : m._flag = .body
    · rw [parse_body k hb] at hsingle ⊢
      obtain ⟨hn, -⟩ | ⟨-, -, -, hall⟩ := parseBody_single (k := k) hb hsingle
      · cases hn
      · exact hall y
    · rw [parse_other hh hb] at hsingle ⊢
      exact hsingle
  rw [hP.cons, hy, Parser.after_ok (hP.stuck m y m' hy _)]

end HttpMsg

end Netlib
