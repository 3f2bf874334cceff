import Netlib.Proof.HttpSocket
import Netlib.Proof.HttpBaseMsg

/-!
# Calls of `Parse` on a stream that comes in pieces

A reachable parser has consumed its message buffer in one call (`Reachable.stream`).
So, while the message is short, a call does nothing undefined exactly when the message
buffer followed by its bytes meets `HeadOk` (`safe_iff`), and where the bytes are cut
changes nothing (`parse_cut`). A line that goes on past 2^31 bytes is looked at in front
of the message buffer (`parse_long`).
-/

namespace Netlib

open Lib

namespace HttpMsg

variable {k : HttpKind} {m : HttpMsg}

/-- **What a reachable parser holds** is what one call on a stream consumed. -/
theorem Reachable.stream (h : Reachable k m) :
    ∃ t, parse k (clear k) (m._buffer ++ t) = .ok (m._buffer.length, m) := by
  obtain ⟨a, t, ha⟩ := (parse_resumable k).of_reach h
  have hbuf := parse_buffer k _ ha
  rw [List.take_left, show (clear k)._buffer = [] from rfl, List.nil_append] at hbuf
  exact ⟨t, by rw [hbuf]; exact ha⟩

/-- A call from a reachable state does not fail exactly when the stream meets `HeadOk`. -/
theorem parse_ok_iff (h : Reachable k m) (buf : List Byte) :
    (∃ r, parse k m buf = .ok r) ↔ HeadOk (m._buffer ++ buf) := by
  have hP := parse_resumable k
  obtain ⟨t, ht⟩ := h.stream
  -- the call on the bytes of the message buffer alone consumes them
  obtain ⟨m₁, h₁, hrest⟩ : ∃ m₁, parse k (clear k) m._buffer = .ok (m._buffer.length, m₁) ∧
      parse k m₁ t = .ok (0, m) := by
    obtain ⟨n, m₁, i, h₁, h₂, hsum⟩ := hP.append_ok ht
    obtain ⟨hn, hstuck⟩ := hP.consumed h₁
    obtain hlt | rfl : n < m._buffer.length ∨ n = m._buffer.length := by omega
    · rw [hstuck hlt] at h₂
      cases h₂
      omega
    · rw [List.drop_length, List.nil_append, show i = 0 by omega] at h₂
      exact ⟨m₁, h₁, h₂⟩
  have hcall : (∃ r, parse k (clear k) (m._buffer ++ buf) = .ok r) ↔ ∃ r, parse k m₁ buf = .ok r := by
    rw [hP.append, h₁]
    simp only [Parser.after, List.drop_length, List.nil_append]
    cases parse k m₁ buf with
    | error e => constructor <;> rintro ⟨r, hr⟩ <;> cases hr
    | ok r => exact ⟨fun _ => ⟨_, rfl⟩, fun _ => ⟨_, rfl⟩⟩
  rw [← parse_clear_iff k, hcall]
  rcases t with _ | ⟨x, t⟩
  · rw [parse_nil] at hrest
    cases hrest
    exact Iff.rfl
  · -- the parser is stuck
    have hm : ∀ s, parse k m s = .ok (0, m) := by
      obtain ⟨-, hx⟩ | ⟨_, _, -, -, hi⟩ := hP.cons_ok hrest
      · exact hP.stuck m₁ x m hx
      · omega
    refine ⟨?_, fun _ => ⟨_, hm buf⟩⟩
    intro _
    rcases buf with _ | ⟨y, buf⟩
    · exact ⟨_, parse_nil k m₁⟩
    · exact ⟨_, parse_zero hrest y buf⟩

/-- A request with a Content-Length and one byte of the body. -/
def request (v : List Char) : List Byte :=
  chars ['a', ' ', 'b', ' ', 'c'] ++ [cr, lf] ++ (_constr ++ chars v) ++ [cr, lf, cr, lf] ++ chars ['x']

end HttpMsg

namespace HttpBaseMsg

open HttpMsg (HeadOk request)

variable {k : HttpKind} {b : HttpBaseMsg} {buf : List Byte}

/-- **Exactly when a call is safe**, while the message is short: the first Content-Length of
the stream so far, once its head is complete and a byte follows, has a value that is read
safely. -/
theorem safe_iff (h : Reachable k Short b) (hlt : b.Short buf) :
    Safe k b buf ↔ HeadOk (b._buffer.content ++ buf) := by
  obtain ⟨hs, hreach⟩ := h.sound
  have hok := HttpMsg.parse_ok_iff hreach buf
  rw [show b.toMsg._buffer = b._buffer.content from rfl] at hok
  rw [← hok]
  constructor
  · rintro ⟨n, b', hp, -⟩
    cases hm : HttpMsg.parse k b.toMsg buf with
    | error e =>
      rw [hs.parse_error hlt hm] at hp
      cases hp
    | ok r => exact ⟨r, rfl⟩
  · rintro ⟨⟨n, m⟩, hm⟩
    obtain ⟨b', hp, -, hmsg, hle, -⟩ := hs.parse hlt hm
    refine ⟨n, b', hp, hle, ?_⟩
    have hbuf := HttpMsg.parse_buffer k buf hm
    rw [← hmsg] at hbuf
    exact hbuf

/-- The first call on a request with a body of one byte. -/
theorem safe_iff_clear : Safe .svr (clear .svr .new) (request ['1']) ↔
    HeadOk ((clear .svr .new)._buffer.content ++ request ['1']) :=
  safe_iff ⟨.new, Buffer.new_wf, .refl⟩ (by decide)

/-- A negative Content-Length goes to `Buffer::Write` as a length. -/
theorem not_safe : ¬ ∀ k b buf, Reachable k always b → Safe k b buf := by
  intro h
  obtain ⟨n, b', hp, -⟩ := h .svr (clear .svr .new) (request ['-', '1']) ⟨.new, Buffer.new_wf, .refl⟩
  have hbad : HttpMsg.parse .svr (.clear .svr) (request ['-', '1']) = .error (.write (-1)) := by
    decide +kernel
  have hsound := sound_clear (k := .svr) Buffer.new_wf
  rw [hsound.parse_error (by decide) (by rw [toMsg_clear]; exact hbad)] at hp
  cases hp

/-! ## A line past 2^31 bytes -/

/-- The scan stops in front of the last byte at most. -/
theorem parse2_none {chr1 chr2 : Byte} {buf : List Byte} (h : (parse2 chr1 chr2 buf).1 = false) :
    (parse2 chr1 chr2 buf).2 = buf.length := by
  induction buf with
  | nil => rfl
  | cons x t ih =>
    rcases t with _ | ⟨y, t⟩
    · rfl
    · rw [parse2] at h ⊢
      split at h
      · cases h
      · rename_i hxy
        rw [if_neg hxy]
        exact congrArg Nat.succ (ih h)

/-- **A line that goes on past 2^31 bytes** is looked at in front of the message buffer. -/
theorem readLine_long (h : b._buffer.WF) (ha : b._assistflag = false)
    (hscan : (parse2 cr lf buf).1 = false) (hlo : 2 ^ 31 ≤ b._buffer._pos + buf.length)
    (hhi : b._buffer._pos + buf.length + bufferDefaultSize < 2 ^ 32) :
    b.readLine buf = .error .position := by
  obtain ⟨hw, hpos⟩ := write_wf h (Nat.le_refl buf.length) hhi
  rw [toInt32_neg hlo (by omega)] at hpos
  -- no byte of the buffer is before a negative position
  have hlast : (b.wrote buf buf.length).lastByte = .error .position := by
    rw [lastByte, Int.toNat_of_nonpos (by rw [hpos]; omega), List.take_zero]
    rfl
  have ha' : (b.wrote buf buf.length)._assistflag = false := ha
  simp only [readLine, ha, ha', hscan, parse2_none hscan, hw, ok_bind, hlast, Bool.false_eq_true, if_false]
  rfl

/-- **A call in such a line is not safe**, in the third part of the start line and in the head. -/
theorem parse_long (h : b._buffer.WF) (hf : b._flag = k.flag3 ∨ b._flag = .head)
    (ha : b._assistflag = false) (hne : buf ≠ []) (hscan : (parse2 cr lf buf).1 = false)
    (hlo : 2 ^ 31 ≤ b._buffer._pos + buf.length)
    (hhi : b._buffer._pos + buf.length + bufferDefaultSize < 2 ^ 32) :
    parse k b buf = .error .position := by
  have hread := readLine_long h ha hscan hlo hhi
  obtain ⟨-, h31, h32, hh1, hh2, hh3, -⟩ := HttpMsg.flags_ne k
  rcases hf with hf | hf
  · rw [parse, hf, if_neg h31, if_neg h32, if_pos rfl, parseLine3, if_neg hne, hread]
    rfl
  · obtain ⟨n, hn⟩ : ∃ n, buf.length = n + 1 :=
      ⟨buf.length - 1, by have := List.length_pos_iff.mpr hne; omega⟩
    rw [parse, hf, if_neg hh1, if_neg hh2, if_neg hh3, if_pos rfl, _parseHead, hn, parseHead,
      if_neg hne, hread]
    rfl

/-! ## The cut -/

theorem Reachable.always {C : HttpBaseMsg → List Byte → Prop} (h : Reachable k C b) :
    Reachable k always b := by
  obtain ⟨buffer, hwf, hrun⟩ := h
  exact ⟨buffer, hwf, hrun.mono fun _ _ _ => trivial⟩

/-- **Where the bytes are cut changes nothing**, while the message is short: a call on `a` and
one on what it left followed by `c` do what one call on `a ++ c` does. -/
theorem parse_cut (h : Reachable k Short b) {a c : List Byte} (hlt : b.Short (a ++ c))
    (hok : HeadOk (b._buffer.content ++ (a ++ c))) :
    ∃ n₁ b₁ n₂ b₂ b₃, parse k b a = .ok (n₁, b₁) ∧ parse k b₁ (a.drop n₁ ++ c) = .ok (n₂, b₂) ∧
      parse k b (a ++ c) = .ok (n₁ + n₂, b₃) ∧ b₂.toMsg = b₃.toMsg := by
  obtain ⟨hs, hreach⟩ := h.sound
  have hlen : b._buffer._pos + (a.length + c.length) < 2 ^ 31 := by
    rw [← List.length_append]
    exact hlt
  obtain ⟨⟨n, m⟩, hac⟩ := (HttpMsg.parse_ok_iff hreach (a ++ c)).mpr hok
  obtain ⟨n₁, m₁, n₂, h₁, h₂, rfl⟩ := (HttpMsg.parse_resumable k).append_ok hac
  obtain ⟨b₁, hp₁, hs₁, hm₁, hle, hpos⟩ := hs.parse (show b._buffer._pos + a.length < 2 ^ 31 by omega) h₁
  have hshort : b₁.Short (a.drop n₁ ++ c) := by
    change b₁._buffer._pos + (a.drop n₁ ++ c).length < 2 ^ 31
    rw [List.length_append, List.length_drop]
    omega
  rw [← hm₁] at h₂
  obtain ⟨b₂, hp₂, -, hm₂, -, -⟩ := hs₁.parse hshort h₂
  obtain ⟨b₃, hp₃, -, hm₃, -, -⟩ := hs.parse hlt hac
  exact ⟨n₁, b₁, n₂, b₂, b₃, hp₁, hp₂, hp₃, hm₂.trans hm₃.symm⟩

/-- A request cut in the middle of the CR LF after its Content-Length. -/
theorem parse_cut_request :
    ∃ n₁ b₁ n₂ b₂ b₃, parse .svr (clear .svr .new) ((request ['1']).take 25) = .ok (n₁, b₁) ∧
      parse .svr b₁ (((request ['1']).take 25).drop n₁ ++ (request ['1']).drop 25) = .ok (n₂, b₂) ∧
      parse .svr (clear .svr .new) ((request ['1']).take 25 ++ (request ['1']).drop 25) =
        .ok (n₁ + n₂, b₃) ∧ b₂.toMsg = b₃.toMsg :=
  parse_cut ⟨.new, Buffer.new_wf, .refl⟩ (by decide +kernel) <| by
    intro ls rest hh _ l hl
    have hhead : HttpMsg.headOf (request ['1']) =
        some ([HttpMsg._constr ++ chars ['1']], chars ['x']) := by decide +kernel
    have hv : HttpMsg.lenValue (HttpMsg._constr ++ chars ['1']) = chars ['1'] := by decide +kernel
    rw [List.take_append_drop, show (clear .svr .new)._buffer.content = [] from Buffer.clear_content _,
      List.nil_append, hhead] at hh
    cases hh
    have hfind : [HttpMsg._constr ++ chars ['1']].find? HttpMsg.isContentLen =
        some (HttpMsg._constr ++ chars ['1']) := by decide +kernel
    rw [hfind] at hl
    cases hl
    exact ⟨by decide +kernel, 1, by decide +kernel, by decide⟩

/-- A header line without an end. -/
def endless (n : ℕ) : List Byte := List.replicate n 120

theorem line_endless (n : ℕ) : HttpMsg.line (endless n) = none := by
  induction n with
  | zero => rfl
  | succ n ih =>
    cases n with
    | zero => rfl
    | succ n =>
      change (if (120 : Byte) = cr ∧ (120 : Byte) = lf then _ else _) = _
      rw [if_neg (by decide)]
      exact congrArg (Option.map _) ih

/-- A message whose only header line is such a line. -/
def endlessHead (n : ℕ) : List Byte :=
  HttpMsg.startLine (chars ['a']) (chars ['b']) (chars ['c']) ++ endless n

/-- A line with nothing after it is not the last one of a head. -/
theorem headerLines_end {s l : List Byte} (h : HttpMsg.line s = some (l, [])) (hne : l ≠ []) (n : ℕ) :
    HttpMsg.headerLines n s = none := by
  cases n with
  | zero => rfl
  | succ n =>
    rw [HttpMsg.headerLines, h]
    obtain ⟨x, l, rfl⟩ := List.exists_cons_of_ne_nil hne
    cases n <;> rfl

/-- The head is not complete when the line ends. -/
theorem headOf_endless (n : ℕ) : HttpMsg.headOf (endlessHead n ++ ([120] ++ [cr, lf])) = none := by
  have hline : HttpMsg.line (endless (n + 1) ++ [cr, lf] ++ []) = some (endless (n + 1), []) :=
    HttpMsg.line_append [] (line_endless (n + 1))
  have htail : endless n ++ ([120] ++ [cr, lf]) = endless (n + 1) ++ [cr, lf] ++ [] := by
    rw [endless, endless, List.replicate_succ', List.append_nil, List.append_assoc]
  have hhead : HttpMsg.headOf (endlessHead n ++ ([120] ++ [cr, lf])) =
      HttpMsg.headerLines (endless n ++ ([120] ++ [cr, lf])).length (endless n ++ ([120] ++ [cr, lf])) := by
    rw [endlessHead, List.append_assoc]
    rfl
  rw [hhead, htail]
  exact headerLines_end hline (List.cons_ne_nil _ _) _

/-- A header line that has taken the message to `7 + n` bytes. -/
theorem reach_endless {n : ℕ} (hn : 7 + n < 2 ^ 31) :
    ∃ b, Reachable .svr Short b ∧ b._flag = .head ∧ b._assistflag = false ∧ b._header2.beg = 7 ∧
      b._buffer._pos = 7 + n ∧ b._buffer.content = endlessHead n := by
  obtain ⟨m, hm⟩ : ∃ m, m = HttpMsg.headStart .svr (chars ['a']) (chars ['b']) (chars ['c']) :=
    ⟨_, rfl⟩
  have hstart : HttpMsg.parse .svr (clear .svr .new).toMsg
      (HttpMsg.startLine (chars ['a']) (chars ['b']) (chars ['c'])) = .ok (7, m) := by
    rw [toMsg_clear, hm]
    decide +kernel
  have hlast : decide ((endless n).getLast? = some cr) = false := by
    rw [endless, List.getLast?_replicate]
    split <;> decide
  have hline : HttpMsg.parse .svr m (endless n) = .ok (n, (m.push (endless n)).assist false) := by
    rw [HttpMsg.parse_head .svr (by rw [hm]; rfl), HttpMsg.parseHead_eq,
      HttpMsg.lineThen_line (fun _ _ _ => rfl) _ _ (by rw [hm]; rfl), line_endless, hlast]
    simp only [endless, List.length_replicate]
  -- the same two calls in 32 bits
  have hshort₁ : (clear .svr .new).Short
      (HttpMsg.startLine (chars ['a']) (chars ['b']) (chars ['c'])) := by decide
  obtain ⟨b₁, hp₁, hs₁, hm₁, -, hpos₁⟩ := (sound_clear (k := .svr) Buffer.new_wf).parse hshort₁ hstart
  have hpos₁' : b₁._buffer._pos = 7 := hpos₁
  have hshort₂ : b₁.Short (endless n) := by
    change b₁._buffer._pos + (endless n).length < 2 ^ 31
    rw [hpos₁', endless, List.length_replicate]
    exact hn
  rw [← hm₁] at hline
  obtain ⟨b₂, hp₂, -, hm₂, -, hpos₂⟩ := hs₁.parse hshort₂ hline
  refine ⟨b₂, ⟨.new, Buffer.new_wf, .next (.next .refl hshort₁ (by rw [Parser.step, hp₁])) hshort₂
    (by rw [Parser.step, hp₂])⟩, ?_, ?_, ?_, by rw [hpos₂, hpos₁'], ?_⟩
  · have hf := congrArg HttpMsg._flag hm₂
    rw [hm₁, hm] at hf
    exact hf
  · exact congrArg HttpMsg._assistflag hm₂
  · have hb := congrArg (fun m => m._header2.beg) hm₂
    rw [hm₁, hm] at hb
    exact hb
  · have hbuf := congrArg HttpMsg._buffer hm₂
    rw [hm₁, hm] at hbuf
    exact hbuf

/-- The end of a header line whose end position is negative. -/
theorem parse_lineEnd (k : HttpKind) (h : b._buffer.WF) (hf : b._flag = .head)
    (ha : b._assistflag = false) (hbeg : b._header2.beg = 7) (hlo : 2 ^ 31 ≤ b._buffer._pos + 3)
    (hhi : b._buffer._pos + 3 + bufferDefaultSize < 2 ^ 32) :
    ∃ b', parse k b [120, cr, lf] = .ok (3, b') := by
  obtain ⟨-, -, -, hh1, hh2, hh3, -⟩ := HttpMsg.flags_ne k
  obtain ⟨hw, hpos⟩ := write_wf h (show 3 ≤ [120, cr, lf].length by decide) hhi
  rw [toInt32_neg hlo (by omega)] at hpos
  have hscan : parse2 cr lf [120, cr, lf] = (true, 3) := by decide
  have hread : b.readLine [120, cr, lf] = .ok (true, 3, b.wrote [120, cr, lf] 3) := by
    have hw' : b.write [120, cr, lf] (3 : ℕ) = .ok (b.wrote [120, cr, lf] 3) := hw
    simp only [readLine, ha, hscan, hw', ok_bind, Bool.false_eq_true, if_false, if_true]
    rfl
  have hbeg' : (b.wrote [120, cr, lf] 3).pushHeader._header2.beg = 7 := hbeg
  have hend : (b.wrote [120, cr, lf] 3).pushHeader._header2.end_ = b._buffer._pos + 3 - 2 ^ 32 := by
    change (b.wrote [120, cr, lf] 3).pos = _
    rw [hpos]
    push_cast
    rfl
  -- the end is negative, so that the line is not taken for the empty one
  have hne : ¬ (7 + 2 : ℤ) = b._buffer._pos + 3 - 2 ^ 32 := by
    simp only [bufferDefaultSize] at hhi
    omega
  refine ⟨(b.wrote [120, cr, lf] 3).pushHeader.startHeader, ?_⟩
  rw [parse, hf, if_neg hh1, if_neg hh2, if_neg hh3, if_pos rfl, _parseHead]
  simp only [parseHead, List.length_cons, List.length_nil, hread, ok_bind, hbeg', hend, if_true,
    int_ok (show (-2 ^ 31 : ℤ) ≤ 7 + 2 by decide) (by decide), if_neg hne]
  rfl

/-- A call that ends past 2^31 bytes looks in front of the message buffer when the line is not
complete, and not when it is. The head has no Content-Length. -/
theorem not_parse_cut : ¬ ∀ k b (a c : List Byte), Reachable k always b → c ≠ [] →
    HttpMsg.headOf (b._buffer.content ++ (a ++ c)) = none →
    ∀ n b₃, parse k b (a ++ c) = .ok (n, b₃) →
    ∃ n₁ b₁ n₂ b₂, parse k b a = .ok (n₁, b₁) ∧ parse k b₁ (a.drop n₁ ++ c) = .ok (n₂, b₂) ∧
      n = n₁ + n₂ ∧ b₂.toMsg = b₃.toMsg := by
  intro h
  obtain ⟨b, hreach, hf, ha, hbeg, hpos, hcontent⟩ := reach_endless (n := 2 ^ 31 - 8) (by decide)
  obtain ⟨hs, -⟩ := hreach.sound
  have hpos' : b._buffer._pos = 2 ^ 31 - 1 := hpos
  obtain ⟨b₃, hwhole⟩ := parse_lineEnd .svr hs.wf hf ha hbeg (by rw [hpos']; decide) (by rw [hpos']; decide)
  -- the byte takes the message to 2^31 bytes
  have hcut : parse .svr b [120] = .error .position :=
    parse_long hs.wf (.inr hf) ha (List.cons_ne_nil _ _) rfl (by rw [hpos']; decide) (by rw [hpos']; decide)
  have hnone : HttpMsg.headOf (b._buffer.content ++ ([120] ++ [cr, lf])) = none := by
    rw [hcontent]
    exact headOf_endless _
  obtain ⟨n₁, b₁, -, -, hp, -⟩ := h .svr b [120] [cr, lf] hreach.always (List.cons_ne_nil _ _) hnone 3
    b₃ hwhole
  rw [hcut] at hp
  cases hp

end HttpBaseMsg

end Netlib
