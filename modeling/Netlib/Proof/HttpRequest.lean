import Netlib.Spec.HttpRequest
import Netlib.Proof.HttpReply

/-!
# A request is read as its grammar says

A request is a message of three parts of a start line, header lines and a body whose length
the head states, so one call of `Parse` reads it and leaves what follows (`parse_text`).
-/

namespace Netlib

open HttpMsg

namespace HttpMsg

/-- Bytes without CR LF have no end of a line. -/
theorem line_none {l : List Byte} (h : ¬ [cr, lf] <:+: l) : line l = none := by
  cases hl : line l with
  | none => rfl
  | some r =>
    obtain ⟨a, t⟩ := r
    refine absurd ⟨a, t, ?_⟩ h
    rw [line_length hl, List.append_assoc]
    rfl

theorem isContentLen_false {l : List Byte} (h : ¬ _constr.take 14 <+: l) : isContentLen l = false := by
  apply Bool.eq_false_iff.mpr
  intro hc
  simp only [isContentLen, Bool.and_eq_true, beq_iff_eq] at hc
  refine h ⟨l.drop 14, ?_⟩
  rw [← hc.2]
  exact List.take_append_drop 14 l

end HttpMsg

namespace HttpRequest

/-- The request as a message. -/
def text (r : HttpRequest) : HttpText where
  line1 := r.method
  line2 := r.url
  line3 := r.version
  headers := r.headers
  body := r.body
  sp_line1 := r.sp_method
  sp_line2 := r.sp_url
  crlf_line3 := line_none r.crlf_version
  crlf_headers := by
    intro l hl
    have hmem : l ∈ r.before ++ r.after ∨ l = r.lengthLine := by
      unfold headers at hl
      simp only [List.mem_append, List.mem_singleton] at hl ⊢
      tauto
    rcases hmem with hmem | rfl
    · have hok := r.crlf_headers l hmem
      exact ⟨hok.1, line_none hok.2⟩
    · exact HttpSvrSendMsg.lengthLine_line r.body_pos

theorem text_bytes (r : HttpRequest) : r.text.bytes = r.bytes := by
  simp only [HttpText.bytes, HttpText.head, text, startLine, lineBytes, bytes, requestLine,
    headerBytes, List.append_assoc]

theorem text_sized (r : HttpRequest) : r.text.Sized := by
  refine HttpText.sized_of_decimal r.before r.after ?_ r.body_pos r.body_lt rfl
  intro l hl
  exact isContentLen_false (r.one_length l (List.mem_append_left _ hl))

end HttpRequest

open HttpSvrRecvMsg

/-- **A request and arbitrary bytes after it**: one call of `Parse` consumes the request, the
parser is over, its getters return the parts of the request, and it consumes nothing more. -/
theorem HttpSvrRecvMsg.parse_request (r : HttpRequest) (rest : List Byte) :
    ∃ m, HttpSvrRecvMsg.parse (clear .svr) (r.bytes ++ rest) = .ok (r.bytes.length, m) ∧
      Parsed m r := by
  have htext := HttpText.parse_text .svr r.text (r.text.body ++ rest)
  rw [HttpText.bodyRead_sized r.text_sized rest] at htext
  obtain ⟨m, hparse, hparts, hover, hiter⟩ := htext
  have hbytes : r.text.head ++ (r.text.body ++ rest) = r.bytes ++ rest := by
    rw [← r.text_bytes, HttpText.bytes, List.append_assoc]
  have hlen : r.text.head.length + r.text.body.length = r.bytes.length := by
    rw [← r.text_bytes, HttpText.bytes, List.length_append]
  have hne : r.text.body ≠ [] := List.ne_nil_of_length_pos r.body_pos
  have hline : r.text.line1 ++ [sp] ++ (r.text.line2 ++ [sp]) ++ r.text.line3 = r.requestLine := by
    simp only [HttpRequest.text, HttpRequest.requestLine, List.append_assoc]
  rw [hbytes, hlen] at hparse
  refine ⟨m, hparse, ?_⟩
  exact
    { flag := hover hne
      method := congrArg HttpParts.line1 hparts
      url := congrArg HttpParts.line2 hparts
      version := congrArg HttpParts.line3 hparts
      requestLine := (congrArg HttpParts.startLine hparts).trans hline
      header := congrArg HttpParts.header hparts
      headers := nextHeaders_first (congrArg HttpParts.headers hparts) hiter
      body := congrArg HttpParts.body hparts
      done := fun _ => parse_over .svr (hover hne) }

end Netlib
