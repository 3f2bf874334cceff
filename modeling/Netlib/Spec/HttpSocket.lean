import Netlib.Spec.HttpGrammar

/-!
# HTTP sockets (`netio/hsocket_impl.hpp`)

`HttpBaseSocket::_CutMsgPack` feeds the bytes of one read to the parser and hands the
parser to `OnReceiveData`. After the callback the parser is cleared, whatever the
callback did to it. It always returns true. The rest is what the peer sends: messages
one after the other, cut into reads.
-/

namespace Netlib

namespace HttpMsg

variable (m : HttpMsg)

/-- `GetRequestLine`, `GetRespondLine`. -/
def getStartLine : List Byte :=
  if m._line3.end_ = 0 then [] else m.substr ⟨m._line1.beg, m._line3.end_⟩

end HttpMsg

/-- The components of a message: what the getters return. -/
structure HttpParts where
  startLine : List Byte
  line1 : List Byte
  line2 : List Byte
  line3 : List Byte
  header : List Byte
  headers : List (List Byte)
  body : List Byte
  deriving DecidableEq

def HttpMsg.parts (m : HttpMsg) : HttpParts where
  startLine := m.getStartLine
  line1 := m.getLine1
  line2 := m.getLine2
  line3 := m.getLine3
  header := m.getHeader
  headers := m.headers
  body := m.getBody

namespace HttpBaseSocket

open HttpMsg

/-- The loop of `_CutMsgPack`: the messages handed to `OnReceiveData` and the parser
left. `.error none` is a loop that is still running after `fuel` rounds. -/
def _cutMsgPackLoop (k : HttpKind) :
    ℕ → HttpMsg → List Byte → Except (Option HttpFault) (List HttpMsg × HttpMsg)
  | 0, _, _ => .error none
  | fuel + 1, httpmsg, buf =>
    match parse k httpmsg buf with
    | .error e => .error (some e)
    | .ok (copy_len, httpmsg) =>
      let (seen, httpmsg) :=
        -- `Parse` never consumes more than it is given
        if copy_len = 0 ∨ copy_len ≤ buf.length then ([httpmsg], clear k) else ([], httpmsg)
      let buf := buf.drop copy_len
      if buf = [] then .ok (seen, httpmsg)
      else (_cutMsgPackLoop k fuel httpmsg buf).map fun (ms, httpmsg) => (seen ++ ms, httpmsg)

/-- `_CutMsgPack`. -/
def _cutMsgPack (k : HttpKind) (httpmsg : HttpMsg) (buf : List Byte) :
    Except (Option HttpFault) (List HttpMsg × HttpMsg) :=
  _cutMsgPackLoop k (buf.length + 1) httpmsg buf

/-- The calls for a sequence of reads. -/
def cutMsgPacks (k : HttpKind) :
    HttpMsg → List (List Byte) → Except (Option HttpFault) (List HttpMsg × HttpMsg)
  | httpmsg, [] => .ok ([], httpmsg)
  | httpmsg, r :: rs =>
    match _cutMsgPack k httpmsg r with
    | .error e => .error e
    | .ok (ms, httpmsg) =>
      (cutMsgPacks k httpmsg rs).map fun (ms', httpmsg) => (ms ++ ms', httpmsg)

end HttpBaseSocket

/-! ## What the peer sends -/

/-- A message: a start line of three parts, header lines and a body. -/
structure HttpText where
  line1 : List Byte
  line2 : List Byte
  line3 : List Byte
  headers : List (List Byte)
  body : List Byte
  sp_line1 : sp ∉ line1
  sp_line2 : sp ∉ line2
  crlf_line3 : HttpMsg.line line3 = none
  crlf_headers : ∀ l ∈ headers, l ≠ [] ∧ HttpMsg.line l = none

namespace HttpText

variable (t : HttpText)

def head : List Byte := HttpMsg.startLine t.line1 t.line2 t.line3 ++ HttpMsg.lineBytes t.headers

def bytes : List Byte := t.head ++ t.body

/-- The components of the message; the last header line is the empty one. -/
def parts : HttpParts where
  startLine := t.line1 ++ [sp] ++ (t.line2 ++ [sp]) ++ t.line3
  line1 := t.line1
  line2 := t.line2
  line3 := t.line3
  header := HttpMsg.lineBytes t.headers
  headers := t.headers ++ [[]]
  body := t.body

/-- The parser finds the length of the body in the head. -/
def Sized : Prop := HttpMsg.contentLen t.headers = .ok t.body.length

/-- The number that digits stand for. -/
def value (v : List Byte) : ℕ := v.foldl (fun acc x => 10 * acc + (x.toNat - 48)) 0

/-- The bytes of messages one after the other. -/
def stream (ts : List HttpText) : List Byte := ts.flatMap bytes

/-- The messages that the first `n` bytes complete. -/
def completed : List HttpText → ℕ → List HttpText
  | [], _ => []
  | t :: ts, n => if t.bytes.length ≤ n then t :: completed ts (n - t.bytes.length) else []

/-- **What is expected of a sequence of reads**: the callbacks so far are those of the
messages completed so far, and the parser holds the bytes of the message in progress. -/
def Delivers (k : HttpKind) (ts : List HttpText) (reads : List (List Byte)) : Prop :=
  ∀ rs, rs <+: reads →
    ∃ ms httpmsg, HttpBaseSocket.cutMsgPacks k (.clear k) rs = .ok (ms, httpmsg) ∧
      ms.map HttpMsg.parts = (completed ts rs.flatten.length).map parts ∧
      stream (completed ts rs.flatten.length) ++ httpmsg._buffer = rs.flatten

/-- A read of whole messages: the parser finds the length of each body, but for a last
message without a body. -/
def WholeRead : List HttpText → Prop
  | [] => True
  | [t] => t.body = [] ∨ t.Sized
  | t :: ts => t.Sized ∧ WholeRead ts

/-- Every read ends a message. -/
def Whole (ts : List HttpText) (reads : List (List Byte)) : Prop :=
  ∃ groups : List (List HttpText), groups.flatten <+: ts ∧ reads = groups.map stream ∧
    ∀ g ∈ groups, WholeRead g

end HttpText

end Netlib
