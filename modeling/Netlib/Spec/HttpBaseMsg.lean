import Netlib.Spec.HttpGrammar
import Netlib.Spec.HttpReply

/-!
# HTTP messages in 32 bits (`netio/httpmsg.hpp`)

The parser of `HttpMsg` with the widths of the source. The message buffer is a `Buffer`,
whose `Size` is unsigned, and a position is an `int` that is converted from it. A message
buffer is never read off, so `Data()` is where its content begins. The scans and the match
of the header name do not depend on positions and are those of `HttpMsg`.
-/

namespace Netlib

/-- `HttpBaseMsg` with the positions of the start line, as in `HttpMsg`. -/
structure HttpBaseMsg where
  _buffer : Buffer
  _header : StrPos
  _header2 : StrPos
  _body : StrPos
  _flag : ParseFlag
  _assistflag : Bool
  _header_iter : ℕ
  _bodysize : ℤ
  _header_vec : List StrPos
  _line1 : StrPos
  _line2 : StrPos
  _line3 : StrPos
  deriving DecidableEq

namespace HttpBaseMsg

/-- `Clear` of a message with this buffer. -/
def clear (k : HttpKind) (buffer : Buffer) : HttpBaseMsg where
  _buffer := buffer.clear
  _header := ⟨0, 0⟩
  _header2 := ⟨0, 0⟩
  _body := ⟨0, 0⟩
  _flag := k.flag1
  _assistflag := false
  _header_iter := 0
  _bodysize := -1
  _header_vec := []
  _line1 := ⟨0, 0⟩
  _line2 := ⟨0, 0⟩
  _line3 := ⟨0, 0⟩

/-- An `int` that is computed; an overflow is undefined. -/
def int (z : ℤ) : Except HttpFault ℤ :=
  if -2 ^ 31 ≤ z ∧ z < 2 ^ 31 then .ok z else .error .overflow

variable (b : HttpBaseMsg)

/-- `(int)_buffer.Size()`. -/
def pos : ℤ := toInt32 b._buffer.size

/-- `_buffer.Write(buffer, len)`. -/
def write (buf : List Byte) (len : ℤ) : Except HttpFault HttpBaseMsg :=
  if 0 ≤ len ∧ len ≤ buf.length then
    let buffer := b._buffer.write buf len.toNat
    if buffer._data.length = buffer._size then .ok { b with _buffer := buffer }
    else .error .overrun
  else .error (.write len)

/-- `*(_buffer.Data() + pos - 1)`. -/
def lastByte : Except HttpFault Byte :=
  match (b._buffer.content.take b.pos.toNat).getLast? with
  | none => .error .position
  | some x => .ok x

/-- The memory from `pos` to the end of the header block, when nothing follows it yet. -/
def block (pos : ℤ) : Except HttpFault (List Byte) :=
  if b._header.beg ≤ pos ∧ 0 ≤ pos then .ok (b._buffer.content.drop pos.toNat) else .error .block

/-- The loop of `_CheckContentLen` over the header lines. -/
def checkLines : List StrPos → Except HttpFault ℤ
  | [] => .ok 0
  | iter :: rest => do
    let len ← int (iter.end_ - iter.beg)
    if len < 18 then checkLines rest
    else
      let mem ← b.block iter.beg
      let (hit, pbeg) ← HttpMsg.matchConstr HttpMsg._constr mem
      if hit then HttpMsg.readValue pbeg else checkLines rest

def _checkContentLen : Except HttpFault ℤ := b.checkLines b._header_vec

/-- The copy of `_ParseBody`. The bytes missing are computed as unsigned. -/
def copyBody (buf : List Byte) : Except HttpFault (ℕ × HttpBaseMsg) := do
  let left := toInt32 (toU32 (b._bodysize - (b._buffer.size - b._body.beg)))
  let copy_len : ℤ := if left > buf.length then buf.length else left
  let b := if left > buf.length then b else { b with _flag := .over }
  let b ← b.write buf copy_len
  return (copy_len.toNat,
    if b._flag = .over then { b with _body := { b._body with end_ := b.pos } } else b)

def _parseBody (buf : List Byte) : Except HttpFault (ℕ × HttpBaseMsg) :=
  if buf = [] then .ok (0, b)
  else if b._bodysize = -1 then do
    let n ← b._checkContentLen
    if n = 0 then return (0, { b with _bodysize := 0, _flag := .over })
    else copyBody { b with _bodysize := n, _body := { b._body with beg := b.pos } } buf
  else if b._bodysize = 0 then .ok (0, b)
  else b.copyBody buf

/-- The scan for CR LF, the `Write` and the look at the last byte, as in `HttpMsg.readLine`. -/
def readLine (buf : List Byte) : Except HttpFault (Bool × ℕ × HttpBaseMsg) := do
  let (hit, copy_len) := parse2 cr lf buf
  let (hit, copy_len, b) :=
    if b._assistflag then
      if buf.head? ≠ some lf then (hit, copy_len, { b with _assistflag := false })
      else (true, 1, b)
    else (hit, copy_len, b)
  let b ← b.write buf copy_len
  if hit then return (true, copy_len, b)
  else if b._assistflag then return (false, copy_len, b)
  else
    let x ← b.lastByte
    return (false, copy_len, if x = cr then { b with _assistflag := true } else b)

/-- `copy_len + r`, for the value `r` of a call on the rest. -/
def plus (copy_len : ℕ) (r : Except HttpFault (ℕ × HttpBaseMsg)) :
    Except HttpFault (ℕ × HttpBaseMsg) := do
  let (n, b) ← r
  return (copy_len + n, b)

def endLine1 (k : HttpKind) : Except HttpFault HttpBaseMsg := do
  let end_ ← int (b.pos - 1)
  return { b with
    _line1 := { b._line1 with end_ }
    _flag := k.flag2
    _line2 := { b._line2 with beg := b.pos } }

def endLine2 (k : HttpKind) : Except HttpFault HttpBaseMsg := do
  let end_ ← int (b.pos - 1)
  return { b with
    _line2 := { b._line2 with end_ }
    _flag := k.flag3
    _line3 := { b._line3 with beg := b.pos } }

def endLine3 : Except HttpFault HttpBaseMsg := do
  let end_ ← int (b.pos - 2)
  return { b with
    _line3 := { b._line3 with end_ }
    _flag := .head
    _header2 := { b._header2 with beg := b.pos }
    _header := { b._header with beg := b.pos }
    _assistflag := false }

def pushHeader : HttpBaseMsg :=
  { b with
    _assistflag := false
    _header := { b._header with end_ := b.pos }
    _header2 := { b._header2 with end_ := b.pos }
    _header_vec := b._header_vec ++ [{ b._header2 with end_ := b.pos }] }

def startBody : HttpBaseMsg := { b with _flag := .body }

def startHeader : HttpBaseMsg := { b with _flag := .head, _header2 := ⟨b.pos, 0⟩ }

/-- `_ParseHead`, as `HttpMsg.parseHead`. -/
def parseHead : ℕ → HttpBaseMsg → List Byte → Except HttpFault (ℕ × HttpBaseMsg)
  | 0, b, _ => .ok (0, b)
  | fuel + 1, b, buf =>
    if buf = [] then .ok (0, b)
    else do
      let (hit, copy_len, b) ← b.readLine buf
      if hit then
        let b := b.pushHeader
        let empty ← int (b._header2.beg + 2)
        if empty = b._header2.end_ then
          plus copy_len (b.startBody._parseBody (buf.drop copy_len))
        else plus copy_len (parseHead fuel b.startHeader (buf.drop copy_len))
      else return (copy_len, b)

def _parseHead (buf : List Byte) : Except HttpFault (ℕ × HttpBaseMsg) := parseHead buf.length b buf

/-- `_ParseVer` of a request, `_ParseStatusPhrase` of a response. -/
def parseLine3 (buf : List Byte) : Except HttpFault (ℕ × HttpBaseMsg) :=
  if buf = [] then .ok (0, b)
  else do
    let (hit, copy_len, b) ← b.readLine buf
    if hit then
      let b ← b.endLine3
      plus copy_len (b._parseHead (buf.drop copy_len))
    else return (copy_len, b)

/-- `_ParseUrl`, `_ParseStatusCode`. -/
def parseLine2 (k : HttpKind) (buf : List Byte) : Except HttpFault (ℕ × HttpBaseMsg) :=
  if buf = [] then .ok (0, b)
  else do
    let (hit, copy_len) := parse1 sp buf
    let b ← b.write buf copy_len
    if hit then
      let b ← b.endLine2 k
      plus copy_len (b.parseLine3 (buf.drop copy_len))
    else return (copy_len, b)

/-- `_ParseMethod`, `_ParseVer` of a response. -/
def parseLine1 (k : HttpKind) (buf : List Byte) : Except HttpFault (ℕ × HttpBaseMsg) := do
  let (hit, copy_len) := parse1 sp buf
  let b ← b.write buf copy_len
  if hit then
    let b ← b.endLine1 k
    plus copy_len (b.parseLine2 k (buf.drop copy_len))
  else return (copy_len, b)

/-- `Parse`. -/
def parse (k : HttpKind) (b : HttpBaseMsg) (buf : List Byte) : Except HttpFault (ℕ × HttpBaseMsg) :=
  if b._flag = k.flag1 then b.parseLine1 k buf
  else if b._flag = k.flag2 then b.parseLine2 k buf
  else if b._flag = k.flag3 then b.parseLine3 buf
  else if b._flag = .head then b._parseHead buf
  else if b._flag = .body then b._parseBody buf
  else .ok (0, b)

/-! ## The getters -/

/-- `std::string(_buffer.Data() + beg, len)`. -/
def string (beg len : ℤ) : Except HttpFault (List Byte) :=
  if 0 ≤ beg ∧ 0 ≤ len ∧ beg + len ≤ b._buffer.content.length then
    .ok ((b._buffer.content.drop beg.toNat).take len.toNat)
  else .error .position

def substr (p : StrPos) : Except HttpFault (List Byte) := do
  let len ← int (p.end_ - p.beg)
  b.string p.beg len

def getLine1 : Except HttpFault (List Byte) := if b._line1.end_ = 0 then .ok [] else b.substr b._line1

def getLine2 : Except HttpFault (List Byte) := if b._line2.end_ = 0 then .ok [] else b.substr b._line2

def getLine3 : Except HttpFault (List Byte) := if b._line3.end_ = 0 then .ok [] else b.substr b._line3

def getBody : Except HttpFault (List Byte) := if b._body.end_ = 0 then .ok [] else b.substr b._body

/-- `NextHeader`. -/
def nextHeader : Except HttpFault (List Byte × HttpBaseMsg) :=
  match b._header_vec[b._header_iter]? with
  | none => .ok ([], b)
  | some p => do
    let len ← int (p.end_ - p.beg)
    let len ← int (len - 2)
    let s ← b.string p.beg len
    return (s, { b with _header_iter := b._header_iter + 1 })

/-- `InitHeaderIter`. -/
def initHeaderIter : HttpBaseMsg := { b with _header_iter := 0 }

/-- The results of `n` calls of `NextHeader`. -/
def nextHeaders : ℕ → HttpBaseMsg → Except HttpFault (List (List Byte))
  | 0, _ => .ok []
  | n + 1, b => do
    let (s, b) ← b.nextHeader
    let ss ← nextHeaders n b
    return s :: ss

/-! ## What is expected of calls -/

/-- The same message with its buffer as the bytes written to it. -/
def toMsg : HttpMsg where
  _buffer := b._buffer.content
  _header := b._header
  _header2 := b._header2
  _body := b._body
  _flag := b._flag
  _assistflag := b._assistflag
  _header_iter := b._header_iter
  _bodysize := b._bodysize
  _header_vec := b._header_vec
  _line1 := b._line1
  _line2 := b._line2
  _line3 := b._line3

/-- With the bytes of the call the message is shorter than 2^31 bytes. -/
def Short (buf : List Byte) : Prop := b._buffer.size + buf.length < 2 ^ 31

instance (buf : List Byte) : Decidable (b.Short buf) := inferInstanceAs (Decidable (_ < _))

/-- The states that calls of `Parse` reach from a `Clear`, each call on bytes that `C`
allows. -/
def Reachable (k : HttpKind) (C : HttpBaseMsg → List Byte → Prop) (b : HttpBaseMsg) : Prop :=
  ∃ buffer : Buffer, buffer.WF ∧ Lib.Reach (Lib.Parser.step (parse k)) C (clear k buffer) b

/-- **A safe call** of `Parse`: nothing undefined happens, no more is consumed than is
there, and the bytes consumed are appended to the message buffer. -/
def Safe (k : HttpKind) (b : HttpBaseMsg) (buf : List Byte) : Prop :=
  ∃ n b', parse k b buf = .ok (n, b') ∧ n ≤ buf.length ∧
    b'._buffer.content = b._buffer.content ++ buf.take n

/-- **The reply as it was set**: every getter returns what the calls wrote. The empty line
is the last header; after it `NextHeader` has nothing more to return. -/
structure Holds (b : HttpBaseMsg) (cs : List SetCall) (body : List Byte) : Prop where
  version : b.getLine1 = .ok (SetCall.versionOf cs)
  status : b.getLine2 = .ok (SetCall.statusOf cs)
  phrase : b.getLine3 = .ok (SetCall.phraseOf cs)
  headers : ∀ n, b.initHeaderIter.nextHeaders n =
    .ok ((SetCall.fieldsOf cs body.length ++ List.replicate n []).take n)
  body : b.getBody = .ok body

end HttpBaseMsg

end Netlib
