import Netlib.Spec.Buffer

/-!
# HTTP messages (`netio/httpmsg.hpp`)

`HttpSvrRecvMsg` and `HttpCliRecvMsg` parse a request or a response as its bytes
come: three parts of a start line, header lines up to an empty one, a body. The two
differ in the flags of the start line only, so they are one parser with a
`HttpKind`. Here `_buffer` is the content of the `Buffer` and a position is any
integer, which is what the 32 bits of the source (`HttpBaseMsg`) come to while a message
is shorter than 2^31 bytes. What is undefined in the source is an `HttpFault`.
-/

namespace Netlib

/-- The bytes of ASCII characters. -/
def chars (l : List Char) : List Byte := l.map fun c => .ofNat c.toNat

def cr : Byte := 13
def lf : Byte := 10
def sp : Byte := 32

inductive ParseFlag
  | method
  | url
  | ver
  | statusCode
  | statusPhrase
  | head
  | body
  | over
  deriving DecidableEq

structure StrPos where
  beg : ℤ
  end_ : ℤ
  deriving DecidableEq

/-- What no call may do: pass `Buffer::Write` a length that is not one of the bytes
there, write or read past the scratch array of `_CheckContentLen`, or read outside
the header block there. The last three need a message of 2^31 bytes: a position outside
the message buffer, a sum that is not an `int`, a `Write` past the allocation. -/
inductive HttpFault
  | write (len : ℤ)
  | scratchWrite
  | scratchRead
  | block
  | position
  | overflow
  | overrun
  deriving DecidableEq

/-- `HttpSvrRecvMsg` or `HttpCliRecvMsg`. -/
inductive HttpKind
  | svr
  | cli
  deriving DecidableEq

namespace HttpKind

def flag1 : HttpKind → ParseFlag
  | svr => .method
  | cli => .ver

def flag2 : HttpKind → ParseFlag
  | svr => .url
  | cli => .statusCode

def flag3 : HttpKind → ParseFlag
  | svr => .ver
  | cli => .statusPhrase

end HttpKind

/-- `HttpBaseMsg` with the three positions of the start line: `_method`, `_url` and
`_ver`, or `_version`, `_statuscode` and `_statusphrase`. -/
structure HttpMsg where
  _buffer : List Byte
  _header : StrPos
  _header2 : StrPos
  _body : StrPos
  _flag : ParseFlag
  _assistflag : Bool
  _header_iter : ℕ
  _bodysize : ℤ
  _header_vec : List StrPos
  _line1 : StrPos
  _line2 : StrPos
  _line3 : StrPos
  deriving DecidableEq

/-- `_Parse1`: whether `chr` is among the bytes, and the number of bytes to copy. -/
def parse1 (chr : Byte) : List Byte → Bool × ℕ
  | [] => (false, 0)
  | x :: t =>
    if x = chr then (true, 1)
    else
      let (hit, copy_len) := parse1 chr t
      (hit, copy_len + 1)

/-- `_Parse2`, for two characters in a row. -/
def parse2 (chr1 chr2 : Byte) : List Byte → Bool × ℕ
  | x :: y :: t =>
    if x = chr1 ∧ y = chr2 then (true, 2)
    else
      let (hit, copy_len) := parse2 chr1 chr2 (y :: t)
      (hit, copy_len + 1)
  -- a last byte alone is copied too, it may be a CR
  | l => (false, l.length)

/-- `isspace`. -/
def isSpace (x : Byte) : Bool := x = sp || (9 ≤ x && x ≤ 13)

/-- The digits of a number, up to the first other byte. With none the array is overrun. -/
def atoiDigits (acc : ℕ) : List Byte → Option ℕ
  | [] => none
  | x :: t => if 48 ≤ x ∧ x ≤ 57 then atoiDigits (10 * acc + (x.toNat - 48)) t else some acc

/-- `atoi` on the bytes of an array: `(int)strtol`, where `long` is wide enough for the
digits of the array. `none` is a read past its end. -/
def atoi (l : List Byte) : Option ℤ :=
  match l.dropWhile isSpace with
  | [] => none
  | x :: t =>
    if x = 45 then (atoiDigits 0 t).map fun n => Int.bmod (-n) (2 ^ 32)
    else if x = 43 then (atoiDigits 0 t).map fun n => Int.bmod n (2 ^ 32)
    else (atoiDigits 0 (x :: t)).map fun n => Int.bmod n (2 ^ 32)

namespace HttpMsg

/-- `_constr`. -/
def _constr : List Byte :=
  chars ['C', 'o', 'n', 't', 'e', 'n', 't', '-', 'L', 'e', 'n', 'g', 't', 'h', ':', ' ']

/-- The state after `Clear`. -/
def clear (k : HttpKind) : HttpMsg where
  _buffer := []
  _header := ⟨0, 0⟩
  _header2 := ⟨0, 0⟩
  _body := ⟨0, 0⟩
  _flag := k.flag1
  _assistflag := false
  _header_iter := 0
  _bodysize := -1
  _header_vec := []
  _line1 := ⟨0, 0⟩
  _line2 := ⟨0, 0⟩
  _line3 := ⟨0, 0⟩

variable (m : HttpMsg)

/-- `_buffer.Size()`. -/
def size : ℤ := m._buffer.length

def push (bytes : List Byte) : HttpMsg := { m with _buffer := m._buffer ++ bytes }

/-- `_buffer.Write(buffer, len)`. -/
def write (buf : List Byte) (len : ℤ) : Except HttpFault HttpMsg :=
  if 0 ≤ len ∧ len ≤ buf.length then .ok (m.push (buf.take len.toNat)) else .error (.write len)

/-- The memory from `pos` to the end of the header block. -/
def block (pos : ℤ) : Except HttpFault (List Byte) :=
  if m._header.beg ≤ pos ∧ 0 ≤ pos then
    .ok ((m._buffer.take m._header.end_.toNat).drop pos.toNat)
  else .error .block

/-- The loop over `_constr`: whether it ends at the blank, and the memory at `pbeg`
then. Both pointers move on before the `break`. -/
def matchConstr : List Byte → List Byte → Except HttpFault (Bool × List Byte)
  | c :: psrc, pbeg =>
    if c = sp then .ok (true, pbeg)
    else
      match pbeg with
      | [] => .error .block
      | x :: pbeg => if x ≠ c then .ok (psrc.head? = some sp, pbeg) else matchConstr psrc pbeg
  | [], pbeg => .ok (false, pbeg)

/-- The size of the scratch array. -/
def scratchSize : ℕ := 11

/-- The loop that copies the value up to a CR, when `n` bytes have been copied. -/
def copyValue (n : ℕ) : List Byte → Except HttpFault (List Byte)
  | [] => .error .block
  | x :: t =>
    if x = cr then .ok []
    else if n < scratchSize then (copyValue (n + 1) t).map (x :: ·)
    else .error .scratchWrite

/-- The value of a header line that matches, at `pbeg`. -/
def readValue (pbeg : List Byte) : Except HttpFault ℤ :=
  match copyValue 0 (pbeg.drop 1) with
  | .error e => .error e
  | .ok v =>
    match atoi (v ++ List.replicate (scratchSize - v.length) 0) with
    | none => .error .scratchRead
    | some z => .ok z

/-- The loop of `_CheckContentLen` over the header lines. -/
def checkLines : List StrPos → Except HttpFault ℤ
  | [] => .ok 0
  | iter :: rest =>
    -- too short for the name, the colon, a blank, CR and LF
    if iter.end_ - iter.beg < 18 then checkLines rest
    else
      match m.block iter.beg with
      | .error e => .error e
      | .ok mem =>
        match matchConstr _constr mem with
        | .error e => .error e
        | .ok (true, pbeg) => readValue pbeg
        | .ok (false, _) => checkLines rest

def _checkContentLen : Except HttpFault ℤ := m.checkLines m._header_vec

/-- The copy of `_ParseBody`, for a body of `_bodysize` bytes. -/
def copyBody (buf : List Byte) : Except HttpFault (ℕ × HttpMsg) :=
  let left := m._bodysize - (m.size - m._body.beg)
  let copy_len : ℤ := if left > buf.length then buf.length else left
  -- a negative `left` goes to `Write` as it is
  let m := if left > buf.length then m else { m with _flag := .over }
  match m.write buf copy_len with
  | .error e => .error e
  | .ok m =>
    .ok (copy_len.toNat,
      if m._flag = .over then { m with _body := { m._body with end_ := m.size } } else m)

def _parseBody (buf : List Byte) : Except HttpFault (ℕ × HttpMsg) :=
  if buf = [] then .ok (0, m)
  else if m._bodysize = -1 then
    -- the first byte after the head
    match m._checkContentLen with
    | .error e => .error e
    | .ok n =>
      if n = 0 then .ok (0, { m with _bodysize := 0, _flag := .over })
      else { m with _bodysize := n, _body := { m._body with beg := m.size } }.copyBody buf
  else if m._bodysize = 0 then .ok (0, m)
  else m.copyBody buf

/-- The scan for CR LF and the `Write` that `_ParseVer`, `_ParseStatusPhrase` and
`_ParseHead` begin with: whether the line is complete, and the bytes copied. The
assist flag says that the last byte so far is a CR. -/
def readLine (buf : List Byte) : Except HttpFault (Bool × ℕ × HttpMsg) :=
  let (hit, copy_len) := parse2 cr lf buf
  let (hit, copy_len, m) :=
    if m._assistflag then
      -- a CR is pending
      if buf.head? ≠ some lf then (hit, copy_len, { m with _assistflag := false })
      else (true, 1, m)
    else (hit, copy_len, m)
  match m.write buf copy_len with
  | .error e => .error e
  | .ok m =>
    if hit then .ok (true, copy_len, m)
    else if m._assistflag = false ∧ m._buffer.getLast? = some cr then
      .ok (false, copy_len, { m with _assistflag := true })
    else .ok (false, copy_len, m)

/-- `copy_len + r`, for the value `r` of a call on the rest. -/
def plus (copy_len : ℕ) : Except HttpFault (ℕ × HttpMsg) → Except HttpFault (ℕ × HttpMsg)
  | .error e => .error e
  | .ok (n, m) => .ok (copy_len + n, m)

/-- The end of the first part of the start line. -/
def endLine1 (k : HttpKind) : HttpMsg :=
  { m with
    _line1 := { m._line1 with end_ := m.size - 1 }
    _flag := k.flag2
    _line2 := { m._line2 with beg := m.size } }

/-- The end of its second part. -/
def endLine2 (k : HttpKind) : HttpMsg :=
  { m with
    _line2 := { m._line2 with end_ := m.size - 1 }
    _flag := k.flag3
    _line3 := { m._line3 with beg := m.size } }

/-- The end of the start line. -/
def endLine3 : HttpMsg :=
  { m with
    _line3 := { m._line3 with end_ := m.size - 2 }
    _flag := .head
    _header2 := { m._header2 with beg := m.size }
    _header := { m._header with beg := m.size }
    _assistflag := false }

/-- The header line that ends here goes to `_header_vec`. -/
def pushHeader : HttpMsg :=
  { m with
    _assistflag := false
    _header := { m._header with end_ := m.size }
    _header2 := { m._header2 with end_ := m.size }
    _header_vec := m._header_vec ++ [{ m._header2 with end_ := m.size }] }

/-- An empty line ends the head. -/
def startBody : HttpMsg := { m with _flag := .body }

/-- After another line the next one begins. -/
def startHeader : HttpMsg := { m with _flag := .head, _header2 := ⟨m.size, 0⟩ }

/-- `_ParseHead`. A line takes at least one byte, so the calls are no more than the
bytes and the first argument counts them. -/
def parseHead : ℕ → HttpMsg → List Byte → Except HttpFault (ℕ × HttpMsg)
  | 0, m, _ => .ok (0, m)
  | fuel + 1, m, buf =>
    if buf = [] then .ok (0, m)
    else
      match m.readLine buf with
      | .error e => .error e
      | .ok (false, copy_len, m) => .ok (copy_len, m)
      | .ok (true, copy_len, m) =>
        let m := m.pushHeader
        -- CR LF alone
        if m._header2.beg + 2 = m._header2.end_ then
          plus copy_len (m.startBody._parseBody (buf.drop copy_len))
        else plus copy_len (parseHead fuel m.startHeader (buf.drop copy_len))

def _parseHead (buf : List Byte) : Except HttpFault (ℕ × HttpMsg) := parseHead buf.length m buf

/-- `_ParseVer` of a request, `_ParseStatusPhrase` of a response. -/
def parseLine3 (buf : List Byte) : Except HttpFault (ℕ × HttpMsg) :=
  if buf = [] then .ok (0, m)
  else
    match m.readLine buf with
    | .error e => .error e
    | .ok (false, copy_len, m) => .ok (copy_len, m)
    | .ok (true, copy_len, m) => plus copy_len (m.endLine3._parseHead (buf.drop copy_len))

/-- `_ParseUrl`, `_ParseStatusCode`. -/
def parseLine2 (k : HttpKind) (buf : List Byte) : Except HttpFault (ℕ × HttpMsg) :=
  if buf = [] then .ok (0, m)
  else
    let (hit, copy_len) := parse1 sp buf
    match m.write buf copy_len with
    | .error e => .error e
    | .ok m =>
      if hit then plus copy_len ((m.endLine2 k).parseLine3 (buf.drop copy_len))
      else .ok (copy_len, m)

/-- `_ParseMethod`, `_ParseVer` of a response. -/
def parseLine1 (k : HttpKind) (buf : List Byte) : Except HttpFault (ℕ × HttpMsg) :=
  let (hit, copy_len) := parse1 sp buf
  match m.write buf copy_len with
  | .error e => .error e
  | .ok m =>
    if hit then plus copy_len ((m.endLine1 k).parseLine2 k (buf.drop copy_len))
    else .ok (copy_len, m)

/-- `Parse`. -/
def parse (k : HttpKind) (m : HttpMsg) (buf : List Byte) : Except HttpFault (ℕ × HttpMsg) :=
  if m._flag = k.flag1 then m.parseLine1 k buf
  else if m._flag = k.flag2 then m.parseLine2 k buf
  else if m._flag = k.flag3 then m.parseLine3 buf
  else if m._flag = .head then m._parseHead buf
  else if m._flag = .body then m._parseBody buf
  else .ok (0, m)

/-! ## What a message holds -/

/-- The bytes between two positions. -/
def substr (p : StrPos) : List Byte :=
  (m._buffer.drop p.beg.toNat).take (p.end_ - p.beg).toNat

def getLine1 : List Byte := if m._line1.end_ = 0 then [] else m.substr m._line1

def getLine2 : List Byte := if m._line2.end_ = 0 then [] else m.substr m._line2

def getLine3 : List Byte := if m._line3.end_ = 0 then [] else m.substr m._line3

def getHeader : List Byte := if m._header.end_ = 0 then [] else m.substr m._header

def getBody : List Byte := if m._body.end_ = 0 then [] else m.substr m._body

/-- What the calls of `NextHeader` return, from `InitHeaderIter` to the end. -/
def headers : List (List Byte) :=
  m._header_vec.map fun p => m.substr { p with end_ := p.end_ - 2 }

end HttpMsg

/-! ## The two classes -/

/-- `HttpSvrRecvMsg::Parse`, whose start line is the method, the URL and the version. -/
def HttpSvrRecvMsg.parse : HttpMsg → List Byte → Except HttpFault (ℕ × HttpMsg) :=
  HttpMsg.parse .svr

/-- `HttpCliRecvMsg::Parse`, whose start line is the version, the status code and the
status phrase. -/
def HttpCliRecvMsg.parse : HttpMsg → List Byte → Except HttpFault (ℕ × HttpMsg) :=
  HttpMsg.parse .cli

end Netlib
