import Netlib.Spec.HttpSocket
import Mathlib.Data.Nat.Digits.Defs

/-!
# HTTP replies (`netio/httpmsg.hpp`)

`HttpSvrSendMsg` builds a response part by part. A part is written once, in the order
version, status code, status phrase, header fields, and `SetBody` writes what is still
missing. `_pbuffer` is the content of the `Buffer`. A C string is the list of its
characters without the final NUL. A call that is out of order returns false; with
assertions it does not return.
-/

namespace Netlib

/-- The bits of `_flag`. -/
inductive SendFlag
  | ver
  | statusCode
  | statusPhrase
  | location
  | contCoding
  | contType
  | contLanguage
  | date
  | server
  | body
  deriving DecidableEq

structure HttpSvrSendMsg where
  _pbuffer : List Byte
  _flag : List SendFlag
  deriving DecidableEq

namespace HttpSvrSendMsg

open HttpMsg

/-- The constructor. -/
def new : HttpSvrSendMsg := ⟨[], []⟩

variable (s : HttpSvrSendMsg)

/-- What the setters have in common: the bit `own` is not set yet, those of `needs` are,
then the bytes are written and `own` is set. -/
def set (own : SendFlag) (needs : List SendFlag) (bytes : List Byte) : Bool × HttpSvrSendMsg :=
  if own ∉ s._flag ∧ ∀ f ∈ needs, f ∈ s._flag then
    (true, { _pbuffer := s._pbuffer ++ bytes, _flag := own :: s._flag })
  else (false, s)

def setHttpVersion (ver : List Byte) : Bool × HttpSvrSendMsg := s.set .ver [] (ver ++ [sp])

def setStatusCode (status : List Byte) : Bool × HttpSvrSendMsg :=
  s.set .statusCode [.ver] (status ++ [sp])

def setStatusPhrase (phrase : List Byte) : Bool × HttpSvrSendMsg :=
  s.set .statusPhrase [.ver, .statusCode] (phrase ++ [cr, lf])

/-- The bits of the start line. -/
def startFlags : List SendFlag := [.ver, .statusCode, .statusPhrase]

/-- `"Location: "`. -/
def locationName : List Byte := chars ['L', 'o', 'c', 'a', 't', 'i', 'o', 'n', ':', ' ']

/-- `"Content-Encoding: "`. -/
def encodingName : List Byte :=
  chars ['C', 'o', 'n', 't', 'e', 'n', 't', '-', 'E', 'n', 'c', 'o', 'd', 'i', 'n', 'g', ':', ' ']

/-- `"Content-Type: "`. -/
def typeName : List Byte :=
  chars ['C', 'o', 'n', 't', 'e', 'n', 't', '-', 'T', 'y', 'p', 'e', ':', ' ']

/-- `"Content-Language: "`. -/
def languageName : List Byte :=
  chars ['C', 'o', 'n', 't', 'e', 'n', 't', '-', 'L', 'a', 'n', 'g', 'u', 'a', 'g', 'e', ':', ' ']

def setLocation (location : List Byte) : Bool × HttpSvrSendMsg :=
  s.set .location startFlags (locationName ++ location ++ [cr, lf])

def setContentEncode (encode : List Byte) : Bool × HttpSvrSendMsg :=
  s.set .contCoding startFlags (encodingName ++ encode ++ [cr, lf])

def setContentType (type : List Byte) : Bool × HttpSvrSendMsg :=
  s.set .contType startFlags (typeName ++ type ++ [cr, lf])

def setContentLanguage (language : List Byte) : Bool × HttpSvrSendMsg :=
  s.set .contLanguage startFlags (languageName ++ language ++ [cr, lf])

/-- `"HTTP/1.1"`. -/
def defaultVersion : List Byte := chars ['H', 'T', 'T', 'P', '/', '1', '.', '1']

/-- `"200"`. -/
def defaultStatus : List Byte := chars ['2', '0', '0']

/-- `"OK"`. -/
def defaultPhrase : List Byte := chars ['O', 'K']

/-- `"text/html;charset=utf-8"`. -/
def defaultType : List Byte :=
  chars ['t', 'e', 'x', 't', '/', 'h', 't', 'm', 'l', ';', 'c', 'h', 'a', 'r', 's', 'e', 't',
    '=', 'u', 't', 'f', '-', '8']

/-- `if (!(_flag & f)) set(…)`, where the result of the setter is not looked at. -/
def orSet (f : SendFlag) (set : HttpSvrSendMsg → Bool × HttpSvrSendMsg) : HttpSvrSendMsg :=
  if f ∈ s._flag then s else (set s).2

/-- What `SetBody` writes for the parts that are missing. -/
def setMissing : HttpSvrSendMsg :=
  (((s.orSet .ver (·.setHttpVersion defaultVersion)).orSet .statusCode
    (·.setStatusCode defaultStatus)).orSet .statusPhrase
    (·.setStatusPhrase defaultPhrase)).orSet .contType (·.setContentType defaultType)

/-- `snprintf` with `%d`. -/
def decimal (z : ℤ) : List Byte :=
  let digits := if z = 0 then [0] else (Nat.digits 10 z.natAbs).reverse
  (if z < 0 then [45] else []) ++ digits.map fun d => .ofNat (48 + d)

/-- `SetBody`, where `body` is the memory that the pointer points to. -/
def setBody (body : List Byte) (len : ℤ) : Except HttpFault (Bool × HttpSvrSendMsg) :=
  if .body ∈ s._flag then .ok (false, s)
  else
    let s := s.setMissing
    let head := s._pbuffer ++ _constr ++ decimal len ++ [cr, lf, cr, lf]
    if 0 ≤ len ∧ len ≤ body.length then
      .ok (true, { _pbuffer := head ++ body.take len.toNat, _flag := .body :: s._flag })
    else .error (.write len)

end HttpSvrSendMsg

/-! ## What a program sets -/

/-- A call of a setter. -/
inductive SetCall
  | setHttpVersion (ver : List Byte)
  | setStatusCode (status : List Byte)
  | setStatusPhrase (phrase : List Byte)
  | setLocation (location : List Byte)
  | setContentEncode (encode : List Byte)
  | setContentType (type : List Byte)
  | setContentLanguage (language : List Byte)
  deriving DecidableEq

namespace SetCall

open HttpMsg HttpSvrSendMsg

def run (s : HttpSvrSendMsg) : SetCall → Bool × HttpSvrSendMsg
  | setHttpVersion ver => s.setHttpVersion ver
  | setStatusCode status => s.setStatusCode status
  | setStatusPhrase phrase => s.setStatusPhrase phrase
  | setLocation location => s.setLocation location
  | setContentEncode encode => s.setContentEncode encode
  | setContentType type => s.setContentType type
  | setContentLanguage language => s.setContentLanguage language

/-- One call after the other; `none` when one returns false. -/
def runAll : HttpSvrSendMsg → List SetCall → Option HttpSvrSendMsg
  | s, [] => some s
  | s, c :: cs =>
    match c.run s with
    | (true, s) => runAll s cs
    | (false, _) => none

def flag : SetCall → SendFlag
  | setHttpVersion _ => .ver
  | setStatusCode _ => .statusCode
  | setStatusPhrase _ => .statusPhrase
  | setLocation _ => .location
  | setContentEncode _ => .contCoding
  | setContentType _ => .contType
  | setContentLanguage _ => .contLanguage

/-- The header line that a call writes. -/
def field? : SetCall → Option (List Byte)
  | setLocation location => some (locationName ++ location)
  | setContentEncode encode => some (encodingName ++ encode)
  | setContentType type => some (typeName ++ type)
  | setContentLanguage language => some (languageName ++ language)
  | _ => none

/-- No blank in the version and the status code, no CR LF in a phrase and a value. -/
def Valid : SetCall → Prop
  | setHttpVersion v | setStatusCode v => sp ∉ v
  | setStatusPhrase v | setLocation v | setContentEncode v | setContentType v
  | setContentLanguage v => line v = none

instance : DecidablePred Valid
  | setHttpVersion v | setStatusCode v => inferInstanceAs (Decidable (sp ∉ v))
  | setStatusPhrase v | setLocation v | setContentEncode v | setContentType v
  | setContentLanguage v => inferInstanceAs (Decidable (line v = none))

/-- **The calls before `SetBody`**: the start line or a beginning of it, and after a
whole one any of the header fields, in any order. -/
inductive InOrder : List SetCall → Prop
  | missing : InOrder []
  | version (ver : List Byte) : InOrder [setHttpVersion ver]
  | status (ver status : List Byte) : InOrder [setHttpVersion ver, setStatusCode status]
  | fields (ver status phrase : List Byte) (cs : List SetCall) (hfield : ∀ c ∈ cs, c.field?.isSome)
      (hnodup : (cs.map flag).Nodup) :
      InOrder ([setHttpVersion ver, setStatusCode status, setStatusPhrase phrase] ++ cs)

/-- The version that a reply has, set or not. -/
def versionOf (cs : List SetCall) : List Byte :=
  (cs.findSome? fun | setHttpVersion v => some v | _ => none).getD defaultVersion

def statusOf (cs : List SetCall) : List Byte :=
  (cs.findSome? fun | setStatusCode v => some v | _ => none).getD defaultStatus

def phraseOf (cs : List SetCall) : List Byte :=
  (cs.findSome? fun | setStatusPhrase v => some v | _ => none).getD defaultPhrase

/-- Its header lines for a body of `n` bytes. -/
def fieldsOf (cs : List SetCall) (n : ℕ) : List (List Byte) :=
  cs.filterMap field? ++
    (if .contType ∈ cs.map flag then [] else [typeName ++ defaultType]) ++ [_constr ++ decimal n]

end SetCall

/-! ## What the client reads -/

namespace HttpMsg

/-- `NextHeader`. -/
def nextHeader (m : HttpMsg) : List Byte × HttpMsg :=
  match m._header_vec[m._header_iter]? with
  | none => ([], m)
  | some p => (m.substr { p with end_ := p.end_ - 2 }, { m with _header_iter := m._header_iter + 1 })

/-- `InitHeaderIter`. -/
def initHeaderIter (m : HttpMsg) : HttpMsg := { m with _header_iter := 0 }

/-- The results of `n` calls of `NextHeader`. -/
def nextHeaders : ℕ → HttpMsg → List (List Byte)
  | 0, _ => []
  | n + 1, m => m.nextHeader.1 :: nextHeaders n m.nextHeader.2

end HttpMsg

namespace HttpCliRecvMsg

def getVersion (m : HttpMsg) : List Byte := m.getLine1

def getStatusCode (m : HttpMsg) : List Byte := m.getLine2

def getStatusPhrase (m : HttpMsg) : List Byte := m.getLine3

/-- **The reply as it was set**: every getter returns what the calls wrote. The empty line
is the last header; after it `NextHeader` has nothing more to return. -/
structure Holds (m : HttpMsg) (cs : List SetCall) (body : List Byte) : Prop where
  version : getVersion m = SetCall.versionOf cs
  status : getStatusCode m = SetCall.statusOf cs
  phrase : getStatusPhrase m = SetCall.phraseOf cs
  headers : ∀ n, m.initHeaderIter.nextHeaders n =
    (SetCall.fieldsOf cs body.length ++ List.replicate n []).take n
  body : m.getBody = body

end HttpCliRecvMsg

end Netlib
