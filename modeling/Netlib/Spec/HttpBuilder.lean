import Netlib.Spec.HttpReply

/-!
# Building a reply (`netio/httpmsg.hpp`)

All setters of `HttpSvrSendMsg`, called in any order, against what a reply is: parts that
are added in their places. `SetSever` and `SetDate` call `Buffer::Write` with one argument
of type `void*`, and the overload that is taken writes the pointer.
-/

namespace Netlib

open HttpMsg

/-- A pointer in memory, on a 64-bit host. -/
structure Pointer where
  bytes : List Byte
  size : bytes.length = 8

/-- Where the literals of `SetSever` and `SetDate` are. -/
structure Literals where
  server : Pointer
  serverEnd : Pointer
  date : Pointer
  dateEnd : Pointer

namespace HttpSvrSendMsg

variable (s : HttpSvrSendMsg)

def setSever (at_ : Literals) (svr : List Byte) : Bool × HttpSvrSendMsg :=
  s.set .server startFlags (at_.server.bytes ++ svr ++ at_.serverEnd.bytes)

def setDate (at_ : Literals) (date : List Byte) : Bool × HttpSvrSendMsg :=
  s.set .date startFlags (at_.date.bytes ++ date ++ at_.dateEnd.bytes)

/-- A header setter returns false: it has been called, or the start line is not there. -/
def Refuses (own : SendFlag) : Prop := ¬ (own ∉ s._flag ∧ ∀ f ∈ startFlags, f ∈ s._flag)

end HttpSvrSendMsg

open HttpSvrSendMsg

/-- A call of any setter. -/
inductive SvrCall
  | part (c : SetCall)
  | setSever (svr : List Byte)
  | setDate (date : List Byte)
  | setBody (body : List Byte)

/-! ## What a reply is -/

/-- `Name: value` and CR LF. -/
structure HeaderField where
  name : List Byte
  value : List Byte
  deriving DecidableEq

namespace HeaderField

def bytes (f : HeaderField) : List Byte := f.name ++ [58, sp] ++ f.value ++ [cr, lf]

structure WellFormed (f : HeaderField) : Prop where
  name_ne : f.name ≠ []
  name : ∀ x ∈ f.name, x ≠ 58 ∧ x ≠ cr ∧ x ≠ lf
  value : line f.value = none

/-- The name in a literal that ends in a colon and a blank. -/
def nameOf (literal : List Byte) : List Byte := literal.take (literal.length - 2)

/-- `Server`. -/
def server : List Byte := chars ['S', 'e', 'r', 'v', 'e', 'r']

/-- `Date`. -/
def date : List Byte := chars ['D', 'a', 't', 'e']

end HeaderField

/-- **How far a reply is.** -/
inductive Draft
  | empty
  | version (ver : List Byte)
  | status (ver code : List Byte)
  | head (ver code phrase : List Byte) (fields : List HeaderField)
  | whole (ver code phrase : List Byte) (fields : List HeaderField) (body : List Byte)

namespace Draft

def bytes : Draft → List Byte
  | empty => []
  | version ver => ver ++ [sp]
  | status ver code => ver ++ [sp] ++ (code ++ [sp])
  | head ver code phrase fields => startLine ver code phrase ++ fields.flatMap HeaderField.bytes
  | whole ver code phrase fields body =>
    startLine ver code phrase ++ fields.flatMap HeaderField.bytes ++ [cr, lf] ++ body

/-- No CR LF inside a part of the start line, and header fields that are well formed. -/
def WellFormed : Draft → Prop
  | empty => True
  | version ver => line ver = none
  | status ver code => line ver = none ∧ line code = none
  | head ver code phrase fields | whole ver code phrase fields _ =>
    line ver = none ∧ line code = none ∧ line phrase = none ∧ ∀ f ∈ fields, f.WellFormed

def addField (f : HeaderField) : Draft → Option Draft
  | head ver code phrase fields => some (head ver code phrase (fields ++ [f]))
  | _ => none

/-- The parts that `SetBody` adds when they are missing. -/
def orVersion : Draft → Draft
  | empty => version defaultVersion
  | d => d

def orStatus : Draft → Draft
  | version ver => status ver defaultStatus
  | d => d

def orPhrase : Draft → Draft
  | status ver code => head ver code defaultPhrase []
  | d => d

def typeField (value : List Byte) : HeaderField := ⟨HeaderField.nameOf typeName, value⟩

/-- The fields so far. -/
def fields : Draft → List HeaderField
  | head _ _ _ fields | whole _ _ _ fields _ => fields
  | _ => []

def hasType (d : Draft) : Bool := d.fields.any fun f => f.name = HeaderField.nameOf typeName

def orType (d : Draft) : Draft :=
  if d.hasType then d else (d.addField (typeField defaultType)).getD d

/-- The length of the body, the empty line and the body. -/
def finish (body : List Byte) : Draft → Option Draft
  | head ver code phrase fields =>
    some (whole ver code phrase
      (fields ++ [⟨HeaderField.nameOf _constr, decimal body.length⟩]) body)
  | _ => none

/-- **A call adds its own part**, where the part is due. -/
def add (d : Draft) : SvrCall → Option Draft
  | .part (.setHttpVersion ver) => match d with
    | empty => some (version ver)
    | _ => none
  | .part (.setStatusCode code) => match d with
    | version ver => some (.status ver code)
    | _ => none
  | .part (.setStatusPhrase phrase) => match d with
    | status ver code => some (head ver code phrase [])
    | _ => none
  | .part (.setLocation v) => d.addField ⟨HeaderField.nameOf locationName, v⟩
  | .part (.setContentEncode v) => d.addField ⟨HeaderField.nameOf encodingName, v⟩
  | .part (.setContentType v) => d.addField (typeField v)
  | .part (.setContentLanguage v) => d.addField ⟨HeaderField.nameOf languageName, v⟩
  | .setSever v => d.addField ⟨HeaderField.server, v⟩
  | .setDate v => d.addField ⟨HeaderField.date, v⟩
  | .setBody body => d.orVersion.orStatus.orPhrase.orType.finish body

end Draft

namespace SvrCall

def run (at_ : Literals) (s : HttpSvrSendMsg) : SvrCall → Except HttpFault (Bool × HttpSvrSendMsg)
  | part c => .ok (c.run s)
  | setSever svr => .ok (s.setSever at_ svr)
  | setDate date => .ok (s.setDate at_ date)
  | setBody body => s.setBody body body.length

/-- No CR LF in an argument, and a body whose length is an `int`. -/
def Valid : SvrCall → Prop
  | part (.setHttpVersion v) | part (.setStatusCode v) | part (.setStatusPhrase v)
  | part (.setLocation v) | part (.setContentEncode v) | part (.setContentType v)
  | part (.setContentLanguage v) | setSever v | setDate v => line v = none
  | setBody body => body.length < 2 ^ 31

instance : DecidablePred Valid
  | part (.setHttpVersion v) | part (.setStatusCode v) | part (.setStatusPhrase v)
  | part (.setLocation v) | part (.setContentEncode v) | part (.setContentType v)
  | part (.setContentLanguage v) | setSever v | setDate v => inferInstanceAs (Decidable (line v = none))
  | setBody body => inferInstanceAs (Decidable (body.length < 2 ^ 31))

/-- **What is expected of calls** on the object `s` with the reply `d`: the buffer is a well
formed reply as far as it goes; a call that returns true adds its own part in its place, one
that returns false changes nothing. -/
def Builds (at_ : Literals) : HttpSvrSendMsg → Draft → List SvrCall → Prop
  | s, d, [] => s._pbuffer = d.bytes ∧ d.WellFormed
  | s, d, c :: cs => (s._pbuffer = d.bytes ∧ d.WellFormed) ∧
    ∃ ok s', c.run at_ s = .ok (ok, s') ∧
      if ok then ∃ d', d.add c = some d' ∧ Builds at_ s' d' cs else s' = s ∧ Builds at_ s d cs

/-- **The condition on a call**: `SetSever` and `SetDate` return false, and so does a header
setter when there is a body. -/
def CallOk (s : HttpSvrSendMsg) : SvrCall → Prop
  | setSever _ => s.Refuses .server
  | setDate _ => s.Refuses .date
  | part c => c.field?.isSome → .body ∈ s._flag → s.Refuses c.flag
  | setBody _ => True

def CallsOk (at_ : Literals) : HttpSvrSendMsg → List SvrCall → Prop
  | _, [] => True
  | s, c :: cs => CallOk s c ∧ ∀ ok s', c.run at_ s = .ok (ok, s') → CallsOk at_ s' cs

end SvrCall

end Netlib
