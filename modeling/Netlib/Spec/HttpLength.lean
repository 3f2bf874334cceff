import Netlib.Spec.HttpSocket

/-!
# The Content-Length of a head (`netio/httpmsg.hpp`)

What a head says about the length of the body, by the names of its header lines, to be
compared with `_CheckContentLen`, and what is expected of the end of a head without a
body.
-/

namespace Netlib

namespace HttpMsg

/-- `Content-Length:`. -/
def lengthName : List Byte := _constr.take 15

/-- A line whose field name is exactly `Content-Length`. -/
def named (l : List Byte) : Bool := lengthName.isPrefixOf l

/-- **A Content-Length line**: after the name `k` blanks, then the digits `ds`. -/
structure LengthLine (l : List Byte) (k : ℕ) (ds : List Byte) : Prop where
  line : l = lengthName ++ List.replicate k sp ++ ds
  pos : 1 ≤ ds.length
  count : ds.length ≤ 10
  digits : ∀ x ∈ ds, 48 ≤ x ∧ x ≤ 57
  bound : HttpText.value ds < 2 ^ 31

/-- The parser holds exactly the head of the message. -/
def AtHead (k : HttpKind) (t : HttpText) (m : HttpMsg) : Prop :=
  ∃ chunks ns, chunks.flatten = t.head ∧ Lib.Parser.feed (parse k) (clear k) chunks = .ok (ns, m)

/-- **What is expected of the look-up** after the head of `t`: the value of the first
line with the name, 0 without one, and the same without the lines of other names. -/
structure Lookup (k : HttpKind) (t : HttpText) (r : Except HttpFault ℤ) : Prop where
  found : ∀ l n ds, t.headers.find? named = some l → LengthLine l n ds → r = .ok (HttpText.value ds)
  absent : t.headers.find? named = none → r = .ok 0
  others : ∀ (u : HttpText) m, u.headers = t.headers.filter named → AtHead k u m →
    m._checkContentLen = r

/-- A Content-Length line that is read right: the character after the name is passed, and
a value of 11 characters leaves no room for the NUL. -/
def FormOk (n : ℕ) (ds : List Byte) : Prop := n = 0 ∧ ds.head? = some 48 ∨ 1 ≤ n ∧ n + ds.length ≤ 11

/-- What a line with the 14 characters is read as, 0 without one. -/
def lineLen : Option (List Byte) → Except HttpFault ℤ
  | none => .ok 0
  | some l => readLen (lenValue l)

/-- **The condition on the header lines.** A line of another name that begins with the 14
characters and comes first must happen to be read as the Content-Length line. -/
structure LookupOk (ls : List (List Byte)) : Prop where
  form : ∀ l n ds, ls.find? named = some l → LengthLine l n ds → FormOk n ds
  other : ∀ l, ls.find? isContentLen = some l → named l = false →
    readLen (lenValue l) = lineLen (ls.find? fun l => named l && isContentLen l)

/-- Header lines without a Content-Length, or where its value is 0. -/
def NoBody (ls : List (List Byte)) : Prop :=
  ∀ l, ls.find? named = some l →
    ∃ n z, l = lengthName ++ List.replicate n sp ++ List.replicate (z + 1) 48

/-- A value that is read as 0. -/
def ReadsZero (v : List Byte) : Prop := v.length ≤ scratchSize ∧ atoi (scratch v) = some 0

/-- **What is expected of the end of a head**: after the read with its last byte the
parser is over, and it has taken nothing after the head. -/
def Completes (k : HttpKind) (t : HttpText) (reads : List (List Byte)) : Prop :=
  ∃ ns m, Lib.Parser.feed (parse k) (clear k) reads = .ok (ns, m) ∧ m._flag = .over ∧
    m._buffer = t.head

end HttpMsg

end Netlib
