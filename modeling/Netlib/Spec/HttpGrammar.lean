import Netlib.Spec.HttpMsg
import Netlib.Lib.Resumable

/-!
# The head of an HTTP message

What the head of a stream is, from its bytes alone: two parts that a blank ends, a
third that CR LF ends, header lines up to an empty one. `HeadOk` is the condition on
the stream under which `_CheckContentLen` gives the parser a length it can use.
-/

namespace Netlib

namespace HttpMsg

/-- The bytes before and after the first `c`. -/
def token (c : Byte) : List Byte → Option (List Byte × List Byte)
  | [] => none
  | x :: t => if x = c then some ([], t) else (token c t).map fun (a, b) => (x :: a, b)

/-- The bytes before and after the first CR LF. -/
def line : List Byte → Option (List Byte × List Byte)
  | x :: y :: t =>
    if x = cr ∧ y = lf then some ([], t) else (line (y :: t)).map fun (a, b) => (x :: a, b)
  | _ => none

/-- The header lines up to the empty one, and what follows it; `n` bounds their number. -/
def headerLines : ℕ → List Byte → Option (List (List Byte) × List Byte)
  | 0, _ => none
  | n + 1, s =>
    match line s with
    | none => none
    | some ([], t) => some ([], t)
    | some (l, t) => (headerLines n t).map fun (ls, r) => (l :: ls, r)

/-- The bytes of a start line. -/
def startLine (l1 l2 l3 : List Byte) : List Byte := l1 ++ [sp] ++ (l2 ++ [sp]) ++ (l3 ++ [cr, lf])

/-- The bytes of header lines, then of the empty line. -/
def lineBytes (ls : List (List Byte)) : List Byte := (ls.flatMap fun l => l ++ [cr, lf]) ++ [cr, lf]

/-- The header lines of a stream whose head is complete, and what follows the head. -/
def headOf (s : List Byte) : Option (List (List Byte) × List Byte) := do
  let (_, s) ← token sp s
  let (_, s) ← token sp s
  let (_, s) ← line s
  headerLines s.length s

/-- A line that `_CheckContentLen` takes for the Content-Length: 16 characters or more,
the first 14 of which are the name. The 15th is not looked at. -/
def isContentLen (l : List Byte) : Bool := 16 ≤ l.length && l.take 14 == _constr.take 14

/-- The value of such a line, from the 17th character to the first CR. -/
def lenValue (l : List Byte) : List Byte := (l.drop 16).takeWhile (· ≠ cr)

/-- The scratch array with a value. -/
def scratch (v : List Byte) : List Byte := v ++ List.replicate (scratchSize - v.length) 0

/-- What `_CheckContentLen` makes of a value. -/
def readLen (v : List Byte) : Except HttpFault ℤ :=
  if v.length ≤ scratchSize then
    match atoi (scratch v) with
    | none => .error .scratchRead
    | some z => .ok z
  else .error .scratchWrite

/-- What it makes of the header lines. -/
def contentLen (ls : List (List Byte)) : Except HttpFault ℤ :=
  match ls.find? isContentLen with
  | none => .ok 0
  | some l => readLen (lenValue l)

/-- **A value that is read safely**: it fits the scratch array, `atoi` stops inside the
array, and the number is not negative. -/
def ValueOk (v : List Byte) : Prop := v.length ≤ scratchSize ∧ ∃ z, atoi (scratch v) = some z ∧ 0 ≤ z

/-- **The condition on a stream**: when its head is complete and a byte follows, the
value of its first Content-Length line is read safely. -/
def HeadOk (s : List Byte) : Prop :=
  ∀ ls rest, headOf s = some (ls, rest) → rest ≠ [] →
    ∀ l, ls.find? isContentLen = some l → ValueOk (lenValue l)

/-- The states that calls of `Parse` reach from `Clear`. -/
abbrev Reachable (k : HttpKind) (m : HttpMsg) : Prop :=
  Lib.Reach (Lib.Parser.step (parse k)) Lib.always (clear k) m

end HttpMsg

end Netlib
