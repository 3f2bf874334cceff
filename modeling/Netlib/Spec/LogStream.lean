import Netlib.Spec.HttpReply
import Netlib.Spec.Logger

/-!
# Log records (`base/logger.hpp`)

A `logimpl` writes the header of a record to its `logstream`, the program streams values to it, and
the destructor adds a newline and gives the bytes to `logger::log`. A number is written by
`_convert`, which drops it when fewer than 32 bytes are free; everything else is written by
`append`, which cuts it. `%d` and `%0X` print the low 32 bits of a value.
-/

namespace Netlib

open HttpSvrSendMsg (decimal)

/-- The text of a double by `%.12g`, which is shorter than 32 characters. -/
structure DoubleText where
  text : List Byte
  lt : text.length < 32

/-- A value that is streamed, by its overload of `operator<<`. An array of characters has its null
character at the end, and `pchar` is the memory at the pointer. -/
inductive LogValue
  | bool (value : Bool)
  | short (value : BitVec 16)
  | ushort (value : BitVec 16)
  | int (value : BitVec 32)
  | uint (value : BitVec 32)
  | longlong (value : BitVec 64)
  | ulonglong (value : BitVec 64)
  | float (value : DoubleText)
  | double (value : DoubleText)
  | char (value : Byte)
  | string (value : List Byte)
  | array (value : List Byte)
  | pchar (value : List Byte)
  | pointer (value : BitVec 64)

/-- How a value is written: its bytes with `append`, or what the format prints with `_convert`. -/
inductive LogPiece
  | append (data : List Byte)
  | convert (printed : List Byte)

/-- `snprintf` with `%0X`. -/
def hexadecimal (n : ℕ) : List Byte :=
  let digits := if n = 0 then [0] else (Nat.digits 16 n).reverse
  digits.map fun d => .ofNat (if d < 10 then 48 + d else 55 + d)

/-- What `%d` prints of a value: it takes 32 bits. -/
def printD {w : ℕ} (value : BitVec w) : List Byte := decimal (value.setWidth 32).toInt

/-- What `0x%0X` prints of a value: it takes 32 bits. -/
def printX {w : ℕ} (value : BitVec w) : List Byte :=
  chars ['0', 'x'] ++ hexadecimal (value.setWidth 32).toNat

/-- What `snprintf` writes to `n` bytes, its null character included. -/
def snprintf (n : ℕ) (text : List Byte) : List Byte := text.take (n - 1) ++ [0]

namespace LogValue

/-- `operator<<`, by the type of the value. -/
def piece : LogValue → LogPiece
  | bool value => .append (chars [if value then '1' else '0'])
  | short value => .convert (printD (value.signExtend 32))
  | ushort value => .convert (printD (value.setWidth 32))
  | int value => .convert (printD value)
  | uint value => .convert (printD value)
  | longlong value => .convert (printD value)
  | ulonglong value => .convert (printD value)
  | float value => .convert value.text
  | double value => .convert value.text
  | char value => .append [value]
  | string value => .append value
  | array value => .append (value.take (value.length - 1))
  | pchar value => .append (value.takeWhile (· != 0))
  | pointer value => .convert (printX value)

/-- The text of a value. -/
def text : LogValue → List Byte
  | bool value => chars [if value then '1' else '0']
  | short value => decimal value.toInt
  | ushort value => decimal value.toNat
  | int value => decimal value.toInt
  | uint value => decimal value.toNat
  | longlong value => decimal value.toInt
  | ulonglong value => decimal value.toNat
  | float value => value.text
  | double value => value.text
  | char value => [value]
  | string value => value
  | array value => value.take (value.length - 1)
  | pchar value => value.takeWhile (· != 0)
  | pointer value => chars ['0', 'x'] ++ hexadecimal value.toNat

end LogValue

/-- `seek(incr)` over the bytes `written` at `current()`. -/
def Fixedbuffer.seek {SIZE : ℕ} (b : Fixedbuffer SIZE) (written : List Byte) (incr : ℕ) :
    Fixedbuffer SIZE := b.append (written.take incr)

/-- `logstream::buffer_type`. -/
abbrev Logstream := Fixedbuffer (4 * 1024)

namespace Logstream

variable (s : Logstream)

/-- `_convert` of a value of which the format prints `text`. -/
def _convert (text : List Byte) : Logstream :=
  if s.avail ≥ 32 then s.seek (snprintf s.avail text) text.length else s

/-- `operator<<`. -/
def put (value : LogValue) : Logstream :=
  match value.piece with
  | .append data => s.append data
  | .convert printed => s._convert printed

end Logstream

/-- `loglevel`. -/
inductive Loglevel
  | trace
  | debug
  | info
  | warn
  | error
  | fatal
  deriving DecidableEq

/-- `logger::_level_desc`. -/
def Loglevel.desc : Loglevel → List Byte
  | trace => chars ['T', 'R', 'A', 'C', 'E', ' ']
  | debug => chars ['D', 'E', 'B', 'U', 'G', ' ']
  | info => chars ['I', 'N', 'F', 'O', ' ', ' ']
  | warn => chars ['W', 'A', 'R', 'N', ' ', ' ']
  | error => chars ['E', 'R', 'R', 'O', 'R', ' ']
  | fatal => chars ['F', 'A', 'T', 'A', 'L', ' ']

/-- What the thread has for its records: `logtime` with its two arrays, and the string of
`logthread`. -/
structure LogThread where
  _time_str : List Byte
  _mil_str : List Byte
  _thrid : List Byte
  time_length : _time_str.length = 32
  mil_length : _mil_str.length = 10
  thrid_length : _thrid.length ≤ 32

namespace LogThread

variable (t : LogThread)

/-- The header of a record. -/
def header (level : Loglevel) : List Byte :=
  t._time_str.take 17 ++ t._mil_str.take 5 ++ level.desc ++ t._thrid

/-- The constructor of `logimpl`. -/
def logimpl (level : Loglevel) : Logstream :=
  let s := (Fixedbuffer.new.append (t._time_str.take 17)).append (t._mil_str.take 5)
  (s.append level.desc).append t._thrid

/-- The record of the values: what the destructor of `logimpl` gives to `logger::log`. -/
def record (level : Loglevel) (values : List LogValue) : List Byte :=
  ((values.foldl Logstream.put (t.logimpl level)).append (chars ['\n'])).data

end LogThread

/-- The text of the values, one after the other. -/
def textOf (values : List LogValue) : List Byte := values.flatMap LogValue.text

namespace LogThread

/-- **Records stay separate lines**: a header, a prefix of the text, and a newline. -/
def Separate (t : LogThread) (level : Loglevel) (values : List LogValue) : Prop :=
  (t.record level values).length ≤ 4 * 1024 ∧ ∃ text, text <+: textOf values ∧
    t.record level values = t.header level ++ text ++ chars ['\n']

end LogThread

/-! ## The condition on the values -/

/-- A string at a level where it does not leave a byte of the buffer is cut behind a newline. -/
def CutAtNewline (level : ℕ) (data : List Byte) : Prop :=
  data[4 * 1024 - 1 - level]? = some 10

/-- What is printed of the values from a level on is what `text` goes on with. -/
def GoesOn : ℕ → List Byte → List LogValue → Prop
  | _, _, [] => True
  | level, text, value :: values =>
    match value.piece with
    | .append data =>
      if level + data.length < 4 * 1024 then
        data <+: text ∧ GoesOn (level + data.length) (text.drop data.length) values
      else data.take (4 * 1024 - 1 - level) <+: text ∧ CutAtNewline level data
    | .convert printed =>
      if level + 32 ≤ 4 * 1024 then
        printed <+: text ∧ GoesOn (level + printed.length) (text.drop printed.length) values
      else GoesOn level text values

/-- **The condition on the values**, from a level of the buffer on: they leave a byte for the
newline, or are cut behind a newline of their own; and each number finds 32 bytes and is printed in
full, or what is printed from there on happens to be what the text goes on with. -/
def Fit : ℕ → List LogValue → Prop
  | _, [] => True
  | level, value :: values =>
    match value.piece with
    | .append data =>
      if level + data.length < 4 * 1024 then Fit (level + data.length) values
      else CutAtNewline level data
    | .convert printed =>
      if level + 32 ≤ 4 * 1024 ∧ printed = value.text then Fit (level + printed.length) values
      else GoesOn level (textOf (value :: values)) (value :: values)

end Netlib
