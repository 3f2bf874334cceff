import Netlib.Lib.Run
import Netlib.Spec.LogStream
import Netlib.Spec.TypedBuffer

/-!
# Log files (`base/logger.hpp`)

`logfile::write` rolls to a new file when the day has changed and when the file has reached its
size. The name of a file is made in an array of 100 bytes, and `fopen` with `w+` empties the file.
`localtime` and what `fopen` and `fwrite` return are given from outside. A call of `fwrite` on a
null pointer is `none`.
-/

namespace Netlib

open Lib
open Function (update)
open HttpSvrSendMsg (decimal)

/-- What the logger reads of `struct tm`. -/
structure Tm where
  tm_year : ℤ
  tm_mon : ℕ
  tm_mday : ℕ
  deriving DecidableEq

/-- `localtime_r`. -/
abbrev Localtime := ℤ → Tm

/-- Two digits of a number, as `strftime` prints `%m` and `%d`. -/
def twoDigits (n : ℕ) : List Byte := [.ofNat (48 + n / 10 % 10), .ofNat (48 + n % 10)]

section

variable (localtime : Localtime)

/-- `_getcurtime_`: `%Y%m%d`. -/
def _getcurtime_ (now : ℤ) : List Byte :=
  let ltm := localtime now
  decimal (ltm.tm_year + 1900) ++ twoDigits (ltm.tm_mon + 1) ++ twoDigits ltm.tm_mday

/-- What `_logname_` prints before the index. -/
def logstem (now : ℤ) (pid filename : List Byte) (withpid : Bool) : List Byte :=
  if withpid then
    cstr filename ++ chars ['_'] ++ _getcurtime_ localtime now ++ chars ['_'] ++ pid ++ chars ['_']
  else cstr filename ++ chars ['_'] ++ _getcurtime_ localtime now ++ chars ['_']

/-- `%d` of the index, a `size_t`. -/
def indexText (logidx : ℕ) : List Byte := printD (BitVec.ofNat 64 logidx)

/-- `_logname_`: what fits into `tmp_buf`, which has no null character but its last. -/
def _logname_ (now : ℤ) (pid filename : List Byte) (logidx : ℕ) (withpid : Bool) : List Byte :=
  (logstem localtime now pid filename withpid ++ indexText logidx ++
    chars ['.', 'l', 'o', 'g']).take (100 - 1)

/-- `_issameday_`. -/
def _issameday_ (t1 t2 : ℤ) : Bool :=
  let ltm1 := localtime t1
  let ltm2 := localtime t2
  ltm1.tm_year == ltm2.tm_year && ltm1.tm_mon == ltm2.tm_mon && ltm1.tm_mday == ltm2.tm_mday

end

/-- `logfile`. `_file` is the name of the open file. -/
structure Logfile where
  _filename : List Byte
  _file : Option (List Byte)
  _writesize : ℕ
  _rollsize : ℕ
  _logidx : ℕ
  _rolltime : ℤ
  _lastctime : ℤ
  _pid : List Byte
  _withpid : Bool

/-- A `logfile` and the files. `opened` are the names that it has opened, and `accepted` the bytes
that `write` has taken, each time with the file that was current. -/
structure LogDir extends Logfile where
  files : List Byte → List Byte
  opened : List (List Byte)
  accepted : List (List Byte × List Byte)

/-- The loop of `write`: `data` is passed to `fwrite` from its first byte each time. `fwrites` are
the results as long as they are not all that is left. The contents of the file, and what is left. -/
def writeLoop (data : List Byte) : List Byte → ℕ → List ℕ → List Byte × ℕ
  | contents, len, [] => (contents ++ data.take len, 0)
  | contents, len, wsize :: fwrites =>
    if len = 0 then (contents, len)
    else if wsize = 0 then (contents, len)
    else writeLoop data (contents ++ data.take (min wsize len)) (len - min wsize len) fwrites

namespace LogDir

variable (localtime : Localtime) (d : LogDir)

/-- The name of the file that is rolled to. -/
def logname (now : ℤ) (logidx : ℕ) : List Byte :=
  _logname_ localtime now d._pid d._filename logidx d._withpid

/-- `_roll_file`, where `fopen` tells which names can be opened. -/
def _roll_file (newday : Bool) (now : ℤ) (fopen : List Byte → Bool) : LogDir :=
  let logidx := if newday then 1 else u64 (d._logidx + 1)
  let name := d.logname localtime now logidx
  let d := { d with _writesize := 0, _rolltime := now, _logidx := logidx }
  if fopen name then
    { d with _file := some name, files := update d.files name [], opened := d.opened ++ [name] }
  else { d with _file := none }

/-- The constructor, in a directory with any files. -/
def new (filename : List Byte) (rollsize : ℕ) (withpid : Bool) (pid : BitVec 32)
    (files : List Byte → List Byte) (now : ℤ) (fopen : List Byte → Bool) : LogDir :=
  LogDir._roll_file localtime
    { _filename := filename, _file := none, _writesize := 0, _rollsize := rollsize, _logidx := 0,
      _rolltime := 0, _lastctime := 0, _pid := printD pid, _withpid := withpid, files := files,
      opened := [], accepted := [] } true now fopen

/-- The day has changed since the last roll. -/
def dayChanged (now : ℤ) : Bool :=
  now ≠ d._lastctime && !_issameday_ localtime d._rolltime now

/-- The first test of `write`. -/
def dayRoll (now : ℤ) (fopen : List Byte → Bool) : LogDir :=
  let d' := { d with _lastctime := now }
  if d.dayChanged localtime now then d'._roll_file localtime false now fopen else d'

/-- The second test of `write`. -/
def sizeRoll (now : ℤ) (fopen : List Byte → Bool) : LogDir :=
  if d._writesize ≥ d._rollsize then d._roll_file localtime false now fopen else d

/-- What `write` does with its file. -/
def put (data : List Byte) (fwrites : List ℕ) : Option (Bool × LogDir) :=
  match d._file with
  | none => if data.length = 0 then some (true, d) else none
  | some name =>
    let (contents, len) := writeLoop data (d.files name) data.length fwrites
    let taken := data.length - len
    some (len == 0, { d with
      _writesize := u64 (d._writesize + taken)
      files := update d.files name contents
      accepted := d.accepted ++ [(name, data.take taken)] })

/-- `write` at the time `now`. -/
def write (now : ℤ) (data : List Byte) (fopen : List Byte → Bool) (fwrites : List ℕ) :
    Option (Bool × LogDir) :=
  match d._file with
  | none => some (data.length == 0, d)
  | some _ => ((d.dayRoll localtime now fopen).sizeRoll localtime now fopen).put data fwrites

end LogDir

/-- A call of `write`, with the time, and what the system returns. -/
structure LogWrite where
  now : ℤ
  data : List Byte
  fopen : List Byte → Bool
  fwrites : List ℕ

namespace LogDir

variable (localtime : Localtime)

def step (d : LogDir) (c : LogWrite) : Option LogDir :=
  (d.write localtime c.now c.data c.fopen c.fwrites).map Prod.snd

/-- The bytes that were taken while the file was current. -/
def takenBy (d : LogDir) (name : List Byte) : List Byte :=
  (d.accepted.filter fun p => p.1 = name).flatMap Prod.snd

/-- **Nothing is destroyed**: no name is opened twice, and each file that was opened has the bytes
that were taken while it was current. -/
structure Intact (d : LogDir) : Prop where
  distinct : d.opened.Nodup
  current : ∀ p ∈ d.accepted, p.1 ∈ d.opened
  stays : ∀ name ∈ d.opened, d.files name = d.takenBy name

/-- The number of times that `write` rolls. -/
def rolls (d : LogDir) (now : ℤ) : ℕ :=
  if d.dayChanged localtime now then if 0 ≥ d._rollsize then 2 else 1
  else if d._writesize ≥ d._rollsize then 1 else 0

/-- The index of a file is one of 32 bits, and is within the bytes of its name. -/
def IndexFits (d : LogDir) (now : ℤ) (logidx : ℕ) : Prop :=
  logidx < 2 ^ 32 ∧
    (logstem localtime now d._pid d._filename d._withpid ++ indexText logidx).length ≤ 99

/-- No `fwrite` comes behind one that has written a part. -/
def NoRetry (len : ℕ) : List ℕ → Prop
  | [] => True
  | wsize :: fwrites => wsize = 0 ∨ len ≤ wsize ∨ fwrites.head? = some 0

/-- **The condition on a write**: the files that it rolls to can be opened, and have their index in
their name; and `fwrite` does not write a part and then go on. -/
def Sound (d : LogDir) (c : LogWrite) : Prop :=
  d._file.isSome →
    (∀ logidx, d._logidx < logidx → logidx ≤ d._logidx + d.rolls localtime c.now →
      d.IndexFits localtime c.now logidx ∧ c.fopen (d.logname localtime c.now logidx) = true) ∧
    NoRetry c.data.length c.fwrites

end LogDir

end Netlib
