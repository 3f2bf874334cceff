import Netlib.Spec.LogFile
import Netlib.Spec.Logger

/-!
# The logger and its files (`base/logger.hpp`)

`dump` passes the bytes of the consumer's node to `_file->write`, which rolls and writes as the time
and the size of the file say. The steps of the logger are those of `Logger`; the write to the file
is a step of `LogDir`, taken with the step of the dump thread that makes the call.
-/

namespace Netlib

open Lib

/-- What the system returns while `logfile::write` runs. -/
structure LogSystem where
  now : ℤ
  fopen : List Byte → Bool
  fwrites : List ℕ

/-- A `logger` and its `_file`, with the directory. -/
structure LogWorld (SIZE : ℕ) where
  logger : Logger SIZE
  file : LogDir

inductive LogWorldAction
  | log (data : List Byte)
  | dump (sys : LogSystem)
  | stop

namespace LogWorld

variable {SIZE : ℕ} (localtime : Localtime)

/-- `setfilename` at the time `now`, with `_node_cnt` nodes. -/
def setfilename (_node_cnt : ℕ) (h : _node_cnt ≠ 0) (filename : List Byte) (rollsize : ℕ)
    (withpid : Bool) (pid : BitVec 32) (files : List Byte → List Byte) (now : ℤ)
    (fopen : List Byte → Bool) : LogWorld SIZE where
  logger := .setfilename _node_cnt h
  file := .new localtime filename rollsize withpid pid files now fopen

/-- `_file->write(_consumer->buffer.data(), _consumer->buffer.length())`. -/
def call (w : LogWorld SIZE) (sys : LogSystem) : LogWrite where
  now := sys.now
  data := (w.logger.node w.logger._consumer).buffer.data
  fopen := sys.fopen
  fwrites := sys.fwrites

def step (w : LogWorld SIZE) : LogWorldAction → Option (LogWorld SIZE)
  | .log data => some { w with logger := w.logger.log data }
  | .stop => some { w with logger := w.logger.stop }
  | .dump sys =>
    if w.logger.dumpAt = .writing then do
      let file ← w.file.step localtime (w.call sys)
      let logger ← w.logger.dump
      return ⟨logger, file⟩
    else w.logger.dump.map fun logger => { w with logger }

/-- The system does what it is asked for: the files that are rolled to can be opened and have their
index in their name, and `fwrite` takes all bytes. The time is not that of `_lastctime` before the
first write. -/
def Undisturbed (w : LogWorld SIZE) : LogWorldAction → Prop
  | .dump sys => w.logger.dumpAt = .writing →
      w.file.Sound localtime (w.call sys) ∧ sys.fwrites = [] ∧ sys.now ≠ 0
  | _ => True

/-- The contents of the log files, in the order in which they were opened. -/
def logs (w : LogWorld SIZE) : List (List Byte) := w.file.opened.map w.file.files

/-- The records as a node takes them: what is longer than a node is cut. -/
def records (w : LogWorld SIZE) : List (List Byte) := w.logger.accepted.map (·.take SIZE)

end LogWorld

end Netlib
