import Netlib.Lib.Circular
import Netlib.Lib.Run
import Netlib.Spec.Buffer

/-!
# The asynchronous logger (`base/logger.hpp`)

`log` appends a record to the node of the producer, and the dump thread writes the node of
the consumer to the file. What they do under `_mutex` is one step; the dump thread tests
`_run`, waits and writes between these steps.
-/

namespace Netlib

open Lib

/-- `fixedbuffer<SIZE>`: the bytes before `_pos`. -/
structure Fixedbuffer (SIZE : ℕ) where
  data : List Byte
  le : data.length ≤ SIZE
  deriving DecidableEq

/-- `buffer_node::status`. -/
inductive BufferStatus
  | free
  | full
  deriving DecidableEq

/-- `buffer_circular::buffer_node`; its `idx` is its place in the array. -/
structure BufferNode (SIZE : ℕ) where
  buffer : Fixedbuffer SIZE
  status : BufferStatus
  deriving DecidableEq

/-- Where the dump thread is: before the test of the loop, before it takes the lock, in
`_condition.wait`, before `_file->write`, before it takes the lock again, returned. -/
inductive DumpAt
  | test
  | lock
  | waiting
  | writing
  | written
  | returned
  deriving DecidableEq

variable {SIZE : ℕ}

namespace Fixedbuffer

def new : Fixedbuffer SIZE := ⟨[], Nat.zero_le _⟩

def avail (b : Fixedbuffer SIZE) : ℕ := SIZE - b.data.length

/-- `append`, which drops what does not fit. -/
def append (b : Fixedbuffer SIZE) (data : List Byte) : Fixedbuffer SIZE where
  data := b.data ++ data.take b.avail
  le := by
    have := b.le
    unfold avail
    rw [List.length_append, List.length_take]
    omega

end Fixedbuffer

/-- The capacity of `buffer_circular::buffer_type`. -/
def nodeSize : ℕ := 4 * 1024 * 1024

/-- A node as `buffer_circular` makes it and `dump` leaves it. -/
def BufferNode.empty : BufferNode SIZE := ⟨.new, .free⟩

/-- `logger` after `setfilename`. `written` is what `logfile::write` has got, and
`accepted` are the records that `log` has not reported as discarded. -/
structure Logger (SIZE : ℕ) where
  _run : Bool
  _circular : Circular (BufferNode SIZE)
  _producer : ℕ
  _consumer : ℕ
  dumpAt : DumpAt
  written : List Byte
  accepted : List (List Byte)

namespace Logger

variable (l : Logger SIZE)

/-- `setfilename`, with `_node_cnt` nodes. -/
def setfilename (_node_cnt : ℕ) (h : _node_cnt ≠ 0) : Logger SIZE where
  _run := true
  _circular := .replicate _node_cnt .empty h
  _producer := 0
  _consumer := 0
  dumpAt := .test
  written := []
  accepted := []

def node (i : ℕ) : BufferNode SIZE := l._circular.get i

/-- `append` to the node of the producer. -/
def append (data : List Byte) : Logger SIZE :=
  let n := l.node l._producer
  { l with
    _circular := l._circular.set l._producer { n with buffer := n.buffer.append data }
    accepted := l.accepted ++ [data] }

/-- `status = Enum_Buffer_Full`. -/
def fill (i : ℕ) : Logger SIZE :=
  { l with _circular := l._circular.set i { l.node i with status := .full } }

/-- The producer's node is full, and the producer goes on. -/
def advance : Logger SIZE :=
  { l.fill l._producer with _producer := l._circular.next l._producer }

/-- `log`. -/
def log (data : List Byte) : Logger SIZE :=
  if (l.node l._producer).status = .full then l
  else if (l.node l._producer).buffer.avail > data.length then l.append data
  else
    let l := l.advance
    -- the ring is full: the record is discarded
    if (l.node l._producer).status = .full then l
    else l.append data

/-! ## `dump` -/

/-- The test of the loop. -/
def dumpTest : Logger SIZE := { l with dumpAt := if l._run then .lock else .returned }

/-- The test of the consumer's node when the lock is taken first. -/
def dumpLock : Logger SIZE :=
  { l with dumpAt := if (l.node l._consumer).status = .free then .waiting else .writing }

/-- The test after `_condition.wait`, with the flush after a time-out. -/
def dumpWake : Logger SIZE :=
  if (l.node l._consumer).status = .free then
    if (l.node l._consumer).buffer.data.length > 0 then
      { l.fill l._consumer with dumpAt := .writing }
    else { l with dumpAt := .test }
  else { l with dumpAt := .writing }

/-- `_file->write`, without the lock. -/
def dumpWrite : Logger SIZE :=
  { l with written := l.written ++ (l.node l._consumer).buffer.data, dumpAt := .written }

/-- Under the lock again: the node is free, and the consumer goes on. -/
def dumpNext : Logger SIZE :=
  { l with
    _producer := if l._consumer = l._producer then l._circular.next l._producer else l._producer
    _circular := l._circular.set l._consumer .empty
    _consumer := l._circular.next l._consumer
    dumpAt := .test }

/-- The next step of the dump thread. -/
def dump : Option (Logger SIZE) :=
  match l.dumpAt with
  | .test => some l.dumpTest
  | .lock => some l.dumpLock
  | .waiting => some l.dumpWake
  | .writing => some l.dumpWrite
  | .written => some l.dumpNext
  | .returned => none

/-- `stop` up to the `join`. -/
def stop : Logger SIZE := { l with _run := false }

end Logger

inductive LogAction
  | log (data : List Byte)
  | dump
  | stop
  deriving DecidableEq

namespace Logger

def step (l : Logger SIZE) : LogAction → Option (Logger SIZE)
  | .log data => some (l.log data)
  | .dump => l.dump
  | .stop => some l.stop

/-- The records are shorter than a node's capacity. -/
def Short (_ : Logger SIZE) : LogAction → Prop
  | .log data => data.length < SIZE
  | _ => True

/-- A step before `stop`. -/
def Running (_ : Logger SIZE) : LogAction → Prop
  | .stop => False
  | _ => True

/-- A step after `stop`: no `log`. -/
def Stopping (_ : Logger SIZE) : LogAction → Prop
  | .dump => True
  | _ => False

/-- The number of nodes from the consumer up to the producer; the producer's node comes
first and last when the ring has gone round. -/
def span (l : Logger SIZE) : ℕ :=
  if l._producer = l._consumer then
    if (l.node l._producer).status = .full then l._circular.size else 1
  else (l._producer + l._circular.size - l._consumer) % l._circular.size + 1

/-- The nodes from the consumer up to the producer, without the first when it is written. -/
def pending (l : Logger SIZE) : List (BufferNode SIZE) :=
  ((l._circular.around l._consumer).take l.span).drop (if l.dumpAt = .written then 1 else 0)

/-- The contents of nodes. -/
def contents (nodes : List (BufferNode SIZE)) : List Byte :=
  nodes.flatMap fun n => n.buffer.data

/-- **Order, and nothing written twice**: what is written and then the ring are the
accepted records. -/
def Ordered (l : Logger SIZE) : Prop := l.written ++ contents l.pending = l.accepted.flatten

/-- **The node that is being written stays as it is**, whatever is logged. -/
def Untorn (l : Logger SIZE) : Prop :=
  l.dumpAt = .writing ∨ l.dumpAt = .written → ∀ data,
    (l.log data)._consumer = l._consumer ∧ (l.log data).node l._consumer = l.node l._consumer

/-- What `dump` does not come to once `_run` is false: it tests `_run` before each node. -/
def left (l : Logger SIZE) : List (BufferNode SIZE) :=
  if l.dumpAt = .test then l.pending else ((l._circular.around l._consumer).take l.span).drop 1

/-- **The condition on `stop`**: no accepted record was longer than a node, and the dump
thread is before the test of its loop and nothing is pending, or it is in a pass and only
the node of that pass holds bytes. -/
def Drains (l : Logger SIZE) : Prop :=
  (∀ data ∈ l.accepted, data.length ≤ SIZE) ∧ contents l.left = []

/-- **Every accepted record has been passed to `logfile::write`.** -/
def Drained (l : Logger SIZE) : Prop := l.written = l.accepted.flatten

/-- `log` reports the record as discarded. -/
def Discards (l : Logger SIZE) (data : List Byte) : Prop := (l.log data).accepted = l.accepted

/-- Every node of the ring is full. -/
def AllFull (l : Logger SIZE) : Prop := ∀ x ∈ l._circular.cells, x.status = .full

/-- **Discards only when full**: no node is free when `log` reports the record. -/
def DiscardsFull (l : Logger SIZE) (data : List Byte) : Prop :=
  l.Discards data → (l.log data).AllFull

/-- **The condition on the producer**: it rests on a full node only in a ring that is full. After a
timed flush of its own node, and after the first write to a full ring, it rests on a full node
beside free ones. -/
def ProducerUsable (l : Logger SIZE) : Prop :=
  (l.node l._producer).status = .full → l.AllFull

end Logger

end Netlib
