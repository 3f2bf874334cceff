import Netlib.Spec.SyncConnector

/-!
# Over-long frames on a synchronous connector (`netio/tconnector_impl.hpp`)

For a header that announces more than `0xFFFF - 8` bytes, `_CutMsgPack` returns what it returns
when the frame goes on in the next read, and keeps the size in `_curheader`. `Recv` reads on:
the rest of the read is dropped, and the next reads are taken for the payload.
-/

namespace Netlib

namespace SyncConnector

variable (c : SyncConnector)

def isConnected : Bool := c._flag = .start

/-- The buffers of `n` successful calls of `Recv`, with the connector and the results left. -/
def recvN : ℕ → SyncConnector → List RecvSome →
    Option (List Buffer × SyncConnector × List RecvSome)
  | 0, c, rs => some ([], c, rs)
  | n + 1, c, rs => do
    let (b, c, rs) ← c.recv rs
    let b ← b
    let (bs, c, rs) ← recvN n c rs
    return (b :: bs, c, rs)

/-- **A clean failure**: `Recv` returns 0 and leaves the connector not connected, and no later
call returns a buffer. -/
def FailsCleanly (rs : List RecvSome) : Prop :=
  ∃ c' rs', c.recv rs = some (none, c', rs') ∧ c'.isConnected = false ∧
    ∀ rs, c'.recv rs = some (none, c', rs)

/-- After the reads the connection stays as it is, or it ends. -/
def AtEnd (fin : List RecvSome) : Prop := ∀ x ∈ fin.head?, x.bytes = []

/-- **A call of `Recv` finds a buffer** when it has seen `s` and `cs` are the reads to come: a
frame is complete; or a header is over-long, and the reads after it bring as many bytes as it
announces, counted in 32 bits. -/
inductive Collects : List Byte → List (List Byte) → Prop
  | frame {s p : List Byte} {cs : List (List Byte)} {n : ℕ} :
    nextFrame limit s = .frame p n → Collects s cs
  | long {s : List Byte} {cs : List (List Byte)} (j : ℕ) :
    nextFrame limit s = .reject → frameSize s ≤ u32 (cs.take j).flatten.length → Collects s cs
  | read {s x : List Byte} {cs : List (List Byte)} :
    nextFrame limit s = .more → Collects (s ++ x) cs → Collects s (x :: cs)

/-- The header is complete after `k` of the reads `cs`, and not before. -/
structure HeaderAfter (s : List Byte) (cs : List (List Byte)) (k : ℕ) : Prop where
  before : ∀ i < k, (s ++ (cs.take i).flatten).length < hdrlen
  complete : hdrlen ≤ (s ++ (cs.take k).flatten).length

end SyncConnector

/-- The position after some frames. -/
def ReadPos.past : List (List Byte) → ReadPos → ReadPos
  | [], r => r
  | f :: fs, r => past fs (advance r.last r.left f.length r.rest)

end Netlib
