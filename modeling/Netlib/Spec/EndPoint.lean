import Netlib.Spec.HdrFields
import Netlib.Lib.Refine

/-!
# Endpoints (`socket/endpoint.hpp`, `socket/util.hpp`)

An endpoint has a pointer to a socket address that it allocates itself, null as long as there is
none. To free what is not allocated and to read or write it is undefined. The bytes of an address are
given, in place of its text: `inet_pton` gives them back from what `inet_ntop` has made of them. The
host is Linux.
-/

namespace Netlib

open Lib
open Function (update)

/-- `AddressV4` or `AddressV6`, by its bytes in network order. -/
structure EpAddress where
  v6 : Bool
  bytes : List Byte
  length : bytes.length = if v6 then 16 else 4

namespace SockAddr

/-- `SockAddrLen`, `sizeof(sockaddr_storage)`. -/
def len : ℕ := 128

def afInet : ℕ := 2

def afInet6 : ℕ := 10

/-- The offset of `sin_addr` or `sin6_addr`. -/
def addrAt (family : ℕ) : ℕ := if family = afInet6 then 8 else 4

/-- A block after `g_bzero`. -/
def zero : List Byte := List.replicate len 0

/-- `InitSockAddr`, on a block of zeros. -/
def init (addr : EpAddress) (port : ℕ) : List Byte :=
  let family := if addr.v6 then afInet6 else afInet
  memcpy (memcpy (memcpy zero 0 (le16 family)) 2 (le16 (htons port))) (addrAt family) addr.bytes

/-- `SockAddrToFamily`. -/
def family (block : List Byte) : ℕ := ofLe16 (block.take 2)

/-- `SockAddrToPort`. -/
def port (block : List Byte) : ℕ :=
  if family block = afInet ∨ family block = afInet6 then HdrHelper.getWord 2 block else 0

/-- What `SockAddrToAddress` gives to `inet_ntop`. -/
def address (block : List Byte) : List Byte :=
  if family block = afInet then (block.drop 4).take 4
  else if family block = afInet6 then (block.drop 8).take 16
  else []

/-- What `getsockname` or `getpeername` writes to a block of zeros. -/
def named (bytes : List Byte) : List Byte := memcpy zero 0 (bytes.take len)

end SockAddr

/-- A call; `i` and `other` are objects. `getEndPoint` is `GetLocalEndPoint` or `GetRemoteEndPoint`,
with what the system writes, `none` when it fails. -/
inductive EpCall
  | construct (i : ℕ) (addr : EpAddress) (port : ℕ)
  | default (i : ℕ)
  | copy (i other : ℕ)
  | assign (i other : ℕ)
  | getEndPoint (i : ℕ) (bytes : Option (List Byte))
  | destroy (i : ℕ)
  | equal (i other : ℕ)
  | valid (i : ℕ)
  | family (i : ℕ)
  | port (i : ℕ)
  | address (i : ℕ)

inductive EpAnswer
  | void
  | bool (b : Bool)
  | num (n : ℕ)
  | bytes (l : List Byte)
  deriving DecidableEq

/-- The memory, and `_pSockAddr` of the objects that there are. -/
structure EndPoints where
  heap : ℕ → Option (List Byte)
  fresh : ℕ
  _pSockAddr : ℕ → Option (Option ℕ)

namespace EndPoints

def start : EndPoints := ⟨fun _ => none, 0, fun _ => none⟩

variable (w : EndPoints)

/-- `AllocSockAddr`, and what is written to the block, for the object `i`. -/
def alloc (i : ℕ) (block : List Byte) : EndPoints where
  heap := update w.heap w.fresh (some block)
  fresh := w.fresh + 1
  _pSockAddr := update w._pSockAddr i (some (some w.fresh))

/-- A block is written. -/
def store (p : ℕ) (block : List Byte) : Option EndPoints :=
  (w.heap p).map fun _ => { w with heap := update w.heap p (some block) }

/-- `FreeSockAddr`. -/
def free (p : ℕ) : Option EndPoints :=
  (w.heap p).map fun _ => { w with heap := update w.heap p none }

def setObject (i : ℕ) (o : Option (Option ℕ)) : EndPoints :=
  { w with _pSockAddr := update w._pSockAddr i o }

/-- `Construct` from another endpoint, with `_pSockAddr` null. -/
def constructFrom (i : ℕ) : Option ℕ → Option EndPoints
  | none => some (w.setObject i (some none))
  | some q => (w.heap q).map (w.alloc i)

/-- `Copy`: `g_bzero`, then `g_memcpy`. -/
def copyTo (p : ℕ) : Option ℕ → Option EndPoints
  | none => some w
  | some q => (w.store p SockAddr.zero).bind fun w => (w.heap q).bind (w.store p)

/-- The block of the object, a new one if it has none, after `g_bzero`. -/
def zeroed (i : ℕ) : Option ℕ → Option (ℕ × EndPoints)
  | some p => (w.store p SockAddr.zero).map fun w => (p, w)
  | none => some (w.fresh, w.alloc i SockAddr.zero)

/-- `GetLocalEndPoint` and `GetRemoteEndPoint`. -/
def getEndPoint (i : ℕ) (p : Option ℕ) (bytes : Option (List Byte)) :
    Option (EpAnswer × EndPoints) :=
  (w.zeroed i p).bind fun (p, w) =>
    match bytes with
    | some bytes => (w.store p (SockAddr.named bytes)).map fun w => (.bool true, w)
    | none => (w.free p).map fun w => (.bool false, w.setObject i (some none))

/-- A getter: `f` of the block, or `d` for null. -/
def look (f : List Byte → EpAnswer) (d : EpAnswer) : Option ℕ → Option (EpAnswer × EndPoints)
  | none => some (d, w)
  | some p => (w.heap p).map fun block => (f block, w)

def call (w : EndPoints) : EpCall → Option (EpAnswer × EndPoints)
  | .construct i addr port => some (.void, w.alloc i (SockAddr.init addr port))
  | .default i => some (.void, w.setObject i (some none))
  | .copy i other =>
    (w._pSockAddr other).bind fun q => (w.constructFrom i q).map fun w => (.void, w)
  | .assign i other =>
    (w._pSockAddr i).bind fun p => (w._pSockAddr other).bind fun q =>
      (match p with
        | some p => w.copyTo p q
        | none => w.constructFrom i q).map fun w => (.void, w)
  | .getEndPoint i bytes => (w._pSockAddr i).bind fun p => w.getEndPoint i p bytes
  | .destroy i =>
    (w._pSockAddr i).bind fun p =>
      (match p with
        | some p => w.free p
        | none => some w).map fun w : EndPoints => (.void, w.setObject i none)
  | .equal i other =>
    (w._pSockAddr i).bind fun p => (w._pSockAddr other).bind fun q =>
      match p, q with
      | some p, some q =>
        if p = q then some (.bool true, w)
        else (w.heap p).bind fun b => (w.heap q).map fun b' => (.bool (b = b'), w)
      | _, _ => some (.bool false, w)
  | .valid i => (w._pSockAddr i).map fun p => (.bool p.isSome, w)
  | .family i => (w._pSockAddr i).bind (w.look (fun b => .num (SockAddr.family b)) (.num 0))
  | .port i => (w._pSockAddr i).bind (w.look (fun b => .num (SockAddr.port b)) (.num 0))
  | .address i => (w._pSockAddr i).bind (w.look (fun b => .bytes (SockAddr.address b)) (.bytes []))

/-! ## Endpoints as values -/

/-- The value after an assignment: an invalid endpoint changes nothing, and one that is assigned to
itself is cleared. -/
def assigned (self : Bool) : Option (List Byte) → Option (List Byte) → Option (List Byte)
  | v, none => v
  | none, some u => some u
  | some _, some u => some (if self then SockAddr.zero else u)

/-- **The values**: each object has one of its own, or none. An object is constructed where there is
none, and used where there is one. -/
def valueCall (m : ℕ → Option (Option (List Byte))) :
    EpCall → Option (EpAnswer × (ℕ → Option (Option (List Byte))))
  | .construct i addr port =>
    if m i = none then some (.void, update m i (some (some (SockAddr.init addr port)))) else none
  | .default i => if m i = none then some (.void, update m i (some none)) else none
  | .copy i other =>
    if m i = none then (m other).map fun v => (.void, update m i (some v)) else none
  | .assign i other =>
    (m i).bind fun v => (m other).map fun u => (.void, update m i (some (assigned (i = other) v u)))
  | .getEndPoint i bytes =>
    (m i).map fun _ => (.bool bytes.isSome, update m i (some (bytes.map SockAddr.named)))
  | .destroy i => (m i).map fun _ => (.void, update m i none)
  | .equal i other =>
    (m i).bind fun v => (m other).map fun u => (.bool (v.isSome ∧ v = u), m)
  | .valid i => (m i).map fun v => (.bool v.isSome, m)
  | .family i => (m i).map fun v => (.num ((v.map SockAddr.family).getD 0), m)
  | .port i => (m i).map fun v => (.num ((v.map SockAddr.port).getD 0), m)
  | .address i => (m i).map fun v => (.bytes ((v.map SockAddr.address).getD []), m)

/-- **Every object has its own block**, with its value, and there is no other block. -/
structure Owns (w : EndPoints) (m : ℕ → Option (Option (List Byte))) : Prop where
  object : ∀ i, (w._pSockAddr i).isSome = (m i).isSome
  null : ∀ i, w._pSockAddr i = some none → m i = some none
  value : ∀ i p, w._pSockAddr i = some (some p) → ∃ v, w.heap p = some v ∧ m i = some (some v)
  alone : ∀ i j p, w._pSockAddr i = some (some p) → w._pSockAddr j = some (some p) → i = j
  owned : ∀ p v, w.heap p = some v → ∃ i, w._pSockAddr i = some (some p)
  fresh : ∀ p, w.fresh ≤ p → w.heap p = none

/-- **Endpoints are values**: along the calls `l` every call is defined and is answered as by the values,
nothing is leaked, and an endpoint says what it was made of. -/
structure AreValues (l : List EpCall) : Prop where
  refines : Refines call valueCall Owns start (fun _ => none) l
  made : ∀ addr port, port < 2 ^ 16 →
    SockAddr.family (SockAddr.init addr port) = (if addr.v6 then SockAddr.afInet6 else SockAddr.afInet) ∧
      SockAddr.port (SockAddr.init addr port) = port ∧
      SockAddr.address (SockAddr.init addr port) = addr.bytes

end EndPoints

end Netlib
