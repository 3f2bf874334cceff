import Netlib.Spec.Rpc

/-!
# The server of synchronous calls (`synccall/synccall_svr.hpp`)

What is expected of `OnReceiveData` for a frame of any length, and the table of handlers:
`Register` writes an entry under the port that the program gave, `OnConnected` computes the
index again from the local endpoint of the connection. An access outside the table is
undefined.
-/

namespace Netlib

namespace ScServer

/-! ## Requests -/

variable {ω : Type*}

/-- The bytes of `way_type`, `msg_type` and `pack_idx`. -/
def headLen : ℕ := 12

/-- What a handler is asked for a request with a whole head, `none` without one or for another
way type. -/
def request? (body : List Byte) : Option Dealt :=
  let way_type := ofLe32 (body.take 4)
  let msg_type := toInt32 (ofLe32 ((body.drop 4).take 4))
  if body.length < headLen then none
  else if way_type = onewayType then some (.oneWay msg_type (body.drop headLen))
  else if way_type = twowayType then some (.twoWay msg_type (body.drop headLen))
  else none

/-- The un-read of the first word. -/
def peek (buffer : Buffer) : Buffer := buffer.readWord.2.cutData (-4)

/-- **What is expected of `OnReceiveData`**: a handler is called for a whole request only, with
what it says, and the un-read leaves the readable bytes as they came. -/
structure Validates (_handlers : ℕ → Option (IServerHandler ω)) (s : ScConn ω) (buffer : Buffer) :
    Prop where
  calls : ∀ ds, (onReceiveData _handlers s buffer).1.dealt = s.dealt ++ ds →
    ∀ d ∈ ds, d ≠ .keepAlive → request? buffer.unread = some d
  unread : ∀ pscinfo handler, s.info = some pscinfo → _handlers pscinfo.id = some handler →
    buffer.readWord.1 ≠ keepaliveId → (peek buffer).unread = buffer.unread

/-- **The condition**: a whole head, or at least a way type that is none of the two. -/
def ValidateOk (_handlers : ℕ → Option (IServerHandler ω)) (s : ScConn ω) (body : List Byte) : Prop :=
  ∀ pscinfo handler, s.info = some pscinfo → _handlers pscinfo.id = some handler →
    headLen ≤ body.length ∨
      4 ≤ body.length ∧ ofLe32 (body.take 4) ≠ onewayType ∧ ofLe32 (body.take 4) ≠ twowayType

/-! ## The table of handlers -/

/-- The number of entries of `_handlers`. -/
def handlerCount : ℕ := 0xFFFF

/-- A call of `Register` for which `ListenOne` returns true, and the port number that the
system has bound the listener to. -/
structure Registration (η : Type*) where
  ip : List Char
  port : ℕ
  handler : η
  bound : ℕ
  port_lt : port < 2 ^ 16
  /-- Port 0 asks the system for a port. -/
  bound_eq : port ≠ 0 → bound = port
  bound_pos : 0 < bound
  bound_lt : bound < 2 ^ 16

variable {η : Type*}

/-- `UniqueId`. -/
def uniqueId (_ip : List Char) (port : ℕ) : ℕ := port

/-- `_handlers` after the constructor. -/
def newHandlers : List (Option η) := List.replicate handlerCount none

/-- `Register` after `ListenOne`. `none` is a write outside the table. -/
def register (_handlers : List (Option η)) (r : Registration η) : Option (List (Option η)) :=
  let id := uniqueId r.ip r.port
  if id < _handlers.length then some (_handlers.set id (some r.handler)) else none

def registerAll (regs : List (Registration η)) : Option (List (Option η)) :=
  regs.foldlM register newHandlers

/-- `OnConnected` of a connection that the listener of `r` has accepted: its local endpoint has
an address of the host and the port of the listener. -/
def onConnected (r : Registration η) (ip : List Char) : ScInfo := ⟨uniqueId ip r.bound, .new⟩

/-- `_handlers[pscinfo->id]`. `none` is a read outside the table. -/
def handlerOf (_handlers : List (Option η)) (pscinfo : ScInfo) : Option (Option η) :=
  _handlers[pscinfo.id]?

/-- **What is expected of the table** after the calls `regs`: all accesses are inside, and the
requests of a connection go to the handler that its listener was registered with. -/
def Dispatches (regs : List (Registration η)) : Prop :=
  ∃ _handlers, registerAll regs = some _handlers ∧
    ∀ r ∈ regs, ∀ ip, handlerOf _handlers (onConnected r ip) = some (some r.handler)

/-- **The condition on the calls**: no port is 0xFFFF, and what was registered last under the
port number that a listener is bound to is its handler. -/
structure EndpointsOk (regs : List (Registration η)) : Prop where
  port : ∀ r ∈ regs, r.port ≠ 0xFFFF
  last : ∀ r ∈ regs, (regs.reverse.find? fun q => q.port = r.bound).map Registration.handler =
    some r.handler

end ScServer

end Netlib
