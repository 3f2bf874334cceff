import Netlib.Spec.SyncConnector
import Netlib.Spec.Writer

/-!
# Synchronous calls (`synccall/config.hpp`, `synccall/synccall_client.hpp`, `synccall/synccall_svr.hpp`)

A request is three words (way, message type, pack index) and the payload; a reply has the
same three words. `ScClient` sends it through a `SyncConnector`, `CoScClient` through a
`TcpConnector`, and `ScServer` hands it to a dealer of the handler that is registered for
the port. What the server asks of `clisock` is kept in `sends`, what the handler is asked
to do in `dealt`.
-/

namespace Netlib

/-- `M_ONEWAY_TYPE`. -/
def onewayType : ℕ := 666

/-- `M_TWOWAY_TYPE`. -/
def twowayType : ℕ := 999

/-- `M_KEEPALIVE_ID`. -/
def keepaliveId : ℕ := 1

/-- `M_KEEPALIVE_ACK_ID`. -/
def keepaliveAckId : ℕ := 2

namespace Buffer

variable (b : Buffer)

/-- `Write` of an `s_uint32_t`. -/
def writeWord (n : ℕ) : Buffer := b.write (le32 n) 4

/-- `Read` of an `s_uint32_t` that is 0 before. -/
def readWord : ℕ × Buffer :=
  match b.read 4 with
  | (some l, b) => (ofLe32 l, b)
  | (none, b) => (0, b)

/-- The `Length()` bytes from `Data()` on. -/
def sendData : List Byte := b.data.take b.length

end Buffer

/-! ## The clients -/

/-- `BaseScClient`, without the address and the time-outs. -/
structure BaseScClient where
  _packidx : ℕ
  _request : Buffer

namespace BaseScClient

/-- The constructor. -/
def new : BaseScClient := ⟨0, .new⟩

variable (c : BaseScClient)

/-- `_FillRequest`. -/
def _fillRequest (way : ℕ) (msg_type : ℤ) (msg : List Byte) : BaseScClient :=
  let idx := u32 (c._packidx + 1)
  let request := ((c._request.clear.writeWord way).writeWord (toU32 msg_type)).writeWord idx
  { _packidx := idx, _request := request.write msg msg.length }

/-- `_CheckReply`: the result, and what is left in the reply. -/
def _checkReply (reply : Option Buffer) : Bool × Option Buffer :=
  match reply with
  | none => (false, none)
  | some reply =>
    let (_way_type, reply) := reply.readWord
    let (_msg_type, reply) := reply.readWord
    let (pack_idx, reply) := reply.readWord
    (pack_idx = c._packidx, some reply)

end BaseScClient

/-- What a call of `SendSome` gives. -/
inductive SendSome
  | sent (snd_cnt : ℕ)
  | fail

namespace SyncConnector

/-- The loop of `Send`: the result and the bytes that have left. With no answer left it does
not return, and no more can leave than is there. -/
def sendLoop : Buffer → List SendSome → Option (Bool × List Byte)
  | _, [] => none
  | _, .fail :: _ => some (false, [])
  | sndbuffer, .sent snd_cnt :: as =>
    if snd_cnt ≤ sndbuffer.length then
      let bytes := sndbuffer.data.take snd_cnt
      let sndbuffer := sndbuffer.cutData (toInt32 snd_cnt)
      if sndbuffer.length = 0 then some (true, bytes)
      else (sendLoop sndbuffer as).map fun (ok, rest) => (ok, bytes ++ rest)
    else none

/-- `Send` at time `now`: the result, the bytes that have left, and the state. `_sndbuffer`
is cleared first, so an empty one is taken. -/
def send (c : SyncConnector) (now : ℕ) (data : List Byte) (as : List SendSome) :
    Option (Bool × List Byte × SyncConnector) :=
  if c._flag ≠ .start then some (false, [], c)
  else if 0 < data.length ∧ data.length ≤ limit then
    let hdr := (MessageHeader.mk (u32 now) data.length).h2n
    let sndbuffer := (Buffer.new.write hdr.bytes hdrlen).write data data.length
    (sendLoop sndbuffer as).map fun (ok, bytes) => (ok, bytes, if ok then c else c.close)
  else some (false, [], c)

end SyncConnector

/-- `ScClient` or `CoScClient`. -/
inductive ScKind
  | scClient
  | coScClient
  deriving DecidableEq

namespace ScKind

/-- The `_FillRequest` of `_Sync`. -/
def fill (k : ScKind) (c : BaseScClient) (way : ℕ) (msg_type : ℤ) (msg : List Byte) : BaseScClient :=
  match k with
  | scClient => c._fillRequest way msg_type msg
  -- `way` is not used
  | coScClient => c._fillRequest twowayType msg_type msg

/-- The two `SyncCall`: with a reply argument or without. -/
def syncCall (k : ScKind) (c : BaseScClient) (reply : Bool) : ℤ → List Byte → BaseScClient :=
  k.fill c (if reply then twowayType else onewayType)

/-- The largest number of bytes that `Send` of the socket takes. -/
def maxData : ScKind → ℕ
  | scClient => SyncConnector.limit
  | coScClient => socketPackSize

/-- **What leaves the client** for a `Send` that returns true: a whole call of
`SyncConnector::Send`, or the bytes that a call of `TcpBaseSocket::Send` queues. -/
inductive Sent (data : List Byte) : ScKind → List Byte → Prop
  | scClient {c c' : SyncConnector} {now : ℕ} {as : List SendSome} {bytes : List Byte}
      (h : c.send now data as = some (true, bytes, c')) : Sent data .scClient bytes
  | coScClient {w : SendWorld} {now : ℕ} {err : Bool} {bytes : List Byte}
      (hok : (w.sock.send now data err).1 = true)
      (h : (w.step (.send now data err)).map (·.accepted) = some (w.accepted ++ bytes)) :
      Sent data .coScClient bytes

end ScKind

/-! ## The server -/

/-- A call of a handler, or a keep-alive. -/
inductive Dealt
  | keepAlive
  | oneWay (msg_type : ℤ) (request : List Byte)
  | twoWay (msg_type : ℤ) (request : List Byte)
  deriving DecidableEq

/-- `IServerHandler`: any functions of a state of their own and of the buffers they are
handed, which they leave well formed. -/
structure IServerHandler (ω : Type*) where
  onOneWayDealer : ω → ℤ → Buffer → ω × Buffer
  onTwoWayDealer : ω → ℤ → Buffer → Buffer → ω × Buffer × Buffer
  wf_oneWay : ∀ u t b, b.WF → (onOneWayDealer u t b).2.WF
  wf_twoWay : ∀ u t b r, b.WF → r.WF →
    (onTwoWayDealer u t b r).2.1.WF ∧ (onTwoWayDealer u t b r).2.2.WF

/-- `_ScInfo_`. -/
structure ScInfo where
  id : ℕ
  buffer : Buffer

/-- A connection of the server: the data of its socket, the state of the handlers, the
calls of the handlers so far, and the data of the calls of `clisock->Send` so far. -/
structure ScConn (ω : Type*) where
  info : Option ScInfo
  user : ω
  dealt : List Dealt
  sends : List (List Byte)

namespace ScServer

variable {ω : Type*}

/-- `OnReceiveData(TcpSocketPtr)`, with the table `_handlers`. -/
def onReceiveData (_handlers : ℕ → Option (IServerHandler ω)) (s : ScConn ω) (buffer : Buffer) :
    ScConn ω × Buffer :=
  match s.info with
  | none => (s, buffer)
  | some pscinfo =>
    let (msgid, buffer) := buffer.readWord
    if msgid = keepaliveId then
      let buffer := buffer.clear.writeWord keepaliveAckId
      ({ s with dealt := s.dealt ++ [.keepAlive], sends := s.sends ++ [buffer.sendData] }, buffer)
    else
      match _handlers pscinfo.id with
      | none => (s, buffer)
      | some handler =>
        let buffer := buffer.cutData (-4)
        let (way_type, buffer) := buffer.readWord
        let (msg_type, buffer) := buffer.readWord
        let (pack_idx, buffer) := buffer.readWord
        let reply := ((pscinfo.buffer.clear.writeWord way_type).writeWord msg_type).writeWord pack_idx
        if way_type = onewayType then
          let (user, request) := handler.onOneWayDealer s.user (toInt32 msg_type) buffer
          ({ info := some { pscinfo with buffer := reply }
             user := user
             dealt := s.dealt ++ [.oneWay (toInt32 msg_type) buffer.unread]
             sends := s.sends ++ [reply.sendData] }, request)
        else if way_type = twowayType then
          let (user, request, reply) :=
            handler.onTwoWayDealer s.user (toInt32 msg_type) buffer reply
          ({ info := some { pscinfo with buffer := reply }
             user := user
             dealt := s.dealt ++ [.twoWay (toInt32 msg_type) buffer.unread]
             sends := s.sends ++ [reply.sendData] }, request)
        -- any other way type is printed
        else ({ s with info := some { pscinfo with buffer := reply } }, buffer)

end ScServer

end Netlib
