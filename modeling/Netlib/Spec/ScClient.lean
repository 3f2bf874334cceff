import Netlib.Lib.Run
import Netlib.Spec.Rpc
import Mathlib.Logic.Function.Basic

/-!
# Calls of threads (`synccall/synccall_client.hpp`, `synccall/synccall_svr.hpp`)

`ScClient::_Sync` sends a request through a `SyncConnector` and waits in `Recv`. After a failure
it closes the connector, and the second attempt connects again. `ScServer` takes the frames of
every connection in order, also of one that the client has closed, and hands one reply for
each to `Send` of the socket, which may refuse it. Connections are numbered as `_Reconnect`
makes them; what a `Recv` reads is a beginning of what the replies have put on its connection.
-/

namespace Netlib

open Lib

/-- A handler whose two-way dealer appends to the reply. -/
structure ScHandler (ω : Type*) extends IServerHandler ω where
  appends : ∀ u t b r, b.WF → r.WF →
    ∃ bytes, (onTwoWayDealer u t b r).2.2.unread = r.unread ++ bytes

/-- The arguments of a `SyncCall`, with a reply argument or without; `msg_type` is an `int`. -/
structure ScCall where
  reply : Bool
  msg_type : ℤ
  msg : List Byte
  int : -2 ^ 31 ≤ msg_type ∧ msg_type < 2 ^ 31

/-- How a call is to be dealt with. -/
def ScCall.dealt (c : ScCall) : Dealt :=
  if c.reply then .twoWay c.msg_type c.msg else .oneWay c.msg_type c.msg

/-- A request that was sent: in which attempt of which call. -/
structure Asked where
  call : ℕ
  cnt : ℕ
  args : ScCall

/-- A frame that the server has dealt with: its number on the connection, the call of the
handler, and the data of `clisock->Send`. -/
structure Served where
  frame : ℕ
  dealt : Dealt
  data : List Byte

/-- What the handler has appended to the three words. -/
def Served.appended (s : Served) : List Byte := s.data.drop 12

/-- A connection: the bytes that have left the client and the requests that are complete
among them, how many bytes and frames of these the server has taken, its `_ScInfo_` and what
it has dealt with, the bytes of the replies that `Send` has accepted, and how many of these
the client has read. -/
structure ScLink where
  up : List Byte
  asked : List Asked
  taken : ℕ
  frames : ℕ
  info : Option ScInfo
  served : List Served
  down : List Byte
  got : ℕ

/-- After `OnConnected` for the given port. -/
def ScLink.connected (port : ℕ) : ScLink := ⟨[], [], 0, 0, some ⟨port, .new⟩, [], [], 0⟩

/-- `OnReceiveData` of the server for the next frame, of `n` bytes. The reply is handed to
`Send` of the socket as it is then. -/
def ScLink.serve {ω : Type*} (_handlers : ℕ → Option (ScHandler ω)) (l : ScLink) (user : ω)
    (frame : Buffer) (n now : ℕ) (sock : TcpBaseSocket) (err : Bool) : ScLink × ω :=
  let s := (ScServer.onReceiveData (fun id => (_handlers id).map ScHandler.toIServerHandler)
    ⟨l.info, user, [], []⟩ frame).1
  let served := (s.dealt.zip s.sends).map fun (dealt, data) => ⟨l.frames, dealt, data⟩
  let down := s.sends.flatMap fun data =>
    if (sock.send now data err).1 then encodeFrame (u32 now) data else []
  ({ l with
    taken := l.taken + n
    frames := l.frames + 1
    info := s.info
    served := l.served ++ served
    down := l.down ++ down }, s.user)

/-- A `SyncCall` that has returned 0: its request, the connection and the number of the frame
there, and the unread bytes of the reply. -/
structure Returned where
  asked : Asked
  link : ℕ
  frame : ℕ
  reply : List Byte

/-- **The reply is the answer** to the request on its connection: what a handler has appended
for the frame of that request, called in the way of the call with its message type and its
payload. -/
def Returned.Answers (r : Returned) (l : ScLink) : Prop :=
  l.asked[r.frame]? = some r.asked ∧
    ∃ s ∈ l.served, s.frame = r.frame ∧ s.dealt = r.asked.args.dealt ∧ r.reply = s.appended

/-- Where the client is. `cnt` counts the attempts of `_Sync`; with `none` it is `Connect`
that reconnects. -/
inductive ScPc
  | idle
  | attempt (cnt : ℕ)
  | reconnect (cnt : Option ℕ)
  | ready (cnt : ℕ)
  | waiting (cnt : ℕ)
  deriving DecidableEq

/-- The client with its connector and the number of its connection, all connections, and the
state of the server's handlers. `calls` counts the calls, `sends` the requests that the last
one has tried to send. -/
structure ScWorld (ω : Type*) where
  client : BaseScClient
  _socket : Option (ℕ × SyncConnector)
  link : ℕ → ScLink
  made : ℕ
  user : ω
  call : ScCall
  calls : ℕ
  sends : ℕ
  pc : ScPc
  returns : List Returned
  code : ℤ

inductive ScAction (ω : Type*)
  /-- `Connect`. -/
  | open_
  /-- `SyncCall`. -/
  | call (c : ScCall)
  /-- `Close`, between calls. -/
  | close
  /-- The caller reads from the reply, or writes to it. -/
  | use (b : { b : Buffer // b.WF })
  /-- The test of `_socket` at the beginning of an attempt. -/
  | check
  /-- What `SyncConnector::Connect` returns. -/
  | connect (ok : Bool)
  | send (now : ℕ) (as : List SendSome)
  | recv (rs : List RecvSome)
  /-- The next frame of the connection `k` comes to the server. -/
  | serve (k : ℕ) (frame : { b : Buffer // b.WF }) (now : ℕ) (sock : TcpBaseSocket) (err : Bool)
  /-- The handlers' state changes for another reason. -/
  | user (u : ω)

namespace ScWorld

open Function (update)

variable {ω : Type*}

def start (port : ℕ) (user : ω) : ScWorld ω where
  client := .new
  _socket := none
  link := fun _ => .connected port
  made := 0
  user := user
  call := ⟨false, 0, [], by decide⟩
  calls := 0
  sends := 0
  pc := .idle
  returns := []
  code := 0

variable (w : ScWorld ω)

def setLink (k : ℕ) (l : ScLink) : ScWorld ω := { w with link := update w.link k l }

/-- `ScClient::Close`. -/
def closeSocket : ScWorld ω := { w with _socket := none }

/-- The end of an attempt that does not return 0. -/
def nextAttempt (cnt : ℕ) (code : ℤ) : ScWorld ω :=
  { w with pc := if cnt + 1 < 2 then .attempt (cnt + 1) else .idle, code := code }

/-- `_Reconnect`, and what follows it. -/
def connectStep (cnt : Option ℕ) (ok : Bool) : ScWorld ω :=
  if ok then
    { w with
      _socket := some (w.made, .connected)
      made := w.made + 1
      pc := match cnt with
        | none => .idle
        | some cnt => .ready cnt }
  else
    match cnt with
    | none => { w.closeSocket with pc := .idle }
    | some cnt => w.closeSocket.nextAttempt cnt (-2)

/-- `_FillRequest` and `Send`. -/
def sendStep (cnt now : ℕ) (as : List SendSome) : Option (ScWorld ω) :=
  match w._socket with
  | none => none
  | some (k, c) =>
    -- a longer request overruns the memory of `_request`
    if 12 + w.call.msg.length + bufferDefaultSize < 2 ^ 32 then
      let client := ScKind.scClient.syncCall w.client w.call.reply w.call.msg_type w.call.msg
      (c.send now client._request.sendData as).map fun (ok, bytes, c) =>
        let l := w.link k
        let asked := if ok then l.asked ++ [⟨w.calls, cnt, w.call⟩] else l.asked
        let w := { w.setLink k { l with up := l.up ++ bytes, asked := asked } with
          client := client
          _socket := some (k, c)
          sends := w.sends + 1 }
        if ok then { w with pc := .waiting cnt } else w.closeSocket.nextAttempt cnt (-3)
    else none

/-- `Recv` and `_CheckReply`; the reads are those that `Recv` has done when it returns. -/
def recvStep (cnt : ℕ) (rs : List RecvSome) : Option (ScWorld ω) :=
  match w._socket with
  | none => none
  | some (k, c) =>
    let l := w.link k
    let bytes := rs.flatMap RecvSome.bytes
    if (∀ x ∈ rs, x.bytes.length ≤ socketReadSize) ∧ bytes <+: l.down.drop l.got then
      match c.recv rs with
      | some (preply, c, []) =>
        let r := w.client._checkReply preply
        let reply := r.2.getD c._reader.msgbuffer
        let w := { w.setLink k { l with got := l.got + bytes.length } with
          _socket := some (k, { c with _reader := { c._reader with msgbuffer := reply } }) }
        if r.1 then
          some { w with
            pc := .idle
            code := 0
            returns := w.returns ++ [⟨⟨w.calls, cnt, w.call⟩, k, l.asked.length - 1, reply.unread⟩] }
        else some (w.closeSocket.nextAttempt cnt (-3))
      | _ => none
    else none

/-- The next frame of the connection `k` comes to the server. -/
def serveStep (_handlers : ℕ → Option (ScHandler ω)) (k : ℕ) (frame : Buffer) (now : ℕ)
    (sock : TcpBaseSocket) (err : Bool) : Option (ScWorld ω) :=
  let l := w.link k
  match nextFrame socketPackSize (l.up.drop l.taken) with
  | .frame p n =>
    if frame.unread = p then
      let (l, user) := l.serve _handlers w.user frame n now sock err
      some { w.setLink k l with user := user }
    else none
  | _ => none

def step (_handlers : ℕ → Option (ScHandler ω)) (w : ScWorld ω) : ScAction ω → Option (ScWorld ω)
  | .open_ => if w.pc = .idle ∧ w._socket = none then some { w with pc := .reconnect none } else none
  | .call c =>
    if w.pc = .idle then
      some { w with call := c, calls := w.calls + 1, sends := 0, pc := .attempt 0, code := 0 }
    else none
  | .close => if w.pc = .idle then some w.closeSocket else none
  | .use b =>
    match w._socket with
    | some (k, c) =>
      if w.pc = .idle then
        some { w with _socket := some (k, { c with _reader := { c._reader with msgbuffer := b } }) }
      else none
    | none => none
  | .check =>
    match w.pc with
    | .attempt cnt =>
      match w._socket with
      | some (_, c) =>
        if c._flag = .start then some { w with pc := .ready cnt }
        else some { w with pc := .reconnect (some cnt) }
      | none => some { w with pc := .reconnect (some cnt) }
    | _ => none
  | .connect ok =>
    match w.pc with
    | .reconnect cnt => some (w.connectStep cnt ok)
    | _ => none
  | .send now as =>
    match w.pc with
    | .ready cnt => w.sendStep cnt now as
    | _ => none
  | .recv rs =>
    match w.pc with
    | .waiting cnt => w.recvStep cnt rs
    | _ => none
  | .serve k frame now sock err => w.serveStep _handlers k frame now sock err
  | .user u => some { w with user := u }

/-- **Replies match their calls**: a call sends at most two requests, and the reply of a call
that returned 0 is the answer to its own last request. -/
def Matched (w : ScWorld ω) : Prop :=
  w.sends ≤ 2 ∧ ∀ r ∈ w.returns, r.Answers (w.link r.link)

end ScWorld

end Netlib
