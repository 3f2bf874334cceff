import Netlib.Lib.Run
import Netlib.Spec.ScServer
import Mathlib.Logic.Function.Basic

/-!
# Calls of coroutines (`synccall/synccall_coclient.hpp`, `synccall/synccall_svr.hpp`)

`CoScClient::_Sync` registers its coroutine in the data of the connector, sends the request
and yields. The thread of the connector hands replies over in `OnReceiveData`, without the
mutex, and disconnections in `OnDisconnected`; both queue a resume. The steps below are those
between which the other thread can come. Connectors are numbered as `_Reconnect` makes them,
and the sending side of each is a `SendWorld`.
-/

namespace Netlib

open Lib

/-- `_CoScInfo_`; a coroutine id of `none` is -1. -/
structure CoScInfo where
  valid : Bool
  thr_id : ℕ
  co_id : Option ℕ
  buffer : Buffer

theorem Buffer.WF.peek {b : Buffer} (h : b.WF) : (ScServer.peek b).WF := by
  have hread : b.readWord.2.WF := by
    unfold Buffer.readWord Buffer.read
    split_ifs with hgt
    · exact h
    · exact ⟨Nat.le_of_not_lt hgt, h.pos_le, h.size_lt, h.data⟩
  unfold ScServer.peek Buffer.cutData
  split_ifs with hgt
  · exact ⟨Nat.le_refl _, hread.pos_le, hread.size_lt, hread.data⟩
  · exact ⟨Nat.le_of_not_lt hgt, hread.pos_le, hread.size_lt, hread.data⟩

/-- A frame after the un-read of its first word. -/
def peeked (frame : { b : Buffer // b.WF }) : { b : Buffer // b.WF } :=
  ⟨ScServer.peek frame.val, frame.property.peek⟩

/-- Where the connector's thread is: in `OnReceiveData` after it has read the ids, after it
has written them, and after it has parked the frame; in `OnDisconnected` after the mutex. -/
inductive IoPc
  | idle
  | took (thr_id : ℕ) (co_id : Option ℕ) (frame : { b : Buffer // b.WF })
  | cleared (thr_id : ℕ) (co_id : Option ℕ) (frame : { b : Buffer // b.WF })
  | parked (thr_id : ℕ) (co_id : Option ℕ)
  | down (thr_id : ℕ) (co_id : Option ℕ)

namespace IoPc

/-- The ids that the thread holds. -/
def ids : IoPc → Option (ℕ × Option ℕ)
  | idle => none
  | took thr_id co_id _ | cleared thr_id co_id _ | parked thr_id co_id | down thr_id co_id =>
    some (thr_id, co_id)

/-- The frame that is not in the buffer of the connector yet. -/
def frame : IoPc → Option { b : Buffer // b.WF }
  | took _ _ frame | cleared _ _ frame => some frame
  | _ => none

end IoPc

/-- A connector with its data. `down` says that `OnDisconnected` has had the mutex. -/
structure CoConn where
  send : SendWorld
  info : CoScInfo
  io : IoPc
  down : Bool

namespace CoConn

/-- `new TcpConnector` with a new `_CoScInfo_`, and a `Connect` that returns true. -/
def connected : CoConn := ⟨.start, ⟨false, 0, none, .new⟩, .idle, false⟩

variable (c : CoConn)

/-- `OnReceiveData(TcpConnectorPtr)` up to its reads of the ids; a keep-alive answer has
no further effect. -/
def receive (frame : { b : Buffer // b.WF }) : CoConn :=
  if frame.val.readWord.1 = keepaliveAckId then c
  -- `CutData(-4)` gives the first word back, also one that was not read
  else { c with io := .took c.info.thr_id c.info.co_id (peeked frame) }

/-- `OnDisconnected(TcpConnectorPtr)` under the mutex. -/
def onDisconnected : CoConn :=
  { c with
    info := { valid := false, thr_id := 0, co_id := none, buffer := c.info.buffer.clear }
    io := .down c.info.thr_id c.info.co_id
    down := true }

end CoConn

/-- The arguments of a `SyncCall`, and the thread and the coroutine that call. -/
structure CoCall where
  msg_type : ℤ
  msg : List Byte
  thr_id : ℕ
  co_id : ℕ

/-- Where the client is. `cnt` counts the attempts of `_Sync`; with `none` it is `Connect`
that reconnects. -/
inductive CoPc
  | idle
  | attempt (cnt : ℕ)
  | reconnect (cnt : Option ℕ)
  | connected (cnt : Option ℕ) (k : ℕ)
  | ready (cnt k : ℕ)
  | registered (cnt k : ℕ)
  | sent (cnt k : ℕ) (accepted : Bool)
  | suspended (cnt k : ℕ) (accepted : Bool)
  | resumed (cnt k : ℕ)
  deriving DecidableEq

namespace CoPc

/-- The request has been handed to the connector `k`, and the coroutine is not resumed yet. -/
def waits : CoPc → ℕ → Bool
  | sent _ k' _, k | suspended _ k' _, k => k' = k
  | _, _ => false

end CoPc

/-- An attempt that was resumed: the payload of the frame with the current pack index that
was handed over for it, if there was one, whether it returned 0, the unread bytes of the
reply, and how many requests the call had sent. -/
structure CoAttempt where
  handed : Option (List Byte)
  ok : Bool
  reply : List Byte
  sends : ℕ
  deriving DecidableEq

/-- The client with its connectors and the queued resumes. `handed` is the frame with the
current pack index, with its connector, that `OnReceiveData` was given for the waiting
coroutine; `sends` and `attempts` are those of the last call. -/
structure CoWorld where
  client : BaseScClient
  _socket : Option ℕ
  conn : ℕ → CoConn
  made : ℕ
  call : CoCall
  pc : CoPc
  resumes : List (ℕ × Option ℕ)
  handed : Option (ℕ × List Byte)
  sends : ℕ
  attempts : List CoAttempt
  code : ℤ

inductive CoAction
  /-- `Connect`. -/
  | open_
  /-- `SyncCall`. -/
  | call (c : CoCall)
  /-- `Close`, between calls. -/
  | close
  /-- The test of `_socket` at the beginning of an attempt. -/
  | check
  /-- What `TcpConnector::Connect` returns. -/
  | connect (ok : Bool)
  /-- `pscinfo->valid = true`. -/
  | setValid
  /-- The registration, under the mutex. -/
  | register
  | send (now : ℕ) (err : Bool)
  | yield
  /-- `doThrResume` of the caller's thread. -/
  | resume
  /-- `doThrResume` takes a resume that no call waits for. -/
  | stale (r : ℕ × Option ℕ)
  /-- What follows `yield` in `_Sync`. -/
  | finish
  /-- A frame comes to `OnReceiveData` of the connector `k`. -/
  | receive (k : ℕ) (frame : { b : Buffer // b.WF })
  /-- The thread of the connector `k` goes on in its callback. -/
  | io (k : ℕ)
  /-- `OnDisconnected` of the connector `k`. -/
  | onDisconnected (k : ℕ)
  /-- Anything else that happens to the sending side. -/
  | sock (k : ℕ) (a : SendAction)

namespace CoWorld

open Function (update)

def start : CoWorld where
  client := .new
  _socket := none
  conn := fun _ => .connected
  made := 0
  call := ⟨0, [], 0, 0⟩
  pc := .idle
  resumes := []
  handed := none
  sends := 0
  attempts := []
  code := 0

variable (w : CoWorld)

def setConn (k : ℕ) (c : CoConn) : CoWorld := { w with conn := update w.conn k c }

def setPc (pc : CoPc) : CoWorld := { w with pc := pc }

/-- What the resume of the calling coroutine is queued as. -/
def caller : ℕ × Option ℕ := (w.call.thr_id, some w.call.co_id)

/-- `CoScClient::Close`. -/
def closeSocket : CoWorld :=
  match w._socket with
  | none => w
  | some k =>
    let c := w.conn k
    { w.setConn k { c with send := { c.send with sock := c.send.sock.close } } with _socket := none }

/-- The end of an attempt that does not return 0. -/
def nextAttempt (cnt : ℕ) (code : ℤ) : CoWorld :=
  { w with pc := if cnt + 1 < 2 then .attempt (cnt + 1) else .idle, code := code }

/-- A frame that is not a keep-alive answer, with the pack index of the request. -/
def carries (frame : Buffer) (packidx : ℕ) : Bool :=
  frame.readWord.1 ≠ keepaliveAckId && 12 ≤ frame.unread.length &&
    ofLe32 ((frame.unread.drop 8).take 4) = packidx

/-- `OnReceiveData` of the connector `k` is given a frame. -/
def receiveStep (k : ℕ) (frame : { b : Buffer // b.WF }) : CoWorld :=
  { w.setConn k ((w.conn k).receive frame) with
    handed :=
      if w.pc.waits k ∧ carries frame w.client._packidx then some (k, frame.val.unread.drop 12)
      else w.handed }

/-- What the thread of a connector does next in its callback. -/
def ioStep (k : ℕ) : Option CoWorld :=
  let c := w.conn k
  match c.io with
  | .idle => none
  | .took thr_id co_id frame =>
    some (w.setConn k { c with
      info := { c.info with thr_id := 0, co_id := none }, io := .cleared thr_id co_id frame })
  | .cleared thr_id co_id frame =>
    some (w.setConn k { c with
      info := { c.info with buffer := frame }, io := .parked thr_id co_id })
  | .parked thr_id co_id =>
    some { w.setConn k { c with io := .idle } with resumes := w.resumes ++ [(thr_id, co_id)] }
  | .down thr_id co_id =>
    some { w.setConn k { c with io := .idle } with
      resumes := if co_id = none then w.resumes else w.resumes ++ [(thr_id, co_id)] }

/-- The registration of `_Sync`. -/
def registerStep (cnt k : ℕ) : CoWorld :=
  let c := w.conn k
  if c.info.valid then
    (w.setConn k { c with
      info := { c.info with thr_id := w.call.thr_id, co_id := some w.call.co_id } }).setPc
        (.registered cnt k)
  else w.closeSocket.nextAttempt cnt (-3)

/-- `_FillRequest` and `Send`; what `Send` returns is not looked at. -/
def sendStep (cnt k : ℕ) (now : ℕ) (err : Bool) : CoWorld :=
  let client := ScKind.coScClient.fill w.client twowayType w.call.msg_type w.call.msg
  let c := w.conn k
  let data := client._request.sendData
  let accepted := (c.send.sock.send now data err).1
  { w.setConn k { c with send := (c.send.step (.send now data err)).getD c.send } with
    client := client
    pc := .sent cnt k accepted
    handed := none
    sends := w.sends + 1 }

/-- `_CheckReply(&pscinfo->buffer)`. -/
def checkReply (k : ℕ) : Bool × CoWorld :=
  let c := w.conn k
  let r := w.client._checkReply (some c.info.buffer)
  let buffer := r.2.getD c.info.buffer
  (r.1, { w.setConn k { c with info := { c.info with buffer := buffer } } with
    handed := none
    attempts := w.attempts ++ [⟨w.handed.map Prod.snd, r.1, buffer.unread, w.sends⟩] })

/-- What follows `yield`. -/
def finishStep (cnt k : ℕ) : CoWorld :=
  let (ok, w) := w.checkReply k
  if ok then { w with pc := .idle, code := 0 } else w.closeSocket.nextAttempt cnt (-3)

def step (w : CoWorld) : CoAction → Option CoWorld
  | .open_ => if w.pc = .idle ∧ w._socket = none then some (w.setPc (.reconnect none)) else none
  | .call c =>
    if w.pc = .idle then
      some { w with call := c, pc := .attempt 0, sends := 0, attempts := [], code := 0 }
    else none
  | .close => if w.pc = .idle then some w.closeSocket else none
  | .check =>
    match w.pc with
    | .attempt cnt =>
      match w._socket with
      | some k =>
        if (w.conn k).send.sock._flag = .start then some (w.setPc (.ready cnt k))
        else some (w.setPc (.reconnect (some cnt)))
      | none => some (w.setPc (.reconnect (some cnt)))
    | _ => none
  | .connect ok =>
    match w.pc with
    | .reconnect cnt =>
      if ok then
        some { (w.setConn w.made .connected).setPc (.connected cnt w.made) with
          _socket := some w.made, made := w.made + 1 }
      else
        match cnt with
        | none => some { w with _socket := none, pc := .idle }
        | some cnt => some ({ w with _socket := none }.nextAttempt cnt (-2))
    | _ => none
  | .setValid =>
    match w.pc with
    | .connected cnt k =>
      let c := w.conn k
      let w := w.setConn k { c with info := { c.info with valid := true } }
      match cnt with
      | none => some (w.setPc .idle)
      | some cnt => some (w.setPc (.ready cnt k))
    | _ => none
  | .register =>
    match w.pc with
    | .ready cnt k => some (w.registerStep cnt k)
    | _ => none
  | .send now err =>
    match w.pc with
    | .registered cnt k => some (w.sendStep cnt k now err)
    | _ => none
  | .yield =>
    match w.pc with
    | .sent cnt k accepted => some (w.setPc (.suspended cnt k accepted))
    | _ => none
  | .resume =>
    match w.pc with
    | .suspended cnt k _ =>
      if w.caller ∈ w.resumes then
        some { w with resumes := w.resumes.erase w.caller, pc := .resumed cnt k }
      else none
    | _ => none
  | .stale r =>
    -- the caller's own thread does not come to it while the caller runs
    if r ∈ w.resumes ∧ (w.pc = .idle ∨ r ≠ w.caller) then
      some { w with resumes := w.resumes.erase r }
    else none
  | .finish =>
    match w.pc with
    | .resumed cnt k => some (w.finishStep cnt k)
    | _ => none
  | .receive k frame =>
    -- a connector is not read before it is there, nor after it is reported
    match (w.conn k).io with
    | .idle =>
      if k < w.made ∧ (w.conn k).down = false then some (w.receiveStep k frame) else none
    | _ => none
  | .io k => w.ioStep k
  | .onDisconnected k =>
    match (w.conn k).io with
    | .idle =>
      if k < w.made ∧ (w.conn k).down = false ∧ (w.conn k).send.sock._socket.closes ≠ [] then
        some (w.setConn k (w.conn k).onDisconnected)
      else none
    | _ => none
  | .sock k a =>
    if k < w.made then
      ((w.conn k).send.step a).map fun send => w.setConn k { w.conn k with send := send }
    else none

/-! ## What is expected -/

/-- **No reply is lost**: an attempt for which a frame with the pack index of its request was
handed over returns 0 with this reply, and the call sends no request after it. -/
def NoLostReply (w : CoWorld) : Prop :=
  ∀ a ∈ w.attempts, ∀ p, a.handed = some p → a.ok = true ∧ a.reply = p ∧ w.sends = a.sends

/-- **The condition on a step for the wake-ups**: the ids are not registered with a connector
that is marked valid after it was reported disconnected, nor while its thread is between its
read and its write of them; a connector in `E_STATE_START` takes the request, and any other
has called `_socket->Close`: it does not wait for a write before it does. -/
def WaiterSafe (w : CoWorld) : CoAction → Prop
  | .register => ∀ cnt k, w.pc = .ready cnt k →
      ((w.conn k).info.valid = true → (w.conn k).down = false) ∧
        ∀ thr_id co_id frame, (w.conn k).io ≠ .took thr_id co_id frame
  | .send _ _ => ∀ cnt k, w.pc = .registered cnt k →
      ((w.conn k).send.sock._flag = .start →
        12 + w.call.msg.length ≤ socketPackSize ∧
          (w.conn k).send.sock._writer.msgbuffer2.size + (12 + w.call.msg.length + hdrlen) ≤
            maxBufferSize) ∧
        ((w.conn k).send.sock._flag ≠ .start → (w.conn k).send.sock._socket.closes ≠ [])
  | _ => True

/-- **The condition on a step for the replies**: from when a frame with the pack index is
handed over, its connector is not reported disconnected and no other frame is handed over for
it, and the reply is not checked before the frame is in the buffer. -/
def ReplySafe (w : CoWorld) : CoAction → Prop
  | .onDisconnected k => ∀ p, w.handed ≠ some (k, p)
  | .receive k frame => frame.val.readWord.1 = keepaliveAckId ∨ ∀ p, w.handed ≠ some (k, p)
  | .finish => ∀ k p, w.handed = some (k, p) → (w.conn k).io.frame = none
  | _ => True

end CoWorld

end Netlib
