import Netlib.Spec.CoScClient
import Netlib.Spec.ScClient

/-!
# Coroutines that call a server (`synccall/synccall_coclient.hpp`, `synccall/synccall_svr.hpp`)

The client of `CoWorld`, whose calls come one after another, and the server behind each of its
connectors. On a connection each side is handed the frames that `Send` of the other has accepted, in
their order. The heart-beat sends its message through the connectors too.
-/

namespace Netlib

open Lib

/-- A connection: the frames that `Send` of the connector has accepted, with the attempt that sends the
request, how many of them the server has taken, its `_ScInfo_` and what it has dealt with, the replies
that `Send` of its socket has accepted, and how many of these the connector was handed. -/
structure CoLink where
  sent : List (Option Asked × List Byte)
  frames : ℕ
  info : Option ScInfo
  served : List Served
  replies : List (List Byte)
  got : ℕ

namespace CoLink

/-- After `OnConnected` for the given port. -/
def connected (port : ℕ) : CoLink := ⟨[], 0, some ⟨port, .new⟩, [], [], 0⟩

variable (l : CoLink)

/-- `Send` of the connector has accepted a frame. -/
def push (frame : Option Asked × List Byte) : CoLink := { l with sent := l.sent ++ [frame] }

/-- `OnReceiveData` of the server for the next frame. The reply is handed to `Send` of the socket as it
is then. -/
def serve {ω : Type*} (_handlers : ℕ → Option (ScHandler ω)) (user : ω) (frame : Buffer) (now : ℕ)
    (sock : TcpBaseSocket) (err : Bool) : CoLink × ω :=
  let s := (ScServer.onReceiveData (fun id => (_handlers id).map ScHandler.toIServerHandler)
    ⟨l.info, user, [], []⟩ frame).1
  ({ l with
    frames := l.frames + 1
    info := s.info
    served := l.served ++ (s.dealt.zip s.sends).map fun (dealt, data) => ⟨l.frames, dealt, data⟩
    replies := l.replies ++ s.sends.filter fun data => (sock.send now data err).1 }, s.user)

end CoLink

/-- How a frame is to be dealt with; a call is two-way, also without a reply argument. -/
def coDealt : Option Asked → Dealt
  | none => .keepAlive
  | some a => .twoWay a.args.msg_type a.args.msg

/-- A `SyncCall` that has returned 0: its attempt, the connection, the pack index, and the unread bytes
of the reply. -/
structure CoReturned where
  asked : Asked
  link : ℕ
  packidx : ℕ
  reply : List Byte

/-- **The reply is the answer** to the request: what the handler has appended for its frame. -/
def CoReturned.Answers (r : CoReturned) (l : CoLink) : Prop :=
  ∃ s ∈ l.served, (l.sent[s.frame]?).map Prod.fst = some (some r.asked) ∧ r.reply = s.appended

/-- A step in which no call begins or ends, nothing is sent, and no frame comes. -/
def CoAction.internal : CoAction → Bool
  | .call _ | .send .. | .finish | .receive .. | .sock _ (.send ..) | .sock _ (.sendBuffer ..) => false
  | _ => true

/-- The client with its connections, the state of the server's handlers, the calls that were made, and
those that have returned 0. -/
structure CoRpc (ω : Type*) where
  co : CoWorld
  link : ℕ → CoLink
  user : ω
  calls : List ScCall
  returns : List CoReturned

inductive CoRpcAction (ω : Type*)
  /-- `SyncCall` of a coroutine. -/
  | call (c : ScCall) (thr_id co_id : ℕ)
  | send (now : ℕ) (err : Bool)
  | finish
  /-- Any other step of the client, its connectors and their threads. -/
  | client (a : CoAction)
  /-- `_Run` of the heart-beat sends its message through the connector `k`. -/
  | keepAlive (k now : ℕ) (err : Bool)
  /-- The next reply comes to the connector `k`. -/
  | receive (k : ℕ) (frame : { b : Buffer // b.WF })
  /-- The next frame of the connector `k` comes to the server. -/
  | serve (k : ℕ) (frame : { b : Buffer // b.WF }) (now : ℕ) (sock : TcpBaseSocket) (err : Bool)
  /-- The handlers' state changes for another reason. -/
  | user (u : ω)

namespace CoRpc

open Function (update)

variable {ω : Type*}

def start (port : ℕ) (user : ω) : CoRpc ω := ⟨.start, fun _ => .connected port, user, [], []⟩

/-- `ScKeepAlive`, as `SetConnSndBuffer` is given it. -/
def keepAliveData : List Byte := (Buffer.new.writeWord keepaliveId).sendData

variable (w : CoRpc ω)

def setLink (k : ℕ) (l : CoLink) : CoRpc ω := { w with link := update w.link k l }

/-- The attempt `cnt` of the last call. -/
def attempt (cnt : ℕ) : Option Asked := w.calls.getLast?.map fun args => ⟨w.calls.length, cnt, args⟩

/-- The frame is on the connection when `Send` has accepted it. -/
def pushIf (k : ℕ) (accepted : Bool) (frame : Option Asked × List Byte) : CoRpc ω :=
  if accepted then w.setLink k ((w.link k).push frame) else w

def step (_handlers : ℕ → Option (ScHandler ω)) (w : CoRpc ω) : CoRpcAction ω → Option (CoRpc ω)
  | .call c thr_id co_id =>
    (w.co.step (.call ⟨c.msg_type, c.msg, thr_id, co_id⟩)).map fun co =>
      { w with co := co, calls := w.calls ++ [c] }
  | .send now err =>
    match w.co.pc with
    | .registered cnt k =>
      (w.attempt cnt).bind fun a =>
        -- a longer request overruns the memory of `_request`
        if 12 + a.args.msg.length + bufferDefaultSize < 2 ^ 32 then
          (w.co.step (.send now err)).map fun co =>
            { w with co := co }.pushIf k (co.pc = CoPc.sent cnt k true)
              (some a, co.client._request.sendData)
        else none
    | _ => none
  | .finish =>
    match w.co.pc with
    | .resumed cnt k =>
      (w.attempt cnt).bind fun a =>
        (w.co.step .finish).map fun co =>
          { w with
            co := co
            returns :=
              if co.pc = .idle ∧ co.code = 0 then
                w.returns ++ [⟨a, k, co.client._packidx, (co.conn k).info.buffer.unread⟩]
              else w.returns }
    | _ => none
  | .client a => if a.internal then (w.co.step a).map fun co => { w with co := co } else none
  | .keepAlive k now err =>
    (w.co.step (.sock k (.send now keepAliveData err))).map fun co =>
      { w with co := co }.pushIf k ((w.co.conn k).send.sock.send now keepAliveData err).1
        (none, keepAliveData)
  | .receive k frame =>
    let l := w.link k
    if l.replies[l.got]? = some frame.val.unread then
      (w.co.step (.receive k frame)).map fun co =>
        { w with co := co }.setLink k { l with got := l.got + 1 }
    else none
  | .serve k frame now sock err =>
    let l := w.link k
    match l.sent[l.frames]? with
    | some (_, data) =>
      if frame.val.unread = data then
        let (l, user) := l.serve _handlers w.user frame now sock err
        some { w.setLink k l with user := user }
      else none
    | none => none
  | .user u => some { w with user := u }

/-- **The calls are answered.** -/
structure CallsAnswered : Prop where
  /-- What the server deals with is a frame of the connection, as it was sent, -/
  genuine : ∀ k, ∀ s ∈ (w.link k).served, ∃ f, (w.link k).sent[s.frame]? = some f ∧ s.dealt = coDealt f.1
  /-- each once and in their order. -/
  order : ∀ k, ((w.link k).served.map Served.frame).Pairwise (· < ·)
  /-- A request is one of the two attempts of a call that was made, -/
  made : ∀ (k i : ℕ) (a : Asked) (data : List Byte), (w.link k).sent[i]? = some (some a, data) →
    a.cnt < 2 ∧ ∃ n, a.call = n + 1 ∧ w.calls[n]? = some a.args
  /-- and an attempt is sent once. -/
  once : ∀ (k i k' i' : ℕ) (a : Asked) (data data' : List Byte),
    (w.link k).sent[i]? = some (some a, data) → (w.link k').sent[i']? = some (some a, data') → k = k' ∧ i = i'
  /-- A call that has returned 0 has the answer to its own last request. With the pack index 0 it may
  have nothing: the buffer that is cleared for a disconnect then passes for a reply. -/
  answered : ∀ r ∈ w.returns, r.Answers (w.link r.link) ∨ r.packidx = 0 ∧ r.reply = []

end CoRpc

end Netlib
