import Netlib.Lib.Run
import Netlib.Spec.Buffer
import Mathlib.Logic.Function.Basic

/-!
# The heart-beat (`netio/heartbeat.hpp`)

The scan takes the queues of one shard after the other. It first expires what its maps
hold, and then applies the notifications it has taken. The three kinds of sockets have a
copy of this each, with `_expire`, `_connect` and `_receive` in common; a map is a function,
and a pass meets each of its entries once.
-/

namespace Netlib

open Lib

/-- `TcpSocket`, `HttpSocket`, `TcpConnector`. -/
inductive HeartKind
  | tcp
  | http
  | conn
  deriving DecidableEq

/-- `HeartInfo::SocketInfo`. -/
structure SocketInfo where
  updtime : ℤ
  count : ℕ
  deriving DecidableEq

/-- `HeartInfo::ConnSocketInfo`. -/
structure ConnSocketInfo where
  idle : ℕ
  snd_time : ℤ
  rcv_time : ℤ
  rcv_cnt : ℕ
  deriving DecidableEq

namespace HeartKind

/-- What a map of the kind holds. -/
abbrev Info : HeartKind → Type
  | tcp | http => SocketInfo
  | conn => ConnSocketInfo

/-- What `OnConnected` gets beside the socket. -/
abbrev Setup : HeartKind → Type
  | tcp | http => Unit
  | conn => ℕ

/-- The time that expires. -/
def time : (k : HeartKind) → k.Info → ℤ
  | tcp, i | http, i => i.updtime
  | conn, i => i.rcv_time

/-- The entry for a new socket. -/
def fresh : (k : HeartKind) → ℤ → k.Setup → k.Info
  | tcp, now, _ | http, now, _ => ⟨now, 0⟩
  | conn, now, idle => ⟨idle, now, now, 0⟩

/-- The entry after a receive notification. -/
def touch : (k : HeartKind) → ℤ → k.Info → k.Info
  | tcp, now, i | http, now, i => ⟨now, u32 (i.count + 1)⟩
  | conn, now, i => { i with rcv_cnt := u32 (i.rcv_cnt + 1), rcv_time := now }

/-- A connector sends the keep-alive buffer. -/
def sends : (k : HeartKind) → ℤ → k.Info → Bool
  | tcp, _, _ | http, _, _ => false
  | conn, now, i => i.snd_time + i.idle < now

/-- The entry after a pass in which it does not expire. -/
def keep : (k : HeartKind) → ℤ → k.Info → k.Info
  | tcp, _, i | http, _, i => i
  | conn, now, i => if conn.sends now i then { i with snd_time := now } else i

end HeartKind

variable {σ : Type*}

/-- The part of `HeartInfo` for one kind: `tcp_info`, `co_tcplist`, `data_tcplist`. -/
structure Beat (σ : Type*) (k : HeartKind) where
  info : σ → Option k.Info
  co : List (σ × k.Setup)
  data : List σ

namespace Beat

variable {k : HeartKind} (b : Beat σ k)

def empty : Beat σ k := ⟨fun _ => none, [], []⟩

/-- `updtime + _beat < now`, for a socket in the map. -/
def expired (_beat : ℕ) (now : ℤ) (s : σ) : Bool :=
  (b.info s).any fun i => k.time i + _beat < now

/-- The loop over the map. -/
def _expire (_beat : ℕ) (now : ℤ) : Beat σ k :=
  { b with info := fun s => if b.expired _beat now s then none else (b.info s).map (k.keep now) }

variable [DecidableEq σ]

/-- One notification of `co_tcplist`. -/
def _connect (now : ℤ) (b : Beat σ k) (s : σ × k.Setup) : Beat σ k :=
  { b with info := Function.update b.info s.1 (some (k.fresh now s.2)) }

/-- One notification of `data_tcplist`. -/
def _receive (now : ℤ) (b : Beat σ k) (s : σ) : Beat σ k :=
  { b with info := Function.update b.info s ((b.info s).map (k.touch now)) }

/-- The pass of `_Run` over one shard and kind. -/
def _run (_beat : ℕ) (now : ℤ) : Beat σ k :=
  let tmp_co := b.co
  let tmp_data := b.data
  let b := { b with co := [], data := [] }
  let b := b._expire _beat now
  let b := tmp_co.foldl (_connect now) b
  tmp_data.foldl (_receive now) b

end Beat

/-- `HeartBeatMng`; the shards from `_svr_cnt` on are not used. -/
structure HeartBeatMng (σ : Type*) where
  _heartinfo : ℕ → (k : HeartKind) → Beat σ k
  _svr_cnt : ℕ
  _beat : ℕ

namespace HeartBeatMng

/-- After `Start(svr_cnt)`. -/
def start (svr_cnt beat : ℕ) : HeartBeatMng σ := ⟨fun _ _ => .empty, svr_cnt, beat⟩

variable (m : HeartBeatMng σ)

/-- The shard of a descriptor. -/
def idx (fd : ℕ) : ℕ := fd % m._svr_cnt

/-- Changes the queues of a shard. -/
def at_ (i : ℕ) (k : HeartKind) (f : Beat σ k → Beat σ k) : HeartBeatMng σ :=
  { m with
    _heartinfo := Function.update m._heartinfo i
      (Function.update (m._heartinfo i) k (f (m._heartinfo i k))) }

/-- `OnConnected` of a socket with descriptor `fd`. -/
def onConnected (k : HeartKind) (fd : ℕ) (s : σ) (setup : k.Setup) : HeartBeatMng σ :=
  m.at_ (m.idx fd) k fun b => { b with co := b.co ++ [(s, setup)] }

/-- `OnReceiveData`. -/
def onReceiveData (k : HeartKind) (fd : ℕ) (s : σ) : HeartBeatMng σ :=
  m.at_ (m.idx fd) k fun b => { b with data := b.data ++ [s] }

/-- The pass of `_Run` over one shard. -/
def _run [DecidableEq σ] (i : ℕ) (now : ℤ) : HeartBeatMng σ :=
  { m with
    _heartinfo := Function.update m._heartinfo i fun k => (m._heartinfo i k)._run m._beat now }

end HeartBeatMng

/-! ## Runs -/

/-- A close by the heart-beat: the time of the scan, whether a notification was queued when
the scan took the queues, and the last scan that saw one. -/
structure Closing where
  now : ℤ
  queued : Bool
  seen : Option ℤ

/-- The heart-beat in a run, for sockets with fixed descriptors `GetFd`. `scan` is the time
of the scan and its next shard, and `last` the time of the last scan. `seen` is the last scan
that has taken a notification for a socket, `watched` says that a connect was taken and the
socket has not been silent for too long since, and `closed` are its closes. -/
structure BeatWorld (σ : Type*) where
  mng : HeartBeatMng σ
  scan : Option (ℤ × ℕ)
  last : Option ℤ
  seen : HeartKind → σ → Option ℤ
  watched : HeartKind → σ → Bool
  closed : HeartKind → σ → List Closing

inductive BeatAction (σ : Type*)
  | onConnected (k : HeartKind) (s : σ) (setup : k.Setup)
  | onReceiveData (k : HeartKind) (s : σ)
  | begin (now : ℤ)
  | shard (isConnected : HeartKind → σ → Bool)

namespace BeatWorld

variable (GetFd : HeartKind → σ → ℕ)

def start (svr_cnt beat : ℕ) : BeatWorld σ :=
  ⟨.start svr_cnt beat, none, none, fun _ _ => none, fun _ _ => false, fun _ _ => []⟩

variable (w : BeatWorld σ)

/-- The queues and the map of a socket. -/
def beat (k : HeartKind) (s : σ) : Beat σ k := w.mng._heartinfo (w.mng.idx (GetFd k s)) k

def tracked (k : HeartKind) (s : σ) : Bool := ((w.beat GetFd k s).info s).isSome

variable [DecidableEq σ]

/-- A connect notification waits for the next scan. -/
def connecting (k : HeartKind) (s : σ) : Bool := decide (s ∈ (w.beat GetFd k s).co.map Prod.fst)

/-- A notification waits for the next scan. -/
def queued (k : HeartKind) (s : σ) : Bool :=
  w.connecting GetFd k s || decide (s ∈ (w.beat GetFd k s).data)

/-- No scan since `now - _beat` has seen the socket. -/
def silent (k : HeartKind) (s : σ) (now : ℤ) : Bool :=
  (w.seen k s).any fun t => t + w.mng._beat < now

/-- The pass over shard `i`; a socket that expires is closed when it is connected. -/
def pass (i : ℕ) (now : ℤ) (isConnected : HeartKind → σ → Bool) : BeatWorld σ :=
  { w with
    mng := w.mng._run i now
    seen := fun k s =>
      if w.mng.idx (GetFd k s) = i ∧ w.queued GetFd k s then some now else w.seen k s
    watched := fun k s =>
      if w.mng.idx (GetFd k s) = i then
        w.connecting GetFd k s ||
          (w.watched k s && !(!w.queued GetFd k s && w.silent k s now))
      else w.watched k s
    closed := fun k s =>
      if (w.mng._heartinfo i k).expired w.mng._beat now s && isConnected k s then
        w.closed k s ++ [⟨now, w.queued GetFd k s, w.seen k s⟩]
      else w.closed k s }

/-- One step. A scan starts when the last one is over, and not at an earlier time. -/
def step (w : BeatWorld σ) : BeatAction σ → Option (BeatWorld σ)
  | .onConnected k s setup => some { w with mng := w.mng.onConnected k (GetFd k s) s setup }
  | .onReceiveData k s => some { w with mng := w.mng.onReceiveData k (GetFd k s) s }
  | .begin now =>
    if w.scan = none ∧ w.last.all (· ≤ now) then
      some { w with scan := some (now, 0), last := some now }
    else none
  | .shard isConnected =>
    match w.scan with
    | none => none
    | some (now, i) =>
      if i < w.mng._svr_cnt then
        some { w.pass GetFd i now isConnected with scan := some (now, i + 1) }
      else some { w with scan := none }

/-- **A close is due**: nothing was queued for the socket, and the last scan that saw it was
more than `_beat` before. -/
def Due (beat : ℕ) (c : Closing) : Prop :=
  c.queued = false ∧ ∃ t, c.seen = some t ∧ t + beat < c.now

/-- **No live socket is closed, and none is forgotten.** -/
def Faithful (w : BeatWorld σ) : Prop :=
  (∀ k s, ∀ c ∈ w.closed k s, Due w.mng._beat c) ∧
    ∀ k s, w.watched k s = true → w.tracked GetFd k s = true

/-- **The condition on a pass**: no socket whose entry is out of date has a notification in
the queues that the pass takes. -/
def Timely (w : BeatWorld σ) : BeatAction σ → Prop
  | .shard _ => ∀ now i, w.scan = some (now, i) → ∀ k s, w.mng.idx (GetFd k s) = i →
      (w.beat GetFd k s).expired w.mng._beat now s = true → w.queued GetFd k s = false
  | _ => True

end BeatWorld

end Netlib
