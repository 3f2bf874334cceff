import Netlib.Spec.HeartBeat

/-!
# Keep-alive messages (`netio/heartbeat.hpp`)

A connector that has sent nothing for `idle` seconds sends the keep-alive buffer, and an answer is a
receive notification like any other. What a scan can see of the times is bounded by how far the
scans are apart and by how long an answer takes. Times are whole seconds, as `time(0)` gives them.
-/

namespace Netlib

open Lib

/-- Bounds on the time between two scans, and between a keep-alive message and its answer. -/
structure Timing where
  gap : ℕ
  reply : ℕ

/-- **The beat is long enough** for a connector with `idle`: in the worst case it sends `idle + gap`
after the last one, the answer comes `reply` later, and one more scan comes before that which sees
it. -/
structure Timing.Fits (t : Timing) (beat idle : ℕ) : Prop where
  pos : 0 < t.reply
  reply_le : t.reply ≤ idle
  beat_ge : idle + t.reply + 2 * t.gap ≤ beat + 1

namespace BeatWorld

variable {σ : Type*} [DecidableEq σ] (GetFd : HeartKind → σ → ℕ) (t : Timing) (w : BeatWorld σ)

/-- The answer to the last keep-alive message is in the queue at the time `now`, if it is due. -/
def Answered (now : ℤ) (s : σ) : Prop :=
  ∀ e, (w.beat GetFd .conn s).info s = some e → e.rcv_time < e.snd_time →
    e.snd_time + t.reply ≤ now → s ∈ (w.beat GetFd .conn s).data

/-- The bounds are kept. -/
def Prompt (w : BeatWorld σ) : BeatAction σ → Prop
  | .onConnected .conn _ idle => t.Fits w.mng._beat idle
  | .begin now => ∀ last, w.last = some last → now ≤ last + t.gap
  | .shard _ => ∀ now i, w.scan = some (now, i) → ∀ s, w.mng.idx (GetFd .conn s) = i →
      w.Answered GetFd t now s
  | _ => True

/-- **Live connectors are kept, and dead sockets are found.** -/
structure KeepsAlive (w : BeatWorld σ) : Prop where
  /-- No connector is closed. -/
  spared : ∀ s, w.closed .conn s = []
  /-- None is dropped from the map either: the next pass finds no entry out of date. -/
  kept : ∀ now i, w.scan = some (now, i) → ∀ s, w.mng.idx (GetFd .conn s) = i →
    (w.beat GetFd .conn s).expired w.mng._beat now s = false
  /-- After a scan no entry of any kind is older than the beat. -/
  found : w.scan = none → ∀ last, w.last = some last → ∀ k s e,
    (w.beat GetFd k s).info s = some e → last ≤ k.time e + w.mng._beat

end BeatWorld

end Netlib
