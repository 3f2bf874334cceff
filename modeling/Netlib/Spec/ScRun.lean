import Netlib.Spec.ScClient
import Mathlib.Algebra.BigOperators.Group.Finset.Basic

/-!
# How often a call is executed (`synccall/synccall_client.hpp`, `synccall/synccall_svr.hpp`)

A call whose first attempt fails is sent again on a new connection, while the server may still
take the first request from the old one. The calls that are made are written down beside the
client, the server and their connections (`ScWorld`).
-/

namespace Netlib

namespace ScLink

variable (l : ScLink)

/-- The numbers of the calls that were sent on the connection. -/
def sent : List ℕ := l.asked.map Asked.call

/-- The numbers of those that a handler was called for. -/
def executed : List ℕ := l.served.filterMap fun s => l.asked[s.frame]?.map Asked.call

end ScLink

/-- A run: where it has come to, and the calls that were made; the first has the number 1. -/
structure ScRun (ω : Type*) where
  world : ScWorld ω
  made : List ScCall

namespace ScRun

variable {ω : Type*}

def start (port : ℕ) (user : ω) : ScRun ω := ⟨.start port user, []⟩

def step (_handlers : ℕ → Option (ScHandler ω)) (r : ScRun ω) (a : ScAction ω) : Option (ScRun ω) :=
  (r.world.step _handlers a).map fun w => ⟨w, match a with
    | .call c => r.made ++ [c]
    | _ => r.made⟩

variable (r : ScRun ω)

/-- How often the call `n` was sent, on all connections. -/
def attempts (n : ℕ) : ℕ := ∑ k ∈ Finset.range r.world.made, (r.world.link k).sent.count n

/-- How often a handler was called for it. -/
def executions (n : ℕ) : ℕ := ∑ k ∈ Finset.range r.world.made, (r.world.link k).executed.count n

/-- **A call is executed twice at most.** -/
structure AtMostTwice : Prop where
  /-- A handler is called only for a call that was made, as it was made. -/
  genuine : ∀ k, ∀ s ∈ (r.world.link k).served, ∃ n c, r.made[n]? = some c ∧ s.dealt = c.dealt ∧
    (r.world.link k).asked[s.frame]?.map Asked.call = some (n + 1)
  /-- The calls of one connection are executed in their order, each once. -/
  order : ∀ k, (r.world.link k).executed.Pairwise (· < ·)
  /-- On all connections a call is executed twice at most, -/
  twice : ∀ n, r.executions n ≤ 2
  /-- not more often than it was sent, -/
  sent : ∀ n, r.executions n ≤ r.attempts n
  tries : r.attempts r.world.calls ≤ r.world.sends
  /-- and once at least when it has returned 0. -/
  answered : ∀ a ∈ r.world.returns, 0 < r.executions a.asked.call

end ScRun

end Netlib
