import Netlib.Lib.Run
import Mathlib.Data.Nat.Notation
import Mathlib.Tactic.Common

/-!
# Resumable parsers

A parser is called on the symbols that are there; it consumes some of them from the
front and leaves a state, or fails. It is `Resumable` when a call on `x :: t` is a
call on `x` alone followed by a call on what is left: nothing is decided by how many
symbols come at once. Then a call on `a ++ b` is a call on `a` and a call on what it
left followed by `b` (`Resumable.append`), and the states reached by any calls are
those of one call (`Resumable.of_reach`).
-/

namespace Netlib.Lib

variable {σ β ε : Type*}

/-- One call: the number of symbols consumed and the state left, or a failure. -/
abbrev Parser (σ β ε : Type*) := σ → List β → Except ε (ℕ × σ)

/-- The outcome `r` of a call, then a call on `rest n` when `n` symbols were consumed. -/
def Parser.after (P : Parser σ β ε) (r : Except ε (ℕ × σ)) (rest : ℕ → List β) :
    Except ε (ℕ × σ) :=
  match r with
  | .error e => .error e
  | .ok (n, s) =>
    match P s (rest n) with
    | .error e => .error e
    | .ok (m, s') => .ok (n + m, s')

/-- **A parser that is not affected by where a call ends.** -/
structure Parser.Resumable (P : Parser σ β ε) : Prop where
  nil : ∀ s, P s [] = .ok (0, s)
  cons : ∀ s x t, P s (x :: t) = P.after (P s [x]) fun n => [x].drop n ++ t
  le_one : ∀ s x n s', P s [x] = .ok (n, s') → n ≤ 1
  stuck : ∀ s x s', P s [x] = .ok (0, s') → ∀ t, P s' t = .ok (0, s')

/-- One call as a step; a failing call is not enabled. -/
def Parser.step (P : Parser σ β ε) (s : σ) (c : List β) : Option σ :=
  match P s c with
  | .error _ => none
  | .ok (_, s') => some s'

/-- Calls on chunks that come one after the other: the number of symbols that each call
consumed, and the state left. -/
def Parser.feed (P : Parser σ β ε) : σ → List (List β) → Except ε (List ℕ × σ)
  | s, [] => .ok ([], s)
  | s, c :: cs =>
    match P s c with
    | .error e => .error e
    | .ok (n, s) => (P.feed s cs).map fun (ns, s) => (n :: ns, s)

namespace Parser

variable {P : Parser σ β ε}

theorem after_ok {n m : ℕ} {s s' : σ} {rest : ℕ → List β} (h : P s (rest n) = .ok (m, s')) :
    P.after (.ok (n, s)) rest = .ok (n + m, s') := by
  simp only [after, h]

/-- **Cutting a call in two** changes nothing. -/
theorem Resumable.append (hP : P.Resumable) (s : σ) (a b : List β) :
    P s (a ++ b) = P.after (P s a) fun n => a.drop n ++ b := by
  induction a generalizing s with
  | nil =>
    rw [hP.nil, List.nil_append]
    simp only [after, List.drop_nil, List.nil_append, Nat.zero_add]
    cases P s b <;> rfl
  | cons x a ih =>
    rw [List.cons_append, hP.cons s x (a ++ b), hP.cons s x a]
    cases hx : P s [x] with
    | error e => rfl
    | ok r =>
      obtain ⟨n, s₁⟩ := r
      have hn := hP.le_one s x n s₁ hx
      obtain rfl | rfl : n = 0 ∨ n = 1 := by omega
      · -- the parser is stuck
        have hs := hP.stuck s x s₁ hx
        simp only [after, hs]
      · simp only [after, List.drop_one, List.tail_cons, List.nil_append]
        rw [ih s₁]
        cases ha : P s₁ a with
        | error e => rfl
        | ok r =>
          obtain ⟨m, s₂⟩ := r
          have hd : (x :: a).drop (1 + m) = a.drop m := by rw [Nat.add_comm, List.drop_succ_cons]
          simp only [after, hd]
          cases P s₂ (a.drop m ++ b) with
          | error e => rfl
          | ok r => simp only [Nat.add_assoc]

/-- A call on `a ++ b` that does not fail is two calls that do not fail. -/
theorem Resumable.append_ok (hP : P.Resumable) {s s' : σ} {a b : List β} {n : ℕ}
    (h : P s (a ++ b) = .ok (n, s')) :
    ∃ n₁ s₁ n₂, P s a = .ok (n₁, s₁) ∧ P s₁ (a.drop n₁ ++ b) = .ok (n₂, s') ∧ n = n₁ + n₂ := by
  rw [hP.append] at h
  cases ha : P s a with
  | error e => rw [ha] at h; cases h
  | ok r =>
    obtain ⟨n₁, s₁⟩ := r
    rw [ha] at h
    simp only [after] at h
    cases hb : P s₁ (a.drop n₁ ++ b) with
    | error e => rw [hb] at h; cases h
    | ok r =>
      obtain ⟨n₂, s₂⟩ := r
      rw [hb] at h
      cases h
      exact ⟨n₁, s₁, n₂, rfl, hb, rfl⟩

/-- A call on `x :: t` that does not fail is stuck on `x`, or consumes it and goes on. -/
theorem Resumable.cons_ok (hP : P.Resumable) {s s' : σ} {x : β} {t : List β} {n : ℕ}
    (h : P s (x :: t) = .ok (n, s')) :
    n = 0 ∧ P s [x] = .ok (0, s') ∨
    ∃ s₁ i, P s [x] = .ok (1, s₁) ∧ P s₁ t = .ok (i, s') ∧ n = 1 + i := by
  rw [hP.cons] at h
  cases hx : P s [x] with
  | error e => rw [hx] at h; cases h
  | ok r =>
    obtain ⟨m, s₁⟩ := r
    rw [hx] at h
    have hm := hP.le_one s x m s₁ hx
    obtain rfl | rfl : m = 0 ∨ m = 1 := by omega
    · rw [after_ok (hP.stuck s x s₁ hx _)] at h
      cases h
      exact .inl ⟨rfl, rfl⟩
    · simp only [after, List.drop_one, List.tail_cons, List.nil_append] at h
      cases ht : P s₁ t with
      | error e => rw [ht] at h; cases h
      | ok r =>
        obtain ⟨i, s₂⟩ := r
        rw [ht] at h
        cases h
        exact .inr ⟨s₁, i, rfl, ht, rfl⟩

/-- A call consumes at most what is there; when it leaves something, the parser is stuck. -/
theorem Resumable.consumed (hP : P.Resumable) {s s' : σ} {a : List β} {n : ℕ}
    (h : P s a = .ok (n, s')) : n ≤ a.length ∧ (n < a.length → ∀ t, P s' t = .ok (0, s')) := by
  induction a generalizing s n with
  | nil =>
    rw [hP.nil] at h
    cases h
    exact ⟨Nat.le_refl 0, fun hlt => absurd hlt (Nat.lt_irrefl _)⟩
  | cons x a ih =>
    obtain ⟨rfl, hx⟩ | ⟨s₁, i, -, ha, rfl⟩ := hP.cons_ok h
    · exact ⟨Nat.zero_le _, fun _ => hP.stuck s x s' hx⟩
    · obtain ⟨h1, h2⟩ := ih ha
      rw [List.length_cons]
      exact ⟨by omega, fun hlt => h2 (by omega)⟩

/-- **The states reached are those of one call**, which may see symbols that it does
not consume. -/
theorem Resumable.of_reach (hP : P.Resumable) {s₀ s : σ} (h : Reach P.step always s₀ s) :
    ∃ a t, P s₀ (a ++ t) = .ok (a.length, s) := by
  induction h with
  | refl => exact ⟨[], [], hP.nil _⟩
  | @next s s' c _ _ hs ih =>
    obtain ⟨a, t, ha⟩ := ih
    cases hc : P s c with
    | error e => rw [step, hc] at hs; cases hs
    | ok r =>
      obtain ⟨n, s₁⟩ := r
      rw [step, hc] at hs
      cases hs
      rcases t with _ | ⟨x, t⟩
      · -- all symbols so far are consumed
        rw [List.append_nil] at ha
        refine ⟨a ++ c.take n, c.drop n, ?_⟩
        have hn := (hP.consumed hc).1
        rw [List.append_assoc, List.take_append_drop, hP.append, ha,
          after_ok (by rw [List.drop_length, List.nil_append]; exact hc), List.length_append,
          List.length_take, Nat.min_eq_left hn]
      · have hstuck := (hP.consumed ha).2 (by rw [List.length_append, List.length_cons]; omega)
        rw [hstuck c] at hc
        cases hc
        exact ⟨a, x :: t, ha⟩

/-- Chunks, then more chunks. -/
theorem feed_append (cs ds : List (List β)) {s s₁ : σ} {ns : List ℕ} (h : P.feed s cs = .ok (ns, s₁)) :
    P.feed s (cs ++ ds) = (P.feed s₁ ds).map fun (ms, s₂) => (ns ++ ms, s₂) := by
  induction cs generalizing s ns with
  | nil =>
    cases h
    rw [List.nil_append]
    generalize P.feed _ ds = r
    cases r <;> rfl
  | cons c cs ih =>
    rw [feed] at h
    rw [List.cons_append, feed]
    cases hc : P s c with
    | error e => rw [hc] at h; cases h
    | ok r =>
      obtain ⟨n, s₂⟩ := r
      simp only [hc] at h ⊢
      cases hcs : P.feed s₂ cs with
      | error e => rw [hcs] at h; cases h
      | ok r =>
        rw [hcs] at h
        cases h
        rw [ih hcs]
        generalize P.feed _ ds = r
        cases r <;> rfl

/-- **Chunks of symbols that one call consumes** are consumed chunk by chunk. -/
theorem Resumable.feed_all (hP : P.Resumable) {s' : σ} {b : List β} (cs : List (List β)) :
    ∀ {s : σ}, P s (cs.flatten ++ b) = .ok ((cs.flatten ++ b).length, s') →
      ∃ s₁, P.feed s cs = .ok (cs.map List.length, s₁) ∧ P s₁ b = .ok (b.length, s') := by
  induction cs with
  | nil => exact fun h => ⟨_, rfl, h⟩
  | cons c cs ih =>
    intro s h
    rw [List.flatten_cons, List.append_assoc] at h
    obtain ⟨n, s₁, i, hc, hrest, hn⟩ := hP.append_ok h
    have hle := (hP.consumed hc).1
    rw [List.length_append] at hn
    -- a call that leaves something of `c` leaves the parser stuck
    have hall : n = c.length := by
      rcases Nat.lt_or_eq_of_le hle with hlt | heq
      · rw [(hP.consumed hc).2 hlt] at hrest
        cases hrest
        omega
      · exact heq
    subst hall
    rw [List.drop_length, List.nil_append, show i = (cs.flatten ++ b).length by omega] at hrest
    obtain ⟨s₂, hfeed, hb⟩ := ih hrest
    refine ⟨s₂, ?_, hb⟩
    simp only [feed, hc, hfeed, Except.map, List.map_cons]

end Parser

end Netlib.Lib
