import Mathlib.Data.Int.CardIntervalMod

/-!
# Dealing in turn

`turns a k n` are the receivers of `n` things that are dealt to `k` receivers in turn, from the
receiver `a` on. Each gets `n / k` of them, or one more (`count_turns`).
-/

namespace Netlib.Lib

/-- The receivers, in order. -/
def turns (a k n : ℕ) : List ℕ := (List.range n).map fun j => (a + j) % k

theorem turns_succ (a k n : ℕ) : turns a k (n + 1) = turns a k n ++ [(a + n) % k] := by
  unfold turns
  rw [List.range_succ, List.map_append, List.map_singleton]

theorem mem_turns {a k n p : ℕ} (hk : 0 < k) (h : p ∈ turns a k n) : p < k := by
  obtain ⟨j, -, rfl⟩ := List.mem_map.mp h
  exact Nat.mod_lt _ hk

/-- The receiver `p` is in turn every `k` times. -/
theorem turn_iff {a k p : ℕ} (hp : p < k) (j : ℕ) :
    (a + j) % k = p ↔ j ≡ p + (k - a % k) [MOD k] := by
  have hlt := Nat.mod_lt a (Nat.zero_lt_of_lt hp)
  have hback : a + (p + (k - a % k)) ≡ p [MOD k] := by
    have hsum : a + (p + (k - a % k)) = p + k * (a / k + 1) := by
      have hdiv := Nat.div_add_mod a k
      rw [Nat.mul_add, Nat.mul_one]
      omega
    rw [hsum]
    exact Nat.add_modEq_left_iff.mpr (Nat.dvd_mul_right k _)
  constructor
  · intro h
    have hto : a + j ≡ p [MOD k] := by
      rw [← h]
      exact (Nat.mod_modEq _ _).symm
    exact Nat.ModEq.add_left_cancel' a (hto.trans hback.symm)
  · intro h
    have hto : a + j ≡ p [MOD k] := (Nat.ModEq.add_left a h).trans hback
    have hmod : (a + j) % k = p % k := hto
    rw [hmod, Nat.mod_eq_of_lt hp]

theorem count_turns_eq {a k p : ℕ} (hp : p < k) (n : ℕ) :
    (turns a k n).count p = Nat.count (· ≡ p + (k - a % k) [MOD k]) n := by
  induction n with
  | zero => rfl
  | succ n ih =>
    rw [turns_succ, List.count_append, ih, Nat.count_succ, List.count_singleton]
    simp only [beq_iff_eq, turn_iff hp]

/-- **Dealing in turn is even.** -/
theorem count_turns {a k p : ℕ} (hp : p < k) (n : ℕ) :
    n / k ≤ (turns a k n).count p ∧ (turns a k n).count p ≤ n / k + 1 := by
  rw [count_turns_eq hp, Nat.count_modEq_card n (Nat.zero_lt_of_lt hp)]
  split <;> omega

end Netlib.Lib
