import Mathlib.Algebra.BigOperators.Group.List.Basic
import Mathlib.Algebra.Ring.Nat
import Mathlib.Tactic.Common

/-!
# One's-complement sums

Numbers `0 .. m`, where `m + 1` is a power of two for words of bits. An addition adds its carry
in again (`add`), so sums are remainders modulo `m`, with `m` in the place of 0 unless every
summand is 0 (`rep`). A long sum may put the carries off: `fold` adds the high digits of a number
in base `m + 1` to the lowest, and keeps what it stands for.
-/

namespace Netlib.Lib.OnesComplement

variable {m : ℕ}

/-- Addition with end-around carry. -/
def add (m a b : ℕ) : ℕ := if a + b ≤ m then a + b else a + b - m

/-- The sum of a list. -/
def sum (m : ℕ) (l : List ℕ) : ℕ := l.foldl (add m) 0

/-- What a number stands for: 0 for 0, otherwise the one of `1 .. m` that it is modulo `m`. -/
def rep (m n : ℕ) : ℕ := if n = 0 then 0 else (n - 1) % m + 1

/-- The digits in base `m + 1` above the lowest, added to the lowest. -/
def fold (m n : ℕ) : ℕ := n / (m + 1) + n % (m + 1)

@[simp] theorem rep_zero (m : ℕ) : rep m 0 = 0 := rfl

theorem rep_eq_zero_iff {n : ℕ} : rep m n = 0 ↔ n = 0 := by
  unfold rep
  split <;> omega

theorem rep_le (hm : 0 < m) (n : ℕ) : rep m n ≤ m := by
  have hlt := Nat.mod_lt (n - 1) hm
  unfold rep
  split <;> omega

/-- A number of `1 .. m` stands for itself. -/
theorem rep_of_le {n : ℕ} (h : n ≤ m) : rep m n = n := by
  unfold rep
  split
  · omega
  · rw [Nat.mod_eq_of_lt (by omega)]
    omega

/-- A multiple of `m` may be added to what is not 0. -/
theorem rep_add_mul {n : ℕ} (hn : n ≠ 0) (k : ℕ) : rep m (n + m * k) = rep m n := by
  have hsub : n + m * k - 1 = n - 1 + m * k := by
    omega
  unfold rep
  rw [if_neg (by omega), if_neg hn, hsub, Nat.add_mul_mod_self_left]

/-- A number is what it stands for, up to a multiple of `m`. -/
theorem exists_rep (m n : ℕ) : ∃ k, n = rep m n + m * k := by
  unfold rep
  split
  · exact ⟨0, by omega⟩
  · have hdiv := Nat.mod_add_div (n - 1) m
    exact ⟨(n - 1) / m, by omega⟩

/-- A divisor of `m` divides a number when it divides what the number stands for. -/
theorem dvd_rep_iff {d n : ℕ} (hd : d ∣ m) : d ∣ rep m n ↔ d ∣ n := by
  obtain ⟨k, hk⟩ := exists_rep m n
  have hmul : d ∣ m * k := Dvd.dvd.mul_right hd k
  conv_rhs => rw [hk]
  exact (Nat.dvd_add_left hmul).symm

theorem rep_add_rep (n k : ℕ) : rep m (rep m n + k) = rep m (n + k) := by
  obtain ⟨j, hj⟩ := exists_rep m n
  by_cases hn : n = 0
  · rw [hn, rep_zero]
  · have hne : rep m n + k ≠ 0 := by
      have := rep_eq_zero_iff (m := m) (n := n)
      omega
    have hsum : n + k = rep m n + k + m * j := by
      omega
    rw [hsum, rep_add_mul hne]

/-- **One addition.** -/
theorem add_eq_rep {a b : ℕ} (ha : a ≤ m) (hb : b ≤ m) : add m a b = rep m (a + b) := by
  unfold add
  split
  · rw [rep_of_le (by assumption)]
  · have hsum : a + b = a + b - m + m * 1 := by
      omega
    rw [hsum, rep_add_mul (by omega), rep_of_le (by omega)]
    omega

/-- **The sum of a list** is what the ordinary sum stands for. -/
theorem sum_eq_rep (hm : 0 < m) {l : List ℕ} (hl : ∀ x ∈ l, x ≤ m) : sum m l = rep m l.sum := by
  have key : ∀ (l : List ℕ) (a : ℕ), (∀ x ∈ l, x ≤ m) →
      l.foldl (add m) (rep m a) = rep m (a + l.sum) := by
    intro l
    induction l with
    | nil =>
      intro a _
      rw [List.foldl_nil, List.sum_nil, Nat.add_zero]
    | cons x l ih =>
      intro a hl
      have hx := hl x List.mem_cons_self
      rw [List.foldl_cons, add_eq_rep (rep_le hm a) hx, rep_add_rep,
        ih _ fun y hy => hl y (List.mem_cons_of_mem x hy), List.sum_cons, Nat.add_assoc]
  have h0 := key l 0 hl
  rwa [rep_zero, Nat.zero_add] at h0

/-- **To fold does not change what a number stands for.** -/
theorem rep_fold (m n : ℕ) : rep m (fold m n) = rep m n := by
  have hdiv := Nat.mod_add_div n (m + 1)
  by_cases hn : n = 0
  · subst hn
    rw [fold, Nat.zero_div, Nat.zero_mod]
  · have hne : fold m n ≠ 0 := by
      intro h0
      obtain ⟨hq, hr⟩ := Nat.add_eq_zero_iff.mp h0
      rw [hq, hr, Nat.mul_zero] at hdiv
      exact hn hdiv.symm
    have heq : n = fold m n + m * (n / (m + 1)) := by
      rw [Nat.add_mul, Nat.one_mul] at hdiv
      unfold fold
      omega
    conv_rhs => rw [heq]
    exact (rep_add_mul hne _).symm

/-- **Two folds are enough** for a number whose high digits are at most `m`: after the first one
the carry is 0 or 1, and with it added in the lowest digit is what the number stands for. -/
theorem second_fold {n : ℕ} (h : n / (m + 1) ≤ m) :
    (fold m n + fold m n / (m + 1)) % (m + 1) = rep m n := by
  have hlow : n % (m + 1) < m + 1 := Nat.mod_lt n (Nat.succ_pos m)
  have hle : fold m n ≤ 2 * m := by
    unfold fold
    omega
  rw [← rep_fold]
  generalize fold m n = s at hle
  by_cases hs : s ≤ m
  · rw [Nat.div_eq_of_lt (by omega), Nat.add_zero, Nat.mod_eq_of_lt (by omega), rep_of_le hs]
  · have hcarry : s / (m + 1) = 1 := by
      rw [Nat.div_eq_iff (Nat.succ_pos m)]
      omega
    have hsum : s = s - m + m * 1 := by
      omega
    have hmod : (s + 1) % (m + 1) = s - m := by
      rw [Nat.mod_eq_sub_mod (by omega), Nat.mod_eq_of_lt (by omega)]
      omega
    rw [hcarry, hmod]
    conv_rhs => rw [hsum]
    rw [rep_add_mul (by omega), rep_of_le (by omega)]

end Netlib.Lib.OnesComplement
