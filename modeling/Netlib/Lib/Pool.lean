import Mathlib.Data.List.Nodup

/-!
# Numbers that are handed out and come back

A pool hands out the numbers in order, and one that has come back before a new one, the
last to come back first. It serves the numbers in use when they and the free ones are, with
no number twice, those below its top (`Serves`): then it never hands out one in use.
-/

namespace Netlib.Lib

/-- The numbers below `top` have been handed out; those in `free` are back. -/
structure Pool where
  top : ℕ
  free : List ℕ

namespace Pool

variable {p : Pool} {live live' : ℕ → Prop} {i : ℕ}

/-- The number handed out, and the pool without it. -/
def take (p : Pool) : ℕ × Pool :=
  match p.free with
  | i :: rest => (i, ⟨p.top, rest⟩)
  | [] => (p.top, ⟨p.top + 1, []⟩)

def give (p : Pool) (i : ℕ) : Pool := ⟨p.top, i :: p.free⟩

theorem top_le_take : p.top ≤ p.take.2.top := by
  unfold take
  split
  · exact Nat.le_refl _
  · exact Nat.le_succ _

/-- What is new below the top is the number handed out. -/
theorem lt_top_of_take (h : i < p.take.2.top) (hi : i ≠ p.take.1) : i < p.top := by
  unfold take at h hi
  split at h
  · exact h
  · rename_i hf
    rw [hf] at hi
    dsimp only at h hi
    omega

/-- Below the top a number is in use or free, and free once. -/
structure Serves (p : Pool) (live : ℕ → Prop) : Prop where
  nodup : p.free.Nodup
  mem : ∀ i, i ∈ p.free ↔ i < p.top ∧ ¬ live i
  below : ∀ i, live i → i < p.top

theorem Serves.init : (⟨0, []⟩ : Pool).Serves fun _ => False :=
  ⟨List.nodup_nil, by simp, fun _ => False.elim⟩

theorem Serves.congr (h : p.Serves live) (hl : ∀ i, live' i ↔ live i) : p.Serves live' := by
  refine ⟨h.nodup, ?_, ?_⟩
  · intro i
    rw [h.mem i, hl i]
  · intro i hi
    exact h.below i ((hl i).mp hi)

/-- **The number handed out is in nobody's hands.** -/
theorem Serves.not_live_take (h : p.Serves live) : ¬ live p.take.1 := by
  intro hlive
  unfold take at hlive
  split at hlive
  · rename_i i rest hf
    have hi : i ∈ p.free := by
      rw [hf]
      exact List.mem_cons_self
    exact ((h.mem i).mp hi).2 hlive
  · have hlt := h.below _ hlive
    omega

theorem Serves.take (h : p.Serves live) : p.take.2.Serves fun i => i = p.take.1 ∨ live i := by
  have hnew := h.not_live_take
  unfold Pool.take at hnew ⊢
  split at hnew
  · rename_i i rest hf
    have hnodup : i ∉ rest ∧ rest.Nodup := List.nodup_cons.mp (hf ▸ h.nodup)
    have hmem : ∀ j, (j = i ∨ j ∈ rest) ↔ j < p.top ∧ ¬ live j := by
      intro j
      rw [← h.mem j, hf, List.mem_cons]
    refine ⟨hnodup.2, ?_, ?_⟩
    · intro j
      dsimp only
      constructor
      · intro hj
        have hfree := (hmem j).mp (.inr hj)
        refine ⟨hfree.1, ?_⟩
        rintro (rfl | hlive)
        · exact hnodup.1 hj
        · exact hfree.2 hlive
      · rintro ⟨hlt, hnot⟩
        rcases (hmem j).mpr ⟨hlt, fun hl => hnot (.inr hl)⟩ with rfl | hj
        · exact absurd (.inl rfl) hnot
        · exact hj
    · rintro j (rfl | hlive)
      · exact ((hmem j).mp (.inl rfl)).1
      · exact h.below j hlive
  · rename_i hf
    have hmem : ∀ j, ¬ (j < p.top ∧ ¬ live j) := by
      intro j hj
      rw [← h.mem j, hf] at hj
      exact List.not_mem_nil hj
    refine ⟨List.nodup_nil, ?_, ?_⟩
    · intro j
      dsimp only
      constructor
      · exact fun hj => absurd hj List.not_mem_nil
      · rintro ⟨hlt, hnot⟩
        have hne : j ≠ p.top := fun he => hnot (.inl he)
        exact absurd ⟨by omega, fun hl => hnot (.inr hl)⟩ (hmem j)
    · dsimp only
      rintro j (rfl | hlive)
      · omega
      · have hlt := h.below j hlive
        omega

theorem Serves.give (h : p.Serves live) (hi : live i) :
    (p.give i).Serves fun j => j ≠ i ∧ live j := by
  refine ⟨?_, ?_, ?_⟩
  · exact List.nodup_cons.mpr ⟨fun hm => ((h.mem i).mp hm).2 hi, h.nodup⟩
  · intro j
    unfold Pool.give
    dsimp only
    rw [List.mem_cons, h.mem j]
    constructor
    · rintro (rfl | ⟨hlt, hnot⟩)
      · exact ⟨h.below j hi, fun hl => hl.1 rfl⟩
      · exact ⟨hlt, fun hl => hnot hl.2⟩
    · rintro ⟨hlt, hnot⟩
      by_cases hj : j = i
      · exact .inl hj
      · exact .inr ⟨hlt, fun hl => hnot ⟨hj, hl⟩⟩
  · exact fun j hj => h.below j hj.2

end Pool

end Netlib.Lib
