import Netlib.Lib.Run

/-!
# Runs that come to an end

Where a system that is not done always has a step that makes a measure smaller, and an invariant is
kept by the steps, some run from every state leads to a state that is done (`Reach.comes_to_end`).
-/

namespace Netlib.Lib

variable {S A : Type*} {step : S → A → Option S} {C : S → A → Prop} {I Done : S → Prop}

/-- **Progress.** -/
theorem Reach.comes_to_end (measure : S → ℕ)
    (hinv : ∀ s a s', I s → C s a → step s a = some s' → I s')
    (hstep : ∀ s, I s → ¬ Done s → ∃ a s', C s a ∧ step s a = some s' ∧ measure s' < measure s)
    {s : S} (h : I s) : ∃ s', Reach step C s s' ∧ I s' ∧ Done s' := by
  induction hn : measure s using Nat.strongRecOn generalizing s with
  | ind n ih =>
    by_cases hd : Done s
    · exact ⟨s, .refl, h, hd⟩
    · obtain ⟨a, s₁, hc, hs, hlt⟩ := hstep s h hd
      obtain ⟨s', hreach, hend⟩ := ih (measure s₁) (hn ▸ hlt) (hinv s a s₁ h hc hs) rfl
      exact ⟨s', (Reach.single hc hs).trans hreach, hend⟩

end Netlib.Lib
