import Mathlib.Data.Int.Notation
import Mathlib.Data.Nat.Notation
import Mathlib.Logic.Basic
import Mathlib.Logic.Function.Basic

/-!
# Refinement of a partial machine

An implementation and a specification take the same calls and give answers. A call is `none`
for the specification when it is not allowed, and for the implementation when it is undefined.
`Refines` says that along a sequence of allowed calls every call is defined, is answered as the
specification answers it, and leaves related states. Where a condition on the state before a
call decides this for one call, it decides it for the sequences (`refines_iff`).
-/

namespace Netlib.Lib

variable {S M A O : Type*}

/-- **Refinement along a sequence of calls**, as far as the specification allows them. -/
def Refines (impl : S → A → Option (O × S)) (spec : M → A → Option (O × M)) (R : S → M → Prop) :
    S → M → List A → Prop
  | _, _, [] => True
  | s, m, a :: l => ∀ o m', spec m a = some (o, m') →
      ∃ s', impl s a = some (o, s') ∧ R s' m' ∧ Refines impl spec R s' m' l

/-- Every call of the sequence, as far as the specification allows them, finds a state that
meets `C`. -/
def Meets (impl : S → A → Option (O × S)) (spec : M → A → Option (O × M)) (C : S → A → Prop) :
    S → M → List A → Prop
  | _, _, [] => True
  | s, m, a :: l => ∀ o m', spec m a = some (o, m') →
      C s a ∧ ∀ o' s', impl s a = some (o', s') → Meets impl spec C s' m' l

variable {impl : S → A → Option (O × S)} {spec : M → A → Option (O × M)} {R : S → M → Prop}
  {C : S → A → Prop}

/-- **The condition on one call is the condition on the sequences.** -/
theorem refines_iff
    (hok : ∀ s m a o m', R s m → spec m a = some (o, m') → C s a →
      ∃ s', impl s a = some (o, s') ∧ R s' m')
    (hbad : ∀ s m a o m' s', R s m → spec m a = some (o, m') → impl s a = some (o, s') →
      R s' m' → C s a)
    (l : List A) : ∀ s m, R s m → (Refines impl spec R s m l ↔ Meets impl spec C s m l) := by
  induction l with
  | nil => exact fun _ _ _ => Iff.rfl
  | cons a l ih =>
    intro s m hr
    refine forall_congr' fun o => forall_congr' fun m' => forall_congr' fun hspec => ?_
    constructor
    · rintro ⟨s', himpl, hr', hrest⟩
      refine ⟨hbad s m a o m' s' hr hspec himpl hr', ?_⟩
      intro o₁ s₁ himpl₁
      rw [himpl] at himpl₁
      cases himpl₁
      exact (ih s' m' hr').mp hrest
    · rintro ⟨hc, hrest⟩
      obtain ⟨s', himpl, hr'⟩ := hok s m a o m' hr hspec hc
      exact ⟨s', himpl, hr', (ih s' m' hr').mpr (hrest o s' himpl)⟩

/-- An implementation that does every call the specification allows refines it. -/
theorem refines_of_step
    (hok : ∀ s m a o m', R s m → spec m a = some (o, m') → ∃ s', impl s a = some (o, s') ∧ R s' m')
    (l : List A) : ∀ s m, R s m → Refines impl spec R s m l := by
  induction l with
  | nil => exact fun _ _ _ => trivial
  | cons a l ih =>
    intro s m hr o m' hspec
    obtain ⟨s', himpl, hr'⟩ := hok s m a o m' hr hspec
    exact ⟨s', himpl, hr', ih s' m' hr'⟩

/-! ## Containers -/

/-- What a call on a container of elements returns; `assigned` has what is left in an output
argument as well. -/
inductive Answer (α : Type*)
  | void
  | elem (a : α)
  | size (n : ℤ)
  | bool (b : Bool)
  | assigned (b : Bool) (t : Option α)
  deriving DecidableEq

/-! ### Families of objects -/

section Family

variable {ι T U : Type*} [DecidableEq ι] {H : T → U → Prop} {s : ι → T} {m : ι → U}

open Function (update)

/-- A related family, one object after a call on it. -/
theorem related_update (h : ∀ i, H (s i) (m i)) {i : ι} {t : T} {u : U} (hi : H t u) :
    ∀ j, H (update s i t j) (update m i u j) := by
  intro j
  by_cases hj : j = i
  · subst hj
    rw [Function.update_self, Function.update_self]
    exact hi
  · rw [Function.update_of_ne hj, Function.update_of_ne hj]
    exact h j

end Family

end Netlib.Lib
