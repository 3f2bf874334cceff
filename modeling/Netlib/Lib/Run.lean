import Mathlib.Logic.Basic
import Mathlib.Data.List.Basic

/-!
# Runs of a step function

A system is a partial step function `step : S → A → Option S` on states and
actions: `none` means that the action is not enabled. `Reach step C s₀` holds of
the states that some run from `s₀` visits when every step of the run meets `C`,
a condition on the state before the step and the action. An invariant of the
step is an invariant of the runs (`Reach.inv`), and a system whose steps are those of
another has its runs (`Reach.refine`). `Every` says something of each step of one run, `Along`
of each state and the action that comes next, and `trace` is what is seen of a run: a simulation
leaves it the same (`trace_eq`).
-/

namespace Netlib.Lib

variable {S A : Type*} {step : S → A → Option S} {C C' : S → A → Prop} {s₀ s₁ : S}

/-- The states reached by the runs from `s₀` all of whose steps meet `C`. -/
inductive Reach (step : S → A → Option S) (C : S → A → Prop) (s₀ : S) : S → Prop
  | refl : Reach step C s₀ s₀
  | next {s s' : S} {a : A} : Reach step C s₀ s → C s a → step s a = some s' → Reach step C s₀ s'

/-- The condition met by every step. -/
abbrev always : S → A → Prop := fun _ _ => True

/-- **Invariants along runs.** What holds at first and is kept by every step that
meets the condition holds of every state reached. -/
theorem Reach.inv {I : S → Prop} (h0 : I s₀)
    (hstep : ∀ s a s', I s → C s a → step s a = some s' → I s') {s : S}
    (h : Reach step C s₀ s) : I s := by
  induction h with
  | refl => exact h0
  | next _ hc hs ih => exact hstep _ _ _ ih hc hs

/-- Invariants along runs, when a step that meets the condition is shown to be defined as well. -/
theorem Reach.inv_of_defined {I : S → Prop} (h0 : I s₀)
    (hstep : ∀ s a, I s → C s a → ∃ s', step s a = some s' ∧ I s') {s : S}
    (h : Reach step C s₀ s) : I s := by
  refine h.inv h0 ?_
  intro s a s₁ hi hc hs
  obtain ⟨s₂, hs₂, hi₂⟩ := hstep s a hi hc
  rw [hs] at hs₂
  rwa [Option.some.inj hs₂]

/-- **Refinement of runs.** Where an invariant makes each step of one system a step of another
that meets its condition, the runs of the first are runs of the other. -/
theorem Reach.refine {step' : S → A → Option S} {I : S → Prop} (h0 : I s₀)
    (hstep : ∀ s a s', I s → C s a → step s a = some s' →
      C' s a ∧ step' s a = some s' ∧ I s') {s : S} (h : Reach step C s₀ s) :
    Reach step' C' s₀ s ∧ I s := by
  induction h with
  | refl => exact ⟨.refl, h0⟩
  | next _ hc hs ih =>
    obtain ⟨hreach, hi⟩ := ih
    obtain ⟨hc', hs', hi'⟩ := hstep _ _ _ hi hc hs
    exact ⟨.next hreach hc' hs', hi'⟩

theorem Reach.mono (hC : ∀ s a, C s a → C' s a) {s : S} (h : Reach step C s₀ s) :
    Reach step C' s₀ s :=
  (h.refine (I := fun _ => True) trivial fun _ _ _ _ hc hs => ⟨hC _ _ hc, hs, trivial⟩).1

theorem Reach.trans {s : S} (h1 : Reach step C s₀ s₁) (h2 : Reach step C s₁ s) :
    Reach step C s₀ s := by
  induction h2 with
  | refl => exact h1
  | next _ hc hs ih => exact .next ih hc hs

/-- The run of a list of actions, when each meets `C` in every state. -/
theorem Reach.of_foldlM {l : List A} (hC : ∀ a ∈ l, ∀ s, C s a) {s : S}
    (h : l.foldlM step s₀ = some s) : Reach step C s₀ s := by
  induction l generalizing s₀ with
  | nil =>
    obtain rfl := Option.some.inj h
    exact .refl
  | cons a l ih =>
    rw [List.foldlM_cons, Option.bind_eq_bind, Option.bind_eq_some_iff] at h
    obtain ⟨s₁, h1, h2⟩ := h
    have hhead : Reach step C s₀ s₁ := .next .refl (hC a List.mem_cons_self s₀) h1
    exact hhead.trans (ih (fun b hb => hC b (List.mem_cons_of_mem a hb)) h2)

/-- The run of a list of actions, with the condition checked at each. -/
theorem Reach.of_checked [∀ s a, Decidable (C s a)] {l : List A} {s : S}
    (h : l.foldlM (fun s a => if C s a then step s a else none) s₀ = some s) :
    Reach step C s₀ s := by
  have hrun := Reach.of_foldlM (C := always) (fun _ _ _ => trivial) h
  refine (hrun.refine (I := fun _ => True) trivial ?_).1
  intro s a s' _ _ hs
  obtain ⟨hc, hs'⟩ := Option.ite_none_right_eq_some.mp hs
  exact ⟨hc, hs', trivial⟩

/-! ## Properties of the steps of a run -/

/-- Every step of the run of `l` from `s` has the property `P`. -/
def Every (step : S → A → Option S) (P : S → A → S → Prop) : S → List A → Prop
  | _, [] => True
  | s, a :: l => ∀ s', step s a = some s' → P s a s' ∧ Every step P s' l

/-- Two properties that an invariant makes the same for each step are the same for the runs. -/
theorem every_iff {P Q : S → A → S → Prop} {I : S → Prop}
    (hinv : ∀ s a s', I s → step s a = some s' → I s')
    (hstep : ∀ s a s', I s → step s a = some s' → (P s a s' ↔ Q s a s')) (l : List A) :
    ∀ s, I s → (Every step P s l ↔ Every step Q s l) := by
  induction l with
  | nil => exact fun _ _ => Iff.rfl
  | cons a l ih =>
    intro s hi
    refine forall_congr' fun s' => forall_congr' fun hs => ?_
    exact and_congr (hstep s a s' hi hs) (ih s' (hinv s a s' hi hs))

/-- A property of each step that follows from another, with an invariant that the steps with the other
one keep. -/
theorem Every.imp {P Q : S → A → S → Prop} {I : S → Prop}
    (hinv : ∀ s a s', I s → Q s a s' → step s a = some s' → I s')
    (hstep : ∀ s a s', I s → Q s a s' → step s a = some s' → P s a s') (l : List A) :
    ∀ s, I s → Every step Q s l → Every step P s l := by
  induction l with
  | nil => exact fun _ _ _ => trivial
  | cons a l ih =>
    intro s hi h s' hs
    obtain ⟨hq, hrest⟩ := h s' hs
    exact ⟨hstep s a s' hi hq hs, ih s' (hinv s a s' hi hq hs) hrest⟩

/-- The last step of a run. -/
theorem Every.last {P : S → A → S → Prop} {a : A} {s' : S} {l : List A}
    (h : Every step P s₀ (l ++ [a])) (hl : l.foldlM step s₀ = some s₁)
    (hs : step s₁ a = some s') : P s₁ a s' := by
  induction l generalizing s₀ with
  | nil =>
    obtain rfl := Option.some.inj hl
    exact (h s' hs).1
  | cons b l ih =>
    rw [List.foldlM_cons, Option.bind_eq_bind, Option.bind_eq_some_iff] at hl
    obtain ⟨s₂, h1, h2⟩ := hl
    exact ih (h s₂ h1).2 h2

/-- Every action of the run of `l` from `s` finds a state that meets `C`. -/
def Along (step : S → A → Option S) (C : S → A → Prop) : S → List A → Prop
  | _, [] => True
  | s, a :: l => C s a ∧ ∀ s', step s a = some s' → Along step C s' l

/-- Two conditions that an invariant makes the same for each action are the same along the
runs; the invariant has to be kept by the steps that meet them only. -/
theorem along_iff {I : S → Prop} (hinv : ∀ s a s', I s → C s a → step s a = some s' → I s')
    (hiff : ∀ s a, I s → (C s a ↔ C' s a)) (l : List A) :
    ∀ s, I s → (Along step C s l ↔ Along step C' s l) := by
  induction l with
  | nil => exact fun _ _ => Iff.rfl
  | cons a l ih =>
    intro s hi
    constructor
    · rintro ⟨hc, hrest⟩
      exact ⟨(hiff s a hi).mp hc, fun s' hs => (ih s' (hinv s a s' hi hc hs)).mp (hrest s' hs)⟩
    · rintro ⟨hc', hrest⟩
      have hc := (hiff s a hi).mpr hc'
      exact ⟨hc, fun s' hs => (ih s' (hinv s a s' hi hc hs)).mpr (hrest s' hs)⟩

/-- Where a condition is that the step is defined, a run of steps that meet it is a run that is
defined. -/
theorem along_iff_defined {I : S → Prop} (hinv : ∀ s a s', I s → step s a = some s' → I s')
    (hiff : ∀ s a, I s → (C s a ↔ ∃ s', step s a = some s')) (l : List A) :
    ∀ s, I s → (Along step C s l ↔ ∃ s', l.foldlM step s = some s') := by
  induction l with
  | nil => exact fun s _ => ⟨fun _ => ⟨s, rfl⟩, fun _ => trivial⟩
  | cons a l ih =>
    intro s hi
    rw [List.foldlM_cons, Option.bind_eq_bind]
    constructor
    · rintro ⟨hc, hrest⟩
      obtain ⟨s₁, hs₁⟩ := (hiff s a hi).mp hc
      rw [hs₁]
      exact (ih s₁ (hinv s a s₁ hi hs₁)).mp (hrest s₁ hs₁)
    · rintro ⟨s', hs'⟩
      obtain ⟨s₁, hs₁, hl⟩ := Option.bind_eq_some_iff.mp hs'
      refine ⟨(hiff s a hi).mpr ⟨s₁, hs₁⟩, ?_⟩
      intro s₂ hs₂
      rw [hs₁] at hs₂
      obtain rfl := Option.some.inj hs₂
      exact (ih s₁ (hinv s a s₁ hi hs₁)).mpr ⟨s', hl⟩

/-- One step. -/
theorem Reach.single {s' : S} {a : A} (hc : C s₀ a) (hs : step s₀ a = some s') :
    Reach step C s₀ s' := .next .refl hc hs

/-! ## What is seen of a run -/

section Trace

variable {T O : Type*}

/-- What is seen of each step of the run of `l` from `s`; there is nothing where a step is
undefined. -/
def trace (step : S → A → Option S) (see : S → A → S → O) : S → List A → Option (List O)
  | _, [] => some []
  | s, a :: l => (step s a).bind fun s' => (trace step see s' l).map (see s a s' :: ·)

/-- **Simulation.** Two systems whose related states take steps to related states, seen alike,
have the same traces. -/
theorem trace_eq {R : S → T → Prop} {step' : T → A → Option T} {see : S → A → S → O}
    {see' : T → A → T → O}
    (hstep : ∀ s t a, R s t → Option.Rel (fun s' t' => R s' t' ∧ see s a s' = see' t a t')
      (step s a) (step' t a))
    {s : S} {t : T} (h : R s t) (l : List A) : trace step see s l = trace step' see' t l := by
  induction l generalizing s t with
  | nil => rfl
  | cons a l ih =>
    have hrel := hstep s t a h
    unfold trace
    generalize step s a = r at hrel
    generalize step' t a = r' at hrel
    cases hrel with
    | none => rfl
    | some hand =>
      obtain ⟨hr, hsee⟩ := hand
      rw [Option.bind_some, Option.bind_some, ih hr, hsee]

end Trace

end Netlib.Lib
