import Mathlib.Data.List.Induction
import Mathlib.Data.Option.Basic

/-!
# Stores that are records

A store with getters and setters is a record when a getter returns what its setter was given, cut
to what fits, and does not see the other setters (`IsRecord`). After any calls of setters it then
returns the last value that was set (`IsRecord.get_setAll`), whatever was set in between.
-/

namespace Netlib.Lib

variable {S ι V : Type*} {set : ι → V → S → S}

/-- The calls of setters, one after the other. -/
def setAll (set : ι → V → S → S) (calls : List (ι × V)) (s : S) : S :=
  calls.foldl (fun s c => set c.1 c.2 s) s

theorem setAll_snoc (calls : List (ι × V)) (c : ι × V) (s : S) :
    setAll set (calls ++ [c]) s = set c.1 c.2 (setAll set calls s) := by
  unfold setAll
  rw [List.foldl_append]
  rfl

/-- **A record** with the fields `fields`, on the stores that are `ok`. -/
structure IsRecord (ok : S → Prop) (fields : ι → Prop) (get : ι → S → V) (set : ι → V → S → S)
    (cut : ι → V → V) : Prop where
  keeps : ∀ s i v, fields i → ok s → ok (set i v s)
  same : ∀ s i v, fields i → ok s → get i (set i v s) = cut i v
  other : ∀ s i j v, fields i → fields j → ok s → j ≠ i → get j (set i v s) = get j s

variable {ok : S → Prop} {fields : ι → Prop} {get : ι → S → V} {cut : ι → V → V}

theorem IsRecord.ok_setAll (h : IsRecord ok fields get set cut) {calls : List (ι × V)}
    (hcalls : ∀ c ∈ calls, fields c.1) {s : S} (hs : ok s) : ok (setAll set calls s) := by
  induction calls using List.reverseRecOn with
  | nil => exact hs
  | append_singleton calls c ih =>
    rw [setAll_snoc]
    exact h.keeps _ _ _ (hcalls c (by simp)) (ih fun c' hc' => hcalls c' (List.mem_append_left _ hc'))

variable [DecidableEq ι]

/-- The value of the last call for `i`. -/
def lastSet (calls : List (ι × V)) (i : ι) : Option V :=
  (calls.reverse.find? fun c => c.1 = i).map Prod.snd

theorem lastSet_snoc (calls : List (ι × V)) (c : ι × V) (i : ι) :
    lastSet (calls ++ [c]) i = if c.1 = i then some c.2 else lastSet calls i := by
  unfold lastSet
  rw [List.reverse_append, List.reverse_singleton, List.singleton_append, List.find?_cons]
  by_cases h : c.1 = i
  · simp [h]
  · simp [h]

/-- **What a getter returns** is the value of the last call of its setter. -/
theorem IsRecord.get_setAll (h : IsRecord ok fields get set cut) {calls : List (ι × V)}
    (hcalls : ∀ c ∈ calls, fields c.1) {s : S} (hs : ok s) {i : ι} (hi : fields i) :
    get i (setAll set calls s) = ((lastSet calls i).map (cut i)).getD (get i s) := by
  induction calls using List.reverseRecOn with
  | nil => rfl
  | append_singleton calls c ih =>
    have hbefore : ∀ c' ∈ calls, fields c'.1 := fun c' hc' => hcalls c' (List.mem_append_left _ hc')
    have hc : fields c.1 := hcalls c (by simp)
    have hok : ok (setAll set calls s) := h.ok_setAll hbefore hs
    rw [setAll_snoc, lastSet_snoc]
    by_cases hci : c.1 = i
    · subst hci
      rw [if_pos rfl, h.same _ _ _ hc hok]
      rfl
    · rw [if_neg hci, h.other _ _ _ _ hc hi hok (Ne.symm hci)]
      exact ih hbefore

end Netlib.Lib
