import Netlib.Spec.Slist
import Mathlib.Data.List.Lattice
import Mathlib.Data.List.Nodup
import Mathlib.Logic.Equiv.Basic
import Mathlib.Tactic.Common

/-!
# When slists are lists

Each operation on lists with their own nodes gives such lists (`Owns.push_back`,
`Owns.pop_front`, `Owns.join`), but for two: `clear` of a list with nodes leaves its `_tail`,
which points to a freed node, and `join` of an empty list to another sets `_tail` to null. So a
family of slists answers as lists exactly as long as neither happens, and no `_count` overflows
(`refines_lists_iff`).
-/

namespace Netlib

open Lib
open Function (update)

theorem int32_of_lt {z : ℤ} (h0 : 0 ≤ z) (h : z < 2 ^ 31) : int32 z = some z := by
  unfold int32
  rw [if_pos (by omega)]

theorem lt_of_int32 {z z' : ℤ} (h : int32 z = some z') : z < 2 ^ 31 := by
  unfold int32 at h
  split at h
  · rename_i hz
    exact hz.2
  · cases h

namespace SlistWorld

variable {α : Type*} {w : SlistWorld α} {cells : ℕ → List (ℕ × α)} {i other : ℕ}

theorem Owns.start : (start : SlistWorld α).Owns fun _ => [] where
  seg _ := rfl
  tail _ := rfl
  count _ := rfl
  lt _ := show (0 : ℤ) < 2 ^ 31 by decide
  nodup _ := List.nodup_nil
  disjoint _ _ _ := List.disjoint_nil_left _
  fresh _ _ ha := absurd ha List.not_mem_nil

/-- `_head` is null when there are no nodes. -/
theorem Owns.head_eq (h : w.Owns cells) (i : ℕ) : (w.list i)._head = (addrs (cells i)).head? :=
  (h.seg i).head_eq

theorem Owns.head_eq_none_iff (h : w.Owns cells) (i : ℕ) :
    (w.list i)._head = none ↔ cells i = [] := by
  rw [h.head_eq, List.head?_eq_none_iff]
  exact List.map_eq_nil_iff

/-- **One list gets other nodes**: those of the other lists stay as they are. -/
theorem Owns.change (h : w.Owns cells) {heap : Heap α} {fresh : ℕ} {l : Slist}
    {c : List (ℕ × α)} (hframe : ∀ j, j ≠ i → ∀ a ∈ addrs (cells j), heap a = w.heap a)
    (hseg : Seg heap l._head c none) (htail : l._tail = (addrs c).getLast?)
    (hcount : l._count = c.length) (hlt : l._count < 2 ^ 31) (hnodup : (addrs c).Nodup)
    (hdisjoint : ∀ j, j ≠ i → List.Disjoint (addrs c) (addrs (cells j)))
    (hle : w.fresh ≤ fresh) (hfresh : ∀ a ∈ addrs c, a < fresh) :
    Owns ⟨heap, fresh, update w.list i l⟩ (update cells i c) := by
  refine ⟨?_, ?_, ?_, ?_, ?_, ?_, ?_⟩
  · intro j
    dsimp only
    by_cases hj : j = i
    · subst hj
      rwa [Function.update_self, Function.update_self]
    · rw [Function.update_of_ne hj, Function.update_of_ne hj]
      exact (h.seg j).congr (hframe j hj)
  · exact related_update (H := fun (l : Slist) c => l._tail = (addrs c).getLast?) h.tail htail
  · exact related_update (H := fun (l : Slist) c => l._count = List.length c) h.count hcount
  · intro j
    dsimp only
    by_cases hj : j = i
    · subst hj
      rwa [Function.update_self]
    · rw [Function.update_of_ne hj]
      exact h.lt j
  · intro j
    by_cases hj : j = i
    · subst hj
      rwa [Function.update_self]
    · rw [Function.update_of_ne hj]
      exact h.nodup j
  · intro j k hjk
    by_cases hj : j = i
    · subst hj
      rw [Function.update_self, Function.update_of_ne hjk.symm]
      exact hdisjoint k hjk.symm
    · rw [Function.update_of_ne hj]
      by_cases hk : k = i
      · subst hk
        rw [Function.update_self]
        exact List.Disjoint.symm (hdisjoint j hj)
      · rw [Function.update_of_ne hk]
        exact h.disjoint j k hjk
  · intro j
    by_cases hj : j = i
    · subst hj
      rwa [Function.update_self]
    · rw [Function.update_of_ne hj]
      exact fun a ha => Nat.lt_of_lt_of_le (h.fresh j a ha) hle

/-- The lists in another order. -/
theorem Owns.comp (h : w.Owns cells) (σ : Equiv.Perm ℕ) :
    Owns { w with list := w.list ∘ σ } (cells ∘ σ) where
  seg j := h.seg (σ j)
  tail j := h.tail (σ j)
  count j := h.count (σ j)
  lt j := h.lt (σ j)
  nodup j := h.nodup (σ j)
  disjoint j k hjk := h.disjoint (σ j) (σ k) fun heq => hjk (σ.injective heq)
  fresh j := h.fresh (σ j)

/-! ## The operations -/

/-- The node of `push_back` is in no list. -/
theorem Owns.fresh_notMem (h : w.Owns cells) (j : ℕ) : w.fresh ∉ addrs (cells j) :=
  fun hmem => Nat.lt_irrefl _ (h.fresh j _ hmem)

theorem Owns.push_back (h : w.Owns cells) (hcount : (w.list i)._count < 2 ^ 31 - 1) (t : α) :
    ∃ heap l, (w.list i).push_back w.heap t w.fresh = some (heap, l) ∧
      Owns ⟨heap, w.fresh + 1, update w.list i l⟩ (update cells i (cells i ++ [(w.fresh, t)])) := by
  have hnot := h.fresh_notMem
  have hint : int32 ((w.list i)._count + 1) = some ((w.list i)._count + 1) :=
    int32_of_lt (by rw [h.count]; omega) (by omega)
  have hframe : ∀ j, ∀ a ∈ addrs (cells j),
      update w.heap w.fresh (some ⟨t, none⟩) a = w.heap a := by
    intro j a ha
    apply Function.update_of_ne
    rintro rfl
    exact hnot j ha
  have hnodup : (addrs (cells i ++ [(w.fresh, t)])).Nodup := by
    rw [addrs_append, List.nodup_append]
    refine ⟨h.nodup i, List.nodup_singleton _, ?_⟩
    rintro a ha b hb rfl
    obtain rfl := List.mem_singleton.mp hb
    exact hnot i ha
  have hdisjoint : ∀ j, j ≠ i →
      List.Disjoint (addrs (cells i ++ [(w.fresh, t)])) (addrs (cells j)) := by
    intro j hj
    rw [addrs_append, List.disjoint_append_left]
    refine ⟨h.disjoint i j hj.symm, ?_⟩
    rintro a ha hb
    obtain rfl := List.mem_singleton.mp ha
    exact hnot j hb
  have hfresh : ∀ a ∈ addrs (cells i ++ [(w.fresh, t)]), a < w.fresh + 1 := by
    intro a ha
    rw [addrs_append, List.mem_append] at ha
    rcases ha with ha | ha
    · exact Nat.lt_succ_of_lt (h.fresh i a ha)
    · obtain rfl := List.mem_singleton.mp ha
      exact Nat.lt_succ_self _
  have hlast : (addrs (cells i ++ [(w.fresh, t)])).getLast? = some w.fresh := by
    rw [addrs_append]
    exact List.getLast?_concat
  have hlen : (w.list i)._count + 1 = (cells i ++ [(w.fresh, t)]).length := by
    rw [h.count, List.length_append, List.length_singleton]
    rfl
  have htail := h.tail i
  have hhead := h.head_eq i
  rcases List.eq_nil_or_concat (cells i) with hnil | ⟨c, ⟨a, x⟩, hcells⟩
  · -- the first node
    rw [hnil] at htail hhead
    have hpush : (w.list i).push_back w.heap t w.fresh =
        some (update w.heap w.fresh (some ⟨t, none⟩),
          ⟨(w.list i)._count + 1, some w.fresh, some w.fresh⟩) := by
      unfold Slist.push_back
      rw [htail, hhead, hint]
      rfl
    refine ⟨_, _, hpush, h.change ?_ ?_ hlast.symm hlen (by dsimp only; omega) hnodup hdisjoint
      (Nat.le_succ _) hfresh⟩
    · exact fun j _ => hframe j
    · rw [hnil]
      exact seg_singleton w.heap w.fresh t none
  · -- a node after the last one
    rw [List.concat_eq_append] at hcells
    have hmem : a ∈ addrs (cells i) := by
      rw [hcells, addrs_append]
      exact List.mem_append_right _ List.mem_cons_self
    have hseg : Seg (update w.heap w.fresh (some ⟨t, none⟩)) (w.list i)._head (cells i) none :=
      (h.seg i).congr (hframe i)
    have hnd := h.nodup i
    rw [hcells, addrs_append] at htail hnd hhead
    rw [hcells] at hseg
    have ha : a ∉ addrs c := by
      intro hc
      exact List.disjoint_of_nodup_append hnd hc List.mem_cons_self
    obtain ⟨hset, hrelink⟩ := hseg.relink ha (some w.fresh)
    have hsome : (w.list i)._tail = some a := htail.trans List.getLast?_concat
    have hne : (w.list i)._head ≠ none := by
      rw [hhead]
      intro hnone
      exact List.append_ne_nil_of_right_ne_nil _ (List.cons_ne_nil a []) (List.head?_eq_none_iff.mp hnone)
    have hpush : (w.list i).push_back w.heap t w.fresh =
        some (update (update w.heap w.fresh (some ⟨t, none⟩)) a (some ⟨x, some w.fresh⟩),
          ⟨(w.list i)._count + 1, (w.list i)._head, some w.fresh⟩) := by
      unfold Slist.push_back
      rw [hsome, hint]
      dsimp only
      rw [hset, if_neg hne]
      rfl
    refine ⟨_, _, hpush, h.change ?_ ?_ hlast.symm hlen (by dsimp only; omega) hnodup hdisjoint
      (Nat.le_succ _) hfresh⟩
    · intro j hj b hb
      rw [Function.update_of_ne, hframe j b hb]
      rintro rfl
      exact h.disjoint i j hj.symm hmem hb
    · rw [hcells]
      refine seg_append.mpr ⟨some w.fresh, hrelink, rfl, none, ?_, rfl⟩
      rw [Function.update_of_ne, Function.update_self]
      rintro rfl
      exact hnot i hmem

theorem Owns.front_eq (h : w.Owns cells) (i : ℕ) :
    (w.list i).front w.heap = (cells i).head?.map Prod.snd := by
  have hseg := h.seg i
  unfold Slist.front
  rw [h.head_eq]
  cases hc : cells i with
  | nil => rfl
  | cons c l =>
    rw [hc] at hseg
    obtain ⟨-, r, hr, -⟩ := hseg
    rw [addrs_cons, List.head?_cons, Option.bind_some, hr]
    rfl

theorem Owns.pop_front (h : w.Owns cells) (i : ℕ) :
    ∃ heap l, (w.list i).pop_front w.heap = some (heap, l) ∧
      Owns ⟨heap, w.fresh, update w.list i l⟩ (update cells i (cells i).tail) := by
  have hhead := h.head_eq i
  cases hc : cells i with
  | nil =>
    rw [hc] at hhead
    have hpop : (w.list i).pop_front w.heap = some (w.heap, w.list i) := by
      unfold Slist.pop_front
      rw [hhead]
      rfl
    refine ⟨_, _, hpop, ?_⟩
    rw [List.tail_nil, ← hc, Function.update_eq_self, Function.update_eq_self]
    exact h
  | cons c l =>
    obtain ⟨a, x⟩ := c
    have hseg := h.seg i
    have hnd := h.nodup i
    have htail := h.tail i
    have hlen := h.count i
    have hlt := h.lt i
    rw [hc] at hseg hhead htail hlen hnd
    rw [addrs_cons, List.nodup_cons] at hnd
    rw [List.length_cons] at hlen
    obtain ⟨-, r, hr, hrest⟩ := hseg
    have hint : int32 ((w.list i)._count - 1) = some ((w.list i)._count - 1) :=
      int32_of_lt (by omega) (by omega)
    have hpop : (w.list i).pop_front w.heap = some (update w.heap a none,
        ⟨(w.list i)._count - 1, r, if (w.list i)._head = (w.list i)._tail then r
          else (w.list i)._tail⟩) := by
      unfold Slist.pop_front Heap.free
      rw [hhead, addrs_cons, List.head?_cons]
      dsimp only
      rw [hr, Option.bind_some, Option.map_some, Option.bind_some, hint]
      rfl
    have hmem : a ∈ addrs (cells i) := by
      rw [hc]
      exact List.mem_cons_self
    refine ⟨_, _, hpop, h.change ?_ ?_ ?_ ?_ ?_ hnd.2 ?_ (Nat.le_refl _) ?_⟩
    · intro j hj b hb
      apply Function.update_of_ne
      rintro rfl
      exact h.disjoint i j hj.symm hmem hb
    · exact hrest.update_of_notMem hnd.1 none
    · -- `_tail` is the first node only when it is the only one
      rw [hhead, htail]
      cases l with
      | nil =>
        rw [addrs_cons, List.head?_cons, addrs_nil, List.getLast?_singleton, if_pos rfl]
        exact hrest
      | cons b l =>
        rw [addrs_cons, List.head?_cons, addrs_cons, List.getLast?_cons_cons, List.tail_cons,
          if_neg]
        · rfl
        · intro heq
          refine hnd.1 (List.mem_of_getLast? heq.symm)
    · dsimp only
      rw [List.tail_cons]
      omega
    · dsimp only
      omega
    · intro j hj
      have hd := h.disjoint i j hj.symm
      rw [hc] at hd
      exact (List.disjoint_cons_left.mp hd).2
    · intro b hb
      refine h.fresh i b ?_
      rw [hc]
      exact List.mem_cons_of_mem _ hb

/-- A list without nodes, as the constructor makes it. -/
theorem Owns.drop (h : w.Owns cells) (i : ℕ) :
    Owns { w with list := update w.list i .new } (update cells i []) :=
  h.change (fun _ _ _ _ => rfl) rfl rfl rfl (by decide) List.nodup_nil
    (fun _ _ => List.disjoint_nil_left _) (Nat.le_refl _) fun _ ha => absurd ha List.not_mem_nil

/-- **`join`**: the nodes of the other list come after those of this one. -/
theorem Owns.join (h : w.Owns cells) (hne : i ≠ other)
    (hnodes : cells i = [] ∨ cells other ≠ [])
    (hcount : (w.list i)._count + (w.list other)._count < 2 ^ 31) :
    ∃ heap l l', (w.list i).join w.heap (w.list other) = some (heap, l, l') ∧
      Owns ⟨heap, w.fresh, update (update w.list i l) other l'⟩
        (update (update cells i (cells i ++ cells other)) other []) := by
  have hint : int32 ((w.list i)._count + (w.list other)._count) =
      some ((w.list i)._count + (w.list other)._count) := by
    refine int32_of_lt ?_ hcount
    rw [h.count, h.count]
    omega
  have hlen : (w.list i)._count + (w.list other)._count = (cells i ++ cells other).length := by
    rw [h.count, h.count, List.length_append, Int.natCast_add]
  have hnodup : (addrs (cells i ++ cells other)).Nodup := by
    rw [addrs_append]
    exact (h.nodup i).append (h.nodup other) (h.disjoint i other hne)
  have hfresh : ∀ a ∈ addrs (cells i ++ cells other), a < w.fresh := by
    intro a ha
    rw [addrs_append, List.mem_append] at ha
    exact ha.elim (h.fresh i a) (h.fresh other a)
  have hdisjoint : ∀ j, j ≠ i → List.Disjoint (addrs (cells i ++ cells other))
      (addrs (update cells other [] j)) := by
    intro j hj
    by_cases ho : j = other
    · subst ho
      rw [Function.update_self]
      exact List.disjoint_nil_right _
    · rw [Function.update_of_ne ho, addrs_append, List.disjoint_append_left]
      exact ⟨h.disjoint i j hj.symm, h.disjoint other j fun heq => ho heq.symm⟩
  have htail := h.tail i
  have hhead := h.head_eq other
  have hother := h.seg other
  rw [Function.update_comm hne]
  rcases List.eq_nil_or_concat (cells i) with hnil | ⟨c, ⟨a, x⟩, hcells⟩
  · -- the nodes of the other list alone
    rw [hnil] at htail
    have hjoin : (w.list i).join w.heap (w.list other) = some (w.heap,
        ⟨(w.list i)._count + (w.list other)._count, (w.list other)._head,
          (w.list other)._tail⟩, .new) := by
      unfold Slist.join
      rw [htail, hint]
      rfl
    refine ⟨_, _, _, hjoin, ?_⟩
    rw [Function.update_comm hne]
    refine (h.drop other).change (fun _ _ _ _ => rfl) ?_ ?_ hlen hcount hnodup hdisjoint
      (Nat.le_refl _) hfresh
    · rw [hnil]
      exact hother
    · rw [hnil]
      exact h.tail other
  · -- the last node is linked to the first of the other list
    rw [List.concat_eq_append] at hcells
    have hnd := h.nodup i
    have hseg := h.seg i
    have hmem : a ∈ addrs (cells i) := by
      rw [hcells, addrs_append]
      exact List.mem_append_right _ List.mem_cons_self
    rw [hcells, addrs_append] at hnd htail
    rw [hcells] at hseg
    have ha : a ∉ addrs c := by
      intro hc
      exact List.disjoint_of_nodup_append hnd hc List.mem_cons_self
    obtain ⟨hset, hrelink⟩ := hseg.relink ha (w.list other)._head
    have hsome : (w.list i)._tail = some a := htail.trans List.getLast?_concat
    have hjoin : (w.list i).join w.heap (w.list other) =
        some (update w.heap a (some ⟨x, (w.list other)._head⟩),
          ⟨(w.list i)._count + (w.list other)._count, (w.list i)._head,
            (w.list other)._tail⟩, .new) := by
      unfold Slist.join
      rw [hsome, hint]
      dsimp only
      rw [hset]
      rfl
    refine ⟨_, _, _, hjoin, ?_⟩
    rw [Function.update_comm hne]
    refine (h.drop other).change ?_ ?_ ?_ hlen hcount hnodup hdisjoint (Nat.le_refl _) hfresh
    · intro j hj b hb
      apply Function.update_of_ne
      rintro rfl
      by_cases ho : j = other
      · subst ho
        rw [Function.update_self] at hb
        cases hb
      · rw [Function.update_of_ne ho] at hb
        exact h.disjoint i j hj.symm hmem hb
    · rw [hcells]
      refine seg_append.mpr ⟨_, hrelink, hother.update_of_notMem ?_ _⟩
      exact fun hb => h.disjoint i other hne hmem hb
    · have hne' : cells other ≠ [] := by
        rcases hnodes with hnodes | hnodes
        · rw [hnodes] at hcells
          exact absurd hcells.symm (List.append_ne_nil_of_right_ne_nil _ (List.cons_ne_nil _ _))
        · exact hnodes
      have haddr : addrs (cells other) ≠ [] := fun heq => hne' (List.map_eq_nil_iff.mp heq)
      dsimp only
      rw [h.tail, addrs_append, List.getLast?_append_of_ne_nil _ haddr]

/-! ## Calls -/

variable {m m' : ℕ → List α} {c : SlistCall α} {o : Answer α} {w' : SlistWorld α}

theorem Linked.start : (start : SlistWorld α).Linked fun _ => [] :=
  ⟨fun _ => [], Owns.start, fun _ => rfl⟩

/-- The values after one list has got other nodes. -/
theorem values_update (hm : ∀ j, m j = (cells j).map Prod.snd) (i : ℕ) {xs : List α}
    {l : List (ℕ × α)} (h : xs = l.map Prod.snd) :
    ∀ j, update m i xs j = (update cells i l j).map Prod.snd :=
  related_update (H := fun xs l => xs = List.map Prod.snd l) hm h

/-- **One call**: defined and answered as by the lists when the condition is met. -/
theorem call_ok (h : w.Linked m) (hc : listCall m c = some (o, m')) (hkeep : w.Keeps c) :
    ∃ w', w.call c = some (o, w') ∧ w'.Linked m' := by
  obtain ⟨cells, hown, hm⟩ := h
  cases c with
  | push_back i t =>
    cases hc
    obtain ⟨heap, l, hpush, hown'⟩ := hown.push_back hkeep t
    refine ⟨_, by rw [call, hpush]; rfl, _, hown', values_update hm i ?_⟩
    rw [hm, List.map_append]
    rfl
  | front i =>
    obtain ⟨t, ht, hpair⟩ := Option.map_eq_some_iff.mp hc
    cases hpair
    rw [hm, List.head?_map] at ht
    refine ⟨w, ?_, cells, hown, hm⟩
    rw [call, hown.front_eq, ht]
    rfl
  | pop_front i =>
    cases hc
    obtain ⟨heap, l, hpop, hown'⟩ := hown.pop_front i
    refine ⟨_, by rw [call, hpop]; rfl, _, hown', values_update hm i ?_⟩
    rw [hm, List.map_tail]
  | size i =>
    cases hc
    refine ⟨w, ?_, cells, hown, hm⟩
    rw [call, Slist.size, hown.count, hm, List.length_map]
  | empty i =>
    cases hc
    refine ⟨w, ?_, cells, hown, hm⟩
    have hempty : (w.list i).empty = (m i).isEmpty := by
      rw [Slist.empty, hown.count, hm]
      cases cells i <;> rfl
    rw [call, hempty]
  | clear i =>
    cases hc
    have hhead : (w.list i)._head = none := hkeep
    have hnil := (hown.head_eq_none_iff i).mp hhead
    have hclear : (w.list i).clear w.heap w.fresh = some (w.heap, .new) := by
      have htail := hown.tail i
      rw [hnil] at htail
      unfold Slist.clear
      rw [hhead, htail]
      cases w.fresh <;> rfl
    refine ⟨_, by rw [call, hclear]; rfl, _, hown.drop i, values_update hm i rfl⟩
  | swap i other =>
    cases hc
    by_cases hne : i = other
    · subst hne
      refine ⟨w, by rw [call, if_pos rfl], cells, hown, ?_⟩
      rw [Function.update_idem, Function.update_eq_self]
      exact hm
    · have hown' := hown.comp (Equiv.swap other i)
      rw [Equiv.comp_swap_eq_update, Equiv.comp_swap_eq_update] at hown'
      refine ⟨_, by rw [call, if_neg hne]; rfl, _, hown', ?_⟩
      exact values_update (values_update hm i (hm other)) other (hm i)
  | join i other =>
    by_cases hne : i = other
    · rw [listCall, if_pos hne] at hc
      cases hc
      exact ⟨w, by rw [call, if_pos hne], cells, hown, hm⟩
    · rw [listCall, if_neg hne] at hc
      cases hc
      obtain ⟨hnodes, hcount⟩ := hkeep.resolve_left hne
      rw [ne_eq, hown.head_eq_none_iff, hown.head_eq_none_iff] at hnodes
      obtain ⟨heap, l, l', hjoin, hown'⟩ := hown.join hne hnodes hcount
      refine ⟨_, by rw [call, if_neg hne, hjoin]; rfl, _, hown', ?_⟩
      refine values_update (values_update hm i ?_) other rfl
      rw [hm, hm, List.map_append]

/-- In a list as it should be `_tail` is null when there are no values. -/
theorem Linked.tail_eq_none_iff (h : w.Linked m) (i : ℕ) : (w.list i)._tail = none ↔ m i = [] := by
  obtain ⟨cells, hown, hm⟩ := h
  rw [hown.tail, hm, List.getLast?_eq_none_iff, List.map_eq_nil_iff]
  exact List.map_eq_nil_iff

/-- **A call that is defined and leaves lists as they should be** has met the condition. -/
theorem keeps_of_call (h : w.Linked m) (hc : listCall m c = some (o, m'))
    (hw : w.call c = some (o, w')) (h' : w'.Linked m') : w.Keeps c := by
  have hlinked := h
  obtain ⟨cells, hown, hm⟩ := h
  cases c with
  | push_back i t =>
    obtain ⟨⟨heap, l⟩, hpush, -⟩ := Option.map_eq_some_iff.mp hw
    unfold Slist.push_back at hpush
    obtain ⟨heap', -, hpush⟩ := Option.bind_eq_some_iff.mp hpush
    obtain ⟨_count, hint, -⟩ := Option.map_eq_some_iff.mp hpush
    have hlt := lt_of_int32 hint
    change (w.list i)._count < 2 ^ 31 - 1
    omega
  | clear i =>
    cases hc
    obtain ⟨⟨heap, l⟩, hclear, hpair⟩ := Option.map_eq_some_iff.mp hw
    obtain ⟨heap', -, hl⟩ := Option.map_eq_some_iff.mp hclear
    cases hl
    cases hpair
    -- `_tail` is as it was
    have htail := (h'.tail_eq_none_iff i).mpr (Function.update_self ..)
    dsimp only at htail
    rw [Function.update_self] at htail
    have hnil := (hlinked.tail_eq_none_iff i).mp htail
    rw [hm, List.map_eq_nil_iff] at hnil
    exact (hown.head_eq_none_iff i).mpr hnil
  | join i other =>
    by_cases hne : i = other
    · exact .inl hne
    · rw [listCall, if_neg hne] at hc
      cases hc
      rw [call, if_neg hne] at hw
      obtain ⟨⟨heap, l, l'⟩, hjoin, hpair⟩ := Option.map_eq_some_iff.mp hw
      cases hpair
      unfold Slist.join at hjoin
      obtain ⟨⟨heap', _head⟩, hlink, hjoin⟩ := Option.bind_eq_some_iff.mp hjoin
      obtain ⟨_count, hint, hl⟩ := Option.map_eq_some_iff.mp hjoin
      cases hl
      refine .inr ⟨?_, lt_of_int32 hint⟩
      rw [or_iff_not_imp_right]
      intro hnone
      -- the new `_tail` is that of the other list
      have hother := (hown.head_eq_none_iff other).mp (of_not_not hnone)
      have hmo : m other = [] := by
        rw [hm, hother]
        rfl
      have htail := h'.tail_eq_none_iff i
      dsimp only at htail
      rw [Function.update_of_ne hne, Function.update_self, Function.update_of_ne hne,
        Function.update_self, hmo, List.append_nil] at htail
      have hnil := htail.mp ((hlinked.tail_eq_none_iff other).mpr hmo)
      rw [hm, List.map_eq_nil_iff] at hnil
      exact (hown.head_eq_none_iff i).mpr hnil
  | front i => trivial
  | pop_front i => trivial
  | size i => trivial
  | empty i => trivial
  | swap i other => trivial

/-- **When slists are lists**: for any number of them and any sequence of calls, every call is
defined, is answered as by the lists and leaves them with the nodes of their values exactly as
long as no list with nodes is cleared, no empty list is joined to another that has nodes, and no
`_count` overflows. -/
theorem refines_lists_iff (l : List (SlistCall α)) :
    Refines call listCall Linked start (fun _ => []) l ↔
      Meets call listCall Keeps start (fun _ => []) l := by
  refine refines_iff ?_ ?_ l _ _ Linked.start
  · intro w m c o m' h hc hkeep
    exact call_ok h hc hkeep
  · intro w m c o m' w' h hc hw h'
    exact keeps_of_call h hc hw h'

/-- `push_back` after `clear` writes to a freed node. -/
theorem not_refines_lists :
    ¬ ∀ l : List (SlistCall ℕ), Refines call listCall Linked start (fun _ => []) l := by
  intro h
  obtain ⟨w₁, h₁, -, hrest⟩ := h [.push_back 0 5, .clear 0, .push_back 0 6] _ _ rfl
  cases h₁
  obtain ⟨w₂, h₂, -, hrest⟩ := hrest _ _ rfl
  cases h₂
  obtain ⟨w₃, h₃, -⟩ := hrest _ _ rfl
  cases h₃

end SlistWorld

end Netlib
