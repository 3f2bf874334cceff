import Netlib.Spec.Svector
import Mathlib.Tactic.Common

/-!
# When an svector is a stack

`_cap` is never raised, so the room that `push_back` asks for is always twice the first
capacity. A family of svectors answers as stacks as long as every `push_back` finds a free cell
there, and where it grows the elements may be moved by their bytes and its argument is none of
them (`refines_stacks_iff`). In memory that no product of sizes exceeds, a free cell means fewer
than twice `_cap` elements (`hasRoom_iff`).
-/

namespace Netlib

open Lib
open Function (update)

variable {α : Type*} {bytewise : Bool} {sizeT : ℕ}

theorem roomFor_le (sizeT n : ℕ) : roomFor sizeT n ≤ n := by
  unfold roomFor u64
  calc sizeT * n % 2 ^ 64 / sizeT ≤ sizeT * n / sizeT := Nat.div_le_div_right (Nat.mod_le _ _)
    _ ≤ n := by
      rcases Nat.eq_zero_or_pos sizeT with rfl | h
      · rw [Nat.zero_mul, Nat.zero_div]
        exact Nat.zero_le n
      · exact Nat.le_of_eq (Nat.mul_div_cancel_left n h)

/-- A count that is taken modulo `2 ^ 64` first. -/
theorem roomFor_u64 (sizeT n : ℕ) : roomFor sizeT (u64 n) = roomFor sizeT n := by
  unfold roomFor u64
  rw [Nat.mul_mod_mod]

theorem roomFor_eq {n : ℕ} (h0 : 0 < sizeT) (h : sizeT * n < 2 ^ 64) : roomFor sizeT n = n := by
  unfold roomFor u64
  rw [Nat.mod_eq_of_lt h, Nat.mul_div_cancel_left n h0]

namespace Svector

variable {v w : Svector α} {xs ys : List α} {t : α}

/-- The cells of a representation, one by one. -/
theorem getElem?_cells (xs : List α) (k i : ℕ) :
    (xs.map some ++ List.replicate k none)[i]? =
      if h : i < xs.length then some (some (xs.get ⟨i, h⟩))
      else if i < xs.length + k then some none else none := by
  split
  · rename_i h
    rw [List.getElem?_append_left (by rwa [List.length_map]), List.getElem?_map,
      List.getElem?_eq_getElem h]
    rfl
  · rename_i h
    rw [List.getElem?_append_right (by rw [List.length_map]; omega), List.length_map,
      List.getElem?_replicate]
    congr 1
    exact propext (by omega)

theorem set_cells (xs : List α) (k : ℕ) (t : α) :
    (xs.map some ++ List.replicate (k + 1) none).set xs.length (some t) =
      (xs ++ [t]).map some ++ List.replicate k none := by
  rw [List.set_append_right _ _ (Nat.le_of_eq (List.length_map _)), List.length_map, Nat.sub_self,
    List.replicate_succ, List.set_cons_zero, List.map_append, List.append_assoc]
  rfl

/-- An element is made in the first free cell, if there is one. -/
theorem construct_cells (xs : List α) (k : ℕ) (t : α) :
    construct (xs.map some ++ List.replicate k none) xs.length t =
      match k with
      | 0 => none
      | k + 1 => some ((xs ++ [t]).map some ++ List.replicate k none) := by
  unfold construct
  rw [getElem?_cells, dif_neg (Nat.lt_irrefl _)]
  cases k with
  | zero => rw [if_neg (by omega)]
  | succ k =>
    rw [if_pos (by omega)]
    dsimp only
    rw [set_cells]

theorem destroy_cells (xs : List α) (t : α) (k : ℕ) :
    destroy ((xs ++ [t]).map some ++ List.replicate k none) xs.length =
      some (xs.map some ++ List.replicate (k + 1) none) := by
  unfold destroy
  rw [getElem?_cells, dif_pos (by rw [List.length_append, List.length_singleton]; omega)]
  dsimp only
  rw [List.map_append, List.append_assoc, List.set_append_right _ _ (Nat.le_of_eq (List.length_map _)),
    List.length_map, Nat.sub_self]
  rfl

/-- There is an element, or there is none. -/
theorem all_isNone_cells (xs : List α) (k : ℕ) :
    (xs.map some ++ List.replicate k none).all Option.isNone = true ↔ xs = [] := by
  rw [List.all_append, List.all_map, Bool.and_eq_true]
  constructor
  · rintro ⟨hall, -⟩
    cases xs with
    | nil => rfl
    | cons x xs => cases hall
  · rintro rfl
    exact ⟨rfl, List.all_eq_true.mpr fun c hc => by rw [List.eq_of_mem_replicate hc]; rfl⟩

/-- **`realloc` keeps the elements** when there is room for them and they may be moved. -/
theorem realloc_cells {n : ℕ} (k : ℕ) (h : xs.length ≤ roomFor sizeT n)
    (hmove : xs = [] ∨ bytewise = true) :
    realloc bytewise sizeT (xs.map some ++ List.replicate k none) n =
      some (xs.map some ++ List.replicate (roomFor sizeT n - xs.length) none) := by
  unfold realloc
  rw [if_pos (hmove.symm.imp_right (all_isNone_cells xs k).mpr), List.take_append,
    List.take_of_length_le (by rwa [List.length_map]), List.length_map, List.take_replicate,
    List.append_assoc, List.replicate_append_replicate, List.length_append, List.length_map,
    List.length_replicate]
  congr 3
  omega

/-- A `realloc` that is defined gives the cells it was asked for. -/
theorem realloc_spec {n k : ℕ} {_head : List (Option α)}
    (h : realloc bytewise sizeT (xs.map some ++ List.replicate k none) n = some _head) :
    (xs = [] ∨ bytewise = true) ∧ _head.length = roomFor sizeT n := by
  unfold realloc at h
  obtain ⟨hmove, h⟩ := Option.ite_none_right_eq_some.mp h
  obtain rfl := Option.some.inj h
  refine ⟨hmove.symm.imp_left (all_isNone_cells xs k).mp, ?_⟩
  rw [List.length_append, List.length_take, List.length_replicate]
  omega

/-- The destructors of `clear`, from the first element on. -/
theorem foldlM_destroy (xs : List α) (j k : ℕ) :
    (List.range' j xs.length).foldlM destroy
        (List.replicate j none ++ (xs.map some ++ List.replicate k none)) =
      some (List.replicate (j + xs.length + k) none) := by
  induction xs generalizing j with
  | nil =>
    rw [List.map_nil, List.nil_append, List.replicate_append_replicate]
    rfl
  | cons x xs ih =>
    have hstep : destroy (List.replicate j none ++ ((x :: xs).map some ++ List.replicate k none)) j =
        some (List.replicate (j + 1) none ++ (xs.map some ++ List.replicate k none)) := by
      unfold destroy
      rw [List.getElem?_append_right (Nat.le_of_eq List.length_replicate), List.length_replicate,
        Nat.sub_self, List.map_cons, List.cons_append, List.getElem?_cons_zero]
      dsimp only
      rw [List.set_append_right _ _ (Nat.le_of_eq List.length_replicate), List.length_replicate,
        Nat.sub_self, List.set_cons_zero, List.replicate_succ', List.append_assoc]
      rfl
    rw [List.length_cons, List.range'_succ, List.foldlM_cons, hstep, Option.bind_eq_bind,
      Option.bind_some, ih (j + 1)]
    congr 2
    omega

/-! ## One call on one svector -/

theorem Holds.new (sizeT cap : ℕ) : Holds sizeT (new sizeT cap : Svector α) [] :=
  ⟨rfl, ⟨_, (List.nil_append _).symm⟩, .inl List.length_replicate⟩

/-- A sound representation has at least as much room as elements. -/
theorem Holds.length_le (h : Holds sizeT v xs) : v._size ≤ v._head.length := by
  obtain ⟨k, hk⟩ := h.cells
  rw [hk, h.size, List.length_append, List.length_map]
  omega

theorem Holds.back_eq (h : Holds sizeT v xs) (hne : xs ≠ []) : v.back = xs.getLast? := by
  obtain ⟨k, hk⟩ := h.cells
  have hpos := List.length_pos_iff.mpr hne
  unfold back
  rw [h.size, hk, getElem?_cells, dif_pos (by omega), List.getLast?_eq_getElem?,
    List.getElem?_eq_getElem (by omega)]
  rfl

/-- An element is in its cell. -/
theorem Holds.getElem?_eq (h : Holds sizeT v xs) {k : ℕ} (hk : xs[k]? = some t) :
    v._head[k]?.join = some t := by
  obtain ⟨j, hj⟩ := h.cells
  obtain ⟨hlt, rfl⟩ := List.getElem?_eq_some_iff.mp hk
  rw [hj, getElem?_cells, dif_pos hlt]
  rfl

theorem Holds.pop_back (h : Holds sizeT v xs) :
    ∃ w, v.pop_back = some w ∧ Holds sizeT w xs.dropLast := by
  unfold Svector.pop_back
  rcases List.eq_nil_or_concat xs with rfl | ⟨ys, t, rfl⟩
  · rw [if_neg (by rw [h.size]; exact Nat.lt_irrefl 0)]
    exact ⟨v, rfl, h⟩
  · obtain ⟨k, hk⟩ := h.cells
    have hsize : v._size = ys.length + 1 := by
      rw [h.size, List.concat_eq_append, List.length_append, List.length_singleton]
    have hlen := congrArg List.length hk
    rw [List.concat_eq_append] at hk ⊢
    rw [if_pos (by omega), hsize, Nat.add_sub_cancel, hk, destroy_cells]
    refine ⟨_, rfl, ?_, ⟨k + 1, ?_⟩, ?_⟩
    · rw [List.dropLast_concat]
    · rw [List.dropLast_concat]
    · have halloc := h.alloc
      have hsame : (ys.map some ++ List.replicate (k + 1) (none : Option α)).length =
          v._head.length := by
        rw [hk]
        simp only [List.length_append, List.length_map, List.length_replicate,
          List.length_singleton]
        omega
      dsimp only
      rw [hsame]
      exact halloc

theorem Holds.clear (h : Holds sizeT v xs) : ∃ w, v.clear = some w ∧ Holds sizeT w [] := by
  obtain ⟨k, hk⟩ := h.cells
  have hfold := foldlM_destroy xs 0 k
  rw [List.replicate_zero, List.nil_append, ← hk, ← h.size, ← List.range_eq_range'] at hfold
  unfold Svector.clear
  rw [hfold]
  refine ⟨_, rfl, rfl, ⟨_, (List.nil_append _).symm⟩, ?_⟩
  have hlen := congrArg List.length hk
  rw [List.length_append, List.length_map, List.length_replicate] at hlen
  dsimp only
  rw [List.length_replicate, h.size, Nat.zero_add, ← hlen]
  exact h.alloc

/-- `push_back` below the capacity. -/
theorem push_back_of_lt (h : v._size < v._cap) (t : SvectorArg α) :
    v.push_back bytewise sizeT t = (match t with
      | .outer t => some t
      | .own k => v._head[k]?.join).bind fun t => (construct v._head v._size t).map fun _head =>
        { v with _size := v._size + 1, _head := _head } := by
  unfold Svector.push_back
  rw [if_neg (Nat.not_le_of_lt h), Option.bind_some]
  cases t with
  | outer t => rfl
  | own k =>
    dsimp only
    rw [if_neg (Nat.not_le_of_lt h)]

/-- `push_back` from the capacity on. -/
theorem push_back_of_ge (h : v._cap ≤ v._size) (t : α) :
    v.push_back bytewise sizeT (.outer t) =
      (realloc bytewise sizeT v._head (u64 (v._cap * 2))).bind fun _head =>
        (construct _head v._size t).map fun _head =>
          { v with _size := v._size + 1, _head := _head } := by
  unfold Svector.push_back
  rw [if_pos h]
  rfl

/-- **The block of an own element is freed** before the argument is read. -/
theorem push_back_own_of_ge (h : v._cap ≤ v._size) (k : ℕ) :
    v.push_back bytewise sizeT (.own k) = none := by
  unfold Svector.push_back
  rw [if_pos h]
  cases realloc bytewise sizeT v._head (u64 (v._cap * 2)) with
  | none => rfl
  | some _head =>
    rw [Option.bind_some]
    dsimp only
    rw [if_pos h]
    rfl

/-- An own element, while the block stays, or anything else. -/
theorem push_back_own (h : Holds sizeT v xs) {k : ℕ} (hlt : v._size < v._cap)
    (hk : xs[k]? = some t) :
    v.push_back bytewise sizeT (.own k) = v.push_back bytewise sizeT (.outer t) := by
  rw [push_back_of_lt hlt, push_back_of_lt hlt]
  dsimp only
  rw [h.getElem?_eq hk]

/-- **`push_back` is defined when there is room**, and leaves a sound representation. -/
theorem Holds.push_back (h : Holds sizeT v xs) (hroom : HasRoom sizeT v)
    (hmove : v._cap ≤ v._size → v._size = 0 ∨ bytewise = true) (t : α) :
    ∃ w, v.push_back bytewise sizeT (.outer t) = some w ∧ Holds sizeT w (xs ++ [t]) := by
  obtain ⟨k, hk⟩ := h.cells
  have hsize := h.size
  have hle := h.length_le
  have hlen : v._head.length = xs.length + k := by
    rw [hk, List.length_append, List.length_map, List.length_replicate]
  have hcap := roomFor_le sizeT v._cap
  unfold HasRoom at hroom
  by_cases hlt : v._size < v._cap
  · -- the block stays as it is
    rw [if_pos hlt] at hroom
    obtain ⟨j, rfl⟩ : ∃ j, k = j + 1 := by
      refine ⟨k - 1, ?_⟩
      rcases h.alloc with ha | ⟨-, -, ha⟩
      · omega
      · omega
    rw [push_back_of_lt hlt, Option.bind_some, hsize, hk, construct_cells]
    refine ⟨_, rfl, ?_, ⟨j, rfl⟩, ?_⟩
    · rw [List.length_append, List.length_singleton]
    · have halloc := h.alloc
      rw [hlen] at halloc
      simp only [List.length_append, List.length_map, List.length_replicate,
        List.length_singleton, Nat.add_assoc, Nat.add_comm 1 j]
      exact halloc
  · -- a block for twice the capacity
    have hge := Nat.le_of_not_lt hlt
    rw [if_neg hlt] at hroom
    have hfull : roomFor sizeT v._cap = v._cap := by
      rcases h.alloc with ha | ⟨-, ha, -⟩
      · omega
      · exact ha
    obtain ⟨j, hj⟩ : ∃ j, roomFor sizeT (2 * v._cap) - xs.length = j + 1 :=
      ⟨roomFor sizeT (2 * v._cap) - xs.length - 1, by omega⟩
    have hmoved : xs = [] ∨ bytewise = true := by
      refine (hmove hge).imp_left fun h0 => List.length_eq_zero_iff.mp ?_
      rw [← hsize, h0]
    have hgrown : realloc bytewise sizeT v._head (u64 (v._cap * 2)) =
        some (xs.map some ++ List.replicate (j + 1) none) := by
      rw [hk, realloc_cells k (by rw [roomFor_u64, Nat.mul_comm]; omega) hmoved, roomFor_u64,
        Nat.mul_comm, hj]
    rw [push_back_of_ge hge, hgrown, Option.bind_some, hsize, construct_cells]
    refine ⟨_, rfl, ?_, ⟨j, rfl⟩, .inr ⟨?_, hfull, ?_⟩⟩
    · rw [List.length_append, List.length_singleton]
    · simp only [List.length_append, List.length_map, List.length_replicate,
        List.length_singleton]
      omega
    · simp only [List.length_append, List.length_map, List.length_replicate,
        List.length_singleton]
      omega

/-- **`push_back` is undefined when there is no room**, and when elements are moved that may not
be. -/
theorem Holds.hasRoom (h : Holds sizeT v xs)
    (hw : v.push_back bytewise sizeT (.outer t) = some w) :
    HasRoom sizeT v ∧ (v._cap ≤ v._size → v._size = 0 ∨ bytewise = true) := by
  obtain ⟨k, hk⟩ := h.cells
  have hsize := h.size
  have hlen : v._head.length = xs.length + k := by
    rw [hk, List.length_append, List.length_map, List.length_replicate]
  unfold HasRoom
  by_cases hlt : v._size < v._cap
  · rw [push_back_of_lt hlt, Option.bind_some, hsize, hk, construct_cells] at hw
    refine ⟨?_, fun hge => absurd hlt (Nat.not_lt_of_le hge)⟩
    rw [if_pos hlt]
    cases k with
    | zero => cases hw
    | succ k =>
      rcases h.alloc with ha | ⟨-, ha, -⟩
      · omega
      · omega
  · rw [push_back_of_ge (Nat.le_of_not_lt hlt), hk] at hw
    obtain ⟨_head, hgrown, hw⟩ := Option.bind_eq_some_iff.mp hw
    obtain ⟨hmoved, hroom⟩ := realloc_spec hgrown
    rw [roomFor_u64, Nat.mul_comm] at hroom
    rw [if_neg hlt]
    constructor
    · by_contra hno
      have hnone : _head[v._size]? = none := List.getElem?_eq_none (by omega)
      unfold construct at hw
      rw [hnone] at hw
      cases hw
    · intro _
      refine hmoved.imp_left fun hnil => ?_
      rw [hsize, hnil]
      rfl

/-- In memory that is large enough the condition is on the number of elements alone. -/
theorem hasRoom_iff (h0 : 0 < sizeT) (h : sizeT * (2 * v._cap) < 2 ^ 64) :
    HasRoom sizeT v ↔ v._size < 2 * v._cap := by
  have hcap : sizeT * v._cap < 2 ^ 64 := by
    refine Nat.lt_of_le_of_lt ?_ h
    exact Nat.mul_le_mul_left _ (by omega)
  unfold HasRoom
  split
  · rw [roomFor_eq h0 hcap]
    omega
  · rw [roomFor_eq h0 h]

/-! ## Families -/

variable {s : ℕ → Svector α} {m : ℕ → List α}

theorem related_swap (h : ∀ i, Holds sizeT (s i) (m i)) (i other : ℕ) :
    ∀ j, Holds sizeT (update (update s i (s other)) other (s i) j)
      (update (update m i (m other)) other (m i) j) :=
  related_update (related_update h (h other)) (h i)

/-- **One call**: defined and answered as by the stacks when the condition is met. -/
theorem call_ok {a : SvectorCall α} {o : Answer α} {m' : ℕ → List α}
    (h : ∀ i, Holds sizeT (s i) (m i)) (hm : stackCall m a = some (o, m'))
    (hfit : Fits bytewise sizeT s a) :
    ∃ s', call bytewise sizeT s a = some (o, s') ∧ ∀ i, Holds sizeT (s' i) (m' i) := by
  cases a with
  | push_back i t =>
    obtain ⟨w, hw, hh⟩ := (h i).push_back hfit.1 hfit.2 t
    cases hm
    exact ⟨_, by rw [call, hw]; rfl, related_update h hh⟩
  | push_back_of i j k =>
    obtain ⟨t, ht, hpair⟩ := Option.map_eq_some_iff.mp hm
    cases hpair
    obtain ⟨w, hw, hh⟩ := (h i).push_back hfit.1 (fun hge => (hfit.2 hge).2) t
    refine ⟨update s i w, ?_, related_update h hh⟩
    unfold call
    dsimp only
    by_cases hij : i = j
    · subst hij
      have hlt : (s i)._size < (s i)._cap := by
        by_contra hge
        exact (hfit.2 (Nat.le_of_not_lt hge)).1 rfl
      rw [if_pos rfl, Option.bind_some, push_back_own (h i) hlt ht, hw]
      rfl
    · rw [if_neg hij, (h j).getElem?_eq ht, Option.map_some, Option.bind_some, hw]
      rfl
  | pop_back i =>
    obtain ⟨w, hw, hh⟩ := (h i).pop_back
    cases hm
    exact ⟨_, by rw [call, hw]; rfl, related_update h hh⟩
  | back i =>
    obtain ⟨t, ht, hpair⟩ := Option.map_eq_some_iff.mp hm
    cases hpair
    have hne : m i ≠ [] := by
      intro hnil
      rw [hnil] at ht
      cases ht
    exact ⟨s, by rw [call, (h i).back_eq hne, ht]; rfl, h⟩
  | clear i =>
    obtain ⟨w, hw, hh⟩ := (h i).clear
    cases hm
    exact ⟨_, by rw [call, hw]; rfl, related_update h hh⟩
  | swap i other =>
    cases hm
    exact ⟨_, rfl, related_swap h i other⟩
  | size i =>
    cases hm
    exact ⟨s, by rw [call, size, (h i).size], h⟩
  | empty i =>
    cases hm
    refine ⟨s, ?_, h⟩
    have hempty : (s i).empty = (m i).isEmpty := by
      rw [empty, (h i).size]
      cases m i <;> rfl
    rw [call, hempty]

/-- A call that is defined has met the condition. -/
theorem fits_of_call {a : SvectorCall α} {o : Answer α} {s' : ℕ → Svector α}
    (h : ∀ i, Holds sizeT (s i) (m i)) (hm : stackCall m a = some (o, m'))
    (hs : call bytewise sizeT s a = some (o, s')) : Fits bytewise sizeT s a := by
  cases a with
  | push_back i t =>
    obtain ⟨w, hw, -⟩ := Option.map_eq_some_iff.mp hs
    exact (h i).hasRoom hw
  | push_back_of i j k =>
    obtain ⟨t, ht, -⟩ := Option.map_eq_some_iff.mp hm
    obtain ⟨arg, harg, hs⟩ := Option.bind_eq_some_iff.mp hs
    obtain ⟨w, hw, -⟩ := Option.map_eq_some_iff.mp hs
    by_cases hij : i = j
    · subst hij
      rw [if_pos rfl] at harg
      obtain rfl := Option.some.inj harg
      by_cases hlt : (s i)._size < (s i)._cap
      · rw [push_back_own (h i) hlt ht] at hw
        exact ⟨((h i).hasRoom hw).1, fun hge => absurd hlt (Nat.not_lt_of_le hge)⟩
      · rw [push_back_own_of_ge (Nat.le_of_not_lt hlt)] at hw
        cases hw
    · rw [if_neg hij, (h j).getElem?_eq ht] at harg
      obtain rfl := Option.some.inj harg
      obtain ⟨hroom, hmove⟩ := (h i).hasRoom hw
      exact ⟨hroom, fun hge => ⟨hij, hmove hge⟩⟩
  | pop_back i => trivial
  | back i => trivial
  | clear i => trivial
  | swap i other => trivial
  | size i => trivial
  | empty i => trivial

/-- **When svectors are stacks**: for any number of them, with any capacities, and any sequence
of calls, every call is defined, answers as on the stacks and leaves a sound representation
exactly as long as each `push_back` finds room for one more element in twice the capacity and,
where it grows, moves no element that may not be moved and reads none. -/
theorem refines_stacks_iff (bytewise : Bool) (sizeT : ℕ) (cap : ℕ → ℕ)
    (l : List (SvectorCall α)) :
    Refines (call bytewise sizeT) stackCall (fun s m => ∀ i, Holds sizeT (s i) (m i))
        (fun i => new sizeT (cap i)) (fun _ => []) l ↔
      Meets (call bytewise sizeT) stackCall (Fits bytewise sizeT) (fun i => new sizeT (cap i))
        (fun _ => []) l := by
  refine refines_iff ?_ ?_ l _ _ fun i => Holds.new sizeT (cap i)
  · intro s m a o m' h hm hfit
    exact call_ok h hm hfit
  · intro s m a o m' s' h hm hs _
    exact fits_of_call h hm hs

/-- A third element with a capacity of one. -/
theorem not_refines_stacks :
    ¬ ∀ (bytewise : Bool) (sizeT : ℕ) (cap : ℕ → ℕ) (l : List (SvectorCall ℕ)),
      (∀ i, 1 ≤ cap i) →
        Refines (call bytewise sizeT) stackCall (fun s m => ∀ i, Holds sizeT (s i) (m i))
          (fun i => new sizeT (cap i)) (fun _ => []) l := by
  intro h
  obtain ⟨s₁, h₁, -, hrest⟩ := h true 4 (fun _ => 1) [.push_back 0 7, .push_back 0 8, .push_back 0 9]
    (fun _ => Nat.le_refl 1) _ _ rfl
  cases h₁
  obtain ⟨s₂, h₂, -, hrest⟩ := hrest _ _ rfl
  cases h₂
  obtain ⟨s₃, h₃, -⟩ := hrest _ _ rfl
  cases h₃

end Svector

end Netlib
