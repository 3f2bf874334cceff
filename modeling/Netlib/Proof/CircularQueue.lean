import Netlib.Spec.CircularQueue
import Mathlib.Tactic.Common

/-!
# The ring is a bounded queue

`Holds q xs` says that the ring has the elements `xs`, the first at `_head`. `push_back` adds one
at the end unless there are as many as the capacity, `pop_front` takes the first and `pop_back`
the last. A family of rings answers as bounded double-ended queues as long as `pop_back(t)`, which
does not return when there is an element, is left to empty ones and no element of a class is pushed:
the cell at `_tail` never has an element to assign to (`refines_deques_iff`).
-/

namespace Netlib

open Lib
open Function (update)

namespace CircularQueue

variable {α : Type*} {bytewise : Bool} {q : CircularQueue α} {xs : List α} {a : α}

/-- The ring has the elements `xs`, and a free cell. -/
structure Holds (q : CircularQueue α) (xs : List α) : Prop where
  cap : q._element.size = q._cap
  head : q._head < q._cap
  tail : q._tail = (q._head + xs.length) % q._cap
  room : xs.length < q._cap
  cells : ∃ rest, q._element.around q._head = xs.map some ++ rest

theorem Holds.new (cap : ℕ) : (new cap : CircularQueue α).Holds [] := by
  refine ⟨List.length_replicate, Nat.succ_pos cap, ?_, Nat.succ_pos cap, _, List.nil_append _⟩
  rw [List.length_nil, Nat.add_zero]
  exact (Nat.mod_eq_of_lt (Nat.succ_pos cap)).symm

theorem Holds.size_eq (h : q.Holds xs) : q.size = xs.length := by
  have hhead := h.head
  have hsum : q._cap - q._head + (q._head + xs.length) = q._cap + xs.length := by
    omega
  unfold size
  rw [h.tail, Nat.add_mod_mod, hsum, Nat.add_mod_left, Nat.mod_eq_of_lt h.room]

theorem Holds.full_iff (h : q.Holds xs) : q.full = true ↔ xs.length = q._cap - 1 := by
  unfold full
  rw [h.size_eq, beq_iff_eq]

theorem Holds.empty_iff (h : q.Holds xs) : q._head = q._tail ↔ xs = [] := by
  have hhead := h.head
  constructor
  · intro he
    have hsize := h.size_eq
    unfold size at hsize
    have hcap : q._cap - q._head + q._tail = q._cap := by
      omega
    rw [hcap, Nat.mod_self] at hsize
    exact List.length_eq_zero_iff.mp hsize.symm
  · rintro rfl
    rw [h.tail, List.length_nil, Nat.add_zero, Nat.mod_eq_of_lt hhead]

theorem push_back_full (h : q.full = true) (a : α) : q.push_back a = (false, q) := if_pos h

/-- **Room for one more.** -/
theorem Holds.push_back (h : q.Holds xs) (hroom : ¬ q.full) (a : α) :
    ∃ q', q.push_back a = (true, q') ∧ q'.Holds (xs ++ [a]) ∧ q'._cap = q._cap := by
  have hlen : xs.length + 1 < q._cap := by
    have hlt := h.room
    rw [h.full_iff] at hroom
    omega
  obtain ⟨rest, hcells⟩ := h.cells
  obtain ⟨x, rest', rfl⟩ : ∃ x rest', rest = x :: rest' := by
    cases rest with
    | nil =>
      have hsize := congrArg List.length hcells
      rw [Circular.length_around, h.cap, List.append_nil, List.length_map] at hsize
      omega
    | cons x rest' => exact ⟨x, rest', rfl⟩
  refine ⟨_, if_neg hroom, ⟨?_, h.head, ?_, ?_, rest', ?_⟩, rfl⟩
  · dsimp only
    rw [Circular.size_set]
    exact h.cap
  · dsimp only
    rw [h.tail, Nat.mod_add_mod, List.length_append, List.length_singleton, Nat.add_assoc]
  · dsimp only
    rw [List.length_append, List.length_singleton]
    exact hlen
  · have hset := Circular.set_of_around hcells (some a)
    rw [List.length_map] at hset
    dsimp only
    rw [h.tail, ← h.cap, Circular.set_mod, hset, List.map_append, List.append_assoc]
    rfl

/-- **The first of the elements.** -/
theorem Holds.pop_front (h : q.Holds (a :: xs)) :
    ∃ q', q.pop_front = (some a, q') ∧ q'.Holds xs ∧ q'._cap = q._cap := by
  have hne : q._head ≠ q._tail := by
    intro he
    cases h.empty_iff.mp he
  have hroom := h.room
  obtain ⟨rest, hcells⟩ := h.cells
  have hget : q._element.get q._head = some a := Circular.get_of_cons hcells
  unfold CircularQueue.pop_front
  rw [if_pos hne, hget]
  refine ⟨_, rfl, ⟨h.cap, ?_, ?_, ?_, rest ++ [some a], ?_⟩, rfl⟩
  · exact Nat.mod_lt _ (by omega)
  · dsimp only
    rw [h.tail, Nat.mod_add_mod, List.length_cons]
    congr 1
    omega
  · rw [List.length_cons] at hroom
    dsimp only
    omega
  · have hnext := Circular.around_next (r := q._element) q._head
    rw [hcells, hget, List.map_cons, List.cons_append, List.tail_cons] at hnext
    unfold Circular.next at hnext
    rw [h.cap] at hnext
    dsimp only
    rw [hnext, List.append_assoc]

/-- **`clear`** empties the ring. -/
theorem Holds.clear (h : q.Holds xs) : q.clear.Holds [] ∧ q.clear._cap = q._cap := by
  unfold CircularQueue.clear
  rw [h.size_eq]
  induction xs generalizing q with
  | nil => exact ⟨h, rfl⟩
  | cons a xs ih =>
    obtain ⟨q', hpop, hq', hcap⟩ := h.pop_front
    rw [List.length_cons, Function.iterate_succ_apply, hpop]
    obtain ⟨hclear, hsame⟩ := ih hq'
    exact ⟨hclear, hsame.trans hcap⟩

theorem Holds.empty_eq (h : q.Holds xs) : q.empty = decide (xs = []) := by
  unfold CircularQueue.empty
  rw [beq_eq_decide]
  exact decide_eq_decide.mpr h.empty_iff

/-! ## The other end -/

variable {ys : List α} {sizeT : ℕ} {d : Deque α}

theorem Holds.front_eq (h : q.Holds xs) (hne : xs ≠ []) : q.front = xs.head? := by
  obtain ⟨rest, hcells⟩ := h.cells
  cases xs with
  | nil => exact absurd rfl hne
  | cons a xs => exact Circular.get_of_cons hcells

/-- **The cell before `_tail`** is the one of the last element. -/
theorem Holds.last_eq (h : q.Holds (ys ++ [a])) : q.last = (q._head + ys.length) % q._cap := by
  have hhead := h.head
  have htail := h.tail
  rw [List.length_append, List.length_singleton] at htail
  have hmod : Nat.ModEq q._cap (q._cap + q._tail - 1 + 1) (q._head + ys.length + 1) := by
    rw [Nat.sub_add_cancel (by omega), htail, Nat.ModEq, Nat.add_mod_left, Nat.mod_mod,
      Nat.add_assoc]
  exact Nat.ModEq.add_right_cancel' 1 hmod

theorem Holds.get_last (h : q.Holds (ys ++ [a])) : q._element.get q.last = some a := by
  obtain ⟨rest, hcells⟩ := h.cells
  rw [List.map_append, List.append_assoc] at hcells
  have hget := Circular.get_of_around hcells
  rw [List.length_map] at hget
  rw [h.last_eq, ← h.cap, Circular.get_mod, hget]

/-- **The last of the elements is taken.** -/
theorem Holds.pop_last (h : q.Holds (ys ++ [a])) : { q with _tail := q.last }.Holds ys := by
  have hroom := h.room
  obtain ⟨rest, hcells⟩ := h.cells
  rw [List.length_append] at hroom
  refine ⟨h.cap, h.head, h.last_eq, ?_, some a :: rest, ?_⟩
  · dsimp only
    omega
  · dsimp only
    rw [hcells, List.map_append, List.append_assoc]
    rfl

theorem Holds.pop_back_void (h : q.Holds xs) :
    q.pop_back_void.Holds xs.dropLast ∧ q.pop_back_void._cap = q._cap ∧
      q.pop_back_void._head = q._head := by
  unfold CircularQueue.pop_back_void
  rcases List.eq_nil_or_concat xs with rfl | ⟨ys, a, rfl⟩
  · rw [if_neg (not_not_intro (h.empty_iff.mpr rfl))]
    exact ⟨h, rfl, rfl⟩
  · rw [List.concat_eq_append] at h ⊢
    have hne : q._head ≠ q._tail := by
      intro he
      exact List.append_ne_nil_of_right_ne_nil ys (List.cons_ne_nil a []) (h.empty_iff.mp he)
    rw [if_pos hne, List.dropLast_concat]
    exact ⟨h.pop_last, rfl, rfl⟩

/-- Both forms of `pop_front` leave the same queue. -/
theorem pop_front_snd (q : CircularQueue α) : q.pop_front.2 = q.pop_front_void := by
  unfold CircularQueue.pop_front CircularQueue.pop_front_void
  split <;> rfl

theorem Holds.pop_front_fst (h : q.Holds xs) : q.pop_front.1 = xs.head? := by
  cases xs with
  | nil =>
    unfold CircularQueue.pop_front
    rw [if_neg (not_not_intro (h.empty_iff.mpr rfl))]
    rfl
  | cons a xs =>
    obtain ⟨q', hpop, -⟩ := h.pop_front
    rw [hpop]
    rfl

theorem Holds.pop_front_void (h : q.Holds xs) :
    q.pop_front_void.Holds xs.tail ∧ q.pop_front_void._cap = q._cap := by
  rw [← pop_front_snd]
  cases xs with
  | nil =>
    unfold CircularQueue.pop_front
    rw [if_neg (not_not_intro (h.empty_iff.mpr rfl))]
    exact ⟨h, rfl⟩
  | cons a xs =>
    obtain ⟨q', hpop, hq', hcap⟩ := h.pop_front
    rw [hpop]
    exact ⟨hq', hcap⟩

theorem pop_front_void_head (q : CircularQueue α) :
    q.pop_front_void._head = q._head ∨ q.pop_front_void._head = (q._head + 1) % q._cap := by
  unfold CircularQueue.pop_front_void
  split
  · exact .inr rfl
  · exact .inl rfl

/-! ## Rings in blocks -/

/-- A ring with the elements of a bounded queue, each in a cell of the block. -/
structure Stores (sizeT : ℕ) (q : CircularQueue α) (d : Deque α) : Prop where
  holds : q.Holds d.elems
  cap : q._cap = d.cap + 1
  lt : d.cap < 2 ^ 62
  inBlock : ∀ k < d.elems.length, q.InBlock sizeT ((q._head + k) % q._cap)

theorem Stores.new (sizeT : ℕ) {cap : ℕ} (h : cap < 2 ^ 62) :
    Stores sizeT (new cap : CircularQueue α) ⟨cap, []⟩ :=
  ⟨Holds.new cap, rfl, h, fun k hk => absurd hk (Nat.not_lt_zero k)⟩

/-- **No sum of sizes wraps.** -/
theorem Stores.no_wrap (h : Stores sizeT q d) :
    q._cap - q._head + q._tail < 2 ^ 64 ∧ q._head + 1 < 2 ^ 64 ∧ q._cap + q._tail < 2 ^ 64 := by
  have hhead := h.holds.head
  have hcap := h.cap
  have hlt := h.lt
  have htail : q._tail < q._cap := by
    rw [h.holds.tail]
    exact Nat.mod_lt _ (by omega)
  omega

theorem Stores.full_eq (h : Stores sizeT q d) : q.full = decide (d.elems.length = d.cap) := by
  have hfull := h.holds.full_iff
  rw [h.cap, Nat.add_sub_cancel] at hfull
  rw [← decide_eq_decide.mpr hfull]
  exact (Bool.decide_coe _).symm

theorem Stores.empty_eq (h : Stores sizeT q d) : q.empty = d.elems.isEmpty := by
  rw [h.holds.empty_eq]
  cases d.elems <;> rfl

/-- **At most as many elements as the capacity.** -/
theorem Stores.length_le (h : Stores sizeT q d) : d.elems.length ≤ d.cap := by
  have hroom := h.holds.room
  rw [h.cap] at hroom
  omega

theorem Stores.push_back (h : Stores sizeT q d) (hfull : ¬ q.full) (hin : q.InBlock sizeT q._tail)
    (a : α) :
    ∃ q', q.push_back a = (true, q') ∧ Stores sizeT q' ⟨d.cap, d.elems ++ [a]⟩ := by
  obtain ⟨q', hpush, hq', hcap⟩ := h.holds.push_back hfull a
  have hhead : q'._head = q._head := by
    have heq := congrArg (fun r => r.2._head) hpush
    unfold CircularQueue.push_back at heq
    rw [if_neg hfull] at heq
    exact heq.symm
  refine ⟨q', hpush, hq', hcap.trans h.cap, h.lt, ?_⟩
  intro k hk
  dsimp only at hk
  rw [List.length_append, List.length_singleton] at hk
  unfold InBlock at hin ⊢
  rw [hcap, hhead]
  rcases Nat.lt_or_ge k d.elems.length with hlt | hge
  · exact h.inBlock k hlt
  · -- the new element
    obtain rfl : k = d.elems.length := by omega
    rwa [← h.holds.tail]

theorem Stores.pop_front (h : Stores sizeT q d) :
    Stores sizeT q.pop_front_void ⟨d.cap, d.elems.tail⟩ := by
  obtain ⟨hq', hcap⟩ := h.holds.pop_front_void
  refine ⟨hq', hcap.trans h.cap, h.lt, ?_⟩
  intro k hk
  dsimp only at hk
  rw [List.length_tail] at hk
  unfold InBlock
  rw [hcap]
  rcases pop_front_void_head q with hhead | hhead
  · rw [hhead]
    exact h.inBlock k (by omega)
  · rw [hhead, Nat.mod_add_mod, Nat.add_assoc, Nat.add_comm 1 k]
    exact h.inBlock (k + 1) (by omega)

theorem Stores.pop_back (h : Stores sizeT q d) :
    Stores sizeT q.pop_back_void ⟨d.cap, d.elems.dropLast⟩ := by
  obtain ⟨hq', hcap, hhead⟩ := h.holds.pop_back_void
  refine ⟨hq', hcap.trans h.cap, h.lt, ?_⟩
  intro k hk
  dsimp only at hk
  rw [List.length_dropLast] at hk
  unfold InBlock
  rw [hcap, hhead]
  exact h.inBlock k (by omega)

theorem Stores.clear (h : Stores sizeT q d) : Stores sizeT q.clear ⟨d.cap, []⟩ := by
  obtain ⟨hq', hcap⟩ := h.holds.clear
  exact ⟨hq', hcap.trans h.cap, h.lt, fun k hk => absurd hk (Nat.not_lt_zero k)⟩

/-- **The cell at `_tail` has no element.** -/
theorem Holds.tail_notMem (h : q.Holds xs) : q._tail ∉ q.cells := by
  intro hmem
  unfold CircularQueue.cells at hmem
  rw [h.size_eq, h.tail] at hmem
  obtain ⟨k, hk, he⟩ := List.mem_map.mp hmem
  have hlt := List.mem_range.mp hk
  have hroom := h.room
  have hcap := h.cap
  have hsame : k = xs.length :=
    Circular.add_mod_inj (by rw [hcap]; omega) (by rw [hcap]; exact hroom) (by rw [hcap]; exact he)
  omega

/-- `clear` uses the cells of the elements. -/
theorem Stores.cells (h : Stores sizeT q d) : ∀ c ∈ q.cells, q.InBlock sizeT c := by
  intro c hc
  unfold CircularQueue.cells at hc
  rw [h.holds.size_eq] at hc
  obtain ⟨k, hk, rfl⟩ := List.mem_map.mp hc
  exact h.inBlock k (List.mem_range.mp hk)

theorem Stores.head_inBlock (h : Stores sizeT q d) (hne : d.elems ≠ []) :
    q.InBlock sizeT q._head := by
  have hin := h.inBlock 0 (List.length_pos_iff.mpr hne)
  rwa [Nat.add_zero, Nat.mod_eq_of_lt h.holds.head] at hin

theorem Stores.last_inBlock (h : Stores sizeT q d) (hne : d.elems ≠ []) :
    q.InBlock sizeT q.last ∧ q.back = d.elems.getLast? := by
  rcases List.eq_nil_or_concat d.elems with hnil | ⟨ys, a, heq⟩
  · exact absurd hnil hne
  · have hholds := h.holds
    have hin := h.inBlock ys.length (by rw [heq, List.length_concat]; omega)
    rw [heq, List.concat_eq_append] at hholds
    constructor
    · rwa [hholds.last_eq]
    · rw [heq, List.concat_eq_append, List.getLast?_concat]
      exact hholds.get_last

/-! ## Families -/

variable {s : ℕ → CircularQueue α} {m : ℕ → Deque α}

/-- The guard of a call on a queue that may be empty. -/
theorem Stores.empty_or (h : Stores sizeT q d) {i : ℕ} (hin : d.elems ≠ [] → q.InBlock sizeT i) :
    (q.empty : Prop) ∨ q.InBlock sizeT i := by
  rw [h.empty_eq]
  cases hd : d.elems with
  | nil => exact .inl rfl
  | cons a xs =>
    refine .inr (hin ?_)
    rw [hd]
    exact List.cons_ne_nil a xs

/-- `pop_back(t)` of an empty queue. -/
theorem pop_back_empty (h : q.empty = true) : q.pop_back = (some false, none, q) := by
  unfold CircularQueue.pop_back
  rw [if_neg (not_not_intro (beq_iff_eq.mp h))]

/-- **One call**: defined and answered as by the deques when the condition is met. -/
theorem call_ok {c : QueueCall α} {o : Answer α} {m' : ℕ → Deque α}
    (h : ∀ i, Stores sizeT (s i) (m i)) (hm : Deque.call m c = some (o, m'))
    (hret : Returns bytewise sizeT s c) :
    ∃ s', call bytewise sizeT s c = some (o, s') ∧ ∀ i, Stores sizeT (s' i) (m' i) := by
  cases c with
  | push_back i t =>
    have hguard : (s i).full = true ∨ (s i).Assignable bytewise sizeT (s i)._tail :=
      Or.imp_right (fun hplain => ⟨hplain.2, .inl hplain.1⟩) hret
    rw [Deque.call] at hm
    rw [call, if_pos hguard]
    by_cases hfull : (m i).elems.length = (m i).cap
    · rw [if_pos hfull] at hm
      cases hm
      have hq : (s i).full = true := by
        rw [(h i).full_eq, decide_eq_true hfull]
      rw [push_back_full hq]
      exact ⟨_, rfl, by rwa [Function.update_eq_self]⟩
    · rw [if_neg hfull] at hm
      cases hm
      have hq : ¬ (s i).full = true := by
        rw [(h i).full_eq]
        exact fun hd => hfull (of_decide_eq_true hd)
      obtain ⟨q', hpush, hstores⟩ := (h i).push_back hq (hguard.resolve_left hq).1 t
      rw [hpush]
      exact ⟨_, rfl, related_update h hstores⟩
  | pop_front i =>
    cases hm
    rw [call, if_pos ((h i).empty_or (h i).head_inBlock)]
    refine ⟨_, ?_, related_update h (h i).pop_front⟩
    dsimp only
    rw [(h i).empty_eq, (h i).holds.pop_front_fst, pop_front_snd]
  | pop_front_void i =>
    cases hm
    rw [call, if_pos ((h i).empty_or (h i).head_inBlock)]
    exact ⟨_, rfl, related_update h (h i).pop_front⟩
  | pop_back i =>
    cases hm
    have hempty : (s i).empty = true := hret
    have hnil : (m i).elems = [] := by
      rw [(h i).empty_eq] at hempty
      exact List.isEmpty_iff.mp hempty
    have hvoid : (s i).pop_back_void = s i := if_neg (not_not_intro (beq_iff_eq.mp hempty))
    have hstores := (h i).pop_back
    rw [hvoid] at hstores
    rw [call, if_pos (.inl hempty), pop_back_empty hempty, hnil]
    rw [hnil] at hstores
    exact ⟨_, rfl, related_update h hstores⟩
  | pop_back_void i =>
    cases hm
    rw [call, if_pos ((h i).empty_or fun hne => ((h i).last_inBlock hne).1)]
    exact ⟨_, rfl, related_update h (h i).pop_back⟩
  | front i =>
    obtain ⟨t, ht, hpair⟩ := Option.map_eq_some_iff.mp hm
    cases hpair
    have hne : (m i).elems ≠ [] := by
      intro hnil
      rw [hnil] at ht
      cases ht
    rw [call, if_pos ((h i).head_inBlock hne), (h i).holds.front_eq hne, ht]
    exact ⟨s, rfl, h⟩
  | back i =>
    obtain ⟨t, ht, hpair⟩ := Option.map_eq_some_iff.mp hm
    cases hpair
    have hne : (m i).elems ≠ [] := by
      intro hnil
      rw [hnil] at ht
      cases ht
    obtain ⟨hin, hback⟩ := (h i).last_inBlock hne
    rw [call, if_pos hin, hback, ht]
    exact ⟨s, rfl, h⟩
  | clear i =>
    cases hm
    rw [call, if_pos (h i).cells]
    exact ⟨_, rfl, related_update h (h i).clear⟩
  | swap i queue =>
    cases hm
    rw [call]
    by_cases hne : i ≠ queue
    · rw [if_pos hne]
      exact ⟨_, rfl, related_update (related_update h (h queue)) (h i)⟩
    · obtain rfl := of_not_not hne
      rw [if_neg hne]
      refine ⟨_, rfl, ?_⟩
      rw [Function.update_idem, Function.update_eq_self]
      exact h
  | size i =>
    cases hm
    refine ⟨s, ?_, h⟩
    rw [call, (h i).holds.size_eq]
  | full i =>
    cases hm
    refine ⟨s, ?_, h⟩
    rw [call, (h i).full_eq]
  | empty i =>
    cases hm
    refine ⟨s, ?_, h⟩
    rw [call, (h i).empty_eq]

/-- A call that is defined has met the condition. -/
theorem returns_of_call {c : QueueCall α} {o : Answer α} {s' : ℕ → CircularQueue α}
    (h : ∀ i, Stores sizeT (s i) (m i)) (hs : call bytewise sizeT s c = some (o, s')) :
    Returns bytewise sizeT s c := by
  cases c with
  | push_back i t =>
    rw [call] at hs
    obtain ⟨hguard, -⟩ := Option.ite_none_right_eq_some.mp hs
    refine hguard.imp_right fun hassign => ⟨?_, hassign.1⟩
    exact hassign.2.resolve_right (h i).holds.tail_notMem
  | pop_back i =>
    by_contra hno
    have hne : (s i)._head ≠ (s i)._tail := by
      intro he
      exact hno (beq_iff_eq.mpr he)
    have hpop : (s i).pop_back =
        (none, (s i)._element.get (s i).last, { s i with _tail := (s i).last }) := if_pos hne
    rw [call, hpop] at hs
    split at hs
    · cases hs
    · cases hs
  | pop_front _ => trivial
  | pop_front_void _ => trivial
  | pop_back_void _ => trivial
  | front _ => trivial
  | back _ => trivial
  | clear _ => trivial
  | swap _ _ => trivial
  | size _ => trivial
  | full _ => trivial
  | empty _ => trivial

/-- **When rings are bounded double-ended queues**: for any number of them, with any capacities
below `2 ^ 62`, and any sequence of calls, every call is defined, is answered as by the deques and
leaves rings that have their elements exactly as long as `pop_back(t)` is called on empty queues
only, and each `push_back` that is not refused comes to a cell of the block and is of a `T` that is
trivially copyable. -/
theorem refines_deques_iff (bytewise : Bool) (sizeT : ℕ) (cap : ℕ → ℕ) (hcap : ∀ i, cap i < 2 ^ 62)
    (l : List (QueueCall α)) :
    Refines (call bytewise sizeT) Deque.call (fun s m => ∀ i, Stores sizeT (s i) (m i))
        (fun i => new (cap i)) (fun i => ⟨cap i, []⟩) l ↔
      Meets (call bytewise sizeT) Deque.call (Returns bytewise sizeT) (fun i => new (cap i))
        (fun i => ⟨cap i, []⟩) l := by
  refine refines_iff ?_ ?_ l _ _ fun i => Stores.new sizeT (hcap i)
  · intro s m c o m' h hm hret
    exact call_ok h hm hret
  · intro s m c o m' s' h _ hs _
    exact returns_of_call h hs

theorem refines_deques_iff_fifo :
    (∀ _ : ℕ, 2 < 2 ^ 62) ∧
      Refines (call true 4) Deque.call (fun s m => ∀ i, Stores 4 (s i) (m i)) (fun _ => new 2)
        (fun _ => ⟨2, []⟩) [.push_back 0 5, .pop_front 0] := by
  have hcap : ∀ _ : ℕ, 2 < 2 ^ 62 := fun _ => by decide
  refine ⟨hcap, (refines_deques_iff true 4 (fun _ => 2) hcap [.push_back 0 5, .pop_front 0]).mpr ?_⟩
  intro o m' hm
  cases hm
  refine ⟨.inr ⟨rfl, by decide⟩, ?_⟩
  intro o' s' hs
  cases hs
  intro o m' _
  exact ⟨trivial, fun _ _ _ => trivial⟩

/-- `pop_back(t)` of a queue with an element returns nothing. -/
theorem not_refines_deques :
    ¬ ∀ (bytewise : Bool) (sizeT : ℕ) (cap : ℕ → ℕ) (l : List (QueueCall ℕ)),
      (∀ i, 1 ≤ cap i ∧ cap i < 2 ^ 62) →
        Refines (call bytewise sizeT) Deque.call (fun s m => ∀ i, Stores sizeT (s i) (m i))
          (fun i => new (cap i)) (fun i => ⟨cap i, []⟩) l := by
  intro h
  obtain ⟨s₁, h₁, -, hrest⟩ := h true 4 (fun _ => 1) [.push_back 0 5, .pop_back 0]
    (fun _ => ⟨Nat.le_refl 1, by decide⟩) _ _ rfl
  cases h₁
  obtain ⟨s₂, h₂, -⟩ := hrest _ _ rfl
  cases h₂

end CircularQueue

end Netlib
