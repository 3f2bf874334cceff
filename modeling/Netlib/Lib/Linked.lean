import Mathlib.Data.List.Basic
import Mathlib.Data.Nat.Notation
import Mathlib.Logic.Function.Basic
import Mathlib.Tactic.Common

/-!
# Linked nodes

A heap has nodes at addresses; an address without one has never been allocated or has been
freed. `Seg h p l q` says that the nodes from `p` on, up to the pointer `q`, are those of `l`, a
list of addresses with their values. A segment depends on its own addresses only (`Seg.congr`),
segments that meet are one (`seg_append`), and a write to `next` of the last node moves the end
(`Seg.relink`).
-/

namespace Netlib.Lib

open Function (update)

/-- A node of a singly linked list. -/
structure Node (α : Type*) where
  val : α
  next : Option ℕ
  deriving DecidableEq

/-- The nodes that are allocated. -/
abbrev Heap (α : Type*) := ℕ → Option (Node α)

namespace Heap

variable {α : Type*} (h : Heap α)

/-- `p->next = r`. -/
def setNext (p : ℕ) (r : Option ℕ) : Option (Heap α) :=
  (h p).map fun n => update h p (some { n with next := r })

/-- `delete p` or `free(p)`. -/
def free (p : ℕ) : Option (Heap α) := (h p).map fun _ => update h p none

end Heap

variable {α : Type*} {h h' : Heap α} {p q r : Option ℕ} {l l' : List (ℕ × α)} {a : ℕ} {x : α}

/-- **The nodes from one pointer up to another.** -/
def Seg (h : Heap α) : Option ℕ → List (ℕ × α) → Option ℕ → Prop
  | p, [], q => p = q
  | p, (a, x) :: l, q => p = some a ∧ ∃ r, h a = some ⟨x, r⟩ ∧ Seg h r l q

/-- The addresses of a segment. -/
def addrs (l : List (ℕ × α)) : List ℕ := l.map Prod.fst

@[simp] theorem addrs_nil : addrs ([] : List (ℕ × α)) = [] := rfl

@[simp] theorem addrs_cons (c : ℕ × α) (l : List (ℕ × α)) : addrs (c :: l) = c.1 :: addrs l := rfl

@[simp] theorem addrs_append (l l' : List (ℕ × α)) : addrs (l ++ l') = addrs l ++ addrs l' :=
  List.map_append

/-- **A segment depends on its own nodes only.** -/
theorem Seg.congr (hs : Seg h p l q) (heq : ∀ b ∈ addrs l, h' b = h b) : Seg h' p l q := by
  induction l generalizing p with
  | nil => exact hs
  | cons c l ih =>
    obtain ⟨a, x⟩ := c
    obtain ⟨rfl, r, hr, hrest⟩ := hs
    refine ⟨rfl, r, ?_, ih hrest fun b hb => heq b (List.mem_cons_of_mem _ hb)⟩
    rw [heq a List.mem_cons_self, hr]

/-- A write outside of a segment. -/
theorem Seg.update_of_notMem (hs : Seg h p l q) (ha : a ∉ addrs l) (n : Option (Node α)) :
    Seg (update h a n) p l q := by
  refine hs.congr fun b hb => Function.update_of_ne ?_ _ _
  rintro rfl
  exact ha hb

theorem seg_append : Seg h p (l ++ l') q ↔ ∃ r, Seg h p l r ∧ Seg h r l' q := by
  induction l generalizing p with
  | nil =>
    constructor
    · exact fun hs => ⟨p, rfl, hs⟩
    · rintro ⟨r, rfl, hs⟩
      exact hs
  | cons c l ih =>
    obtain ⟨a, x⟩ := c
    constructor
    · rintro ⟨rfl, r, hr, hrest⟩
      obtain ⟨r', hl, hl'⟩ := ih.mp hrest
      exact ⟨r', ⟨rfl, r, hr, hl⟩, hl'⟩
    · rintro ⟨r', ⟨rfl, r, hr, hl⟩, hl'⟩
      exact ⟨rfl, r, hr, ih.mpr ⟨r', hl, hl'⟩⟩

/-- The first node of a segment that ends in null. -/
theorem Seg.head_eq (hs : Seg h p l none) : p = (addrs l).head? := by
  cases l with
  | nil => exact hs
  | cons c l => exact hs.1

/-- The last node of a segment. -/
theorem Seg.last (hs : Seg h p (l ++ [(a, x)]) q) : h a = some ⟨x, q⟩ := by
  obtain ⟨r, -, -, r', hr', rfl⟩ := seg_append.mp hs
  exact hr'

/-- **A write to `next` of the last node** moves the end of the segment. -/
theorem Seg.relink (hs : Seg h p (l ++ [(a, x)]) q) (ha : a ∉ addrs l) (r : Option ℕ) :
    h.setNext a r = some (update h a (some ⟨x, r⟩)) ∧
      Seg (update h a (some ⟨x, r⟩)) p (l ++ [(a, x)]) r := by
  constructor
  · unfold Heap.setNext
    rw [hs.last]
    rfl
  · obtain ⟨r', hl, hlast⟩ := seg_append.mp hs
    exact seg_append.mpr
      ⟨r', hl.update_of_notMem ha _, hlast.1, r, Function.update_self .., rfl⟩

/-- One node. -/
theorem seg_singleton (h : Heap α) (a : ℕ) (x : α) (q : Option ℕ) :
    Seg (update h a (some ⟨x, q⟩)) (some a) [(a, x)] q :=
  ⟨rfl, q, Function.update_self .., rfl⟩

end Netlib.Lib
