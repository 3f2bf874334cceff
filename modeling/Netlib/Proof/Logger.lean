import Netlib.Spec.Logger

/-!
# The logger keeps the order

From the consumer on the ring has full nodes, then the producer's node, then empty ones
(`Shape.partly`); or the producer has come back to the consumer, and every record is
discarded until the dump thread has written all full nodes (`Shape.fully`). The steps keep
this (`reach_inv`), so what is written and then the ring is what was accepted. `stop` is
tested only between two nodes: what is left then is lost (`drains_iff`).
-/

namespace Netlib

open Lib

variable {SIZE : ℕ}

namespace Logger

variable {l l' : Logger SIZE}

/-! ## Contents -/

@[simp] theorem contents_nil : contents ([] : List (BufferNode SIZE)) = [] := rfl

@[simp] theorem contents_cons (x : BufferNode SIZE) (xs : List (BufferNode SIZE)) :
    contents (x :: xs) = x.buffer.data ++ contents xs := rfl

@[simp] theorem contents_append (xs ys : List (BufferNode SIZE)) :
    contents (xs ++ ys) = contents xs ++ contents ys := List.flatMap_append

theorem contents_empty {xs : List (BufferNode SIZE)} (h : ∀ x ∈ xs, x = .empty) :
    contents xs = [] := by
  apply List.flatMap_eq_nil_iff.mpr
  intro x hx
  rw [h x hx]
  rfl

/-- The records as they are appended: what is longer than a node is cut. -/
def cut (SIZE : ℕ) (records : List (List Byte)) : List Byte :=
  (records.map (·.take SIZE)).flatten

theorem cut_snoc (records : List (List Byte)) (data : List Byte) :
    cut SIZE (records ++ [data]) = cut SIZE records ++ data.take SIZE := by
  unfold cut
  rw [List.map_append, List.flatten_append]
  exact congrArg (_ ++ ·) (List.append_nil _)

theorem cut_of_le {records : List (List Byte)} (h : ∀ data ∈ records, data.length ≤ SIZE) :
    cut SIZE records = records.flatten := by
  unfold cut
  rw [List.map_congr_left fun data hd => List.take_of_length_le (h data hd), List.map_id']

/-- A record that fits is appended whole. -/
theorem append_room {b : Fixedbuffer SIZE} {data : List Byte} (h : data.length < b.avail) :
    (b.append data).data = b.data ++ data.take SIZE := by
  have hle : b.avail ≤ SIZE := Nat.sub_le _ _
  unfold Fixedbuffer.append
  dsimp only
  rw [List.take_of_length_le (Nat.le_of_lt h), List.take_of_length_le (by omega)]

/-! ## The shape of the ring -/

inductive Shape (l : Logger SIZE) : Prop
  | partly (fulls rest : List (BufferNode SIZE)) (p : BufferNode SIZE) :
    l._circular.around l._consumer = fulls ++ p :: rest →
    (∀ x ∈ fulls, x.status = .full) → p.status = .free → (∀ x ∈ rest, x = .empty) →
    l._producer = (l._consumer + fulls.length) % l._circular.size → Shape l
  | fully (x : BufferNode SIZE) (fulls rest : List (BufferNode SIZE)) :
    l._circular.around l._consumer = x :: fulls ++ rest →
    x.status = .full → (∀ y ∈ fulls, y.status = .full) → (∀ y ∈ rest, y = .empty) →
    l._producer = l._consumer → Shape l

/-- The shape depends on the ring and its two indices only. -/
theorem Shape.congr (h : l.Shape) (hring : l'._circular = l._circular)
    (hcons : l'._consumer = l._consumer) (hprod : l'._producer = l._producer) : l'.Shape := by
  rcases h with ⟨fulls, rest, p, ha, hf, hp, hr, hl⟩ | ⟨x, fulls, rest, ha, hx, hf, hr, hl⟩
  · rw [← hring, ← hcons] at ha
    rw [← hring, ← hcons, ← hprod] at hl
    exact .partly fulls rest p ha hf hp hr hl
  · rw [← hring, ← hcons] at ha
    rw [← hcons, ← hprod] at hl
    exact .fully x fulls rest ha hx hf hr hl

/-- The nodes whose bytes are still to be written. -/
def todo (l : Logger SIZE) : List (BufferNode SIZE) :=
  (l._circular.around l._consumer).drop (if l.dumpAt = .written then 1 else 0)

theorem todo_eq (h : l.dumpAt ≠ .written) : l.todo = l._circular.around l._consumer := by
  unfold todo
  rw [if_neg h]
  rfl

theorem todo_written (h : l.dumpAt = .written) :
    l.todo = (l._circular.around l._consumer).tail := by
  unfold todo
  rw [if_pos h, List.drop_one]

structure Inv (l : Logger SIZE) : Prop where
  lt : l._consumer < l._circular.size
  shape : l.Shape
  head : l.dumpAt = .writing ∨ l.dumpAt = .written → (l.node l._consumer).status = .full
  ordered : l.written ++ contents l.todo = cut SIZE l.accepted

theorem node_of_around {xs ys : List (BufferNode SIZE)} {x : BufferNode SIZE}
    (h : l._circular.around l._consumer = xs ++ x :: ys) :
    l.node ((l._consumer + xs.length) % l._circular.size) = x := by
  unfold node
  rw [Circular.get_mod]
  exact Circular.get_of_around h

theorem node_consumer {ys : List (BufferNode SIZE)} {x : BufferNode SIZE}
    (h : l._circular.around l._consumer = x :: ys) : l.node l._consumer = x :=
  Circular.get_of_cons h

/-- While a node is being written the ring starts with a full node. -/
theorem Inv.drop (h : l.Inv) {fulls ys : List (BufferNode SIZE)} {p : BufferNode SIZE}
    (ha : l._circular.around l._consumer = fulls ++ p :: ys) (hp : p.status = .free) :
    (if l.dumpAt = .written then 1 else 0) ≤ fulls.length := by
  split
  · rename_i hw
    cases fulls with
    | nil =>
      have hfull := h.head (.inr hw)
      rw [node_consumer ha, hp] at hfull
      cases hfull
    | cons x xs => exact Nat.succ_le_succ (Nat.zero_le _)
  · exact Nat.zero_le _

/-! ## `log` -/

/-- A node is not touched by what is written to a node of another status. -/
theorem set_ne {i j : ℕ} (h : (l.node i).status ≠ (l.node j).status) (a : BufferNode SIZE) :
    (l._circular.set i a).get j = l.node j := by
  apply Circular.get_set_ne
  intro hij
  exact h (congrArg BufferNode.status (Circular.get_congr hij))

/-- The node that is being written stays full. -/
theorem Inv.head_set (h : l.Inv) (hp : (l.node l._producer).status = .free)
    (hw : l.dumpAt = .writing ∨ l.dumpAt = .written) (a : BufferNode SIZE) :
    ((l._circular.set l._producer a).get l._consumer).status = .full := by
  have hfull := h.head hw
  have hne : (l.node l._producer).status ≠ (l.node l._consumer).status := by
    rw [hp, hfull]
    decide
  rw [← hfull]
  exact congrArg BufferNode.status (set_ne hne a)

theorem append_node {i : ℕ} (data : List Byte)
    (h : (l.node l._producer).status ≠ (l.node i).status) :
    (l.append data).node i = l.node i := set_ne h _

/-- `log` leaves a full node as it is. -/
theorem log_full {i : ℕ} (h : (l.node i).status = .full) (data : List Byte) :
    (l.log data).node i = l.node i := by
  unfold log
  split
  · rfl
  rename_i hp
  have hne : (l.node l._producer).status ≠ (l.node i).status := by
    rw [h]
    exact hp
  split
  · exact append_node data hne
  · have hfill : l.advance.node i = l.node i := set_ne hne _
    dsimp only
    split
    · exact hfill
    · rename_i hq
      refine (append_node data ?_).trans hfill
      rw [hfill, h]
      exact hq

/-- `log` has no say in what the consumer does. -/
theorem log_dump (l : Logger SIZE) (data : List Byte) :
    (l.log data)._run = l._run ∧ (l.log data)._consumer = l._consumer ∧
      (l.log data).dumpAt = l.dumpAt := by
  unfold log
  split
  · exact ⟨rfl, rfl, rfl⟩
  split
  · exact ⟨rfl, rfl, rfl⟩
  dsimp only
  split
  · exact ⟨rfl, rfl, rfl⟩
  · exact ⟨rfl, rfl, rfl⟩

/-- A record for a node with room. -/
theorem Inv.append (h : l.Inv) {fulls rest : List (BufferNode SIZE)} {p : BufferNode SIZE}
    {data : List Byte} (ha : l._circular.around l._consumer = fulls ++ p :: rest)
    (hf : ∀ x ∈ fulls, x.status = .full) (hp : p.status = .free) (hr : ∀ x ∈ rest, x = .empty)
    (hl : l._producer = (l._consumer + fulls.length) % l._circular.size)
    (hroom : (p.buffer.append data).data = p.buffer.data ++ data.take SIZE) :
    (l.append data).Inv := by
  have hnode : l.node l._producer = p := by
    rw [hl]
    exact node_of_around ha
  have ha' : (l.append data)._circular.around l._consumer =
      fulls ++ { p with buffer := p.buffer.append data } :: rest := by
    unfold Logger.append
    dsimp only
    rw [hnode, hl, Circular.set_mod]
    exact Circular.set_of_around ha _
  have hsize : (l.append data)._circular.size = l._circular.size := Circular.size_set _ _
  refine ⟨?_, ?_, ?_, ?_⟩
  · rw [hsize]
    exact h.lt
  · refine .partly fulls rest _ ha' hf hp hr ?_
    rw [hsize]
    exact hl
  · intro hw
    exact h.head_set (by rw [hnode]; exact hp) hw _
  · have hd := h.drop ha hp
    have ho := h.ordered
    unfold todo at ho ⊢
    rw [show (l.append data)._circular.around (l.append data)._consumer = _ from ha',
      show (l.append data).dumpAt = l.dumpAt from rfl, List.drop_append_of_le_length hd]
    rw [ha, List.drop_append_of_le_length hd] at ho
    simp only [contents_append, contents_cons, contents_empty hr, List.append_nil] at ho ⊢
    rw [hroom, show (l.append data).accepted = l.accepted ++ [data] from rfl, cut_snoc, ← ho]
    unfold Logger.append
    dsimp only
    simp only [List.append_assoc]

/-- The producer goes on from a node without room. -/
theorem Inv.advance (h : l.Inv) {fulls rest : List (BufferNode SIZE)} {p : BufferNode SIZE}
    (ha : l._circular.around l._consumer = fulls ++ p :: rest)
    (hf : ∀ x ∈ fulls, x.status = .full) (hp : p.status = .free) (hr : ∀ x ∈ rest, x = .empty)
    (hl : l._producer = (l._consumer + fulls.length) % l._circular.size) :
    l.advance.Inv ∧
      l.advance._circular.around l._consumer = (fulls ++ [{ p with status := .full }]) ++ rest ∧
      (∀ x ∈ fulls ++ [{ p with status := .full }], x.status = .full) ∧
      l.advance._producer =
        (l._consumer + (fulls ++ [{ p with status := .full }]).length) % l._circular.size := by
  have hnode : l.node l._producer = p := by
    rw [hl]
    exact node_of_around ha
  have ha' : l.advance._circular.around l._consumer =
      (fulls ++ [{ p with status := .full }]) ++ rest := by
    unfold Logger.advance fill
    dsimp only
    rw [hnode, hl, Circular.set_mod, List.append_assoc]
    exact Circular.set_of_around ha _
  have hsize : l.advance._circular.size = l._circular.size := Circular.size_set _ _
  have hf' : ∀ x ∈ fulls ++ [{ p with status := .full }], x.status = .full := by
    intro x hx
    rcases List.mem_append.mp hx with hx | hx
    · exact hf x hx
    · rw [List.mem_singleton.mp hx]
  have hprod : l.advance._producer =
      (l._consumer + (fulls ++ [{ p with status := .full }]).length) % l._circular.size := by
    unfold Logger.advance
    dsimp only
    rw [hl, Circular.next_mod, List.length_append]
    rfl
  have hlen : fulls.length + 1 + rest.length = l._circular.size := by
    rw [← Circular.length_around (r := l._circular) l._consumer, ha, List.length_append,
      List.length_cons]
    omega
  refine ⟨⟨?_, ?_, ?_, ?_⟩, ha', hf', hprod⟩
  · rw [hsize]
    exact h.lt
  · cases rest with
    | nil =>
      -- the producer is back at the consumer
      rw [List.append_nil] at ha'
      cases hc : fulls ++ [{ p with status := .full }] with
      | nil => exact absurd hc (List.append_ne_nil_of_right_ne_nil _ (List.cons_ne_nil _ _))
      | cons x xs =>
        rw [hc] at ha' hf'
        refine .fully x xs [] (by rw [List.append_nil]; exact ha') (hf' x List.mem_cons_self)
          (fun y hy => hf' y (List.mem_cons_of_mem x hy)) hr ?_
        rw [hprod, List.length_append, List.length_singleton]
        rw [List.length_nil, Nat.add_zero] at hlen
        rw [hlen, Nat.add_mod_right]
        exact Nat.mod_eq_of_lt h.lt
    | cons q rest =>
      refine .partly _ rest q ha' hf' ?_ (fun x hx => hr x (List.mem_cons_of_mem q hx)) ?_
      · rw [hr q List.mem_cons_self]
        rfl
      · rw [hsize]
        exact hprod
  · intro hw
    exact h.head_set (by rw [hnode]; exact hp) hw _
  · have hd := h.drop ha hp
    have ho := h.ordered
    unfold todo at ho ⊢
    rw [show l.advance._circular.around l.advance._consumer = _ from ha', List.append_assoc,
      show l.advance.dumpAt = l.dumpAt from rfl, List.drop_append_of_le_length hd]
    rw [ha, List.drop_append_of_le_length hd] at ho
    simp only [contents_append, contents_cons, contents_nil, List.append_nil] at ho ⊢
    exact ho

theorem Inv.log (h : l.Inv) (data : List Byte) : (l.log data).Inv := by
  rcases h.shape with ⟨fulls, rest, p, ha, hf, hp, hr, hl⟩ | ⟨x, fulls, rest, ha, hx, hf, hr, hl⟩
  · have hnode : l.node l._producer = p := by
      rw [hl]
      exact node_of_around ha
    unfold Logger.log
    rw [hnode, if_neg (by rw [hp]; decide)]
    split
    · rename_i hroom
      exact h.append ha hf hp hr hl (append_room hroom)
    · obtain ⟨hadv, ha', hf', hl'⟩ := h.advance ha hf hp hr hl
      dsimp only
      split
      · exact hadv
      · rename_i hq
        cases rest with
        | nil =>
          rcases hadv.shape with ⟨xs, ys, q, hb, -, hqf, -, -⟩ | ⟨x, xs, ys, hb, hx, -, -, hlb⟩
          · -- no node is free
            have hmem : q ∈ fulls ++ [{ p with status := .full }] ++ [] := by
              rw [← ha', show l._consumer = l.advance._consumer from rfl, hb]
              exact List.mem_append_right _ List.mem_cons_self
            rw [List.append_nil] at hmem
            rw [hf' q hmem] at hqf
            cases hqf
          · rw [hlb, node_consumer (by exact hb), hx] at hq
            exact absurd rfl hq
        | cons q rest =>
          have hempty : q = .empty := hr q List.mem_cons_self
          refine hadv.append ha' hf' (by rw [hempty]; rfl)
            (fun x hx => hr x (List.mem_cons_of_mem q hx)) ?_ ?_
          · rw [show l.advance._circular.size = l._circular.size from Circular.size_set _ _]
            exact hl'
          · rw [hempty]
            rfl
  · unfold Logger.log
    rw [hl, node_consumer (by exact ha), if_pos hx]
    exact h

/-! ## `dump` -/

/-- A free node of the consumer is the producer's. -/
theorem Inv.free (h : l.Inv) (hc : (l.node l._consumer).status = .free) :
    ∃ rest p, l._circular.around l._consumer = p :: rest ∧ (∀ x ∈ rest, x = .empty) ∧
      l._producer = l._consumer := by
  rcases h.shape with ⟨fulls, rest, p, ha, hf, -, hr, hl⟩ | ⟨x, fulls, rest, ha, hx, -, -, -⟩
  · cases fulls with
    | nil => exact ⟨rest, p, ha, hr, hl.trans (Nat.mod_eq_of_lt h.lt)⟩
    | cons x xs =>
      rw [node_consumer (by exact ha), hf x List.mem_cons_self] at hc
      cases hc
  · rw [node_consumer (by exact ha), hx] at hc
    cases hc

/-- A step of the dump thread that changes nothing but its place. -/
theorem Inv.at {d : DumpAt} (h : l.Inv) (hw : l.dumpAt ≠ .written) (hd : d ≠ .written)
    (hhead : d = .writing → (l.node l._consumer).status = .full) :
    ({ l with dumpAt := d } : Logger SIZE).Inv := by
  refine ⟨h.lt, ?_, ?_, ?_⟩
  · exact h.shape.congr rfl rfl rfl
  · intro hd'
    rcases hd' with hd' | hd'
    · exact hhead hd'
    · exact absurd hd' hd
  · have ho := h.ordered
    rw [todo_eq hw] at ho
    rw [todo_eq (by exact hd)]
    exact ho

theorem full_of_ne {i : ℕ} (h : (l.node i).status ≠ .free) : (l.node i).status = .full := by
  cases hs : (l.node i).status with
  | free => exact absurd hs h
  | full => rfl

theorem Inv.dumpTest (h : l.Inv) (hd : l.dumpAt = .test) : l.dumpTest.Inv := by
  apply h.at
  · rw [hd]
    decide
  · split <;> decide
  · intro hw
    split at hw <;> cases hw

theorem Inv.dumpLock (h : l.Inv) (hd : l.dumpAt = .lock) : l.dumpLock.Inv := by
  apply h.at
  · rw [hd]
    decide
  · split <;> decide
  · intro hw
    split at hw
    · cases hw
    · rename_i hne
      exact full_of_ne hne

theorem Inv.dumpWake (h : l.Inv) (hd : l.dumpAt = .waiting) : l.dumpWake.Inv := by
  have hnw : l.dumpAt ≠ .written := by
    rw [hd]
    decide
  unfold Logger.dumpWake
  split
  · rename_i hfree
    split
    · -- the flush of a node that is not full
      obtain ⟨rest, p, ha, hr, hprod⟩ := h.free hfree
      have hnode : l.node l._consumer = p := node_consumer ha
      have ha' : (l.fill l._consumer)._circular.around l._consumer =
          { p with status := .full } :: rest := by
        unfold fill
        dsimp only
        rw [hnode]
        exact Circular.set_of_cons ha _
      refine ⟨?_, .fully _ [] rest ha' rfl ?_ hr hprod, ?_, ?_⟩
      · exact (Circular.size_set (r := l._circular) _ _).symm ▸ h.lt
      · intro y hy
        cases hy
      · intro _
        exact congrArg BufferNode.status (Circular.get_set_self _ _)
      · have ho := h.ordered
        rw [todo_eq hnw, ha] at ho
        have htodo : ({ l.fill l._consumer with dumpAt := .writing } : Logger SIZE).todo = _ :=
          (todo_eq (by exact DumpAt.noConfusion)).trans ha'
        dsimp only
        rw [htodo]
        exact ho
    · exact h.at hnw (by decide) fun hw => by cases hw
  · rename_i hne
    exact h.at hnw (by decide) fun _ => full_of_ne hne

theorem Inv.dumpWrite (h : l.Inv) (hd : l.dumpAt = .writing) : l.dumpWrite.Inv := by
  have hhead := h.head (.inl hd)
  refine ⟨h.lt, ?_, fun _ => hhead, ?_⟩
  · exact h.shape.congr rfl rfl rfl
  · have ho := h.ordered
    have hcons := Circular.around_cons (r := l._circular) l._consumer
    rw [todo_eq (by rw [hd]; decide), hcons, contents_cons, ← List.append_assoc] at ho
    rw [todo_written rfl]
    exact ho

/-- The ring from the node after the one that is freed. -/
theorem dumpNext_around (l : Logger SIZE) :
    l.dumpNext._circular.around l.dumpNext._consumer =
      (l._circular.around l._consumer).tail ++ [.empty] := by
  have hset := Circular.set_of_cons (Circular.around_cons (r := l._circular) l._consumer) .empty
  unfold Logger.dumpNext
  dsimp only
  rw [← Circular.next_set l._consumer l._consumer .empty, Circular.around_next, hset,
    Circular.get_set_self]
  rfl

theorem dumpNext_size (l : Logger SIZE) : l.dumpNext._circular.size = l._circular.size :=
  Circular.size_set _ _

/-- One more empty node at the end. -/
theorem empty_snoc {rest : List (BufferNode SIZE)} (hr : ∀ y ∈ rest, y = .empty) :
    ∀ y ∈ rest ++ [BufferNode.empty], y = .empty := by
  intro y hy
  rcases List.mem_append.mp hy with hy | hy
  · exact hr y hy
  · exact List.mem_singleton.mp hy

/-- The producer stays where it is when it is at another node than the consumer. -/
theorem Inv.dumpNext_partly (h : l.Inv) {x p : BufferNode SIZE} {xs rest : List (BufferNode SIZE)}
    (ha : l._circular.around l._consumer = x :: xs ++ p :: rest)
    (hf : ∀ y ∈ x :: xs, y.status = .full) (hp : p.status = .free) (hr : ∀ y ∈ rest, y = .empty)
    (hl : l._producer = (l._consumer + (x :: xs).length) % l._circular.size) : l.dumpNext.Shape := by
  have hlt : (x :: xs).length < l._circular.size := by
    rw [← Circular.length_around (r := l._circular) l._consumer, ha, List.length_append,
      List.length_cons (a := p)]
    omega
  have hne : l._consumer ≠ l._producer := by
    intro heq
    rw [hl, ← Nat.mod_eq_of_lt h.lt, Nat.mod_add_mod] at heq
    have h0 := Circular.add_mod_inj (i := 0) (r := l._circular) l._circular.size_pos hlt heq
    cases h0
  have haround : l.dumpNext._circular.around l.dumpNext._consumer =
      xs ++ p :: (rest ++ [.empty]) := by
    rw [dumpNext_around, ha, List.cons_append, List.tail_cons, List.append_assoc]
    rfl
  refine .partly xs (rest ++ [.empty]) p haround (fun y hy => hf y (List.mem_cons_of_mem x hy)) hp
    (empty_snoc hr) ?_
  unfold Logger.dumpNext
  dsimp only
  rw [if_neg hne, Circular.size_set, hl]
  unfold Circular.next
  rw [Nat.mod_add_mod, List.length_cons]
  congr 1
  omega

/-- The producer goes on with the consumer when all nodes were full, or a node was flushed. -/
theorem dumpNext_fully {x : BufferNode SIZE} {fulls rest : List (BufferNode SIZE)}
    (ha : l._circular.around l._consumer = x :: fulls ++ rest) (hf : ∀ y ∈ fulls, y.status = .full)
    (hr : ∀ y ∈ rest, y = .empty) (hl : l._producer = l._consumer) : l.dumpNext.Shape := by
  have hprod : l.dumpNext._producer = l.dumpNext._consumer := by
    unfold Logger.dumpNext
    dsimp only
    rw [if_pos hl.symm, hl]
  have haround : l.dumpNext._circular.around l.dumpNext._consumer =
      fulls ++ (rest ++ [.empty]) := by
    rw [dumpNext_around, ha, List.cons_append, List.tail_cons, List.append_assoc]
  have hempty := empty_snoc hr
  cases fulls with
  | cons y ys =>
    exact .fully y ys _ haround (hf y List.mem_cons_self)
      (fun z hz => hf z (List.mem_cons_of_mem y hz)) hempty hprod
  | nil =>
    -- the last full node was written, and the ring is empty
    cases hc : rest ++ [BufferNode.empty] with
    | nil => exact absurd hc (List.append_ne_nil_of_right_ne_nil _ (List.cons_ne_nil _ _))
    | cons q qs =>
      rw [hc] at haround hempty
      refine .partly [] qs q haround (fun y hy => by cases hy) ?_
        (fun y hy => hempty y (List.mem_cons_of_mem q hy)) ?_
      · rw [hempty q List.mem_cons_self]
        rfl
      · rw [hprod, dumpNext_size]
        exact (Nat.mod_eq_of_lt (Circular.next_lt _)).symm

theorem Inv.dumpNext (h : l.Inv) (hd : l.dumpAt = .written) : l.dumpNext.Inv := by
  have hhead := h.head (.inr hd)
  refine ⟨?_, ?_, ?_, ?_⟩
  · rw [dumpNext_size]
    exact Circular.next_lt _
  · rcases h.shape with ⟨fulls, rest, p, ha, hf, hp, hr, hl⟩ | ⟨x, fulls, rest, ha, hx, hf, hr, hl⟩
    · cases fulls with
      | nil =>
        rw [node_consumer (by exact ha), hp] at hhead
        cases hhead
      | cons x xs => exact h.dumpNext_partly ha hf hp hr hl
    · exact dumpNext_fully ha hf hr hl
  · intro hw
    rcases hw with hw | hw <;> cases hw
  · have hnil : (BufferNode.empty : BufferNode SIZE).buffer.data = [] := rfl
    have ho := h.ordered
    rw [todo_written hd] at ho
    rw [todo_eq (by exact DumpAt.noConfusion), dumpNext_around, contents_append]
    simp only [contents_cons, contents_nil, List.append_nil]
    rw [hnil, List.append_nil]
    exact ho

section Places

theorem dump_test (h : l.dumpAt = .test) : l.dump = some l.dumpTest := by
  unfold dump
  rw [h]

theorem dump_lock (h : l.dumpAt = .lock) : l.dump = some l.dumpLock := by
  unfold dump
  rw [h]

theorem dump_waiting (h : l.dumpAt = .waiting) : l.dump = some l.dumpWake := by
  unfold dump
  rw [h]

theorem dump_writing (h : l.dumpAt = .writing) : l.dump = some l.dumpWrite := by
  unfold dump
  rw [h]

theorem dump_written (h : l.dumpAt = .written) : l.dump = some l.dumpNext := by
  unfold dump
  rw [h]

theorem dump_returned (h : l.dumpAt = .returned) : l.dump = none := by
  unfold dump
  rw [h]

end Places

theorem Inv.dump (h : l.Inv) (hs : l.dump = some l') : l'.Inv := by
  cases hd : l.dumpAt with
  | test => exact Option.some.inj ((dump_test hd).symm.trans hs) ▸ h.dumpTest hd
  | lock => exact Option.some.inj ((dump_lock hd).symm.trans hs) ▸ h.dumpLock hd
  | waiting => exact Option.some.inj ((dump_waiting hd).symm.trans hs) ▸ h.dumpWake hd
  | writing => exact Option.some.inj ((dump_writing hd).symm.trans hs) ▸ h.dumpWrite hd
  | written => exact Option.some.inj ((dump_written hd).symm.trans hs) ▸ h.dumpNext hd
  | returned =>
    rw [dump_returned hd] at hs
    cases hs

theorem Inv.stop (h : l.Inv) : l.stop.Inv := by
  have hshape : l.stop.Shape := h.shape.congr rfl rfl rfl
  exact ⟨h.lt, hshape, h.head, h.ordered⟩

theorem Inv.step {a : LogAction} (h : l.Inv) (hs : l.step a = some l') : l'.Inv := by
  cases a with
  | log data => exact Option.some.inj hs ▸ h.log data
  | dump => exact h.dump hs
  | stop => exact Option.some.inj hs ▸ h.stop

theorem setfilename_inv {n : ℕ} (hn : n ≠ 0) : (setfilename n hn : Logger SIZE).Inv := by
  have ha : (setfilename n hn : Logger SIZE)._circular.around 0 = List.replicate n .empty :=
    Circular.around_replicate n _ hn 0
  obtain ⟨m, rfl⟩ := Nat.exists_eq_succ_of_ne_zero hn
  refine ⟨?_, ?_, ?_, ?_⟩
  · exact Circular.size_pos _
  · refine .partly [] (List.replicate m .empty) .empty ha (fun y hy => by cases hy) rfl
      (fun y hy => List.eq_of_mem_replicate hy) ?_
    exact (Nat.zero_mod _).symm
  · intro hw
    rcases hw with hw | hw <;> cases hw
  · rw [(todo_eq (by exact DumpAt.noConfusion)).trans ha,
      contents_empty fun y hy => List.eq_of_mem_replicate hy]
    rfl

/-- The invariant along runs. -/
theorem reach_inv {n : ℕ} {hn : n ≠ 0} {C : Logger SIZE → LogAction → Prop}
    (h : Reach step C (setfilename n hn) l) : l.Inv :=
  h.inv (setfilename_inv hn) fun _ _ _ hi _ hs => hi.step hs

/-! ## Order -/

/-- The span holds all nodes that are not empty. -/
theorem Inv.span (h : l.Inv) : ∃ xs rest, l._circular.around l._consumer = xs ++ rest ∧
    xs.length ≤ l.span ∧ ∀ y ∈ rest, y = .empty := by
  rcases h.shape with ⟨fulls, rest, p, ha, hf, hp, hr, hl⟩ | ⟨x, fulls, rest, ha, hx, hf, hr, hl⟩
  · refine ⟨fulls ++ [p], rest, by rw [ha, List.append_assoc]; rfl, ?_, hr⟩
    have hk : fulls.length < l._circular.size := by
      rw [← Circular.length_around (r := l._circular) l._consumer, ha, List.length_append,
        List.length_cons]
      omega
    have hlt := h.lt
    unfold Logger.span
    rw [List.length_append, List.length_singleton]
    split
    · -- the producer is at the consumer, so no node is full
      rename_i heq
      rw [hl, ← Nat.mod_eq_of_lt h.lt, Nat.mod_add_mod] at heq
      have h0 : fulls.length = 0 := Circular.add_mod_inj hk l._circular.size_pos heq
      rw [h0]
      split
      · exact Circular.size_pos _
      · exact Nat.le_refl _
    · rw [hl]
      apply Nat.succ_le_succ
      rcases Nat.lt_or_ge (l._consumer + fulls.length) l._circular.size with hw | hw
      · rw [Nat.mod_eq_of_lt hw, show l._consumer + fulls.length + l._circular.size - l._consumer =
          fulls.length + l._circular.size by omega, Nat.add_mod_right, Nat.mod_eq_of_lt hk]
      · have hmod : (l._consumer + fulls.length) % l._circular.size =
            l._consumer + fulls.length - l._circular.size := by
          rw [Nat.mod_eq_sub_mod hw]
          apply Nat.mod_eq_of_lt
          omega
        rw [hmod, show l._consumer + fulls.length - l._circular.size + l._circular.size -
          l._consumer = fulls.length by omega, Nat.mod_eq_of_lt hk]
  · refine ⟨x :: fulls, rest, ha, ?_, hr⟩
    unfold Logger.span
    rw [if_pos hl, hl, node_consumer (by exact ha), if_pos hx,
      ← Circular.length_around (r := l._circular) l._consumer, ha, List.length_append]
    exact Nat.le_add_right _ _

/-- The nodes past the producer hold nothing. -/
theorem Inv.contents_take (h : l.Inv) (m : ℕ) :
    contents (((l._circular.around l._consumer).take l.span).drop m) =
      contents ((l._circular.around l._consumer).drop m) := by
  obtain ⟨xs, rest, ha, hlen, hr⟩ := h.span
  have hempty : ∀ y ∈ (l._circular.around l._consumer).drop l.span, y = .empty := by
    intro y hy
    rw [ha, List.drop_append, List.drop_of_length_le hlen] at hy
    exact hr y (List.mem_of_mem_drop hy)
  have htail : ∀ k, contents (((l._circular.around l._consumer).drop l.span).drop k) = [] :=
    fun k => contents_empty fun y hy => hempty y (List.mem_of_mem_drop hy)
  conv_rhs => rw [← List.take_append_drop l.span (l._circular.around l._consumer), List.drop_append]
  rw [contents_append, htail, List.append_nil]

theorem dump_accepted (hs : l.dump = some l') : l'.accepted = l.accepted := by
  unfold dump at hs
  split at hs
  · exact Option.some.inj hs ▸ rfl
  · exact Option.some.inj hs ▸ rfl
  · obtain rfl := Option.some.inj hs
    unfold dumpWake
    split
    · split <;> rfl
    · rfl
  · exact Option.some.inj hs ▸ rfl
  · exact Option.some.inj hs ▸ rfl
  · cases hs

theorem log_accepted (l : Logger SIZE) (data : List Byte) :
    (l.log data).accepted = l.accepted ∨ (l.log data).accepted = l.accepted ++ [data] := by
  unfold log
  split
  · exact .inl rfl
  split
  · exact .inr rfl
  dsimp only
  split
  · exact .inl rfl
  · exact .inr rfl

/-- In a run with short records no record is cut. -/
theorem reach_short {n : ℕ} {hn : n ≠ 0} (h : Reach step Short (setfilename n hn) l) :
    ∀ data ∈ l.accepted, data.length ≤ SIZE := by
  apply h.inv (I := fun l => ∀ data ∈ l.accepted, data.length ≤ SIZE)
  · intro data hd
    cases hd
  · intro s a s' hi hc hs
    cases a with
    | log data =>
      obtain rfl := Option.some.inj hs
      have hshort : data.length < SIZE := hc
      intro data' hd
      rcases log_accepted s data with ha | ha
      · exact hi data' (ha ▸ hd)
      · rw [ha, List.mem_append, List.mem_singleton] at hd
        rcases hd with hd | rfl
        · exact hi data' hd
        · exact Nat.le_of_lt hshort
    | dump =>
      rw [dump_accepted hs]
      exact hi
    | stop => exact Option.some.inj hs ▸ hi

theorem Inv.is_ordered (h : l.Inv) (hshort : ∀ data ∈ l.accepted, data.length ≤ SIZE) :
    l.Ordered := by
  unfold Ordered pending
  rw [h.contents_take, ← cut_of_le hshort]
  exact h.ordered

theorem Inv.untorn (h : l.Inv) : l.Untorn :=
  fun hw data => ⟨(log_dump l data).2.1, log_full (h.head hw) data⟩

/-- **The logger.** For every number of nodes and every interleaving of `log` and `dump`, what
is written and then the ring from the consumer up to the producer are the accepted records,
and `log` leaves the node that is being written alone. -/
theorem logs_in_order {n : ℕ} {hn : n ≠ 0} (h : Reach step Short (setfilename n hn) l) :
    l.Ordered ∧ l.Untorn :=
  ⟨(reach_inv h).is_ordered (reach_short h), (reach_inv h).untorn⟩

/-- The producer has come back to the consumer, whose node is being written. -/
theorem logs_in_order_round : ∃ l : Logger 2,
    [.log [1], .dump, .dump, .dump, .log [2], .dump, .log [3], .log [4]].foldlM step
      (setfilename 2 (by decide)) = some l ∧ l.Ordered ∧ l.Untorn := by
  have hshort : ∀ a ∈ [LogAction.log [1], .dump, .dump, .dump, .log [2], .dump, .log [3], .log [4]],
      ∀ s : Logger 2, Short s a := by
    intro a ha s
    simp only [List.mem_cons, List.not_mem_nil, or_false] at ha
    rcases ha with rfl | rfl | rfl | rfl | rfl | rfl | rfl | rfl
    all_goals first
      | trivial
      | exact Nat.lt_succ_self 1
  refine ⟨_, rfl, ?_⟩
  have hreach : Reach step Short (setfilename 2 (by decide)) _ := Reach.of_foldlM hshort rfl
  exact logs_in_order hreach

/-! ## After `stop` -/

/-- What the pass of the dump thread still writes. -/
def now (l : Logger SIZE) : List Byte :=
  match l.dumpAt with
  | .lock | .waiting | .writing => (l.node l._consumer).buffer.data
  | .test | .written | .returned => []

/-- The rest of the pass changes neither its sum nor the records. -/
theorem dump_now (hrun : l._run = false) (hs : l.dump = some l') :
    l'._run = false ∧ l'.written ++ l'.now = l.written ++ l.now := by
  unfold dump at hs
  split at hs
  all_goals rename_i hd
  · obtain rfl := Option.some.inj hs
    refine ⟨hrun, ?_⟩
    unfold now dumpTest
    rw [hrun, hd]
    rfl
  · obtain rfl := Option.some.inj hs
    refine ⟨hrun, ?_⟩
    unfold now dumpLock
    rw [hd]
    dsimp only
    by_cases hf : (l.node l._consumer).status = .free
    · rw [if_pos hf]
      rfl
    · rw [if_neg hf]
      rfl
  · obtain rfl := Option.some.inj hs
    unfold dumpWake
    split
    · split
      · refine ⟨hrun, ?_⟩
        unfold now
        rw [hd]
        dsimp only
        have hget : (l.fill l._consumer).node l._consumer = _ := Circular.get_set_self _ _
        exact congrArg (l.written ++ ·) (congrArg (fun n => n.buffer.data) hget)
      · rename_i hlen
        refine ⟨hrun, ?_⟩
        have hnil : (l.node l._consumer).buffer.data = [] :=
          List.length_eq_zero_iff.mp (Nat.eq_zero_of_not_pos hlen)
        unfold now
        rw [hd]
        dsimp only
        rw [hnil]
    · refine ⟨hrun, ?_⟩
      unfold now
      rw [hd]
      rfl
  · obtain rfl := Option.some.inj hs
    refine ⟨hrun, ?_⟩
    unfold now dumpWrite
    rw [hd]
    dsimp only
    rw [List.append_nil]
  · obtain rfl := Option.some.inj hs
    refine ⟨hrun, ?_⟩
    unfold now dumpNext
    rw [hd]
  · cases hs

/-- The dump thread returns after this state. -/
def Returns (l : Logger SIZE) : Prop := ∃ l', Reach step Stopping l l' ∧ l'.dumpAt = .returned

theorem Returns.before (h : l'.Returns) (hs : l.dump = some l') : l.Returns := by
  obtain ⟨l'', hr, hd⟩ := h
  exact ⟨l'', .trans (.single (a := .dump) trivial hs) hr, hd⟩

/-- Each place of the dump thread, from the last one on. -/
theorem returns (hrun : l._run = false) : l.Returns := by
  have htest : ∀ l : Logger SIZE, l._run = false → l.dumpAt = .test → l.Returns := by
    intro l hr hd
    have hret : l.dumpTest.Returns := by
      refine ⟨_, .refl, ?_⟩
      unfold dumpTest
      rw [hr]
      rfl
    exact hret.before (dump_test hd)
  have hwritten : ∀ l : Logger SIZE, l._run = false → l.dumpAt = .written → l.Returns :=
    fun l hr hd => (htest l.dumpNext hr rfl).before (dump_written hd)
  have hwriting : ∀ l : Logger SIZE, l._run = false → l.dumpAt = .writing → l.Returns :=
    fun l hr hd => (hwritten l.dumpWrite hr rfl).before (dump_writing hd)
  have hwaiting : ∀ l : Logger SIZE, l._run = false → l.dumpAt = .waiting → l.Returns := by
    intro l hr hd
    refine Returns.before ?_ (dump_waiting hd)
    unfold dumpWake
    split
    · split
      · exact hwriting _ hr rfl
      · exact htest _ hr rfl
    · exact hwriting _ hr rfl
  cases hd : l.dumpAt with
  | test => exact htest l hrun hd
  | written => exact hwritten l hrun hd
  | writing => exact hwriting l hrun hd
  | waiting => exact hwaiting l hrun hd
  | lock =>
    refine Returns.before ?_ (dump_lock hd)
    by_cases hf : (l.node l._consumer).status = .free
    · exact hwaiting l.dumpLock hrun (if_pos hf)
    · exact hwriting l.dumpLock hrun (if_neg hf)
  | returned => exact ⟨l, .refl, hd⟩

/-- Before `stop` the dump thread has not returned. -/
theorem reach_running {n : ℕ} {hn : n ≠ 0} (h : Reach step Running (setfilename n hn) l) :
    l._run = true ∧ l.dumpAt ≠ .returned := by
  apply h.inv (I := fun l => l._run = true ∧ l.dumpAt ≠ .returned)
  · exact ⟨rfl, DumpAt.noConfusion⟩
  · intro s a s' hi hc hs
    obtain ⟨hrun, hret⟩ := hi
    cases a with
    | log data =>
      obtain rfl := Option.some.inj hs
      obtain ⟨hrun', -, hat⟩ := log_dump s data
      rw [hrun', hat]
      exact ⟨hrun, hret⟩
    | dump =>
      have hs' : s.dump = some s' := hs
      cases hd : s.dumpAt with
      | test =>
        obtain rfl := Option.some.inj ((dump_test hd).symm.trans hs')
        unfold dumpTest
        rw [hrun]
        exact ⟨rfl, DumpAt.noConfusion⟩
      | lock =>
        obtain rfl := Option.some.inj ((dump_lock hd).symm.trans hs')
        refine ⟨hrun, ?_⟩
        unfold dumpLock
        dsimp only
        split <;> exact DumpAt.noConfusion
      | waiting =>
        obtain rfl := Option.some.inj ((dump_waiting hd).symm.trans hs')
        unfold dumpWake
        split
        · split
          · exact ⟨hrun, DumpAt.noConfusion⟩
          · exact ⟨hrun, DumpAt.noConfusion⟩
        · exact ⟨hrun, DumpAt.noConfusion⟩
      | writing =>
        obtain rfl := Option.some.inj ((dump_writing hd).symm.trans hs')
        exact ⟨hrun, DumpAt.noConfusion⟩
      | written =>
        obtain rfl := Option.some.inj ((dump_written hd).symm.trans hs')
        exact ⟨hrun, DumpAt.noConfusion⟩
      | returned => exact absurd hd hret
    | stop => exact absurd hc id

/-- The ring is the rest of the pass and what `dump` does not come to. -/
theorem Inv.contents_left (h : l.Inv) (hd : l.dumpAt ≠ .returned) :
    l.written ++ l.now ++ contents l.left = cut SIZE l.accepted := by
  rw [← h.ordered, List.append_assoc]
  congr 1
  have hcons := congrArg contents (Circular.around_cons (r := l._circular) l._consumer)
  rw [contents_cons] at hcons
  have htail := (h.contents_take 1).trans (congrArg contents (List.drop_one))
  unfold now left pending
  cases hp : l.dumpAt with
  | test =>
    rw [if_pos rfl, h.contents_take, todo_eq (by rw [hp]; decide)]
    rfl
  | written =>
    rw [if_neg (by decide), htail, todo_written hp]
    rfl
  | returned => exact absurd hp hd
  | lock | waiting | writing =>
    rw [if_neg (by decide), htail, todo_eq (by rw [hp]; decide), hcons]
    rfl

theorem cut_length (records : List (List Byte)) :
    (cut SIZE records).length ≤ records.flatten.length ∧
      (records.flatten.length ≤ (cut SIZE records).length →
        ∀ data ∈ records, data.length ≤ SIZE) := by
  induction records with
  | nil => exact ⟨Nat.le_refl _, fun _ data hd => by cases hd⟩
  | cons r rs ih =>
    have hcut : cut SIZE (r :: rs) = r.take SIZE ++ cut SIZE rs := rfl
    have htake : (r.take SIZE).length = min SIZE r.length := List.length_take
    obtain ⟨hle, hall⟩ := ih
    rw [hcut, List.flatten_cons, List.length_append, List.length_append, htake]
    refine ⟨by omega, ?_⟩
    intro hge data hd
    rcases List.mem_cons.mp hd with rfl | hd
    · omega
    · exact hall (by omega) data hd

/-- Bytes are lost when a record is cut or some bytes are left. -/
theorem cut_iff {xs ys : List Byte} {records : List (List Byte)}
    (h : xs ++ ys = cut SIZE records) :
    xs = records.flatten ↔ (∀ data ∈ records, data.length ≤ SIZE) ∧ ys = [] := by
  constructor
  · intro heq
    have hlen := congrArg List.length h
    have hcut : (cut SIZE records).length ≤ records.flatten.length ∧ _ := cut_length records
    obtain ⟨hle, hall⟩ := hcut
    rw [List.length_append, heq] at hlen
    exact ⟨hall (by omega), List.length_eq_zero_iff.mp (by omega)⟩
  · rintro ⟨hall, hys⟩
    rw [← cut_of_le hall, ← h, hys, List.append_nil]

/-- **`stop` drains the ring exactly when** the condition holds at the moment when it clears
`_run`; the dump thread returns. -/
theorem drains_iff {n : ℕ} {hn : n ≠ 0} (h : Reach step Running (setfilename n hn) l) :
    l.stop.Returns ∧
      ∀ l', Reach step Stopping l.stop l' → l'.dumpAt = .returned → (l'.Drained ↔ l.Drains) := by
  refine ⟨returns rfl, ?_⟩
  intro l' h' hd
  have hsum := h'.inv (I := fun l' => l'._run = false ∧ l'.accepted = l.accepted ∧
    l'.written ++ l'.now = l.written ++ l.now) ⟨rfl, rfl, rfl⟩ (by
      intro s a s' hi hc hs
      cases a with
      | dump =>
        obtain ⟨hrun, ha, hw⟩ := hi
        obtain ⟨hrun', hw'⟩ := dump_now hrun hs
        exact ⟨hrun', (dump_accepted hs).trans ha, hw'.trans hw⟩
      | log data => exact absurd hc id
      | stop => exact absurd hc id)
  obtain ⟨-, ha, hw⟩ := hsum
  have hnow : l'.now = [] := by
    unfold now
    rw [hd]
  rw [hnow, List.append_nil] at hw
  unfold Drained Drains
  rw [ha, hw]
  exact cut_iff ((reach_inv h).contents_left (reach_running h).2)

/-- A record is logged and the dump thread has tested `_run` before `stop`. -/
theorem drains_iff_pass : ∃ l l' : Logger nodeSize,
    [.log [65], .dump].foldlM step (setfilename 5 (by decide)) = some l ∧
      List.foldlM step l.stop [.dump, .dump, .dump, .dump, .dump] = some l' ∧
      l.stop.Returns ∧ (l'.Drained ↔ l.Drains) := by
  have hrun : ∀ a ∈ [LogAction.log [65], .dump], ∀ s : Logger nodeSize, Running s a := by
    intro a ha s
    rcases List.mem_pair.mp ha with rfl | rfl <;> trivial
  have hstop : ∀ a ∈ List.replicate 5 LogAction.dump, ∀ s : Logger nodeSize, Stopping s a := by
    intro a ha s
    rw [List.eq_of_mem_replicate ha]
    trivial
  refine ⟨_, _, rfl, rfl, ?_⟩
  have hreach : Reach step Running (setfilename 5 (by decide)) _ := Reach.of_foldlM hrun rfl
  obtain ⟨hret, hiff⟩ := drains_iff hreach
  exact ⟨hret, hiff _ (Reach.of_foldlM hstop rfl) rfl⟩

/-- When `stop` comes before the test the record is lost. -/
theorem not_drained : ¬ ∀ l : Logger nodeSize, Reach step Running (setfilename 5 (by decide)) l →
    ∀ l', Reach step Stopping l.stop l' → l'.dumpAt = .returned → l'.Drained := by
  intro h
  have hlog : Reach step Running (setfilename 5 (by decide))
      ((setfilename 5 (by decide) : Logger nodeSize).log [65]) := .single (a := .log [65]) trivial rfl
  have hdump := h _ hlog _ (.single (a := .dump) trivial rfl) rfl
  have hlen := congrArg List.length hdump
  exact absurd hlen (by decide)

/-! ## Discarded records -/

theorem allFull_iff (l : Logger SIZE) (i : ℕ) :
    l.AllFull ↔ ∀ x ∈ l._circular.around i, x.status = .full := by
  unfold AllFull Circular.around
  simp only [List.mem_rotate]

/-- An accepted record is not reported. -/
theorem not_discards (hl : l'.accepted = l.accepted) (data : List Byte) :
    (l'.append data).accepted ≠ l.accepted := by
  have hlen : (l'.append data).accepted.length = l.accepted.length + 1 := by
    rw [← hl]
    exact List.length_append
  intro h
  rw [h] at hlen
  omega

/-- With the producer on a free node a record is discarded only when the ring has become full. -/
theorem Inv.discards_partly (h : l.Inv) {fulls rest : List (BufferNode SIZE)} {p : BufferNode SIZE}
    {data : List Byte} (ha : l._circular.around l._consumer = fulls ++ p :: rest)
    (hf : ∀ x ∈ fulls, x.status = .full) (hp : p.status = .free) (hr : ∀ x ∈ rest, x = .empty)
    (hl : l._producer = (l._consumer + fulls.length) % l._circular.size) : l.DiscardsFull data := by
  have hnode : l.node l._producer = p := by
    rw [hl]
    exact node_of_around ha
  obtain ⟨-, ha', hf', hl'⟩ := h.advance ha hf hp hr hl
  have hsize : l.advance._circular.size = l._circular.size := Circular.size_set _ _
  unfold DiscardsFull Discards Logger.log
  rw [hnode, if_neg (by rw [hp]; decide)]
  split
  · intro hd
    exact absurd hd (not_discards rfl data)
  dsimp only
  split
  · rename_i hq
    intro _
    cases rest with
    | nil =>
      rw [List.append_nil] at ha'
      apply (allFull_iff _ l._consumer).mpr
      rw [ha']
      exact hf'
    | cons q rest =>
      -- the next node is empty
      have hnext : l.advance.node l.advance._producer = q := by
        rw [hl', ← hsize]
        exact node_of_around (by exact ha')
      rw [hnext, hr q List.mem_cons_self] at hq
      cases hq
  · intro hd
    exact absurd hd (not_discards rfl data)

/-- **A record is discarded only when every node is full, exactly when** the producer does not rest
on a full node beside free ones. -/
theorem discards_full_iff {n : ℕ} {hn : n ≠ 0} (h : Reach step always (setfilename n hn) l)
    (data : List Byte) : l.DiscardsFull data ↔ l.ProducerUsable := by
  have hinv := reach_inv h
  rcases hinv.shape with ⟨fulls, rest, p, ha, hf, hp, hr, hl⟩ | ⟨x, fulls, rest, ha, hx, -, -, hl⟩
  · have hnode : l.node l._producer = p := by
      rw [hl]
      exact node_of_around ha
    have husable : l.ProducerUsable := by
      intro hfull
      rw [hnode, hp] at hfull
      cases hfull
    exact iff_of_true (hinv.discards_partly ha hf hp hr hl) husable
  · have hfull : (l.node l._producer).status = .full := by
      rw [hl, node_consumer (by exact ha)]
      exact hx
    have hlog : l.log data = l := if_pos hfull
    unfold DiscardsFull Discards ProducerUsable
    rw [hlog]
    exact ⟨fun h _ => h rfl, fun h _ => h hfull⟩

/-- After a timed flush the second record is discarded while the producer rests on the full node, so that
both sides fail. -/
theorem discards_full_flushed : ∃ l : Logger nodeSize,
    Reach step always (setfilename 5 (by decide)) l ∧ l.Discards [66] ∧
      (l.DiscardsFull [66] ↔ l.ProducerUsable) ∧ ¬ l.ProducerUsable := by
  have hrun : Reach step always (setfilename 5 (by decide) : Logger nodeSize) _ :=
    Reach.of_foldlM (l := [.log [65], .dump, .dump, .dump]) (fun _ _ _ => trivial) rfl
  refine ⟨_, hrun, rfl, discards_full_iff hrun [66], fun h => ?_⟩
  have hfull := h rfl .empty (by decide)
  cases hfull

/-- After a timed flush the second record is discarded, with four nodes free. -/
theorem not_discards_full : ¬ ∀ l : Logger nodeSize,
    Reach step always (setfilename 5 (by decide)) l → ∀ data, data.length < nodeSize →
      l.DiscardsFull data := by
  intro h
  have hrun : Reach step always (setfilename 5 (by decide) : Logger nodeSize) _ :=
    Reach.of_foldlM (l := [.log [65], .dump, .dump, .dump]) (fun _ _ _ => trivial) rfl
  have hall := h _ hrun [66] (by decide) rfl .empty (by decide)
  cases hall

end Logger

end Netlib
