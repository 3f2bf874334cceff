import Netlib.Proof.LogFile
import Netlib.Proof.Logger
import Netlib.Spec.LogWorld

/-!
# Every accepted record comes whole to one file

A node of the ring holds whole records, since `log` appends a record to one node only: what has been
written and then any number of nodes ends behind a record (`Logger.Cut`, kept by `Cut.step`). The
file that is open is the last one that was opened, `_writesize` is its length, and a write goes to
its end, or to the end of one that was opened empty (`Rolled.write`). So each pass of the dump
thread appends whole records to the last file (`Kept.step`), and the files and then the ring are
what was accepted (`persists`).

The day is tested once in a second. That is enough: the file has the date of the last test, and two
writes in the same second are on the same day (`Dating.step`, `dated`).
-/

namespace Netlib

open Lib
open Function (update)

/-! ## Nodes hold whole records -/

namespace Logger

variable {SIZE : ℕ} {l l' : Logger SIZE}

/-- The bytes of the nodes that are still to be written. -/
def datas (l : Logger SIZE) : List (List Byte) := l.todo.map fun n => n.buffer.data

theorem contents_eq (nodes : List (BufferNode SIZE)) :
    contents nodes = (nodes.map fun n => n.buffer.data).flatten := List.flatMap_def ..

theorem Inv.ordered_datas (h : l.Inv) : l.written ++ l.datas.flatten = cut SIZE l.accepted := by
  rw [datas, ← contents_eq]
  exact h.ordered

/-- What has been written and then some of the nodes ends behind a record. -/
def Cut (l : Logger SIZE) : Prop :=
  ∀ m, ∃ k ≤ l.accepted.length,
    l.written ++ (l.datas.take m).flatten = cut SIZE (l.accepted.take k)

theorem Cut.congr (h : l.Cut) (hw : l'.written = l.written) (ha : l'.accepted = l.accepted)
    (hd : ∀ m, (l'.datas.take m).flatten = (l.datas.take m).flatten) : l'.Cut := by
  intro m
  rw [hw, ha, hd m]
  exact h m

/-- A change of the status of a node changes no bytes. -/
theorem around_fill (i c : ℕ) : ((l.fill i)._circular.around c).map (fun n => n.buffer.data) =
    (l._circular.around c).map fun n => n.buffer.data := by
  have hi : i % l._circular.size < (l._circular.cells.map fun n => n.buffer.data).length := by
    rw [List.length_map]
    exact Nat.mod_lt _ l._circular.size_pos
  have hget : (l._circular.cells.map fun n => n.buffer.data)[i % l._circular.size] =
      (l.node i).buffer.data := List.getElem_map ..
  unfold fill Circular.around Circular.set
  dsimp only
  rw [List.map_rotate, List.map_rotate, List.map_set, ← hget, List.set_getElem_self]

theorem datas_fill (i : ℕ) : (l.fill i).datas = l.datas := by
  unfold datas todo
  rw [List.map_drop, List.map_drop]
  exact congrArg _ (around_fill i l._consumer)

/-- **A record that is appended to a node** is behind all that is before, and nothing is behind it. -/
theorem Cut.append (h : l.Cut) (hi : l.Inv) {data : List Byte} (hi' : (l.append data).Inv)
    {fulls rest : List (BufferNode SIZE)} {p : BufferNode SIZE}
    (ha : l._circular.around l._consumer = fulls ++ p :: rest) (hp : p.status = .free)
    (hr : ∀ x ∈ rest, x = .empty)
    (hl : l._producer = (l._consumer + fulls.length) % l._circular.size) : (l.append data).Cut := by
  have hnode : l.node l._producer = p := by
    rw [hl]
    exact node_of_around ha
  have ha' : (l.append data)._circular.around l._consumer =
      fulls ++ { p with buffer := p.buffer.append data } :: rest := by
    unfold Logger.append
    dsimp only
    rw [hnode, hl, Circular.set_mod]
    exact Circular.set_of_around ha _
  have hd := hi.drop ha hp
  -- the nodes before the producer, those behind it being empty
  obtain ⟨front, hfront⟩ : ∃ front, front =
      (fulls.drop (if l.dumpAt = .written then 1 else 0)).map fun n => n.buffer.data := ⟨_, rfl⟩
  have hempty : ∀ x ∈ rest.map fun n : BufferNode SIZE => n.buffer.data, x = [] := by
    intro x hx
    obtain ⟨y, hy, rfl⟩ := List.mem_map.mp hx
    rw [hr y hy]
    rfl
  have hold : l.datas = front ++ p.buffer.data :: rest.map fun n => n.buffer.data := by
    unfold datas todo
    rw [ha, List.drop_append_of_le_length hd, List.map_append, hfront]
    rfl
  have hnew : (l.append data).datas =
      front ++ (p.buffer.append data).data :: rest.map fun n => n.buffer.data := by
    unfold datas todo
    rw [show (l.append data)._circular.around (l.append data)._consumer = _ from ha',
      show (l.append data).dumpAt = l.dumpAt from rfl, List.drop_append_of_le_length hd,
      List.map_append, hfront]
    rfl
  have hrecords : (l.append data).accepted = l.accepted ++ [data] := rfl
  intro m
  by_cases hm : m ≤ front.length
  · -- nothing of the producer's node
    obtain ⟨k, hk, hcut⟩ := h m
    refine ⟨k, ?_, ?_⟩
    · rw [hrecords, List.length_append]
      omega
    · rw [hrecords, List.take_append_of_le_length hk, ← hcut, hold, hnew,
        List.take_append_of_le_length hm, List.take_append_of_le_length hm]
      rfl
  · -- all bytes
    refine ⟨(l.append data).accepted.length, Nat.le_refl _, ?_⟩
    have hdrop : ((l.append data).datas.drop m).flatten = [] := by
      rw [List.flatten_eq_nil_iff]
      intro x hx
      obtain ⟨n, hn⟩ : ∃ n, m - front.length = n + 1 := ⟨m - front.length - 1, by omega⟩
      rw [hnew, List.drop_append, List.drop_of_length_le (by omega), List.nil_append, hn,
        List.drop_succ_cons] at hx
      exact hempty x (List.mem_of_mem_drop hx)
    have hall : ((l.append data).datas.take m).flatten = (l.append data).datas.flatten := by
      conv_rhs => rw [← List.take_append_drop m (l.append data).datas, List.flatten_append, hdrop,
        List.append_nil]
    rw [hall, List.take_length]
    exact hi'.ordered_datas

/-- The producer goes on to the next node. -/
theorem Cut.advance (h : l.Cut) : l.advance.Cut := by
  refine h.congr rfl rfl fun m => ?_
  have hdatas : l.advance.datas = l.datas := datas_fill (l := l) l._producer
  rw [hdatas]

theorem Cut.log (h : l.Cut) (hi : l.Inv) (data : List Byte) : (l.log data).Cut := by
  -- a node that is not full is the producer's of the shape
  have happend : ∀ l₁ : Logger SIZE, l₁.Cut → l₁.Inv → (l₁.append data).Inv →
      (l₁.node l₁._producer).status ≠ .full → (l₁.append data).Cut := by
    intro l₁ hcut hi₁ hi₂ hfree
    rcases hi₁.shape with ⟨fulls, rest, p, ha, -, hp, hr, hl⟩ | ⟨x, fulls, rest, ha, hx, -, -, hl⟩
    · exact hcut.append hi₁ hi₂ ha hp hr hl
    · rw [hl, node_consumer (by exact ha)] at hfree
      exact absurd hx hfree
  have hlog := hi.log data
  unfold Logger.log at hlog ⊢
  by_cases hfull : (l.node l._producer).status = .full
  · rw [if_pos hfull]
    exact h
  rw [if_neg hfull] at hlog ⊢
  by_cases hroom : (l.node l._producer).buffer.avail > data.length
  · rw [if_pos hroom] at hlog ⊢
    exact happend l h hi hlog hfull
  rw [if_neg hroom] at hlog ⊢
  dsimp only at hlog ⊢
  by_cases hnext : (l.advance.node l.advance._producer).status = .full
  · rw [if_pos hnext]
    exact h.advance
  rw [if_neg hnext] at hlog ⊢
  rcases hi.shape with ⟨fulls, rest, p, ha, hf, hp, hr, hl⟩ | ⟨x, fulls, rest, ha, hx, -, -, hl⟩
  · exact happend _ h.advance (hi.advance ha hf hp hr hl).1 hlog hnext
  · rw [hl, node_consumer (by exact ha)] at hfull
    exact absurd hx hfull

theorem Cut.dumpWrite (h : l.Cut) (hd : l.dumpAt = .writing) : l.dumpWrite.Cut := by
  have hcons := Circular.around_cons (r := l._circular) l._consumer
  have hold : l.datas = (l.node l._consumer).buffer.data :: l.dumpWrite.datas := by
    unfold datas
    rw [todo_eq (by rw [hd]; decide), todo_written rfl, hcons]
    rfl
  intro m
  obtain ⟨k, hk, hcut⟩ := h (m + 1)
  rw [hold, List.take_succ_cons, List.flatten_cons, ← List.append_assoc] at hcut
  exact ⟨k, hk, hcut⟩

theorem Cut.dumpNext (h : l.Cut) (hd : l.dumpAt = .written) : l.dumpNext.Cut := by
  have hnew : l.dumpNext.datas = l.datas ++ [[]] := by
    unfold datas
    rw [todo_eq (by exact DumpAt.noConfusion), todo_written hd, dumpNext_around, List.map_append]
    rfl
  refine h.congr rfl rfl fun m => ?_
  rw [hnew]
  rcases Nat.lt_or_ge l.datas.length m with hm | hm
  · rw [List.take_of_length_le (by rw [List.length_append]; exact hm),
      List.take_of_length_le (Nat.le_of_lt hm), List.flatten_append]
    exact List.append_nil _
  · rw [List.take_append_of_le_length hm]

/-- A step of the dump thread that writes nothing and frees no node. -/
theorem Cut.moved (h : l.Cut) (hd : l.dumpAt ≠ .written) (hd' : l'.dumpAt ≠ .written)
    (hw : l'.written = l.written) (ha : l'.accepted = l.accepted)
    (hring : (l'._circular.around l'._consumer).map (fun n => n.buffer.data) =
      (l._circular.around l._consumer).map fun n => n.buffer.data) : l'.Cut := by
  refine h.congr hw ha fun m => ?_
  unfold datas
  rw [todo_eq hd, todo_eq hd', hring]

theorem Cut.dump (h : l.Cut) (hs : l.dump = some l') : l'.Cut := by
  have hne : ∀ {d : DumpAt}, l.dumpAt = d → d ≠ .written → l.dumpAt ≠ .written := by
    rintro d rfl hd
    exact hd
  cases hd : l.dumpAt with
  | test =>
    obtain rfl := Option.some.inj ((dump_test hd).symm.trans hs)
    refine h.moved (hne hd (by decide)) ?_ rfl rfl rfl
    unfold dumpTest
    dsimp only
    split <;> decide
  | lock =>
    obtain rfl := Option.some.inj ((dump_lock hd).symm.trans hs)
    refine h.moved (hne hd (by decide)) ?_ rfl rfl rfl
    unfold dumpLock
    dsimp only
    split <;> decide
  | waiting =>
    obtain rfl := Option.some.inj ((dump_waiting hd).symm.trans hs)
    have hnw := hne hd (by decide)
    unfold dumpWake
    split
    · split
      · exact h.moved hnw (by exact DumpAt.noConfusion) rfl rfl (around_fill (l := l) _ _)
      · exact h.moved hnw (by exact DumpAt.noConfusion) rfl rfl rfl
    · exact h.moved hnw (by exact DumpAt.noConfusion) rfl rfl rfl
  | writing => exact Option.some.inj ((dump_writing hd).symm.trans hs) ▸ h.dumpWrite hd
  | written => exact Option.some.inj ((dump_written hd).symm.trans hs) ▸ h.dumpNext hd
  | returned =>
    rw [dump_returned hd] at hs
    cases hs

theorem setfilename_cut {n : ℕ} (hn : n ≠ 0) : (setfilename n hn : Logger SIZE).Cut := by
  have hdatas : ∀ x ∈ (setfilename n hn : Logger SIZE).datas, x = [] := by
    intro x hx
    obtain ⟨y, hy, rfl⟩ := List.mem_map.mp hx
    rw [todo_eq (by exact DumpAt.noConfusion)] at hy
    have ha : (setfilename n hn : Logger SIZE)._circular.around 0 = List.replicate n .empty :=
      Circular.around_replicate n _ hn 0
    have hy : y ∈ List.replicate n .empty := ha ▸ hy
    obtain rfl := List.eq_of_mem_replicate hy
    rfl
  intro m
  refine ⟨0, Nat.le_refl _, ?_⟩
  have hnil : ((setfilename n hn : Logger SIZE).datas.take m).flatten = [] := by
    rw [List.flatten_eq_nil_iff]
    exact fun x hx => hdatas x (List.mem_of_mem_take hx)
  rw [hnil]
  rfl

end Logger

/-! ## The files -/

namespace LogDir

variable {localtime : Localtime} {d d' : LogDir} {files : List Byte → List Byte}
  {logs : List (List Byte)} {rollsize limit : ℕ}

/-- The files that were opened hold `logs`, the last one is open, and `_writesize` is its length. -/
structure Rolled (files : List Byte → List Byte) (rollsize limit : ℕ) (d : LogDir)
    (logs : List (List Byte)) : Prop where
  logs_eq : d.opened.map d.files = logs
  last : d._file = d.opened.getLast?
  size : ∀ log ∈ logs.getLast?, d._writesize = log.length
  bounded : ∀ log ∈ logs, log.length ≤ limit
  others : ∀ name ∉ d.opened, d.files name = files name
  rollsize_eq : d._rollsize = rollsize

theorem Rolled.congr (h : Rolled files rollsize limit d logs) (ho : d'.opened = d.opened)
    (hfiles : d'.files = d.files) (hf : d'._file = d._file) (hw : d'._writesize = d._writesize)
    (hr : d'._rollsize = d._rollsize) :
    Rolled files rollsize limit d' logs :=
  ⟨by rw [ho, hfiles, h.logs_eq], by rw [hf, ho, h.last], by rw [hw]; exact h.size, h.bounded,
    by rw [ho, hfiles]; exact h.others, hr.trans h.rollsize_eq⟩

/-- The file that is rolled to has not been opened. -/
theorem Inv.logname_fresh (h : Inv localtime d) {now : ℤ}
    (hfits : d.IndexFits localtime now (d._logidx + 1)) :
    d.logname localtime now (d._logidx + 1) ∉ d.opened := by
  intro hmem
  obtain ⟨t, k, hk, hfit, heq⟩ := h.names _ hmem
  have hsame := logname_inj hfits hfit heq
  omega

/-- **A roll** opens an empty file behind the others. -/
theorem Rolled.roll (h : Rolled files rollsize limit d logs) (hi : Inv localtime d) {now : ℤ}
    {fopen : List Byte → Bool} (hfits : d.IndexFits localtime now (d._logidx + 1))
    (hopen : fopen (d.logname localtime now (d._logidx + 1)) = true) :
    Rolled files rollsize limit (d._roll_file localtime false now fopen) (logs ++ [[]]) := by
  have hfresh := hi.logname_fresh hfits
  have hidx : u64 (d._logidx + 1) = d._logidx + 1 := by
    have hlt := hfits.1
    unfold u64
    omega
  have hroll : d._roll_file localtime false now fopen = { d with
      _writesize := 0, _rolltime := now, _logidx := d._logidx + 1,
      _file := some (d.logname localtime now (d._logidx + 1)),
      files := update d.files (d.logname localtime now (d._logidx + 1)) [],
      opened := d.opened ++ [d.logname localtime now (d._logidx + 1)] } := by
    unfold _roll_file
    dsimp only
    rw [if_neg Bool.false_ne_true, hidx, if_pos hopen]
  rw [hroll]
  generalize d.logname localtime now (d._logidx + 1) = name at hfresh
  refine ⟨?_, ?_, ?_, ?_, ?_, h.rollsize_eq⟩
  · have hsame : d.opened.map (update d.files name []) = d.opened.map d.files :=
      (hi.intact.distinct.map_update ..).trans (if_neg hfresh)
    change (d.opened ++ [name]).map (update d.files name []) = _
    rw [List.map_append, hsame, h.logs_eq, List.map_singleton, Function.update_self]
  · exact List.getLast?_concat.symm
  · intro log hlog
    rw [List.getLast?_concat, Option.mem_some_iff] at hlog
    rw [← hlog]
    rfl
  · intro log hlog
    rcases List.mem_append.mp hlog with hlog | hlog
    · exact h.bounded log hlog
    · rw [List.mem_singleton.mp hlog]
      exact Nat.zero_le _
  · intro other hother
    rw [List.mem_append, not_or, List.mem_singleton] at hother
    exact (Function.update_of_ne hother.2 ..).trans (h.others other hother.1)

/-- **What is written goes to the end of the last file.** -/
theorem Rolled.put {log data : List Byte} (h : Rolled files rollsize limit d (logs ++ [log]))
    (hi : Inv localtime d) (hle : (log ++ data).length ≤ limit) (hlim : limit < 2 ^ 64) :
    ∃ d', d.put data [] = some (true, d') ∧ Rolled files rollsize limit d' (logs ++ [log ++ data]) := by
  -- the last file is the open one
  obtain ⟨name, hname⟩ : ∃ name, d.opened.getLast? = some name := by
    rw [← Option.isSome_iff_exists, List.getLast?_isSome]
    rintro hnil
    have hlogs := h.logs_eq
    rw [hnil] at hlogs
    exact List.append_ne_nil_of_right_ne_nil _ (List.cons_ne_nil _ _) hlogs.symm
  obtain ⟨front, hfront⟩ := List.getLast?_eq_some_iff.mp hname
  have hfile : d._file = some name := h.last.trans hname
  have hlogs := h.logs_eq
  rw [hfront, List.map_append, List.map_singleton] at hlogs
  obtain ⟨hmap, hlast⟩ := List.append_inj' hlogs rfl
  have hlast : d.files name = log := List.head_eq_of_cons_eq hlast
  have hdistinct := hi.intact.distinct
  rw [hfront, List.nodup_append] at hdistinct
  have hnew : name ∉ front := fun hmem =>
    hdistinct.2.2 name hmem name (List.mem_singleton_self name) rfl
  have hput : d.put data [] = some (true, { d with
      _writesize := u64 (d._writesize + data.length)
      files := update d.files name (log ++ data)
      accepted := d.accepted ++ [(name, data)] }) := by
    unfold LogDir.put
    rw [hfile]
    dsimp only
    rw [writeLoop, hlast, Nat.sub_zero, List.take_length]
    rfl
  refine ⟨_, hput, ?_, h.last, ?_, ?_, ?_, h.rollsize_eq⟩
  · have hsame : front.map (update d.files name (log ++ data)) = logs :=
      ((hdistinct.1.map_update ..).trans (if_neg hnew)).trans hmap
    change d.opened.map (update d.files name (log ++ data)) = _
    rw [hfront, List.map_append, hsame, List.map_singleton, Function.update_self]
  · intro log' hlog'
    rw [List.getLast?_concat, Option.mem_some_iff] at hlog'
    subst hlog'
    have hsize := h.size log (by rw [List.getLast?_concat]; rfl)
    change u64 (d._writesize + data.length) = _
    rw [hsize, ← List.length_append]
    unfold u64
    omega
  · intro log' hlog'
    rcases List.mem_append.mp hlog' with hlog' | hlog'
    · exact h.bounded log' (List.mem_append_left _ hlog')
    · rw [List.mem_singleton.mp hlog']
      exact hle
  · intro other hother
    have hne : other ≠ name := by
      rintro rfl
      exact hother (List.mem_of_getLast? hname)
    exact (Function.update_of_ne hne ..).trans (h.others other hother)

/-- A log whose first file could be opened. -/
theorem rolled_new {filename : List Byte} {withpid : Bool} {pid : BitVec 32} {now : ℤ}
    {fopen : List Byte → Bool}
    (hopen : (new localtime filename rollsize withpid pid files now fopen)._file.isSome) :
    Rolled files rollsize limit (new localtime filename rollsize withpid pid files now fopen)
      [[]] := by
  revert hopen
  unfold new _roll_file
  dsimp only
  rw [if_pos rfl]
  split
  · intro _
    refine ⟨congrArg (fun x => [x]) (Function.update_self ..), rfl, ?_, ?_, ?_, rfl⟩
    · intro log hlog
      obtain rfl := Option.some.inj hlog
      rfl
    · intro log hlog
      rw [List.mem_singleton.mp hlog]
      exact Nat.zero_le _
    · intro name hname
      exact Function.update_of_ne (List.ne_of_not_mem_cons hname) ..
  · intro hnone
    cases hnone

/-- The first test of `write` opens a file or none. -/
theorem Rolled.dayRoll (h : Rolled files rollsize limit d logs) (hi : Inv localtime d) {now : ℤ}
    {fopen : List Byte → Bool}
    (hfits : d.dayChanged localtime now = true → d.IndexFits localtime now (d._logidx + 1) ∧
      fopen (d.logname localtime now (d._logidx + 1)) = true) :
    ∃ k, Rolled files rollsize limit (d.dayRoll localtime now fopen) (logs ++ List.replicate k []) := by
  let d₁ : LogDir := { d with _lastctime := now }
  have h₁ : Rolled files rollsize limit d₁ logs := h.congr rfl rfl rfl rfl rfl
  have hi₁ : Inv localtime d₁ := hi.congr ⟨rfl, rfl, rfl, rfl⟩ rfl rfl rfl rfl rfl
  unfold LogDir.dayRoll
  dsimp only
  cases hday : d.dayChanged localtime now with
  | true =>
    obtain ⟨hfit, hopen⟩ := hfits hday
    exact ⟨1, h₁.roll hi₁ hfit hopen⟩
  | false =>
    refine ⟨0, ?_⟩
    rw [List.replicate_zero, List.append_nil]
    exact h₁

/-- The second test of `write`: the file that is written to is empty or below the roll size. -/
theorem Rolled.sizeRoll (h : Rolled files rollsize limit d logs) (hi : Inv localtime d)
    (hne : logs ≠ []) {now : ℤ} {fopen : List Byte → Bool}
    (hfits : d._writesize ≥ d._rollsize → d.IndexFits localtime now (d._logidx + 1) ∧
      fopen (d.logname localtime now (d._logidx + 1)) = true) :
    ∃ k front log, Rolled files rollsize limit (d.sizeRoll localtime now fopen) (front ++ [log]) ∧
      front ++ [log] = logs ++ List.replicate k [] ∧ log.length ≤ rollsize - 1 := by
  unfold LogDir.sizeRoll
  split
  · rename_i hfull
    obtain ⟨hfit, hopen⟩ := hfits hfull
    exact ⟨1, logs, [], h.roll hi hfit hopen, rfl, Nat.zero_le _⟩
  · rename_i hroom
    obtain ⟨front, log, rfl⟩ : ∃ front log, logs = front ++ [log] :=
      ⟨logs.dropLast, logs.getLast hne, (List.dropLast_append_getLast hne).symm⟩
    refine ⟨0, front, log, h, by rw [List.replicate_zero, List.append_nil], ?_⟩
    have hsize := h.size log (by rw [List.getLast?_concat]; rfl)
    have hroll := h.rollsize_eq
    omega

/-- **One write**: after files that are opened empty, all goes to the end of the last file. -/
theorem Rolled.write (h : Rolled files rollsize limit d logs) (hi : Inv localtime d) (hne : logs ≠ [])
    (hlim : limit < 2 ^ 64) {c : LogWrite} (hc : d.Sound localtime c) (hall : c.fwrites = [])
    (hle : rollsize - 1 + c.data.length ≤ limit) :
    ∃ d' k front log, d.step localtime c = some d' ∧ Inv localtime d' ∧
      Rolled files rollsize limit d' (front ++ [log ++ c.data]) ∧
      front ++ [log] = logs ++ List.replicate k [] := by
  have hopen : d._file.isSome := by
    rw [h.last, List.getLast?_isSome]
    rintro hnil
    have hlogs := h.logs_eq
    rw [hnil] at hlogs
    exact hne hlogs.symm
  obtain ⟨hrolls, hretry⟩ := hc hopen
  unfold rolls at hrolls
  have hday : d.dayChanged localtime c.now = true →
      d.IndexFits localtime c.now (d._logidx + 1) ∧
        c.fopen (d.logname localtime c.now (d._logidx + 1)) = true := by
    intro hday
    refine hrolls _ (Nat.lt_succ_self _) ?_
    rw [if_pos hday]
    split <;> omega
  obtain ⟨hinv, hsame, hopen₁, hidx, hsize⟩ := hi.dayRoll hopen c.now c.fopen hday
  obtain ⟨k₁, h₁⟩ := h.dayRoll hi hday
  have hfull : (d.dayRoll localtime c.now c.fopen)._writesize ≥
      (d.dayRoll localtime c.now c.fopen)._rollsize →
      (d.dayRoll localtime c.now c.fopen).IndexFits localtime c.now
        ((d.dayRoll localtime c.now c.fopen)._logidx + 1) ∧
      c.fopen ((d.dayRoll localtime c.now c.fopen).logname localtime c.now
        ((d.dayRoll localtime c.now c.fopen)._logidx + 1)) = true := by
    intro hfull
    rw [hsame.indexFits, hsame.logname, hidx]
    refine hrolls _ (by omega) ?_
    rw [hsize, hsame.rollsize] at hfull
    split at hfull
    · rename_i hday
      rw [if_pos hday, if_pos hday, if_pos hfull]
    · rename_i hday
      rw [if_neg hday, if_neg hday, if_pos hfull]
  obtain ⟨hinv₂, hopen₂⟩ := hinv.sizeRoll hopen₁ c.now c.fopen hfull
  obtain ⟨k₂, front, log, h₂, hlogs, hlen⟩ :=
    h₁.sizeRoll hinv (List.append_ne_nil_of_left_ne_nil hne _) hfull
  have hroom : (log ++ c.data).length ≤ limit := by
    rw [List.length_append]
    omega
  obtain ⟨d', hput, h₃⟩ := h₂.put hinv₂ hroom hlim
  have hnone : NoRetry c.data.length [] := trivial
  obtain ⟨r, hr, hinv₃⟩ := hinv₂.put hopen₂ hnone
  obtain rfl : r = (true, d') := Option.some.inj (hr.symm.trans hput)
  refine ⟨d', k₁ + k₂, front, log, ?_, hinv₃, h₃, ?_⟩
  · obtain ⟨name, hname⟩ := Option.isSome_iff_exists.mp hopen
    unfold LogDir.step LogDir.write
    rw [hname]
    dsimp only
    rw [hall, hput]
    rfl
  · rw [hlogs, List.append_assoc, ← List.replicate_add]

end LogDir

/-! ## Dates -/

namespace LogDir

variable {localtime : Localtime} {d d' : LogDir} {c : LogWrite}

/-- The open file has the date of the last roll, and the last test was on the same day. -/
structure Dating (localtime : Localtime) (d : LogDir) : Prop where
  name : ∀ name, d._file = some name → name = d.logname localtime d._rolltime d._logidx
  day : d._lastctime = 0 ∨ _issameday_ localtime d._rolltime d._lastctime = true

theorem issameday_refl (localtime : Localtime) (now : ℤ) : _issameday_ localtime now now = true := by
  simp [_issameday_]

/-- Names of the same day. -/
theorem logname_sameday {t now : ℤ} (h : _issameday_ localtime t now = true) (d : LogDir)
    (logidx : ℕ) : d.logname localtime t logidx = d.logname localtime now logidx := by
  unfold _issameday_ at h
  rw [Bool.and_eq_true, Bool.and_eq_true, beq_iff_eq, beq_iff_eq, beq_iff_eq] at h
  obtain ⟨⟨hyear, hmon⟩, hday⟩ := h
  have hdate : _getcurtime_ localtime t = _getcurtime_ localtime now := by
    simp only [_getcurtime_, hyear, hmon, hday]
  unfold logname _logname_ logstem
  rw [hdate]

theorem dating_new {filename : List Byte} {rollsize : ℕ} {withpid : Bool} {pid : BitVec 32}
    {files : List Byte → List Byte} {now : ℤ} {fopen : List Byte → Bool} :
    Dating localtime (new localtime filename rollsize withpid pid files now fopen) := by
  unfold new _roll_file
  dsimp only
  rw [if_pos rfl]
  split
  · exact ⟨fun name hname => (Option.some.inj hname).symm, .inl rfl⟩
  · exact ⟨fun name hname => (by cases hname), .inl rfl⟩

/-- After a roll the date is that of the roll. -/
theorem dating_roll {now : ℤ} (hlast : d._lastctime = now) (fopen : List Byte → Bool) :
    Dating localtime (d._roll_file localtime false now fopen) ∧
      (d._roll_file localtime false now fopen)._rolltime = now ∧
      (d._roll_file localtime false now fopen)._lastctime = now := by
  have hday : _issameday_ localtime now d._lastctime = true := by
    rw [hlast]
    exact issameday_refl localtime now
  unfold _roll_file
  dsimp only
  rw [if_neg Bool.false_ne_true]
  split
  · exact ⟨⟨fun name hname => (Option.some.inj hname).symm, .inr hday⟩, rfl, hlast⟩
  · exact ⟨⟨fun name hname => (by cases hname), .inr hday⟩, rfl, hlast⟩

/-- **The first test of `write`**: a second that has been tested before is on the day of the file. -/
theorem Dating.dayRoll (h : Dating localtime d) {now : ℤ} (hnow : now ≠ 0)
    (fopen : List Byte → Bool) :
    Dating localtime (d.dayRoll localtime now fopen) ∧
      _issameday_ localtime (d.dayRoll localtime now fopen)._rolltime now = true ∧
      (d.dayRoll localtime now fopen)._lastctime = now := by
  unfold LogDir.dayRoll
  dsimp only
  cases hday : d.dayChanged localtime now with
  | true =>
    obtain ⟨hdating, hroll, hlast⟩ := @dating_roll localtime { d with _lastctime := now } now rfl fopen
    refine ⟨hdating, ?_, hlast⟩
    rw [if_pos rfl, hroll]
    exact issameday_refl localtime now
  | false =>
    have hsame : _issameday_ localtime d._rolltime now = true := by
      unfold dayChanged at hday
      by_cases heq : now = d._lastctime
      · rw [heq]
        exact h.day.resolve_left (heq ▸ hnow)
      · simpa [heq] using hday
    exact ⟨⟨h.name, .inr hsame⟩, hsame, rfl⟩

/-- What `put` changes. -/
theorem put_keeps {data : List Byte} {fwrites : List ℕ} {r : Bool}
    (h : d.put data fwrites = some (r, d')) : ∃ size files accepted,
      d' = { d with _writesize := size, files := files, accepted := accepted } := by
  unfold LogDir.put at h
  cases hfile : d._file with
  | none =>
    rw [hfile] at h
    dsimp only at h
    split at h
    · obtain ⟨-, rfl⟩ := Prod.mk.inj (Option.some.inj h)
      exact ⟨d._writesize, d.files, d.accepted, by rw [← hfile]⟩
    · cases h
  | some name =>
    rw [hfile] at h
    obtain ⟨-, rfl⟩ := Prod.mk.inj (Option.some.inj h)
    exact ⟨_, _, _, by rw [← hfile]⟩

/-- **One write.** -/
theorem Dating.step (h : Dating localtime d) (hnow : c.now ≠ 0)
    (hs : d.step localtime c = some d') :
    Dating localtime d' ∧ ∀ name, d'._file = some name →
      ∃ logidx, name = d'.logname localtime c.now logidx := by
  cases hfile : d._file with
  | none =>
    obtain rfl : d' = d := by
      unfold LogDir.step LogDir.write at hs
      rw [hfile] at hs
      exact (Option.some.inj hs).symm
    refine ⟨h, fun name hname => ?_⟩
    rw [hfile] at hname
    cases hname
  | some name =>
    obtain ⟨hdating, hday, hlast⟩ := h.dayRoll hnow c.fopen
    -- a roll for the size is on the day too
    obtain ⟨hdating₂, hday₂⟩ : Dating localtime ((d.dayRoll localtime c.now c.fopen).sizeRoll
        localtime c.now c.fopen) ∧ _issameday_ localtime ((d.dayRoll localtime c.now c.fopen).sizeRoll
          localtime c.now c.fopen)._rolltime c.now = true := by
      unfold LogDir.sizeRoll
      split
      · obtain ⟨hroll, htime, -⟩ := @dating_roll localtime _ c.now hlast c.fopen
        exact ⟨hroll, by rw [htime]; exact issameday_refl localtime c.now⟩
      · exact ⟨hdating, hday⟩
    unfold LogDir.step LogDir.write at hs
    rw [hfile] at hs
    dsimp only at hs
    generalize (d.dayRoll localtime c.now c.fopen).sizeRoll localtime c.now c.fopen = d₂ at *
    obtain ⟨⟨r, d₃⟩, hput, rfl⟩ := Option.map_eq_some_iff.mp hs
    obtain ⟨size, files, accepted, rfl⟩ := put_keeps hput
    refine ⟨⟨hdating₂.name, hdating₂.day⟩, fun name hname => ⟨d₂._logidx, ?_⟩⟩
    rw [hdating₂.name name hname]
    exact logname_sameday hday₂ d₂ _

end LogDir

/-! ## The logger with its files -/

/-- Where a beginning of the records holds some bytes and more bytes end behind a record, these are
whole records too. -/
theorem records_next {α : Type*} {records g : List (List α)} {data : List α} {k : ℕ}
    (hg : g <+: records) (hk : g.flatten ++ data = (records.take k).flatten) :
    ∃ new, new.flatten = data ∧ g ++ new <+: records := by
  obtain ⟨rest, rfl⟩ := hg
  rcases Nat.lt_or_ge k g.length with hlt | hge
  · -- `data` is empty
    have hlen := congrArg List.length hk
    have hsplit : g.flatten = (g.take k).flatten ++ (g.drop k).flatten := by
      rw [← List.flatten_append, List.take_append_drop]
    rw [List.take_append_of_le_length (Nat.le_of_lt hlt), List.length_append, hsplit,
      List.length_append] at hlen
    have hnil : data = [] := List.length_eq_zero_iff.mp (by omega)
    exact ⟨[], hnil.symm, by rw [List.append_nil]; exact List.prefix_append g rest⟩
  · obtain ⟨m, rfl⟩ := Nat.exists_eq_add_of_le hge
    rw [List.take_length_add_append, List.flatten_append, List.append_cancel_left_eq] at hk
    exact ⟨rest.take m, hk.symm, by
      rw [List.prefix_append_right_inj]
      exact List.take_prefix m rest⟩

namespace Logger

variable {SIZE : ℕ} {l l' : Logger SIZE}

theorem log_written (l : Logger SIZE) (data : List Byte) : (l.log data).written = l.written := by
  unfold log
  split
  · rfl
  split
  · rfl
  dsimp only
  split
  · rfl
  · rfl

/-- Only the pass over a node writes. -/
theorem dump_written_eq (hs : l.dump = some l') (hd : l.dumpAt ≠ .writing) :
    l'.written = l.written := by
  unfold dump at hs
  split at hs
  · exact Option.some.inj hs ▸ rfl
  · exact Option.some.inj hs ▸ rfl
  · obtain rfl := Option.some.inj hs
    unfold dumpWake
    split
    · split <;> rfl
    · rfl
  · rename_i hw
    exact absurd hw hd
  · exact Option.some.inj hs ▸ rfl
  · cases hs

end Logger

namespace LogWorld

variable {SIZE : ℕ} {localtime : Localtime} {files : List Byte → List Byte} {rollsize : ℕ}
  {w w' : LogWorld SIZE}

/-- The files are made of whole records, and hold what has been written. -/
structure Inv (localtime : Localtime) (files : List Byte → List Byte) (rollsize : ℕ)
    (w : LogWorld SIZE) : Prop where
  logger : w.logger.Inv
  cut : w.logger.Cut
  file : LogDir.Inv localtime w.file
  dating : LogDir.Dating localtime w.file
  groups : ∃ groups : List (List (List Byte)), groups ≠ [] ∧
    LogDir.Rolled files rollsize (rollsize - 1 + SIZE) w.file (groups.map List.flatten) ∧
    groups.flatten <+: w.records ∧ groups.flatten.flatten = w.logger.written

/-- A step that leaves the files. -/
theorem Inv.logs_only (h : Inv localtime files rollsize w) {l : Logger SIZE} (hl : l.Inv)
    (hcut : l.Cut) (ha : w.logger.accepted <+: l.accepted) (hw : l.written = w.logger.written) :
    Inv localtime files rollsize { w with logger := l } := by
  obtain ⟨groups, hne, hroll, hrecords, hwritten⟩ := h.groups
  refine ⟨hl, hcut, h.file, h.dating, groups, hne, hroll, ?_, hwritten.trans hw.symm⟩
  exact hrecords.trans (List.IsPrefix.map _ ha)

/-- **A pass of the dump thread** puts whole records behind those of the last file. -/
theorem Inv.write (h : Inv localtime files rollsize w) (hsize : rollsize + SIZE < 2 ^ 64)
    {sys : LogSystem} (hd : w.logger.dumpAt = .writing)
    (hc : w.Undisturbed localtime (.dump sys)) :
    ∃ file, w.file.step localtime (w.call sys) = some file ∧
      Inv localtime files rollsize ⟨w.logger.dumpWrite, file⟩ := by
  obtain ⟨groups, hne, hroll, hrecords, hwritten⟩ := h.groups
  obtain ⟨hsound, hall, hnow⟩ := hc hd
  have hle := (w.logger.node w.logger._consumer).buffer.le
  obtain ⟨file, k, front, log, hstep, hfile, hroll', hlogs⟩ := hroll.write h.file
    (by simpa using hne) (by omega) hsound hall (Nat.add_le_add_left hle _)
  refine ⟨file, hstep, h.logger.dumpWrite hd, h.cut.dumpWrite hd, hfile,
    (h.dating.step hnow hstep).1, ?_⟩
  -- the last group, which may have been opened empty
  obtain ⟨gs, g, hgs, rfl, rfl⟩ : ∃ gs g, groups ++ List.replicate k [] = gs ++ [g] ∧
      gs.map List.flatten = front ∧ g.flatten = log := by
    have hmap : (groups ++ List.replicate k []).map List.flatten = front ++ [log] := by
      rw [List.map_append, List.map_replicate, hlogs]
      rfl
    obtain ⟨gs, last, hsplit, hfront, hlast⟩ := List.map_eq_append_iff.mp hmap
    obtain ⟨g, rfl, hg⟩ := List.map_eq_singleton_iff.mp hlast
    exact ⟨gs, g, hsplit, hfront, hg⟩
  have hflat : (gs ++ [g]).flatten = groups.flatten := by
    rw [← hgs, List.flatten_append, List.flatten_eq_nil_iff.mpr
      fun x hx => List.eq_of_mem_replicate hx, List.append_nil]
  -- the node holds whole records
  obtain ⟨n, -, hcut⟩ := h.cut.dumpWrite hd 0
  have hnext : groups.flatten.flatten ++ (w.call sys).data = (w.records.take n).flatten := by
    rw [hwritten, records, ← List.map_take]
    exact (List.append_nil _).symm.trans hcut
  obtain ⟨new, hnew, hprefix⟩ := records_next hrecords hnext
  have hflat' : (gs ++ [g ++ new]).flatten = groups.flatten ++ new := by
    rw [← hflat]
    simp
  refine ⟨gs ++ [g ++ new], by simp, ?_, ?_, ?_⟩
  · rw [List.map_append, List.map_singleton, List.flatten_append, hnew]
    exact hroll'
  · rw [hflat']
    exact hprefix
  · rw [hflat', List.flatten_append, hwritten, hnew]
    rfl

theorem step_writing {sys : LogSystem} {file : LogDir} (hd : w.logger.dumpAt = .writing)
    (hfile : w.file.step localtime (w.call sys) = some file) :
    w.step localtime (.dump sys) = some ⟨w.logger.dumpWrite, file⟩ := by
  unfold LogWorld.step
  dsimp only
  rw [if_pos hd, hfile, Logger.dump_writing hd]
  rfl

/-- **One step.** The sizes of the files are in the range of `_writesize`. -/
theorem Inv.step (h : Inv localtime files rollsize w) (hsize : rollsize + SIZE < 2 ^ 64)
    {a : LogWorldAction} (hc : w.Undisturbed localtime a) (hs : w.step localtime a = some w') :
    Inv localtime files rollsize w' := by
  cases a with
  | log data =>
    obtain rfl := Option.some.inj hs
    refine h.logs_only (h.logger.log data) (h.cut.log h.logger data) ?_ (Logger.log_written _ _)
    rcases Logger.log_accepted w.logger data with ha | ha
    · rw [ha]
    · rw [ha]
      exact List.prefix_append _ _
  | stop =>
    obtain rfl := Option.some.inj hs
    exact h.logs_only h.logger.stop (h.cut.congr rfl rfl fun _ => rfl) (List.prefix_refl _) rfl
  | dump sys =>
    by_cases hd : w.logger.dumpAt = .writing
    · obtain ⟨file, hfile, hinv⟩ := h.write hsize hd hc
      exact Option.some.inj (hs.symm.trans (step_writing hd hfile)) ▸ hinv
    · obtain ⟨l, hl, rfl⟩ := Option.map_eq_some_iff.mp ((if_neg hd).symm.trans hs)
      refine h.logs_only (h.logger.dump hl) (h.cut.dump hl) ?_ (Logger.dump_written_eq hl hd)
      rw [Logger.dump_accepted hl]

theorem setfilename_inv {n : ℕ} (hn : n ≠ 0) (filename : List Byte) (withpid : Bool)
    (pid : BitVec 32) (now : ℤ) (fopen : List Byte → Bool)
    (hfirst : (LogDir.new localtime filename rollsize withpid pid files now fopen).IndexFits
      localtime now 1)
    (hopen : (LogDir.new localtime filename rollsize withpid pid files now fopen)._file.isSome) :
    Inv localtime files rollsize
      (setfilename localtime n hn filename rollsize withpid pid files now fopen : LogWorld SIZE) := by
  refine ⟨Logger.setfilename_inv hn, Logger.setfilename_cut hn,
    LogDir.inv_new _ _ _ _ _ _ _ _ hfirst, LogDir.dating_new, [[]], List.cons_ne_nil _ _, ?_,
    List.nil_prefix, rfl⟩
  exact LogDir.rolled_new hopen

end LogWorld

end Netlib
