import Netlib.Spec.LogFile
import Netlib.Proof.HttpReply

/-!
# Log files are not destroyed

The name of a file ends in its index when the index fits (`logname_eq`), so names with different
indexes are different (`logname_inj`). Each roll takes the next index, so the file that it empties
is a new one (`Inv.roll`), and what `write` takes stays behind what was taken before
(`Inv.put`). This holds in every run of sound writes (`intact`).
-/

namespace Netlib

open Lib
open Function (update)

/-! ## Numbers as text -/

namespace HttpSvrSendMsg

theorem decimal_neg {z : ℤ} (h : z < 0) : decimal z = 45 :: decimal z.natAbs := by
  have hne : z ≠ 0 := by omega
  have hpos : 0 < z.natAbs := Int.natAbs_pos.mpr hne
  rw [decimal_pos hpos]
  unfold decimal
  rw [if_neg hne, if_pos h]
  rfl

theorem decimal_natCast_digits (n : ℕ) : ∀ x ∈ decimal n, 48 ≤ x ∧ x ≤ 57 := by
  rcases Nat.eq_zero_or_pos n with rfl | hpos
  · have hzero : decimal ((0 : ℕ) : ℤ) = [48] := rfl
    intro x hx
    rw [hzero, List.mem_singleton] at hx
    subst hx
    exact ⟨by decide, by decide⟩
  · exact decimal_digits hpos

/-- A number is written with digits and a minus. -/
theorem decimal_chars (z : ℤ) : ∀ x ∈ decimal z, x = 45 ∨ 48 ≤ x ∧ x ≤ 57 := by
  intro x hx
  rcases Int.lt_or_le z 0 with hneg | hpos
  · rw [decimal_neg hneg, List.mem_cons] at hx
    rcases hx with rfl | hx
    · exact .inl rfl
    · exact .inr (decimal_natCast_digits _ x hx)
  · obtain ⟨n, rfl⟩ := Int.eq_ofNat_of_zero_le hpos
    exact .inr (decimal_natCast_digits n x hx)

theorem value_decimal_natCast (n : ℕ) : HttpText.value (decimal n) = n := by
  rcases Nat.eq_zero_or_pos n with rfl | hpos
  · decide
  · exact value_decimal hpos

/-- A minus is no digit. -/
theorem decimal_ne_minus (n : ℕ) (l : List Byte) : decimal n ≠ 45 :: l := by
  intro heq
  have hdigit := decimal_natCast_digits n 45 (by rw [heq]; exact List.mem_cons_self)
  exact absurd hdigit.1 (by decide)

/-- **Different numbers have different texts.** -/
theorem decimal_inj {z z' : ℤ} (h : decimal z = decimal z') : z = z' := by
  rcases Int.lt_or_le z 0 with hz | hz <;> rcases Int.lt_or_le z' 0 with hz' | hz'
  · rw [decimal_neg hz, decimal_neg hz'] at h
    have habs := congrArg HttpText.value (List.tail_eq_of_cons_eq h)
    rw [value_decimal_natCast, value_decimal_natCast] at habs
    omega
  · obtain ⟨n, rfl⟩ := Int.eq_ofNat_of_zero_le hz'
    rw [decimal_neg hz] at h
    exact absurd h.symm (decimal_ne_minus n _)
  · obtain ⟨n, rfl⟩ := Int.eq_ofNat_of_zero_le hz
    rw [decimal_neg hz'] at h
    exact absurd h (decimal_ne_minus n _)
  · obtain ⟨n, rfl⟩ := Int.eq_ofNat_of_zero_le hz
    obtain ⟨n', rfl⟩ := Int.eq_ofNat_of_zero_le hz'
    have hvalue := congrArg HttpText.value h
    rwa [value_decimal_natCast, value_decimal_natCast, ← Int.ofNat_inj] at hvalue

end HttpSvrSendMsg

/-- An index of 32 bits is found in its text. -/
theorem indexText_inj {i j : ℕ} (hi : i < 2 ^ 32) (hj : j < 2 ^ 32)
    (h : indexText i = indexText j) : i = j := by
  have hint := BitVec.eq_of_toInt_eq (HttpSvrSendMsg.decimal_inj h)
  have hnat := congrArg BitVec.toNat hint
  simp only [BitVec.toNat_setWidth, BitVec.toNat_ofNat] at hnat
  omega

/-! ## Names -/

/-- What is behind the last occurrence of a byte. -/
theorem append_cons_inj {x : Byte} {a a' u u' : List Byte} (hu : x ∉ u) (hu' : x ∉ u')
    (h : a ++ x :: u = a' ++ x :: u') : u = u' := by
  have hlast : ∀ (a u : List Byte), x ∉ u →
      (a ++ x :: u).reverse.takeWhile (· != x) = u.reverse := by
    intro a u hx
    have hall : ∀ y ∈ u.reverse, (y != x) = true := by
      intro y hy
      rw [bne_iff_ne]
      rintro rfl
      exact hx (List.mem_reverse.mp hy)
    rw [List.reverse_append, List.reverse_cons, List.append_assoc,
      List.takeWhile_append_of_pos hall]
    simp
  have hrev := congrArg (fun l : List Byte => l.reverse.takeWhile (· != x)) h
  rw [hlast a u hu, hlast a' u' hu'] at hrev
  exact List.reverse_injective hrev

/-- What is before the first dot. -/
theorem append_prefix_inj {n n' : ℕ} {u u' : List Byte} (hu : 46 ∉ u) (hu' : 46 ∉ u')
    (h : u ++ (chars ['.', 'l', 'o', 'g']).take n = u' ++ (chars ['.', 'l', 'o', 'g']).take n') :
    u = u' := by
  have hfirst : ∀ (u : List Byte) (n : ℕ), 46 ∉ u →
      (u ++ (chars ['.', 'l', 'o', 'g']).take n).takeWhile (· != 46) = u := by
    intro u n hx
    have hall : ∀ y ∈ u, (y != 46) = true := by
      intro y hy
      rw [bne_iff_ne]
      rintro rfl
      exact hx hy
    have hdot : ((chars ['.', 'l', 'o', 'g']).take n).takeWhile (· != 46) = [] := by
      cases n with
      | zero => rfl
      | succ n => rfl
    rw [List.takeWhile_append_of_pos hall, hdot, List.append_nil]
  have hwhile := congrArg (List.takeWhile (· != 46)) h
  rwa [hfirst u n hu, hfirst u' n' hu'] at hwhile

theorem indexText_chars (logidx : ℕ) :
    ∀ x ∈ indexText logidx, x = 45 ∨ 48 ≤ x ∧ x ≤ 57 := HttpSvrSendMsg.decimal_chars _

namespace LogDir

variable {localtime : Localtime} {d d' : LogDir} {now now' : ℤ} {i j : ℕ}

theorem logstem_eq (localtime : Localtime) (now : ℤ) (pid filename : List Byte) (withpid : Bool) :
    ∃ a, logstem localtime now pid filename withpid = a ++ [95] := by
  unfold logstem
  split
  · exact ⟨_, rfl⟩
  · exact ⟨_, rfl⟩

/-- A name whose index fits. -/
theorem logname_eq (h : d.IndexFits localtime now i) :
    ∃ a n, d.logname localtime now i =
      a ++ 95 :: (indexText i ++ (chars ['.', 'l', 'o', 'g']).take n) := by
  obtain ⟨a, ha⟩ := logstem_eq localtime now d._pid d._filename d._withpid
  obtain ⟨-, hlen⟩ := h
  refine ⟨a, 99 - (a ++ [95] ++ indexText i).length, ?_⟩
  rw [ha] at hlen
  unfold logname _logname_
  rw [ha, List.take_append, List.take_of_length_le hlen]
  simp

/-- **Different indexes have different names**, whatever the times. -/
theorem logname_inj (hi : d.IndexFits localtime now i) (hj : d.IndexFits localtime now' j)
    (h : d.logname localtime now i = d.logname localtime now' j) : i = j := by
  obtain ⟨a, n, ha⟩ := logname_eq hi
  obtain ⟨a', n', ha'⟩ := logname_eq hj
  have hline : ∀ (k n : ℕ), 95 ∉ indexText k ++ (chars ['.', 'l', 'o', 'g']).take n := by
    intro k n hmem
    rcases List.mem_append.mp hmem with hk | hlog
    · rcases indexText_chars k 95 hk with h | h
      · exact absurd h (by decide)
      · exact absurd h.2 (by decide)
    · exact absurd (List.mem_of_mem_take hlog) (by decide)
  have hdot : ∀ k, 46 ∉ indexText k := by
    intro k hmem
    rcases indexText_chars k 46 hmem with h | h
    · exact absurd h (by decide)
    · exact absurd h.1 (by decide)
  rw [ha, ha'] at h
  have htail := append_cons_inj (hline i n) (hline j n') h
  exact indexText_inj hi.1 hj.1 (append_prefix_inj (hdot i) (hdot j) htail)

/-! ## The invariant -/

/-- Each file that was opened has an index that fits, up to the current one. -/
structure Inv (localtime : Localtime) (d : LogDir) : Prop where
  intact : d.Intact
  lt : d._logidx < 2 ^ 32
  names : ∀ name ∈ d.opened, ∃ now logidx, logidx ≤ d._logidx ∧
    d.IndexFits localtime now logidx ∧ name = d.logname localtime now logidx
  file : ∀ name, d._file = some name → name ∈ d.opened

/-- The parts of a log that are never set again. -/
structure Same (d d' : LogDir) : Prop where
  filename : d'._filename = d._filename
  pid : d'._pid = d._pid
  withpid : d'._withpid = d._withpid
  rollsize : d'._rollsize = d._rollsize

theorem Same.logname (h : Same d d') (now : ℤ) (i : ℕ) :
    d'.logname localtime now i = d.logname localtime now i := by
  unfold LogDir.logname
  rw [h.filename, h.pid, h.withpid]

theorem Same.indexFits (h : Same d d') (now : ℤ) (i : ℕ) :
    d'.IndexFits localtime now i ↔ d.IndexFits localtime now i := by
  unfold IndexFits
  rw [h.filename, h.pid, h.withpid]

/-- Nothing was taken by a file that was not opened. -/
theorem Intact.takenBy_of_notMem (h : d.Intact) {name : List Byte} (hno : name ∉ d.opened) :
    d.takenBy name = [] := by
  have hnone : (d.accepted.filter fun p => p.1 = name) = [] := by
    rw [List.filter_eq_nil_iff]
    intro p hp
    rw [decide_eq_true_eq]
    rintro rfl
    exact hno (h.current p hp)
  rw [takenBy, hnone]
  rfl

theorem Inv.congr (h : Inv localtime d) (hs : Same d d') (hi : d'._logidx = d._logidx)
    (hf : d'._file = d._file) (hfiles : d'.files = d.files) (ho : d'.opened = d.opened)
    (ha : d'.accepted = d.accepted) : Inv localtime d' := by
  refine ⟨⟨?_, ?_, ?_⟩, ?_, ?_, ?_⟩
  · rw [ho]
    exact h.intact.distinct
  · rw [ho, ha]
    exact h.intact.current
  · unfold takenBy
    rw [ho, hfiles, ha]
    exact h.intact.stays
  · rw [hi]
    exact h.lt
  · rw [ho, hi]
    simp only [hs.logname, hs.indexFits]
    exact h.names
  · rw [hf, ho]
    exact h.file

/-- **A roll opens a new file.** -/
theorem Inv.roll (h : Inv localtime d) (hfits : d.IndexFits localtime now (d._logidx + 1))
    (fopen : List Byte → Bool) : Inv localtime (d._roll_file localtime false now fopen) := by
  have hidx : u64 (d._logidx + 1) = d._logidx + 1 := by
    have hlt := hfits.1
    unfold u64
    omega
  have hnames : ∀ name ∈ d.opened, ∃ t k, k ≤ d._logidx + 1 ∧
      d.IndexFits localtime t k ∧ name = d.logname localtime t k := by
    intro name hname
    obtain ⟨t, k, hk, hrest⟩ := h.names name hname
    exact ⟨t, k, Nat.le_succ_of_le hk, hrest⟩
  have hfresh : d.logname localtime now (d._logidx + 1) ∉ d.opened := by
    intro hmem
    obtain ⟨t, k, hk, hfit, heq⟩ := h.names _ hmem
    have hsame := logname_inj hfits hfit heq
    omega
  unfold _roll_file
  dsimp only
  rw [if_neg Bool.false_ne_true, hidx]
  split
  · refine ⟨⟨?_, ?_, ?_⟩, hfits.1, ?_, ?_⟩
    · rw [List.nodup_append]
      refine ⟨h.intact.distinct, List.nodup_singleton _, ?_⟩
      rintro a ha b hb rfl
      exact hfresh (List.mem_singleton.mp hb ▸ ha)
    · intro p hp
      exact List.mem_append_left _ (h.intact.current p hp)
    · intro name hname
      by_cases heq : name = d.logname localtime now (d._logidx + 1)
      · subst heq
        exact (Function.update_self ..).trans (h.intact.takenBy_of_notMem hfresh).symm
      · rcases List.mem_append.mp hname with hold | hnew
        · exact (Function.update_of_ne heq ..).trans (h.intact.stays name hold)
        · exact absurd (List.mem_singleton.mp hnew) heq
    · intro name hname
      rcases List.mem_append.mp hname with hold | hnew
      · exact hnames name hold
      · exact ⟨now, d._logidx + 1, Nat.le_refl _, hfits, List.mem_singleton.mp hnew⟩
    · intro name hname
      exact List.mem_append_right _ (List.mem_singleton.mpr (Option.some.inj hname).symm)
  · refine ⟨⟨h.intact.distinct, h.intact.current, h.intact.stays⟩, hfits.1, hnames, ?_⟩
    intro name hname
    cases hname

/-- What a roll does when the index does not wrap. -/
theorem roll_same (d : LogDir) (hlt : d._logidx + 1 < 2 ^ 32) (now : ℤ) (fopen : List Byte → Bool) :
    Same d (d._roll_file localtime false now fopen) ∧
      (d._roll_file localtime false now fopen)._logidx = d._logidx + 1 ∧
      (d._roll_file localtime false now fopen)._writesize = 0 ∧
      (fopen (d.logname localtime now (d._logidx + 1)) = true →
        (d._roll_file localtime false now fopen)._file.isSome) := by
  have hidx : u64 (d._logidx + 1) = d._logidx + 1 := by
    unfold u64
    omega
  unfold _roll_file
  dsimp only
  rw [if_neg Bool.false_ne_true, hidx]
  split
  · exact ⟨⟨rfl, rfl, rfl, rfl⟩, rfl, rfl, fun _ => rfl⟩
  · rename_i hno
    exact ⟨⟨rfl, rfl, rfl, rfl⟩, rfl, rfl, fun hopen => absurd hopen hno⟩

/-! ## `write` -/

theorem writeLoop_zero (data contents : List Byte) (fwrites : List ℕ) :
    writeLoop data contents 0 fwrites = (contents, 0) := by
  cases fwrites with
  | nil => rw [writeLoop, List.take_zero, List.append_nil]
  | cons wsize fwrites => rw [writeLoop, if_pos rfl]

/-- **The loop without a retry** writes the bytes that it counts. -/
theorem writeLoop_eq {data : List Byte} {fwrites : List ℕ} (h : NoRetry data.length fwrites)
    (contents : List Byte) :
    ∃ k ≤ data.length, writeLoop data contents data.length fwrites =
      (contents ++ data.take k, data.length - k) := by
  cases fwrites with
  | nil =>
    refine ⟨data.length, Nat.le_refl _, ?_⟩
    rw [writeLoop, Nat.sub_self]
  | cons wsize fwrites =>
    by_cases h0 : data.length = 0
    · refine ⟨0, Nat.zero_le _, ?_⟩
      rw [writeLoop, if_pos h0, List.take_zero, List.append_nil, Nat.sub_zero]
    by_cases hw : wsize = 0
    · refine ⟨0, Nat.zero_le _, ?_⟩
      rw [writeLoop, if_neg h0, if_pos hw, List.take_zero, List.append_nil, Nat.sub_zero]
    refine ⟨min wsize data.length, Nat.min_le_right .., ?_⟩
    rw [writeLoop, if_neg h0, if_neg hw]
    rcases h with h | hall | hstop
    · exact absurd h hw
    · rw [Nat.min_eq_right hall, Nat.sub_self, writeLoop_zero]
    · -- the next result is 0, which ends the loop
      obtain ⟨rest, rfl⟩ : ∃ rest, fwrites = 0 :: rest := by
        cases fwrites with
        | nil => cases hstop
        | cons w rest => exact ⟨rest, by rw [Option.some.inj hstop]⟩
      rw [writeLoop]
      split
      · rfl
      · rw [if_pos rfl]

/-- **What is taken stays behind what was taken before.** -/
theorem Inv.put (h : Inv localtime d) (hopen : d._file.isSome) {data : List Byte}
    {fwrites : List ℕ} (hw : NoRetry data.length fwrites) :
    ∃ r, d.put data fwrites = some r ∧ Inv localtime r.2 := by
  obtain ⟨name, hname⟩ := Option.isSome_iff_exists.mp hopen
  have hmem := h.file name hname
  obtain ⟨k, hk, hloop⟩ := writeLoop_eq hw (d.files name)
  have htaken : data.length - (data.length - k) = k := by omega
  have hold := h.intact.stays name hmem
  unfold LogDir.put
  rw [hname]
  dsimp only
  rw [hloop]
  dsimp only
  rw [htaken]
  refine ⟨_, rfl, ⟨h.intact.distinct, ?_, ?_⟩, h.lt, h.names, ?_⟩
  · intro p hp
    rcases List.mem_append.mp hp with hp | hp
    · exact h.intact.current p hp
    · obtain rfl := List.mem_singleton.mp hp
      exact hmem
  · intro other hother
    unfold takenBy
    dsimp only
    rw [List.filter_append, List.flatMap_append]
    by_cases heq : other = name
    · subst heq
      rw [Function.update_self, hold]
      simp [takenBy]
    · have hne : ¬ name = other := fun h => heq h.symm
      rw [Function.update_of_ne heq, h.intact.stays other hother]
      simp [takenBy, hne]
  · intro other hother
    exact h.file other (hname.trans hother)

/-- The first test of `write`, when the file that it may roll to is sound. -/
theorem Inv.dayRoll (h : Inv localtime d) (hopen : d._file.isSome) (now : ℤ)
    (fopen : List Byte → Bool)
    (hfits : d.dayChanged localtime now = true → d.IndexFits localtime now (d._logidx + 1) ∧
      fopen (d.logname localtime now (d._logidx + 1)) = true) :
    Inv localtime (d.dayRoll localtime now fopen) ∧
      Same d (d.dayRoll localtime now fopen) ∧
      (d.dayRoll localtime now fopen)._file.isSome ∧
      (d.dayRoll localtime now fopen)._logidx =
        d._logidx + (if d.dayChanged localtime now then 1 else 0) ∧
      (d.dayRoll localtime now fopen)._writesize =
        if d.dayChanged localtime now then 0 else d._writesize := by
  let d₁ : LogDir := { d with _lastctime := now }
  have hsame : Same d d₁ := ⟨rfl, rfl, rfl, rfl⟩
  have hinv : Inv localtime d₁ := h.congr hsame rfl rfl rfl rfl rfl
  unfold LogDir.dayRoll
  dsimp only
  cases hday : d.dayChanged localtime now with
  | true =>
    obtain ⟨hfit, hfopen⟩ := hfits hday
    obtain ⟨⟨hf, hp, hw, hr⟩, hidx, hsize, hfile⟩ := roll_same d₁ hfit.1 now fopen
    exact ⟨hinv.roll hfit fopen, ⟨hf, hp, hw, hr⟩, hfile hfopen, hidx, hsize⟩
  | false => exact ⟨hinv, hsame, hopen, rfl, rfl⟩

/-- The second test of `write`. -/
theorem Inv.sizeRoll (h : Inv localtime d) (hopen : d._file.isSome) (now : ℤ)
    (fopen : List Byte → Bool)
    (hfits : d._writesize ≥ d._rollsize → d.IndexFits localtime now (d._logidx + 1) ∧
      fopen (d.logname localtime now (d._logidx + 1)) = true) :
    Inv localtime (d.sizeRoll localtime now fopen) ∧
      (d.sizeRoll localtime now fopen)._file.isSome := by
  unfold LogDir.sizeRoll
  split
  · rename_i hfull
    obtain ⟨hfit, hfopen⟩ := hfits hfull
    obtain ⟨-, -, -, hfile⟩ := roll_same d hfit.1 now fopen
    exact ⟨h.roll hfit fopen, hfile hfopen⟩
  · exact ⟨h, hopen⟩

/-- **A sound write keeps the invariant.** -/
theorem Inv.step (h : Inv localtime d) {c : LogWrite} (hc : d.Sound localtime c) :
    ∃ d', d.step localtime c = some d' ∧ Inv localtime d' := by
  unfold LogDir.step write
  cases hfile : d._file with
  | none => exact ⟨d, rfl, h⟩
  | some name =>
    have hopen : d._file.isSome := by rw [hfile]; rfl
    obtain ⟨hrolls, hretry⟩ := hc hopen
    unfold rolls at hrolls
    obtain ⟨hinv, hsame, hopen₁, hidx, hsize⟩ := h.dayRoll hopen c.now c.fopen fun hday => by
      refine hrolls _ (Nat.lt_succ_self _) ?_
      rw [if_pos hday]
      split <;> omega
    obtain ⟨hinv₂, hopen₂⟩ := hinv.sizeRoll hopen₁ c.now c.fopen fun hfull => by
      rw [hsame.indexFits, hsame.logname, hidx]
      refine hrolls _ (by omega) ?_
      rw [hsize, hsame.rollsize] at hfull
      split at hfull
      · rename_i hday
        rw [if_pos hday, if_pos hday, if_pos hfull]
      · rename_i hday
        rw [if_neg hday, if_neg hday, if_pos hfull]
    obtain ⟨r, hput, hinv₃⟩ := hinv₂.put hopen₂ hretry
    refine ⟨r.2, ?_, hinv₃⟩
    dsimp only
    rw [hput]
    rfl

/-- A log that has just been opened. -/
theorem inv_new (localtime : Localtime) (filename : List Byte) (rollsize : ℕ) (withpid : Bool)
    (pid : BitVec 32) (files : List Byte → List Byte) (now : ℤ) (fopen : List Byte → Bool)
    (hfirst : (new localtime filename rollsize withpid pid files now fopen).IndexFits
      localtime now 1) :
    Inv localtime (new localtime filename rollsize withpid pid files now fopen) := by
  revert hfirst
  have hone : 1 < 2 ^ 32 := by decide
  unfold new _roll_file
  dsimp only
  rw [if_pos rfl]
  split
  · intro hfirst
    refine ⟨⟨List.nodup_singleton _, ?_, ?_⟩, hone, ?_, ?_⟩
    · intro p hp
      cases hp
    · intro name hname
      obtain rfl := List.mem_singleton.mp hname
      exact Function.update_self ..
    · intro name hname
      exact ⟨now, 1, Nat.le_refl _, hfirst, List.mem_singleton.mp hname⟩
    · intro name hname
      exact List.mem_singleton.mpr (Option.some.inj hname).symm
  · intro _
    refine ⟨⟨List.nodup_nil, ?_, ?_⟩, hone, ?_, ?_⟩
    · intro p hp
      cases hp
    · intro name hname
      cases hname
    · intro name hname
      cases hname
    · intro name hname
      cases hname

/-- **When rolling destroys nothing**: for every base name, roll size, process and directory, after
any sound writes at any times, no name has been opened twice, every byte that was taken is in the
file that was current, and the next sound write is defined. -/
theorem intact (localtime : Localtime) (filename : List Byte) (rollsize : ℕ) (withpid : Bool)
    (pid : BitVec 32) (files : List Byte → List Byte) (now : ℤ) (fopen : List Byte → Bool)
    (hfirst : (new localtime filename rollsize withpid pid files now fopen).IndexFits
      localtime now 1) (d : LogDir)
    (hrun : Reach (step localtime) (Sound localtime)
      (new localtime filename rollsize withpid pid files now fopen) d) :
    d.Intact ∧ ∀ c, d.Sound localtime c → ∃ d', d.step localtime c = some d' := by
  have hinv : Inv localtime d :=
    hrun.inv_of_defined (inv_new _ _ _ _ _ _ _ _ hfirst) fun _ _ hd hc => hd.step hc
  refine ⟨hinv.intact, fun c hc => ?_⟩
  obtain ⟨d', hd', -⟩ := hinv.step hc
  exact ⟨d', hd'⟩

/-- The first of January 2024. -/
def newYear : Localtime := fun _ => ⟨124, 0, 1⟩

/-- A write of one byte, where every call of the system does what it is asked for. -/
def oneByte : LogWrite := ⟨1, [120], fun _ => true, []⟩

/-- A log with a short name, which rolls at each write. -/
def short : LogDir := new newYear [97] 0 false 1 (fun _ => []) 1 fun _ => true

/-- One roll of a log with a short name. -/
theorem intact_short : ∃ d, short.step newYear oneByte = some d ∧ d.Intact := by
  have hfirst : short.IndexFits newYear 1 1 := ⟨by decide, by decide⟩
  have hsound : short.Sound newYear oneByte := by
    intro _
    refine ⟨?_, trivial⟩
    intro i hlo hhi
    have hidx : short._logidx = 1 := rfl
    have hrolls : short.rolls newYear oneByte.now = 1 := rfl
    obtain rfl : i = 2 := by omega
    exact ⟨⟨by decide, by decide⟩, rfl⟩
  obtain ⟨d, hd⟩ := (intact newYear [97] 0 false 1 (fun _ => []) 1 (fun _ => true) hfirst short
    .refl).2 oneByte hsound
  have hrun : Reach (step newYear) (Sound newYear) short d := .single hsound hd
  exact ⟨d, hd, (intact newYear [97] 0 false 1 (fun _ => []) 1 (fun _ => true) hfirst d hrun).1⟩

/-- A name of 100 bytes: every file has the first 99 of them for its name, and each roll empties
the file before. -/
theorem not_intact : ¬ ∀ (localtime : Localtime) (filename : List Byte) (rollsize : ℕ)
    (withpid : Bool) (pid : BitVec 32) (files : List Byte → List Byte) (now : ℤ)
    (fopen : List Byte → Bool) (d : LogDir),
    Reach (step localtime) always (new localtime filename rollsize withpid pid files now fopen) d →
      d.Intact := by
  intro hall
  let filename : List Byte := .replicate 100 97
  let log := new newYear filename 0 false 1 (fun _ => []) 1 fun _ => true
  have hrun : (log.step newYear oneByte).map (·.opened) =
      some [filename.take 99, filename.take 99] := by decide +kernel
  obtain ⟨d, hd, hopened⟩ := Option.map_eq_some_iff.mp hrun
  have hdistinct := (hall _ _ _ _ _ _ _ _ d (.single trivial hd)).distinct
  rw [hopened] at hdistinct
  simp at hdistinct
end LogDir

end Netlib
