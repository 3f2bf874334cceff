import Netlib.Spec.HdrHelper
import Netlib.Proof.Buffer
import Mathlib.Tactic.Common

/-!
# Checksums

`CheckSum` is the Internet checksum (`checkSum_correct`): the loop adds the words without
overflow (`accumulate_eq`), and two foldings leave the one's-complement sum (`foldSum_eq`). A
checksum that is stored through the setter has its bytes swapped, so a message verifies only
when both are equal, which is when 257 divides the sum of the other words (`verifies_iff`).
-/

namespace Netlib

open Lib

/-! ## Words in memory -/

theorem ofLe16_lt (a b : Byte) : ofLe16 [a, b] < 2 ^ 16 := by
  have ha := a.toNat_lt
  have hb := b.toNat_lt
  change a.toNat + 2 ^ 8 * b.toNat < 2 ^ 16
  omega

theorem ofLe16_le16 {n : ℕ} (h : n < 2 ^ 16) : ofLe16 (le16 n) = n := by
  simp only [le16, ofLe16, UInt8.toNat_ofNat']
  omega

/-- `htons` swaps the two bytes. -/
theorem htons_eq (n : ℕ) : htons n = n / 256 % 256 + 256 * (n % 256) := by
  simp only [htons, le16, List.reverse_cons, List.reverse_nil, List.nil_append, List.singleton_append,
    ofLe16, UInt8.toNat_ofNat', Nat.reducePow]

theorem htons_lt (n : ℕ) : htons n < 2 ^ 16 := by
  rw [htons_eq]
  omega

theorem htons_word {lo hi : ℕ} (hlo : lo < 256) (hhi : hi < 256) :
    htons (lo + 256 * hi) = hi + 256 * lo := by
  rw [htons_eq]
  omega

theorem exists_bytes {n : ℕ} (h : n < 2 ^ 16) : ∃ lo hi, lo < 256 ∧ hi < 256 ∧ n = lo + 256 * hi :=
  ⟨n % 256, n / 256, by omega, by omega, by omega⟩

theorem ntohs_htons {n : ℕ} (h : n < 2 ^ 16) : ntohs (htons n) = n := by
  obtain ⟨lo, hi, hlo, hhi, rfl⟩ := exists_bytes h
  change htons (htons (lo + 256 * hi)) = lo + 256 * hi
  rw [htons_word hlo hhi, htons_word hhi hlo]

/-- The bytes of a word are equal when 257 divides it. -/
theorem htons_eq_self_iff {n : ℕ} (h : n < 2 ^ 16) : htons n = n ↔ 257 ∣ n := by
  obtain ⟨lo, hi, hlo, hhi, rfl⟩ := exists_bytes h
  rw [htons_word hlo hhi]
  omega

namespace HdrHelper

/-! ## `CheckSum` -/

theorem leWords_lt (bs : List Byte) : ∀ x ∈ leWords bs, x < 2 ^ 16 := by
  induction bs using leWords.induct with
  | case1 a b bs ih =>
    intro x hx
    rcases List.mem_cons.mp hx with rfl | hx
    · exact ofLe16_lt a b
    · exact ih x hx
  | case2 a =>
    intro x hx
    obtain rfl := List.mem_singleton.mp hx
    exact ofLe16_lt a 0
  | case3 => exact fun x hx => absurd hx List.not_mem_nil

/-- A sum of words has at most 15 bits for each of them beyond the first 16. -/
theorem leWords_sum_le (bs : List Byte) :
    2 * (leWords bs).sum ≤ (2 ^ 16 - 1) * (bs.length + 1) := by
  induction bs using leWords.induct with
  | case1 a b bs ih =>
    have hlt := ofLe16_lt a b
    rw [leWords, List.sum_cons, List.length_cons, List.length_cons]
    omega
  | case2 a =>
    have hlt := ofLe16_lt a 0
    rw [leWords, List.sum_singleton, List.length_singleton]
    omega
  | case3 => exact Nat.zero_le _

/-- **The loop**, from any point on: with the odd byte it adds the words that are left. -/
theorem checkSumLoop_eq (bs : List Byte) (s : ℕ) (h : s + (leWords bs).sum < 2 ^ 32) :
    (match checkSumLoop bs bs.length s with
      | (pW, liLeft, liSum) => if liLeft = 1 then u32 (liSum + ofLe16 [pW.headD 0, 0]) else liSum) =
      s + (leWords bs).sum := by
  induction bs using leWords.induct generalizing s with
  | case1 a b bs ih =>
    rw [leWords, List.sum_cons] at h ⊢
    have hlen : ((a :: b :: bs).length : ℤ) - 2 = bs.length := by
      rw [List.length_cons, List.length_cons]
      omega
    have hgt : ((a :: b :: bs).length : ℤ) > 1 := by
      rw [List.length_cons, List.length_cons]
      omega
    rw [checkSumLoop, if_pos hgt, hlen, u32_of_lt (by omega), ih _ (by omega), Nat.add_assoc]
  | case2 a =>
    rw [leWords, List.sum_singleton] at h ⊢
    exact u32_of_lt h
  | case3 => rfl

/-- **The accumulator does not overflow.** -/
theorem accumulate_eq {bs : List Byte} (h : bs.length ≤ 65535) :
    accumulate bs bs.length = (leWords bs).sum := by
  have hle := leWords_sum_le bs
  have hloop := checkSumLoop_eq bs 0 (by omega)
  rwa [Nat.zero_add] at hloop

/-- **Two foldings leave the sum in the low 16 bits.** -/
theorem foldSum_eq {n : ℕ} (h : n < 2 ^ 32) :
    foldSum n % 2 ^ 16 = OnesComplement.rep (2 ^ 16 - 1) n := by
  have hlow := Nat.mod_lt n (Nat.two_pow_pos 16)
  have hhigh : n / 2 ^ 16 < 2 ^ 16 := by
    omega
  have hand : n &&& 0xffff = n % 2 ^ 16 := Nat.and_two_pow_sub_one_eq_mod n 16
  have hfold : n / 2 ^ 16 + (n &&& 0xffff) = OnesComplement.fold (2 ^ 16 - 1) n := by
    rw [hand]
    rfl
  have hlt : OnesComplement.fold (2 ^ 16 - 1) n < 2 ^ 17 := by
    unfold OnesComplement.fold
    omega
  have hcarry : OnesComplement.fold (2 ^ 16 - 1) n / 2 ^ 16 < 2 := by
    omega
  unfold foldSum
  simp only [Nat.shiftRight_eq_div_pow]
  rw [hfold, u32_of_lt (n := OnesComplement.fold _ n) (by omega), u32_of_lt (by omega)]
  exact OnesComplement.second_fold (m := 2 ^ 16 - 1) (by omega)

/-- The complement of the kept bits. -/
theorem checkSum_eq {bs : List Byte} (h : bs.length ≤ 65535) :
    checkSum bs bs.length = 2 ^ 16 - 1 - OnesComplement.rep (2 ^ 16 - 1) (leWords bs).sum := by
  have hle := leWords_sum_le bs
  have hfold := foldSum_eq (n := (leWords bs).sum) (by omega)
  have hlt : foldSum (leWords bs).sum < 2 ^ 32 := Nat.mod_lt _ (Nat.two_pow_pos 32)
  unfold checkSum
  rw [accumulate_eq h, ← hfold]
  omega

theorem sum_leWords (bs : List Byte) :
    OnesComplement.sum (2 ^ 16 - 1) (leWords bs) =
      OnesComplement.rep (2 ^ 16 - 1) (leWords bs).sum :=
  OnesComplement.sum_eq_rep (by decide) fun x hx => Nat.le_pred_of_lt (leWords_lt bs x hx)

/-- **`CheckSum` is the Internet checksum**, with an accumulator that holds the exact sum of the
words, and two foldings that leave the one's-complement sum. -/
theorem checkSum_correct (bs : List Byte) (h : bs.length ≤ 65535) :
    accumulate bs bs.length = (leWords bs).sum ∧
      foldSum (accumulate bs bs.length) % 2 ^ 16 =
        OnesComplement.sum (2 ^ 16 - 1) (leWords bs) ∧
      checkSum bs bs.length = internetChecksum bs := by
  have hle := leWords_sum_le bs
  refine ⟨accumulate_eq h, ?_, ?_⟩
  · rw [accumulate_eq h, foldSum_eq (by omega), sum_leWords]
  · rw [checkSum_eq h, internetChecksum, sum_leWords]

theorem checkSum_correct_odd :
    [(0xff : Byte), 0xff, 0x01].length ≤ 65535 ∧ internetChecksum [0xff, 0xff, 0x01] = 0xfffe ∧
      checkSum [0xff, 0xff, 0x01] 3 = internetChecksum [0xff, 0xff, 0x01] :=
  ⟨by decide, by decide, (checkSum_correct [0xff, 0xff, 0x01] (by decide)).2.2⟩

/-! ## Words of a header -/

/-- A word is read back. -/
theorem getWord_setWord {i aiVal : ℕ} {pBuf : List Byte} (hv : aiVal < 2 ^ 16)
    (hi : i + 2 ≤ pBuf.length) : getWord i (setWord i aiVal pBuf) = aiVal := by
  have hlen : (pBuf.take i).length = i := by
    rw [List.length_take]
    omega
  have hbytes : ((setWord i aiVal pBuf).drop i).take 2 = le16 (htons aiVal) := by
    unfold setWord memcpy
    rw [List.append_assoc, List.drop_append_of_le_length (Nat.le_of_eq hlen.symm),
      List.drop_eq_nil_of_le (Nat.le_of_eq hlen), List.nil_append]
    rfl
  unfold getWord
  rw [hbytes, ofLe16_le16 (htons_lt aiVal), ntohs_htons hv]

theorem length_setWord {i aiVal : ℕ} {pBuf : List Byte} (hi : i + 2 ≤ pBuf.length) :
    (setWord i aiVal pBuf).length = pBuf.length := memcpy_length hi

/-- A word at an even offset is one of the words of the message. -/
theorem leWords_setWord (j : ℕ) {aiVal : ℕ} {pBuf : List Byte} (hi : 2 * j + 2 ≤ pBuf.length) :
    leWords (setWord (2 * j) aiVal pBuf) = (leWords pBuf).set j (htons aiVal) := by
  induction j generalizing pBuf with
  | zero =>
    match pBuf, hi with
    | a :: b :: bs, _ =>
      change ofLe16 (le16 (htons aiVal)) :: leWords bs = htons aiVal :: leWords bs
      rw [ofLe16_le16 (htons_lt aiVal)]
  | succ j ih =>
    match pBuf, hi with
    | a :: b :: bs, hi =>
      have hlen : 2 * j + 2 ≤ bs.length := by
        rw [List.length_cons, List.length_cons] at hi
        omega
      have hcons : setWord (2 * (j + 1)) aiVal (a :: b :: bs) = a :: b :: setWord (2 * j) aiVal bs := by
        have htwo : 2 * (j + 1) = 2 * j + 1 + 1 := by
          omega
        have hdrop : 2 * j + 1 + 1 + (le16 (htons aiVal)).length =
            2 * j + (le16 (htons aiVal)).length + 1 + 1 := by
          omega
        unfold setWord memcpy
        rw [htwo, hdrop]
        rfl
      rw [hcons, leWords, ih hlen]
      rfl

/-- There are as many words as pairs of bytes. -/
theorem length_leWords (bs : List Byte) : (leWords bs).length = (bs.length + 1) / 2 := by
  induction bs using leWords.induct with
  | case1 a b bs ih =>
    rw [leWords, List.length_cons, List.length_cons, List.length_cons, ih]
    omega
  | case2 a => simp [leWords]
  | case3 => rfl

end HdrHelper

/-! ## Stored checksums -/

namespace HdrKind

open HdrHelper

variable {k : HdrKind} {buf : List Byte}

theorem setCheckSum_eq (k : HdrKind) (aiSum : ℕ) (buf : List Byte) :
    k.setCheckSum aiSum buf = setWord (2 * (k.checkSumAt / 2)) aiSum buf := by
  cases k <;> rfl

theorem getCheckSum_eq (k : HdrKind) (buf : List Byte) :
    k.getCheckSum buf = getWord (2 * (k.checkSumAt / 2)) buf := by
  cases k <;> rfl

/-- The field is in the message, and the message not too long. -/
theorem Whole.field (h : k.Whole buf) :
    2 * (k.checkSumAt / 2) + 2 ≤ buf.length ∧ buf.length ≤ 65535 := by
  cases k with
  | ip =>
    obtain ⟨-, hmin, hmax⟩ := h
    exact ⟨Nat.le_trans (by decide) hmin, by omega⟩
  | icmp =>
    obtain ⟨-, hmin, hmax⟩ := h
    exact ⟨Nat.le_trans (by decide) hmin, by omega⟩

theorem length_setCheckSum (aiSum : ℕ) (h : k.Whole buf) :
    (k.setCheckSum aiSum buf).length = buf.length := by
  rw [setCheckSum_eq]
  exact length_setWord h.field.1

/-- **The getter returns what the setter got.** -/
theorem getCheckSum_setCheckSum {aiSum : ℕ} (hv : aiSum < 2 ^ 16) (h : k.Whole buf) :
    k.getCheckSum (k.setCheckSum aiSum buf) = aiSum := by
  rw [setCheckSum_eq, getCheckSum_eq]
  exact getWord_setWord hv h.field.1

/-- The sum of all words when the field holds the bytes of `aiSum` swapped. -/
theorem sum_setCheckSum (aiSum : ℕ) (h : k.Whole buf) :
    (leWords (k.setCheckSum aiSum buf)).sum = htons aiSum + (k.otherWords buf).sum := by
  have hlt : k.checkSumAt / 2 < (leWords buf).length := by
    have hfield := h.field.1
    rw [length_leWords]
    omega
  rw [setCheckSum_eq, leWords_setWord _ h.field.1, otherWords, List.sum_set, if_pos hlt,
    List.eraseIdx_eq_take_drop_succ, List.sum_append]
  omega

/-- The checksum is the complement of the sum of the other words. -/
theorem Whole.computed_eq (h : k.Whole buf) :
    k.computed buf = 2 ^ 16 - 1 - OnesComplement.rep (2 ^ 16 - 1) (k.otherWords buf).sum := by
  have hlen := length_setCheckSum 0 h
  unfold computed cleared
  rw [checkSum_eq (by rw [hlen]; exact h.field.2), sum_setCheckSum 0 h]
  congr 2
  exact Nat.zero_add _

theorem Whole.computed_lt (h : k.Whole buf) : k.computed buf < 2 ^ 16 := by
  rw [h.computed_eq]
  omega

theorem Whole.setCheckSum (aiSum : ℕ) (h : k.Whole buf) : k.Whole (k.setCheckSum aiSum buf) := by
  have hlen := length_setCheckSum aiSum h
  cases k with
  | ip =>
    obtain ⟨heven, hmin, hmax⟩ := h
    exact ⟨hlen ▸ heven, hlen ▸ hmin, hlen ▸ hmax⟩
  | icmp =>
    obtain ⟨heven, hmin, hmax⟩ := h
    exact ⟨hlen ▸ heven, hlen ▸ hmin, hlen ▸ hmax⟩

theorem otherWords_setCheckSum (aiSum : ℕ) (h : k.Whole buf) :
    k.otherWords (k.setCheckSum aiSum buf) = k.otherWords buf := by
  unfold otherWords
  rw [setCheckSum_eq, leWords_setWord _ h.field.1, List.eraseIdx_set_eq]

/-- **The checksum of the message with its checksum stored.** -/
theorem Whole.checkSum_stored (h : k.Whole buf) :
    checkSum (k.stored buf) (k.stored buf).length = 2 ^ 16 - 1 -
      OnesComplement.rep (2 ^ 16 - 1) (htons (k.computed buf) + (k.otherWords buf).sum) := by
  have h0 := h.setCheckSum 0
  have hlen : (k.stored buf).length ≤ 65535 :=
    (length_setCheckSum _ h0).symm ▸ h0.field.2
  rw [checkSum_eq hlen]
  unfold stored cleared
  rw [sum_setCheckSum _ h0, otherWords_setCheckSum 0 h]

/-- The sum with the checksum as it is stored is a representation of zero when the two bytes of
the checksum are equal. -/
theorem rep_add_swapped (n : ℕ) :
    OnesComplement.rep (2 ^ 16 - 1)
        (htons (2 ^ 16 - 1 - OnesComplement.rep (2 ^ 16 - 1) n) + n) = 2 ^ 16 - 1 ↔ 257 ∣ n := by
  have hle : OnesComplement.rep (2 ^ 16 - 1) n ≤ 2 ^ 16 - 1 := OnesComplement.rep_le (by decide) n
  rw [Nat.add_comm, ← OnesComplement.rep_add_rep,
    ← OnesComplement.dvd_rep_iff (m := 2 ^ 16 - 1) (n := n) (d := 257) (by decide)]
  generalize OnesComplement.rep (2 ^ 16 - 1) n = r at hle
  have hswap := htons_eq_self_iff (n := 2 ^ 16 - 1 - r) (by omega)
  have hdvd : 257 ∣ 2 ^ 16 - 1 - r ↔ 257 ∣ r := by
    omega
  have hlt := htons_lt (2 ^ 16 - 1 - r)
  rw [← hdvd, ← hswap, ← OnesComplement.add_eq_rep hle (by omega)]
  obtain ⟨lo, hi, hlo, hhi, hr⟩ := exists_bytes (n := 2 ^ 16 - 1 - r) (by omega)
  rw [hr, htons_word hlo hhi]
  unfold OnesComplement.add
  split <;> omega

/-- **A stored checksum verifies** exactly when 257 divides the sum of the other words. The
getter always returns what the setter got. -/
theorem verifies_iff (k : HdrKind) (buf : List Byte) (h : k.Whole buf) :
    k.Verifies buf ↔ 257 ∣ (k.otherWords buf).sum := by
  have hrep : OnesComplement.rep (2 ^ 16 - 1) (htons (k.computed buf) + (k.otherWords buf).sum) ≤
      2 ^ 16 - 1 := OnesComplement.rep_le (by decide) _
  have hzero : checkSum (k.stored buf) (k.stored buf).length = 0 ↔
      257 ∣ (k.otherWords buf).sum := by
    rw [← rep_add_swapped, ← h.computed_eq, h.checkSum_stored]
    omega
  constructor
  · intro hv
    exact hzero.mp hv.1
  · intro hd
    exact ⟨hzero.mpr hd, getCheckSum_setCheckSum (by decide) h,
      getCheckSum_setCheckSum h.computed_lt (h.setCheckSum 0)⟩

theorem verifies_iff_palindrome :
    HdrKind.icmp.Whole [0x12, 0x12, 0, 0] ∧ HdrKind.icmp.Verifies [0x12, 0x12, 0, 0] :=
  have hwhole : HdrKind.icmp.Whole [0x12, 0x12, 0, 0] := ⟨rfl, by decide, by decide⟩
  ⟨hwhole, (verifies_iff .icmp [0x12, 0x12, 0, 0] hwhole).mpr (by decide)⟩

/-- An echo request whose stored checksum does not verify. -/
theorem not_verifies :
    ¬ ∀ (k : HdrKind) (buf : List Byte), k.Whole buf → k.Verifies buf := by
  intro h
  have hecho := (h .icmp [8, 0, 0, 0, 0, 1, 0, 1] ⟨rfl, by decide, by decide⟩).1
  revert hecho
  decide

end HdrKind

end Netlib
