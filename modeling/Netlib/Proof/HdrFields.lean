import Netlib.Spec.HdrFields
import Netlib.Proof.HdrHelper
import Netlib.Proof.Header

/-!
# Headers are records

A setter writes the bytes of its field only (`HdrField.set_outside`), a getter reads these only
(`HdrField.get_congr`), and two fields of one header have no byte in common, but for the halves of
the first byte of an IP header (`HdrField.Apart`). So a header is a record
(`HdrHelperKind.isRecord`). Its fields cover it, so that they determine its bytes
(`HdrHelperKind.take_eq`).
-/

namespace Netlib

open Lib

/-! ## Memory -/

theorem memcpy_outside {dst src : List Byte} {i j : ℕ} (h : i + src.length ≤ dst.length)
    (hj : j < i ∨ i + src.length ≤ j) : (memcpy dst i src)[j]? = dst[j]? := by
  have hlen : (dst.take i).length = i := by
    rw [List.length_take]
    omega
  unfold memcpy
  rcases hj with hj | hj
  · rw [List.append_assoc, List.getElem?_append_left (by omega), List.getElem?_take_of_lt hj]
  · rw [List.getElem?_append_right (by rw [List.length_append]; omega), List.getElem?_drop,
      List.length_append, hlen]
    congr 1
    omega

theorem memcpy_window {dst src : List Byte} {i : ℕ} (h : i ≤ dst.length) :
    ((memcpy dst i src).drop i).take src.length = src := by
  have hlen : (dst.take i).length = i := by
    rw [List.length_take]
    omega
  unfold memcpy
  rw [List.append_assoc, List.drop_append_of_le_length (by omega), List.drop_eq_nil_of_le (by omega),
    List.nil_append, List.take_left]

/-! ## Bytes and halves of bytes -/

namespace HdrHelper

variable {i v : ℕ} {buf : List Byte}

theorem getByte_lt : getByte i buf < 2 ^ 8 := UInt8.toNat_lt _

theorem getByte_setByte (h : i < buf.length) : getByte i (setByte i v buf) = v % 2 ^ 8 := by
  have hwin := @memcpy_window buf [.ofNat v] i (Nat.le_of_lt h)
  have hget : (setByte i v buf)[i]? = some (.ofNat v) := by
    have hhead := congrArg (fun l : List Byte => l[0]?) hwin
    unfold setByte
    simpa [List.getElem?_take, List.getElem?_drop] using hhead
  unfold getByte
  rw [List.getD_eq_getElem?_getD, hget]
  exact UInt8.toNat_ofNat'

/-- Two halves of a byte. -/
theorem or_shift {lo hi : ℕ} (h : lo < 2 ^ 4) : hi <<< 4 ||| lo = hi * 2 ^ 4 + lo := by
  rw [← Nat.shiftLeft_add_eq_or_of_lt h, Nat.shiftLeft_eq]

theorem and_low (n : ℕ) : n &&& 0xf = n % 2 ^ 4 := Nat.and_two_pow_sub_one_eq_mod n 4

theorem and_high : ∀ n < 2 ^ 8, n &&& 0xf0 = (n / 2 ^ 4) <<< 4 := by decide +kernel

theorem setHigh_eq (aiVer : ℕ) :
    setHigh i aiVer buf = setByte i (aiVer % 2 ^ 4 * 2 ^ 4 + getByte i buf % 2 ^ 4) buf := by
  unfold setHigh
  dsimp only
  rw [and_low, and_low, Nat.or_comm, or_shift (Nat.mod_lt _ (by decide))]

theorem setLow_eq (aiLen : ℕ) :
    setLow i aiLen buf = setByte i (getByte i buf / 2 ^ 4 * 2 ^ 4 + aiLen / 4 % 2 ^ 4) buf := by
  unfold setLow
  dsimp only
  rw [and_low, and_high _ getByte_lt, or_shift (Nat.mod_lt _ (by decide)), Nat.shiftRight_eq_div_pow]

theorem getHigh_eq : getHigh i buf = getByte i buf / 2 ^ 4 := by
  unfold getHigh
  rw [Nat.shiftRight_eq_div_pow]

theorem getLow_eq : getLow i buf = getByte i buf % 2 ^ 4 * 4 := by
  unfold getLow
  rw [and_low, Nat.shiftLeft_eq]

end HdrHelper

namespace HdrField

open HdrHelper

variable {f g : HdrField} {v : ℕ} {buf buf' : List Byte}

/-! ## The bytes of a field -/

def pos : HdrField → ℕ
  | byte i | word i | dword i | high i | low i => i

def width : HdrField → ℕ
  | byte _ | high _ | low _ => 1
  | word _ => 2
  | dword _ => 4

/-- A setter writes the bytes of its field. -/
theorem set_eq (f : HdrField) (v : ℕ) (buf : List Byte) :
    ∃ bytes, bytes.length = f.width ∧ f.set v buf = memcpy buf f.pos bytes := by
  cases f with
  | byte i => exact ⟨_, rfl, rfl⟩
  | word i => exact ⟨_, rfl, rfl⟩
  | dword i => exact ⟨_, rfl, rfl⟩
  | high i => exact ⟨_, rfl, rfl⟩
  | low i => exact ⟨_, rfl, rfl⟩

theorem length_set (h : f.pos + f.width ≤ buf.length) : (f.set v buf).length = buf.length := by
  obtain ⟨bytes, hlen, heq⟩ := f.set_eq v buf
  rw [heq]
  exact memcpy_length (by rw [hlen]; exact h)

theorem set_outside (h : f.pos + f.width ≤ buf.length) {j : ℕ}
    (hj : j < f.pos ∨ f.pos + f.width ≤ j) : (f.set v buf)[j]? = buf[j]? := by
  obtain ⟨bytes, hlen, heq⟩ := f.set_eq v buf
  rw [heq]
  exact memcpy_outside (by rw [hlen]; exact h) (by rw [hlen]; exact hj)

theorem window_congr {i n : ℕ} (h : ∀ j, i ≤ j → j < i + n → buf[j]? = buf'[j]?) :
    (buf.drop i).take n = (buf'.drop i).take n := by
  refine List.ext_getElem? fun j => ?_
  by_cases hj : j < n
  · rw [List.getElem?_take_of_lt hj, List.getElem?_take_of_lt hj, List.getElem?_drop,
      List.getElem?_drop]
    exact h (i + j) (Nat.le_add_right i j) (by omega)
  · rw [List.getElem?_take_eq_none (Nat.le_of_not_lt hj), List.getElem?_take_eq_none (Nat.le_of_not_lt hj)]

/-- A getter reads the bytes of its field. -/
theorem get_congr (h : ∀ j, f.pos ≤ j → j < f.pos + f.width → buf[j]? = buf'[j]?) :
    f.get buf = f.get buf' := by
  have hbyte : ∀ i, buf[i]? = buf'[i]? → getByte i buf = getByte i buf' := by
    intro i hi
    unfold getByte
    rw [List.getD_eq_getElem?_getD, List.getD_eq_getElem?_getD, hi]
  cases f with
  | byte i => exact hbyte i (h i (Nat.le_refl i) (Nat.lt_succ_self i))
  | word i => exact congrArg (fun l => ntohs (ofLe16 l)) (window_congr h)
  | dword i => exact congrArg (fun l => ntohl (ofLe32 l)) (window_congr h)
  | high i =>
    have hi := hbyte i (h i (Nat.le_refl i) (Nat.lt_succ_self i))
    exact congrArg (fun n => n >>> 4) hi
  | low i =>
    have hi := hbyte i (h i (Nat.le_refl i) (Nat.lt_succ_self i))
    exact congrArg (fun n => (n &&& 0xf) <<< 2) hi

/-- **A getter returns what its setter was given.** -/
theorem get_set (h : f.pos + f.width ≤ buf.length) : f.get (f.set v buf) = f.cut v := by
  cases f with
  | byte i => exact getByte_setByte h
  | word i =>
    have hmod : setWord i v buf = setWord i (v % 2 ^ 16) buf := by
      unfold setWord
      rw [htons_eq, htons_eq]
      congr 2
      omega
    change getWord i (setWord i v buf) = v % 2 ^ 16
    rw [hmod]
    exact getWord_setWord (Nat.mod_lt _ (by decide)) h
  | dword i =>
    have hwin : ((memcpy buf i (le32 (htonl v))).drop i).take 4 = le32 (htonl v) :=
      @memcpy_window buf (le32 (htonl v)) i (Nat.le_of_add_right_le h)
    change ntohl (ofLe32 (((memcpy buf i (le32 (htonl v))).drop i).take 4)) = v % 2 ^ 32
    rw [hwin, htonl, le32_ofLe32 (be32_length v), ntohl, le32_ofLe32 (be32_length v)]
    simp only [ofBe32, be32, List.reverse_reverse, le32, ofLe32, UInt8.toNat_ofNat']
    omega
  | high i =>
    change getHigh i (setHigh i v buf) = v % 2 ^ 4
    have hbyte := @getByte_setByte i (v % 2 ^ 4 * 2 ^ 4 + getByte i buf % 2 ^ 4) buf h
    rw [getHigh_eq, setHigh_eq, hbyte]
    omega
  | low i =>
    change getLow i (setLow i v buf) = v / 4 % 2 ^ 4 * 4
    have hlt : getByte i buf < 2 ^ 8 := getByte_lt
    have hbyte := @getByte_setByte i (getByte i buf / 2 ^ 4 * 2 ^ 4 + v / 4 % 2 ^ 4) buf h
    rw [getLow_eq, setLow_eq, hbyte]
    omega

/-- The fields have no byte in common, or are the two halves of one. -/
def Apart (f g : HdrField) : Bool :=
  f.pos + f.width ≤ g.pos || g.pos + g.width ≤ f.pos ||
    match f, g with
    | high i, low j => i = j
    | low i, high j => i = j
    | _, _ => false

/-- **A getter does not see the setter of another field.** -/
theorem get_set_apart (hf : f.pos + f.width ≤ buf.length) (h : f.Apart g = true) :
    g.get (f.set v buf) = g.get buf := by
  have houtside : f.pos + f.width ≤ g.pos ∨ g.pos + g.width ≤ f.pos →
      g.get (f.set v buf) = g.get buf := by
    intro hapart
    refine get_congr fun j hj hj' => set_outside hf ?_
    omega
  unfold Apart at h
  rw [Bool.or_eq_true, Bool.or_eq_true, decide_eq_true_eq, decide_eq_true_eq] at h
  rcases h with h | h
  · exact houtside h
  · split at h
    · rename_i i j
      obtain rfl := of_decide_eq_true h
      have hlt : getByte i buf < 2 ^ 8 := getByte_lt
      have hbyte := @getByte_setByte i (v % 2 ^ 4 * 2 ^ 4 + getByte i buf % 2 ^ 4) buf hf
      change getLow i (setHigh i v buf) = getLow i buf
      rw [getLow_eq, getLow_eq, setHigh_eq, hbyte]
      omega
    · rename_i i j
      obtain rfl := of_decide_eq_true h
      have hlt : getByte i buf < 2 ^ 8 := getByte_lt
      have hbyte := @getByte_setByte i (getByte i buf / 2 ^ 4 * 2 ^ 4 + v / 4 % 2 ^ 4) buf hf
      change getHigh i (setLow i v buf) = getHigh i buf
      rw [getHigh_eq, getHigh_eq, setLow_eq, hbyte]
      omega
    · cases h

/-! ## What the fields say of the bytes -/

/-- A value that a getter returns fits. -/
theorem cut_get (f : HdrField) (buf : List Byte) : f.cut (f.get buf) = f.get buf := by
  cases f with
  | byte i => exact Nat.mod_eq_of_lt getByte_lt
  | word i => exact Nat.mod_eq_of_lt (htons_lt _)
  | dword i =>
    have hlt : getDword i buf < 2 ^ 32 := ofLe32_lt (le32 (ofLe32 ((buf.drop i).take 4))).reverse
    exact Nat.mod_eq_of_lt hlt
  | high i =>
    have hlt : getByte i buf < 2 ^ 8 := getByte_lt
    change getHigh i buf % 2 ^ 4 = getHigh i buf
    rw [getHigh_eq]
    omega
  | low i =>
    change getLow i buf / 4 % 2 ^ 4 * 4 = getLow i buf
    rw [getLow_eq]
    omega

/-- The fields tell the byte `j`. -/
def Covers (fields : List HdrField) (j : ℕ) : Bool :=
  (fields.any fun f => match f with
    | byte i | word i | dword i => i ≤ j && j < i + f.width
    | _ => false) || (fields.contains (high j) && fields.contains (low j))

theorem getByte_inj {i : ℕ} (h : i < buf.length) (h' : i < buf'.length)
    (heq : getByte i buf = getByte i buf') : buf[i]? = buf'[i]? := by
  unfold getByte at heq
  rw [List.getD_eq_getElem?_getD, List.getD_eq_getElem?_getD, List.getElem?_eq_getElem h,
    List.getElem?_eq_getElem h'] at heq
  rw [List.getElem?_eq_getElem h, List.getElem?_eq_getElem h']
  exact congrArg some (UInt8.toNat_inj.mp heq)

theorem htons_inj {l l' : List Byte} (h : l.length = 2) (h' : l'.length = 2)
    (heq : htons (ofLe16 l) = htons (ofLe16 l')) : l = l' := by
  obtain ⟨a, b, rfl⟩ := List.length_eq_two.mp h
  obtain ⟨a', b', rfl⟩ := List.length_eq_two.mp h'
  have ha := a.toNat_lt
  have hb := b.toNat_lt
  have ha' := a'.toNat_lt
  have hb' := b'.toNat_lt
  change htons (a.toNat + 256 * b.toNat) = htons (a'.toNat + 256 * b'.toNat) at heq
  rw [htons_word ha hb, htons_word ha' hb'] at heq
  have hab : a.toNat = a'.toNat ∧ b.toNat = b'.toNat := by omega
  rw [UInt8.toNat_inj.mp hab.1, UInt8.toNat_inj.mp hab.2]

/-- Two memories with the same bytes in a window. -/
theorem window_inj {i n j : ℕ} (heq : (buf.drop i).take n = (buf'.drop i).take n) (hi : i ≤ j)
    (hj : j < i + n) : buf[j]? = buf'[j]? := by
  have hat := congrArg (fun l : List Byte => l[j - i]?) heq
  rw [List.getElem?_take_of_lt (by omega), List.getElem?_take_of_lt (by omega), List.getElem?_drop,
    List.getElem?_drop] at hat
  rwa [Nat.add_sub_cancel' hi] at hat

theorem length_window {i n : ℕ} (h : i + n ≤ buf.length) : ((buf.drop i).take n).length = n := by
  rw [List.length_take, List.length_drop]
  omega

/-- **Fields that are equal have equal bytes.** -/
theorem Covers.getElem? {fields : List HdrField} {j : ℕ} (h : Covers fields j = true)
    (hfits : ∀ f ∈ fields, f.pos + f.width ≤ buf.length ∧ f.pos + f.width ≤ buf'.length)
    (heq : ∀ f ∈ fields, f.get buf = f.get buf') : buf[j]? = buf'[j]? := by
  unfold Covers at h
  rcases Bool.or_eq_true_iff.mp h with h | h
  · obtain ⟨f, hf, hfj⟩ := List.any_eq_true.mp h
    obtain ⟨hfit, hfit'⟩ := hfits f hf
    have hget := heq f hf
    cases f with
    | byte i =>
      obtain ⟨hi, hj⟩ := Bool.and_eq_true_iff.mp hfj
      obtain rfl : i = j := by
        have hi := of_decide_eq_true hi
        have hj := of_decide_eq_true hj
        simp only [width] at hj
        omega
      exact getByte_inj hfit hfit' hget
    | word i =>
      obtain ⟨hi, hj⟩ := Bool.and_eq_true_iff.mp hfj
      refine window_inj ?_ (of_decide_eq_true hi) (of_decide_eq_true hj)
      exact htons_inj (length_window hfit) (length_window hfit') hget
    | dword i =>
      obtain ⟨hi, hj⟩ := Bool.and_eq_true_iff.mp hfj
      refine window_inj ?_ (of_decide_eq_true hi) (of_decide_eq_true hj)
      have hlen : ((buf.drop i).take 4).length = 4 := length_window hfit
      have hlen' : ((buf'.drop i).take 4).length = 4 := length_window hfit'
      have hbe : be32 (ofBe32 (le32 (ofLe32 ((buf.drop i).take 4)))) =
          be32 (ofBe32 (le32 (ofLe32 ((buf'.drop i).take 4)))) := congrArg be32 hget
      rwa [le32_ofLe32 hlen, le32_ofLe32 hlen', be32_ofBe32 hlen, be32_ofBe32 hlen'] at hbe
    | high i => cases hfj
    | low i => cases hfj
  · obtain ⟨hhigh, hlow⟩ := Bool.and_eq_true_iff.mp h
    have hhigh := List.contains_iff_mem.mp hhigh
    have hlow := List.contains_iff_mem.mp hlow
    obtain ⟨hfit, hfit'⟩ := hfits _ hhigh
    have hget : getHigh j buf = getHigh j buf' := heq _ hhigh
    have hget' : getLow j buf = getLow j buf' := heq _ hlow
    rw [getHigh_eq, getHigh_eq] at hget
    rw [getLow_eq, getLow_eq] at hget'
    exact getByte_inj hfit hfit' (by omega)

end HdrField

/-! ## The headers -/

namespace HdrHelperKind

variable (k : HdrHelperKind)

theorem fits : ∀ f ∈ k.fields, f.pos + f.width ≤ k.size := by
  cases k <;> decide

theorem apart : ∀ f ∈ k.fields, ∀ g ∈ k.fields, g ≠ f → f.Apart g = true := by
  cases k <;> decide

theorem covers : ∀ j < k.size, HdrField.Covers k.fields j = true := by
  cases k <;> decide

/-- **A header is a record.** -/
theorem isRecord : IsRecord (fun buf => k.size ≤ buf.length) (· ∈ k.fields) HdrField.get HdrField.set
    HdrField.cut := by
  refine ⟨?_, ?_, ?_⟩
  · intro buf f v hf hbuf
    rw [HdrField.length_set (Nat.le_trans (k.fits f hf) hbuf)]
    exact hbuf
  · intro buf f v hf hbuf
    exact HdrField.get_set (Nat.le_trans (k.fits f hf) hbuf)
  · intro buf f g v hf hg hbuf hne
    exact HdrField.get_set_apart (Nat.le_trans (k.fits f hf) hbuf) (k.apart f hf g hg hne)

variable {k} {buf buf' : List Byte}

/-- The fields are the header. -/
theorem take_eq (h : k.size ≤ buf.length) (h' : k.size ≤ buf'.length)
    (heq : ∀ f ∈ k.fields, f.get buf = f.get buf') : buf.take k.size = buf'.take k.size := by
  have hwin : (buf.drop 0).take k.size = (buf'.drop 0).take k.size := by
    refine HdrField.window_congr fun j _ hj => ?_
    rw [Nat.zero_add] at hj
    exact HdrField.Covers.getElem? (k.covers j hj) (fun f hf =>
      ⟨Nat.le_trans (k.fits f hf) h, Nat.le_trans (k.fits f hf) h'⟩) heq
  exact hwin

/-- The memory behind the header. -/
theorem drop_setAll {calls : List (HdrField × ℕ)} (hcalls : ∀ c ∈ calls, c.1 ∈ k.fields)
    (h : k.size ≤ buf.length) : (setAll HdrField.set calls buf).drop k.size = buf.drop k.size := by
  induction calls using List.reverseRecOn with
  | nil => rfl
  | append_singleton calls c ih =>
    have hbefore : ∀ c' ∈ calls, c'.1 ∈ k.fields := fun c' hc' => hcalls c' (List.mem_append_left _ hc')
    have hc : c.1 ∈ k.fields := hcalls c (by simp)
    have hok : k.size ≤ (setAll HdrField.set calls buf).length := k.isRecord.ok_setAll hbefore h
    have hfit := Nat.le_trans (k.fits c.1 hc) hok
    rw [setAll_snoc, ← ih hbefore]
    refine List.ext_getElem? fun j => ?_
    rw [List.getElem?_drop, List.getElem?_drop]
    exact HdrField.set_outside hfit (.inr (Nat.le_trans (k.fits c.1 hc) (Nat.le_add_right _ _)))

/-- What was read is what is set. -/
theorem lastSet_read {f : HdrField} (hf : f ∈ k.fields) (buf : List Byte) :
    lastSet (k.read buf) f = some (f.get buf) := by
  unfold lastSet read
  cases hfind : ((k.fields.map fun f => (f, f.get buf)).reverse.find? fun c => c.1 = f) with
  | none =>
    rw [List.find?_eq_none] at hfind
    have hmem : (f, f.get buf) ∈ (k.fields.map fun f => (f, f.get buf)).reverse :=
      List.mem_reverse.mpr (List.mem_map_of_mem hf)
    exact absurd (decide_eq_true rfl) (hfind _ hmem)
  | some c =>
    have hfound := List.find?_some hfind
    have hc : c.1 = f := of_decide_eq_true hfound
    obtain ⟨g, -, rfl⟩ := List.mem_map.mp (List.mem_reverse.mp (List.mem_of_find?_eq_some hfind))
    subst hc
    rfl

/-- **A header is a record**: after any calls of its setters. -/
theorem records (k : HdrHelperKind) {buf : List Byte} (h : k.size ≤ buf.length)
    {calls : List (HdrField × ℕ)} (hcalls : ∀ c ∈ calls, c.1 ∈ k.fields) : k.Records buf calls := by
  have hrec := k.isRecord
  refine ⟨fun f hf => hrec.get_setAll hcalls h hf, drop_setAll hcalls h, ?_, ?_⟩
  · intro hall buf' h'
    refine take_eq (hrec.ok_setAll hcalls h') (hrec.ok_setAll hcalls h) fun f hf => ?_
    obtain ⟨v, hv⟩ := Option.isSome_iff_exists.mp (hall f hf)
    rw [hrec.get_setAll hcalls h' hf, hrec.get_setAll hcalls h hf, hv]
    rfl
  · intro buf' h'
    have hread : ∀ c ∈ k.read buf, c.1 ∈ k.fields := by
      intro c hc
      obtain ⟨f, hf, rfl⟩ := List.mem_map.mp hc
      exact hf
    refine take_eq (hrec.ok_setAll hread h') h fun f hf => ?_
    rw [hrec.get_setAll hread h' hf, lastSet_read hf buf]
    exact f.cut_get buf

/-- An IP header, with its length set before its version. -/
theorem records_ip : IpHdrHelper.version.get (setAll HdrField.set
      [(IpHdrHelper.hdrLen, 24), (IpHdrHelper.version, 4), (IpHdrHelper.ttl, 300)]
      (List.replicate 24 0xff)) = 4 ∧
    HdrHelperKind.ip.Records (List.replicate 24 0xff)
      [(IpHdrHelper.hdrLen, 24), (IpHdrHelper.version, 4), (IpHdrHelper.ttl, 300)] :=
  ⟨by decide, records .ip (by decide) (by decide)⟩

end HdrHelperKind

end Netlib
