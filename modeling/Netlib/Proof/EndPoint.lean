import Netlib.Spec.EndPoint
import Netlib.Proof.HdrFields

/-!
# Endpoints are values

Every constructor and every assignment gives an object a block of its own (`EndPoints.Owns`), so a
block is written and freed by its object only, and a call on one object is not seen by the others
(`EndPoints.call_ok`).
-/

namespace Netlib

open Lib
open Function (update)

/-! ## What an endpoint was made of -/

namespace SockAddr

variable (addr : EpAddress) (port : ℕ)

/-- The family and the port are written, the address is not. -/
def head : List Byte :=
  HdrHelper.setWord 2 port (memcpy zero 0 (le16 (if addr.v6 then afInet6 else afInet)))

theorem head_length : (head addr port).length = len := by
  have hfamily : (memcpy zero 0 (le16 (if addr.v6 then afInet6 else afInet))).length = len :=
    memcpy_length (by simp [zero, len, le16])
  exact (memcpy_length (by rw [hfamily]; simp [len, le16])).trans hfamily

theorem init_eq : init addr port = memcpy (head addr port) (if addr.v6 then 8 else 4) addr.bytes := by
  have hat : addrAt (if addr.v6 then afInet6 else afInet) = if addr.v6 then 8 else 4 := by
    cases addr.v6 <;> rfl
  unfold init
  dsimp only
  rw [hat]
  rfl

/-- The address is behind the port, and inside the block. -/
theorem addr_fits :
    4 ≤ (if addr.v6 then 8 else 4) ∧ (if addr.v6 then 8 else 4) + addr.bytes.length ≤ len := by
  rw [addr.length]
  cases addr.v6 <;> decide

/-- Below the address. -/
theorem init_front {j : ℕ} (hj : j < 4) : (init addr port)[j]? = (head addr port)[j]? := by
  obtain ⟨hpos, hfit⟩ := addr_fits addr
  rw [init_eq]
  exact memcpy_outside (by rw [head_length]; exact hfit) (.inl (Nat.lt_of_lt_of_le hj hpos))

theorem family_init :
    family (init addr port) = if addr.v6 then afInet6 else afInet := by
  have hfront : ((init addr port).drop 0).take 2 =
      ((memcpy zero 0 (le16 (if addr.v6 then afInet6 else afInet))).drop 0).take 2 := by
    refine HdrField.window_congr fun j _ hj => (init_front addr port (by omega)).trans ?_
    exact memcpy_outside (by rw [memcpy_length] <;> simp [zero, len, le16]) (.inl (by omega))
  have hwin : ((memcpy zero 0 (le16 (if addr.v6 then afInet6 else afInet))).drop 0).take 2 =
      le16 (if addr.v6 then afInet6 else afInet) :=
    @memcpy_window zero (le16 (if addr.v6 then afInet6 else afInet)) 0 (Nat.zero_le _)
  have hbytes : (init addr port).take 2 = le16 (if addr.v6 then afInet6 else afInet) :=
    hfront.trans hwin
  unfold family
  rw [hbytes]
  cases addr.v6 <;> rfl

variable {port} in
theorem port_init (hport : port < 2 ^ 16) : SockAddr.port (init addr port) = port := by
  have hfam := family_init addr port
  have hget : HdrHelper.getWord 2 (init addr port) = HdrHelper.getWord 2 (head addr port) :=
    @HdrField.get_congr (.word 2) _ _ fun j _ hj => init_front addr port hj
  have hfamily : (memcpy zero 0 (le16 (if addr.v6 then afInet6 else afInet))).length = len :=
    memcpy_length (by simp [zero, len, le16])
  unfold SockAddr.port
  rw [if_pos ?_, hget]
  · exact HdrHelper.getWord_setWord hport (by rw [hfamily]; decide)
  · rw [hfam]
    cases addr.v6
    · exact .inl rfl
    · exact .inr rfl

theorem address_init : address (init addr port) = addr.bytes := by
  have hfam := family_init addr port
  have hlen := addr.length
  obtain ⟨-, hfit⟩ := addr_fits addr
  have hwin : ((init addr port).drop (if addr.v6 then 8 else 4)).take addr.bytes.length = addr.bytes := by
    rw [init_eq]
    exact memcpy_window (by rw [head_length]; exact Nat.le_of_add_right_le hfit)
  unfold address
  rw [hfam]
  cases hv6 : addr.v6 with
  | false =>
    rw [hv6] at hwin hlen
    rw [hlen] at hwin
    exact hwin
  | true =>
    rw [hv6] at hwin hlen
    rw [hlen] at hwin
    exact hwin

end SockAddr

namespace EndPoints

variable {w w' : EndPoints} {m : ℕ → Option (Option (List Byte))} {i p : ℕ} {b : List Byte}

/-! ## Blocks -/

/-- The object has no block. -/
def Bare (w : EndPoints) (i : ℕ) : Prop := ∀ p, w._pSockAddr i ≠ some (some p)

theorem Owns.none_of (h : w.Owns m) (hi : m i = none) : w._pSockAddr i = none := by
  have hobject := h.object i
  rw [hi] at hobject
  exact Option.isSome_eq_false_iff.mp hobject |> Option.isNone_iff_eq_none.mp

theorem Owns.null_of (h : w.Owns m) (hi : m i = some none) : w._pSockAddr i = some none := by
  cases hp : w._pSockAddr i with
  | none =>
    have hobject := h.object i
    rw [hi, hp] at hobject
    cases hobject
  | some q =>
    cases q with
    | none => rfl
    | some p =>
      obtain ⟨v, -, hv⟩ := h.value i p hp
      rw [hi] at hv
      cases hv

theorem Owns.block_of (h : w.Owns m) (hi : m i = some (some b)) :
    ∃ p, w._pSockAddr i = some (some p) ∧ w.heap p = some b := by
  cases hp : w._pSockAddr i with
  | none =>
    have hobject := h.object i
    rw [hi, hp] at hobject
    cases hobject
  | some q =>
    cases q with
    | none =>
      rw [h.null i hp] at hi
      cases hi
    | some p =>
      obtain ⟨v, hheap, hv⟩ := h.value i p hp
      rw [hi] at hv
      cases hv
      exact ⟨p, rfl, hheap⟩

theorem start_owns : start.Owns fun _ => none := by
  refine ⟨fun _ => rfl, ?_, ?_, ?_, ?_, fun _ _ => rfl⟩
  · intro i hi
    cases hi
  · intro i p hi
    cases hi
  · intro i j p hi
    cases hi
  · intro p v hp
    cases hp

/-- **A new block**, for an object that has none. -/
theorem Owns.alloc (h : w.Owns m) (hi : w.Bare i) (b : List Byte) :
    (w.alloc i b).Owns (update m i (some (some b))) := by
  have hnew : w.heap w.fresh = none := h.fresh w.fresh (Nat.le_refl _)
  have hne : ∀ j q, w._pSockAddr j = some (some q) → q ≠ w.fresh := by
    rintro j q hj rfl
    obtain ⟨v, hv, -⟩ := h.value j _ hj
    rw [hnew] at hv
    cases hv
  unfold EndPoints.alloc
  refine ⟨?_, ?_, ?_, ?_, ?_, ?_⟩
  · intro j
    dsimp only
    by_cases hj : j = i
    · subst hj
      rw [Function.update_self, Function.update_self]
      rfl
    · rw [Function.update_of_ne hj, Function.update_of_ne hj]
      exact h.object j
  · intro j hp
    dsimp only at hp
    by_cases hj : j = i
    · subst hj
      rw [Function.update_self] at hp
      cases hp
    · rw [Function.update_of_ne hj] at hp ⊢
      exact h.null j hp
  · intro j q hp
    dsimp only at hp ⊢
    by_cases hj : j = i
    · subst hj
      rw [Function.update_self] at hp
      cases hp
      exact ⟨b, Function.update_self _ _ _, Function.update_self _ _ _⟩
    · rw [Function.update_of_ne hj] at hp
      obtain ⟨v, hv, hm⟩ := h.value j q hp
      refine ⟨v, ?_, ?_⟩
      · rw [Function.update_of_ne (hne j q hp)]
        exact hv
      · rw [Function.update_of_ne hj]
        exact hm
  · intro j k q hj hk
    dsimp only at hj hk
    by_cases hji : j = i
    · by_cases hki : k = i
      · exact hji.trans hki.symm
      · subst hji
        rw [Function.update_self] at hj
        rw [Function.update_of_ne hki] at hk
        cases hj
        exact absurd rfl (hne k _ hk)
    · rw [Function.update_of_ne hji] at hj
      by_cases hki : k = i
      · subst hki
        rw [Function.update_self] at hk
        cases hk
        exact absurd rfl (hne j _ hj)
      · rw [Function.update_of_ne hki] at hk
        exact h.alone j k q hj hk
  · intro q v hq
    dsimp only at hq ⊢
    by_cases hfresh : q = w.fresh
    · subst hfresh
      exact ⟨i, Function.update_self _ _ _⟩
    · rw [Function.update_of_ne hfresh] at hq
      obtain ⟨j, hj⟩ := h.owned q v hq
      refine ⟨j, ?_⟩
      rw [Function.update_of_ne ?_]
      · exact hj
      · rintro rfl
        exact hi q hj
  · intro q hq
    dsimp only at hq ⊢
    rw [Function.update_of_ne (Nat.ne_of_gt hq)]
    exact h.fresh q (Nat.le_of_succ_le hq)

/-- An object is left without a block, or goes: its own block is gone. -/
theorem Owns.drop (h : w.Owns m) (o : Option Unit) {heap : ℕ → Option (List Byte)}
    (hheap : ∀ q, heap q = if w._pSockAddr i = some (some q) then none else w.heap q) :
    (EndPoints.setObject { w with heap := heap } i (o.map fun _ => none)).Owns
      (update m i (o.map fun _ => none)) := by
  have hother : ∀ j q, update w._pSockAddr i (o.map fun _ => none) j = some (some q) →
      j ≠ i ∧ w._pSockAddr j = some (some q) := by
    intro j q hj
    by_cases hji : j = i
    · subst hji
      rw [Function.update_self] at hj
      cases o with
      | none => cases hj
      | some u => cases hj
    · rw [Function.update_of_ne hji] at hj
      exact ⟨hji, hj⟩
  unfold setObject
  refine ⟨?_, ?_, ?_, ?_, ?_, ?_⟩
  · intro j
    dsimp only
    by_cases hj : j = i
    · subst hj
      rw [Function.update_self, Function.update_self]
      cases o <;> rfl
    · rw [Function.update_of_ne hj, Function.update_of_ne hj]
      exact h.object j
  · intro j hp
    dsimp only at hp
    by_cases hj : j = i
    · subst hj
      rw [Function.update_self] at hp ⊢
      cases o with
      | none => cases hp
      | some u => rfl
    · rw [Function.update_of_ne hj] at hp ⊢
      exact h.null j hp
  · intro j q hp
    obtain ⟨hj, hp'⟩ := hother j q hp
    obtain ⟨v, hv, hm⟩ := h.value j q hp'
    refine ⟨v, ?_, ?_⟩
    · dsimp only
      rw [hheap q, if_neg fun hown => hj (h.alone j i q hp' hown)]
      exact hv
    · rw [Function.update_of_ne hj]
      exact hm
  · intro j k q hj hk
    exact h.alone j k q (hother j q hj).2 (hother k q hk).2
  · intro q v hq
    dsimp only at hq ⊢
    rw [hheap q] at hq
    split at hq
    · cases hq
    · rename_i hown
      obtain ⟨j, hj⟩ := h.owned q v hq
      refine ⟨j, ?_⟩
      rw [Function.update_of_ne ?_]
      · exact hj
      · rintro rfl
        exact hown hj
  · intro q hq
    dsimp only
    rw [hheap q]
    split
    · rfl
    · exact h.fresh q hq

/-- An object without a block comes or goes. -/
theorem Owns.setBare (h : w.Owns m) (hi : w.Bare i) (o : Option Unit) :
    (w.setObject i (o.map fun _ => none)).Owns (update m i (o.map fun _ => none)) :=
  h.drop o fun q => (if_neg (hi q)).symm

/-- **A block is written** by its object. -/
theorem Owns.store (h : w.Owns m) (hp : w._pSockAddr i = some (some p)) (b : List Byte) :
    ∃ w', w.store p b = some w' ∧ w'._pSockAddr = w._pSockAddr ∧
      w'.heap = update w.heap p (some b) ∧ w'.Owns (update m i (some (some b))) := by
  obtain ⟨v, hv, -⟩ := h.value i p hp
  refine ⟨{ w with heap := update w.heap p (some b) }, ?_, rfl, rfl, ?_, ?_, ?_, h.alone, ?_, ?_⟩
  · unfold EndPoints.store
    rw [hv]
    rfl
  · intro j
    by_cases hj : j = i
    · subst hj
      rw [Function.update_self]
      exact congrArg Option.isSome hp
    · rw [Function.update_of_ne hj]
      exact h.object j
  · intro j hnull
    have hj : j ≠ i := by
      rintro rfl
      rw [hp] at hnull
      cases hnull
    rw [Function.update_of_ne hj]
    exact h.null j hnull
  · intro j q hq
    by_cases hj : j = i
    · subst hj
      rw [hp] at hq
      cases hq
      exact ⟨b, Function.update_self _ _ _, Function.update_self _ _ _⟩
    · obtain ⟨u, hu, hm⟩ := h.value j q hq
      have hne : q ≠ p := by
        rintro rfl
        exact hj (h.alone j i q hq hp)
      refine ⟨u, ?_, ?_⟩
      · dsimp only
        rw [Function.update_of_ne hne]
        exact hu
      · rw [Function.update_of_ne hj]
        exact hm
  · intro q u hq
    dsimp only at hq
    by_cases hqp : q = p
    · subst hqp
      exact ⟨i, hp⟩
    · rw [Function.update_of_ne hqp] at hq
      exact h.owned q u hq
  · intro q hq
    have hqp : q ≠ p := by
      rintro rfl
      rw [h.fresh q hq] at hv
      cases hv
    dsimp only
    rw [Function.update_of_ne hqp]
    exact h.fresh q hq

/-- **A block is freed** by its object, which has none then. -/
theorem Owns.free (h : w.Owns m) (hp : w._pSockAddr i = some (some p)) (o : Option Unit) :
    ∃ w', w.free p = some w' ∧
      (w'.setObject i (o.map fun _ => none)).Owns (update m i (o.map fun _ => none)) := by
  obtain ⟨v, hv, -⟩ := h.value i p hp
  refine ⟨{ w with heap := update w.heap p none }, ?_, h.drop o fun q => ?_⟩
  · unfold EndPoints.free
    rw [hv]
    rfl
  · rw [hp, Function.update_apply]
    simp only [Option.some.injEq, eq_comm]

/-! ## Calls -/

/-- An object that there is none of has no block. -/
theorem Owns.bare_of_none (h : w.Owns m) (hi : m i = none) : w.Bare i := by
  intro p hp
  rw [h.none_of hi] at hp
  cases hp

theorem Owns.bare_of_null (h : w.Owns m) (hi : m i = some none) : w.Bare i := by
  intro p hp
  rw [h.null_of hi] at hp
  cases hp

theorem Owns.constructFrom (h : w.Owns m) (hi : w.Bare i) {j : ℕ} {v : Option (List Byte)}
    (hj : m j = some v) : ∃ q w', w._pSockAddr j = some q ∧ w.constructFrom i q = some w' ∧
      w'.Owns (update m i (some v)) := by
  cases v with
  | none => exact ⟨none, _, h.null_of hj, rfl, h.setBare hi (some ())⟩
  | some b =>
    obtain ⟨q, hq, hheap⟩ := h.block_of hj
    refine ⟨some q, w.alloc i b, hq, ?_, h.alloc hi b⟩
    unfold EndPoints.constructFrom
    dsimp only
    rw [hheap]
    rfl

theorem Owns.assign (h : w.Owns m) {j : ℕ} {v u : Option (List Byte)} (hi : m i = some v)
    (hj : m j = some u) : ∃ w', w.call (.assign i j) = some (.void, w') ∧
      w'.Owns (update m i (some (assigned (i = j) v u))) := by
  cases v with
  | none =>
    obtain ⟨q, w', hq, hcons, howns⟩ := h.constructFrom (h.bare_of_null hi) hj
    refine ⟨w', ?_, ?_⟩
    · unfold call
      dsimp only
      rw [h.null_of hi, Option.bind_some, hq, Option.bind_some]
      dsimp only
      rw [hcons]
      rfl
    · cases u with
      | none => exact howns
      | some b => exact howns
  | some b =>
    obtain ⟨p, hp, hheap⟩ := h.block_of hi
    cases u with
    | none =>
      refine ⟨w, ?_, ?_⟩
      · unfold call
        dsimp only
        rw [hp, Option.bind_some, h.null_of hj]
        rfl
      · have hsame : update m i (some (assigned (i = j) (some b) none)) = m := by
          rw [Function.update_eq_self_iff]
          exact hi.symm
        rw [hsame]
        exact h
    | some c =>
      obtain ⟨q, hq, hheapq⟩ := h.block_of hj
      obtain ⟨w₁, hw₁, hpointer, hblocks, howns₁⟩ := h.store hp SockAddr.zero
      have hp₁ : w₁._pSockAddr i = some (some p) := by
        rw [hpointer]
        exact hp
      -- after the `g_bzero`
      have hread : w₁.heap q = some (if i = j then SockAddr.zero else c) := by
        rw [hblocks]
        by_cases hij : i = j
        · subst hij
          rw [hp] at hq
          cases hq
          rw [Function.update_self, if_pos rfl]
        · have hne : q ≠ p := by
            rintro rfl
            exact hij (h.alone i j q hp hq)
          rw [Function.update_of_ne hne, if_neg hij]
          exact hheapq
      obtain ⟨w₂, hw₂, -, -, howns₂⟩ := howns₁.store hp₁ (if i = j then SockAddr.zero else c)
      refine ⟨w₂, ?_, ?_⟩
      · unfold call copyTo
        dsimp only
        rw [hp, Option.bind_some, hq, Option.bind_some]
        dsimp only
        rw [hw₁, Option.bind_some, hread, Option.bind_some, hw₂]
        rfl
      · rw [Function.update_idem] at howns₂
        have hval : assigned (i = j) (some b) (some c) =
            some (if i = j then SockAddr.zero else c) := by
          unfold assigned
          simp only [decide_eq_true_eq]
        rw [hval]
        exact howns₂

theorem Owns.zeroed (h : w.Owns m) {v : Option (List Byte)} (hi : m i = some v) :
    ∃ q p w', w._pSockAddr i = some q ∧ w.zeroed i q = some (p, w') ∧
      w'._pSockAddr i = some (some p) ∧ w'.Owns (update m i (some (some SockAddr.zero))) := by
  cases v with
  | none =>
    exact ⟨none, w.fresh, w.alloc i SockAddr.zero, h.null_of hi, rfl, Function.update_self _ _ _,
      h.alloc (h.bare_of_null hi) SockAddr.zero⟩
  | some b =>
    obtain ⟨p, hp, -⟩ := h.block_of hi
    obtain ⟨w', hw', hpointer, -, howns⟩ := h.store hp SockAddr.zero
    refine ⟨some p, p, w', hp, ?_, ?_, howns⟩
    · unfold EndPoints.zeroed
      dsimp only
      rw [hw']
      rfl
    · rw [hpointer]
      exact hp

theorem Owns.getEndPoint (h : w.Owns m) {v : Option (List Byte)} (hi : m i = some v)
    (bytes : Option (List Byte)) : ∃ w', w.call (.getEndPoint i bytes) = some (.bool bytes.isSome, w') ∧
      w'.Owns (update m i (some (bytes.map SockAddr.named))) := by
  obtain ⟨q, p, w₁, hq, hw₁, hp₁, howns₁⟩ := h.zeroed hi
  unfold call EndPoints.getEndPoint
  dsimp only
  rw [hq, Option.bind_some, hw₁, Option.bind_some]
  cases bytes with
  | none =>
    obtain ⟨w₂, hw₂, howns₂⟩ := howns₁.free hp₁ (some ())
    dsimp only
    rw [hw₂]
    refine ⟨_, rfl, ?_⟩
    rw [Function.update_idem] at howns₂
    exact howns₂
  | some bytes =>
    obtain ⟨w₂, hw₂, -, -, howns₂⟩ := howns₁.store hp₁ (SockAddr.named bytes)
    dsimp only
    rw [hw₂]
    refine ⟨_, rfl, ?_⟩
    rw [Function.update_idem] at howns₂
    exact howns₂

/-- A getter. -/
theorem Owns.look (h : w.Owns m) {v : Option (List Byte)} (hi : m i = some v) {f : List Byte → EpAnswer}
    {d : EpAnswer} : (w._pSockAddr i).bind (w.look f d) = some ((v.map f).getD d, w) := by
  cases v with
  | none =>
    rw [h.null_of hi]
    rfl
  | some b =>
    obtain ⟨p, hp, hheap⟩ := h.block_of hi
    rw [hp, Option.bind_some]
    unfold EndPoints.look
    dsimp only
    rw [hheap]
    rfl

/-- `==`: no two objects have the same block. -/
theorem Owns.equal (h : w.Owns m) {j : ℕ} {v u : Option (List Byte)} (hi : m i = some v)
    (hj : m j = some u) : w.call (.equal i j) = some (.bool (v.isSome ∧ v = u), w) := by
  unfold call
  dsimp only
  cases v with
  | none =>
    rw [h.null_of hi, Option.bind_some]
    cases u with
    | none =>
      rw [h.null_of hj]
      rfl
    | some c =>
      obtain ⟨q, hq, -⟩ := h.block_of hj
      rw [hq]
      rfl
  | some b =>
    obtain ⟨p, hp, hheap⟩ := h.block_of hi
    rw [hp, Option.bind_some]
    cases u with
    | none =>
      rw [h.null_of hj, Option.bind_some]
      simp
    | some c =>
      obtain ⟨q, hq, hheapq⟩ := h.block_of hj
      rw [hq, Option.bind_some]
      dsimp only
      split
      · rename_i hpq
        subst hpq
        rw [hheap] at hheapq
        cases hheapq
        simp
      · rw [hheap, Option.bind_some, hheapq]
        simp

/-- **A call** is defined, and answered as by the values. -/
theorem call_ok {a : EpCall} {o : EpAnswer} {m' : ℕ → Option (Option (List Byte))} (h : w.Owns m)
    (hm : valueCall m a = some (o, m')) : ∃ w', w.call a = some (o, w') ∧ w'.Owns m' := by
  cases a with
  | construct i addr port =>
    obtain ⟨hnone, hm⟩ := Option.ite_none_right_eq_some.mp hm
    cases hm
    exact ⟨_, rfl, h.alloc (h.bare_of_none hnone) _⟩
  | default i =>
    obtain ⟨hnone, hm⟩ := Option.ite_none_right_eq_some.mp hm
    cases hm
    exact ⟨_, rfl, h.setBare (h.bare_of_none hnone) (some ())⟩
  | copy i j =>
    obtain ⟨hnone, hm⟩ := Option.ite_none_right_eq_some.mp hm
    obtain ⟨v, hv, heq⟩ := Option.map_eq_some_iff.mp hm
    cases heq
    obtain ⟨q, w', hq, hcons, howns⟩ := h.constructFrom (h.bare_of_none hnone) hv
    refine ⟨w', ?_, howns⟩
    unfold call
    dsimp only
    rw [hq, Option.bind_some, hcons]
    rfl
  | assign i j =>
    obtain ⟨v, hv, hm⟩ := Option.bind_eq_some_iff.mp hm
    obtain ⟨u, hu, heq⟩ := Option.map_eq_some_iff.mp hm
    cases heq
    exact h.assign hv hu
  | getEndPoint i bytes =>
    obtain ⟨v, hv, heq⟩ := Option.map_eq_some_iff.mp hm
    cases heq
    exact h.getEndPoint hv bytes
  | destroy i =>
    obtain ⟨v, hv, heq⟩ := Option.map_eq_some_iff.mp hm
    cases heq
    unfold call
    dsimp only
    cases v with
    | none =>
      rw [h.null_of hv]
      exact ⟨_, rfl, h.setBare (h.bare_of_null hv) none⟩
    | some b =>
      obtain ⟨p, hp, -⟩ := h.block_of hv
      obtain ⟨w', hfree, howns⟩ := h.free hp none
      rw [hp, Option.bind_some]
      dsimp only
      rw [hfree]
      exact ⟨_, rfl, howns⟩
  | equal i j =>
    obtain ⟨v, hv, hm⟩ := Option.bind_eq_some_iff.mp hm
    obtain ⟨u, hu, heq⟩ := Option.map_eq_some_iff.mp hm
    cases heq
    exact ⟨w, h.equal hv hu, h⟩
  | valid i =>
    obtain ⟨v, hv, heq⟩ := Option.map_eq_some_iff.mp hm
    cases heq
    refine ⟨w, ?_, h⟩
    unfold call
    dsimp only
    cases v with
    | none =>
      rw [h.null_of hv]
      rfl
    | some b =>
      obtain ⟨p, hp, -⟩ := h.block_of hv
      rw [hp]
      rfl
  | family i =>
    obtain ⟨v, hv, heq⟩ := Option.map_eq_some_iff.mp hm
    cases heq
    refine ⟨w, (h.look hv).trans ?_, h⟩
    cases v <;> rfl
  | port i =>
    obtain ⟨v, hv, heq⟩ := Option.map_eq_some_iff.mp hm
    cases heq
    refine ⟨w, (h.look hv).trans ?_, h⟩
    cases v <;> rfl
  | address i =>
    obtain ⟨v, hv, heq⟩ := Option.map_eq_some_iff.mp hm
    cases heq
    refine ⟨w, (h.look hv).trans ?_, h⟩
    cases v <;> rfl

/-- **Endpoints are values**, along any sequence of calls on any number of objects. -/
theorem are_values (l : List EpCall) : AreValues l := by
  have hcall : ∀ w m a o m', Owns w m → valueCall m a = some (o, m') →
      ∃ w', w.call a = some (o, w') ∧ w'.Owns m' := fun _ _ _ _ _ h hm => call_ok h hm
  refine ⟨refines_of_step hcall l _ _ start_owns, fun addr port hport => ?_⟩
  exact ⟨SockAddr.family_init addr port, SockAddr.port_init addr hport, SockAddr.address_init addr port⟩

end EndPoints

end Netlib
