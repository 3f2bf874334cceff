import Netlib.Proof.Coroutine
import Netlib.Proof.Svector

/-!
# The room for the free ids

A call of a sound schedule gives back one id at most, and doubles the table at most once. So it
leaves a schedule that fits exactly when it meets `Roomy` (`Inv.fits_iff`).
-/

namespace Netlib

open Function (update)
open Lib

/-- An `svector` of pointers or numbers whose first capacity is 100. -/
theorem svector_hasRoom_iff {α : Type*} {sizeT : ℕ} {v : Svector α} (h0 : 0 < sizeT) (h8 : sizeT ≤ 8)
    (hcap : v._cap = 100) : v.HasRoom sizeT ↔ v._size < svectorRoom := by
  have hbytes : sizeT * (2 * v._cap) < 2 ^ 64 := by
    rw [hcap]
    omega
  rw [Svector.hasRoom_iff h0 hbytes, hcap]
  rfl

namespace Schedule

variable {s s' : Schedule} {i p : ℕ}

/-- The free ids and the size of the table are the same. -/
structure SameRoom (s s' : Schedule) : Prop where
  freeid : s'._freeid = s._freeid
  cap : s'._cap = s._cap

theorem SameRoom.refl (s : Schedule) : s.SameRoom s := ⟨rfl, rfl⟩

theorem SameRoom.trans {s'' : Schedule} (h : s.SameRoom s') (h' : s'.SameRoom s'') :
    s.SameRoom s'' := ⟨h'.freeid.trans h.freeid, h'.cap.trans h.cap⟩

theorem SameRoom.fits_iff (h : s.SameRoom s') : s'.Fits ↔ s.Fits := by
  unfold Fits
  rw [h.freeid, h.cap]

theorem setEntry_room {e : Option ℕ} (h : s.setEntry i e = some s') : s.SameRoom s' := by
  unfold setEntry at h
  split at h
  · cases h
  · split at h
    · cases h
      exact ⟨rfl, rfl⟩
    · cases h

theorem free_room (h : s.free p = some s') : s.SameRoom s' := by
  unfold free at h
  split at h
  · cases h
  · cases h
    exact ⟨rfl, rfl⟩

theorem setStatus_room {status : CoStatus} (h : s.setStatus p status = some s') :
    s.SameRoom s' := by
  unfold setStatus at h
  split at h
  · cases h
  · cases h
    exact ⟨rfl, rfl⟩

/-- `resume` up to the switch gives no id back. -/
theorem resume_room {x : ℤ} (h : s.resume x = some s') : s.SameRoom s' := by
  unfold resume at h
  split at h
  · cases h
    exact .refl s
  · split at h
    · cases h
      exact .refl s
    · obtain ⟨e, -, h⟩ := Option.bind_eq_some_iff.mp h
      split at h
      · cases h
        exact .refl s
      · obtain ⟨c, -, h⟩ := Option.bind_eq_some_iff.mp h
        split at h
        · obtain ⟨s₁, hset, rfl⟩ := Option.map_eq_some_iff.mp h
          exact ⟨(setStatus_room hset).freeid, (setStatus_room hset).cap⟩
        · obtain ⟨s₁, hset, rfl⟩ := Option.map_eq_some_iff.mp h
          exact ⟨(setStatus_room hset).freeid, (setStatus_room hset).cap⟩
        · cases h
          exact .refl s

/-- One id is given back. -/
structure GaveBack (s s' : Schedule) : Prop where
  freeid : s'._freeid.length = s._freeid.length + 1
  cap : s'._cap = s._cap

theorem GaveBack.fits_iff (h : s.GaveBack s') (hfit : s.Fits) :
    s'.Fits ↔ s._freeid.length < svectorRoom := by
  have hcap := hfit.2
  unfold Fits
  rw [h.freeid, h.cap]
  omega

theorem release_room (h : s.release p i = some s') : s.GaveBack s' := by
  obtain ⟨s₁, hfree, h⟩ := Option.bind_eq_some_iff.mp h
  obtain ⟨s₂, hset, rfl⟩ := Option.map_eq_some_iff.mp h
  have hsame := (free_room hfree).trans (setEntry_room hset)
  refine ⟨?_, hsame.cap⟩
  have hlen := congrArg List.length hsame.freeid
  dsimp only at hlen ⊢
  rw [List.length_cons, hlen]

theorem switchBack_room (h : s.switchBack = some s') (hlive : ∀ f c, s._ctx = some f →
    s.heap f.co = some c → c._status ≠ .dead) : s.SameRoom s' := by
  obtain ⟨f, hf, h⟩ := Option.bind_eq_some_iff.mp h
  obtain ⟨c, hc, h⟩ := Option.bind_eq_some_iff.mp h
  rw [if_neg (hlive f c hf hc), Option.map_some] at h
  cases h
  exact ⟨rfl, rfl⟩

/-- `yield` leaves the coroutine alive. -/
theorem Inv.yield_room (h : s.Inv) (hs : s.yield = some s') : s.SameRoom s' := by
  unfold Schedule.yield at hs
  split at hs
  · cases hs
    exact .refl s
  · rename_i p hp
    obtain ⟨s₁, hset, hs⟩ := Option.bind_eq_some_iff.mp hs
    refine (setStatus_room hset).trans (switchBack_room hs ?_)
    obtain ⟨i, hr⟩ := h.control.inside p hp
    obtain ⟨c₀, -, hheap, -⟩ := h.table.coAt_of_slot hr.slot
    rw [setStatus_eq hheap] at hset
    cases hset
    intro f c hf hc
    obtain rfl := Option.some.inj (hr.ctx.symm.trans hf)
    dsimp only at hc
    rw [Function.update_self] at hc
    cases hc
    exact fun hdead => CoStatus.noConfusion hdead

/-- The end of a routine gives its id back. -/
theorem Inv.finish_room (h : s.Inv) (hs : s.finish = some s') : s.GaveBack s' := by
  obtain ⟨p, hp, hs⟩ := Option.bind_eq_some_iff.mp hs
  obtain ⟨i, hr⟩ := h.control.inside p hp
  obtain ⟨c, -, hheap, -⟩ := h.table.coAt_of_slot hr.slot
  let d : Schedule := { s with heap := update s.heap p (some { c with _status := .dead }) }
  have hset : s.setStatus p .dead = some d := setStatus_eq hheap .dead
  have hdead : d.heap p = some { c with _status := .dead } := Function.update_self ..
  rw [hset, Option.bind_some, switchBack_dead (s := d) hr.ctx hdead rfl] at hs
  obtain ⟨e, hrel, rfl⟩ := Option.map_eq_some_iff.mp hs
  exact ⟨(release_room hrel).freeid, (release_room hrel).cap⟩

/-- An id is taken off, or the table is doubled where it is full. -/
theorem alloc_room {routine data : ℕ} (h : s._alloc_co_ routine data = some (s', i)) :
    s'._freeid = s._freeid.tail ∧
      s'._cap = if s._freeid = [] ∧ s._cap ≤ s._nco then s._cap * 2 else s._cap := by
  have hset : ∀ (m : Schedule) (j : ℕ) (e : Option ℕ) (k : ℕ),
      (m.setEntry j e).map (·, k) = some (s', i) → m.SameRoom s' := by
    intro m j e k hm
    obtain ⟨m', hm', he⟩ := Option.map_eq_some_iff.mp hm
    cases he
    exact setEntry_room hm'
  unfold _alloc_co_ at h
  dsimp only at h
  split at h
  · rename_i id rest hf
    have hsame := hset _ _ _ _ h
    refine ⟨hsame.freeid.trans (by rw [hf]; rfl), ?_⟩
    rw [if_neg (fun hnil => by rw [hf] at hnil; cases hnil.1)]
    exact hsame.cap
  · rename_i hf
    split at h
    · rename_i hfull
      have hsame := hset _ _ _ _ h
      refine ⟨hsame.freeid.trans (by rw [hf]; rfl), ?_⟩
      rw [if_pos ⟨hf, hfull⟩]
      exact hsame.cap
    · rename_i hroom
      have hsame := hset _ _ _ _ h
      refine ⟨hsame.freeid.trans (by rw [hf]; rfl), ?_⟩
      rw [if_neg fun hboth => hroom hboth.2]
      exact hsame.cap

/-- **`create`** fits unless it doubles a table of `2 ^ 30` entries. -/
theorem create_fits_iff {granted : Bool} {routine data : ℕ} {r : ℤ} (hfit : s.Fits)
    (h : s.create routine data = some (s', r)) :
    s'.Fits ↔ s.Roomy (.create granted routine data) := by
  unfold create at h
  unfold Roomy
  cases hco : s._co with
  | none =>
    rw [hco] at h
    cases h
    exact iff_of_true hfit fun hopen => absurd rfl hopen
  | some t =>
    rw [hco] at h
    obtain ⟨⟨s₁, i⟩, halloc, he⟩ := Option.map_eq_some_iff.mp h
    cases he
    obtain ⟨hfree, hcap⟩ := alloc_room halloc
    have hlen := congrArg List.length hfree
    rw [List.length_tail] at hlen
    obtain ⟨hroom, hint⟩ := hfit
    unfold Fits
    rw [hcap]
    constructor
    · rintro ⟨-, hlt⟩ - hnil hfull
      rw [if_pos ⟨hnil, hfull⟩] at hlt
      omega
    · intro hdouble
      refine ⟨by omega, ?_⟩
      split
      · rename_i hgrow
        have := hdouble (Option.some_ne_none t) hgrow.1 hgrow.2
        omega
      · exact hint

/-- A call of `destroy` that has a coroutine to free. -/
def Frees (s : Schedule) (x : ℤ) : Prop := s.curid ≠ some x ∧ 0 ≤ x ∧ s.slot x.toNat ≠ none

theorem Inv.destroy_frees (h : s.Inv) {x : ℤ} (hx : s.Frees x) :
    ∃ p, s.slot x.toNat = some p ∧ s.destroy x = s.release p x.toNat := by
  obtain ⟨hother, h0, hlive⟩ := hx
  obtain ⟨p, hp⟩ := Option.ne_none_iff_exists'.mp hlive
  obtain ⟨cur, hcur⟩ := h.curid_defined
  have hlt := h.table.lt_cap hp
  refine ⟨p, hp, ?_⟩
  unfold Schedule.destroy
  rw [hcur, Option.bind_some, if_pos (.inr fun he => hother (by rw [hcur, he])),
    if_pos ⟨h0, by omega⟩, h.table.entry_eq hlt, hp, Option.bind_some]

theorem Inv.destroy_idle (h : s.Inv) {x : ℤ} (hx : ¬ s.Frees x) : s.destroy x = some s := by
  obtain ⟨cur, hcur⟩ := h.curid_defined
  unfold Schedule.destroy
  rw [hcur, Option.bind_some]
  split
  · rename_i hother
    split
    · rename_i hin
      have hlt : x.toNat < s._cap := by omega
      rw [h.table.entry_eq hlt, Option.bind_some]
      cases hp : s.slot x.toNat with
      | none => rfl
      | some p =>
        -- then it is the running one
        have hself : s.curid = some x := by
          by_contra hne
          exact hx ⟨hne, hin.1, by rw [hp]; exact Option.some_ne_none p⟩
        rcases hother with hmain | hne
        · rw [curid_main (Option.isNone_iff_eq_none.mp hmain)] at hself
          have := Option.some.inj hself
          omega
        · rw [hcur] at hself
          exact absurd (Option.some.inj hself) hne
    · rfl
  · rfl

/-- **`destroy`** fits unless it frees a coroutine where `_freeid` is full. -/
theorem Inv.destroy_fits_iff (h : s.Inv) {x : ℤ} (hfit : s.Fits) (hs : s.destroy x = some s') :
    s'.Fits ↔ s.Roomy (.destroy x) := by
  by_cases hx : s.Frees x
  · obtain ⟨p, -, hrel⟩ := h.destroy_frees hx
    rw [hrel] at hs
    rw [(release_room hs).fits_iff hfit]
    exact ⟨fun hroom _ _ _ => hroom, fun hroom => hroom hx.1 hx.2.1 hx.2.2⟩
  · rw [h.destroy_idle hx] at hs
    obtain rfl := Option.some.inj hs
    exact iff_of_true hfit fun h₁ h₂ h₃ => absurd ⟨h₁, h₂, h₃⟩ hx

theorem start_fits : start.Fits := by decide

/-- What `close` leaves has no ids and no table. -/
theorem wipe_fits (s : Schedule) : s.wipe.Fits :=
  ⟨Nat.zero_le _, show 0 < 2 ^ 31 by decide⟩

/-- **A call fits exactly when it meets the condition.** -/
theorem Inv.fits_iff (h : s.Inv) {op : CoOp} (hfit : s.Fits) (hs : s.step op = some s') :
    s'.Fits ↔ s.Roomy op := by
  obtain ⟨⟨s₁, r⟩, hcall, rfl⟩ := Option.map_eq_some_iff.mp hs
  have hstep : ∀ {f : Option Schedule}, f.map (·, (0 : ℤ)) = some (s₁, r) → f = some s₁ := by
    intro f hf
    obtain ⟨s₂, hf', he⟩ := Option.map_eq_some_iff.mp hf
    cases he
    exact hf'
  cases op with
  | initEnv granted =>
    cases hcall
    refine iff_of_true ?_ trivial
    unfold Schedule.initEnv
    split
    · exact hfit
    · exact ⟨hfit.1, show DEFAULT_COROUTINE < 2 ^ 31 by decide⟩
  | create granted routine data => exact create_fits_iff hfit hcall
  | resume x => exact iff_of_true ((resume_room (hstep hcall)).fits_iff.mpr hfit) trivial
  | yield => exact iff_of_true ((h.yield_room (hstep hcall)).fits_iff.mpr hfit) trivial
  | destroy x => exact h.destroy_fits_iff hfit (hstep hcall)
  | curid =>
    obtain ⟨r', -, he⟩ := Option.map_eq_some_iff.mp hcall
    cases he
    exact iff_of_true hfit trivial
  | close =>
    refine iff_of_true ?_ trivial
    have hclose := hstep hcall
    unfold Schedule.close at hclose
    split at hclose
    · obtain ⟨s₂, -, rfl⟩ := Option.map_eq_some_iff.mp hclose
      exact wipe_fits s₂
    · cases hclose
      exact wipe_fits s
  | finish => exact (h.finish_room (hstep hcall)).fits_iff hfit

/-- **A call that meets the condition** is defined with the room that there is. -/
theorem Inv.step_within (h : s.Inv) {op : CoOp} (hfit : s.Fits) (hop : s.Issued op)
    (hroom : s.Roomy op) : ∃ s', within (s.step op) = some s' ∧ s'.Inv ∧ s'.Fits := by
  obtain ⟨s', r, hcall, hinv⟩ := h.call hop
  have hs : s.step op = some s' := congrArg (Option.map Prod.fst) hcall
  have hfit' := (h.fits_iff hfit hs).mpr hroom
  refine ⟨s', ?_, hinv, hfit'⟩
  unfold within
  rw [hs, Option.bind_some, if_pos hfit']

end Schedule

end Netlib
