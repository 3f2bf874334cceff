import Netlib.Spec.Registry
import Mathlib.Data.List.Nodup

/-!
# The registry is right until a thread leaves

`_CreateIoImpl` adds to the map, the vector and the counter. `_ReleaseIoImpl` takes from the
vector and the counter only: the entry under the old handler stays, so the map is wrong after
every release (`Inv.release`), and `Close` finds by it a service that has stopped.
-/

namespace Netlib

open Lib

namespace Registry

variable {r r' : Registry}

/-! ## All runs -/

/-- What holds in every run: the vector has the threads that are in `Run`, once each. -/
structure Inv (r : Registry) : Prop where
  nodup : r._implvector.Nodup
  mem : ∀ i, i ∈ r._implvector ↔ r.loop i ≠ .outside
  cnt : r._implcnt = r._implvector.length
  opened : ∀ i h, r._handler i = some h → h ∈ r.opened
  inj : ∀ i j h, r._handler i = some h → r._handler j = some h → i = j

/-- A step that leaves the threads alone. -/
theorem Inv.congr (h : r.Inv) (hh : r'._handler = r._handler) (hl : r'.loop = r.loop)
    (ho : r'.opened = r.opened) (hv : r'._implvector = r._implvector)
    (hc : r'._implcnt = r._implcnt) : r'.Inv := by
  refine ⟨?_, ?_, ?_, ?_, ?_⟩
  · rw [hv]
    exact h.nodup
  · rw [hv, hl]
    exact h.mem
  · rw [hc, hv]
    exact h.cnt
  · rw [hh, ho]
    exact h.opened
  · rw [hh]
    exact h.inj

/-- A thread moves on inside `Run`. -/
theorem Inv.setLoop (h : r.Inv) {i : ℕ} {l : Loop} (hl : r.loop i ≠ .outside) (hn : l ≠ .outside) :
    { r with loop := Function.update r.loop i l }.Inv := by
  refine ⟨h.nodup, ?_, h.cnt, h.opened, h.inj⟩
  intro j
  by_cases hj : j = i
  · subst hj
    dsimp only
    rw [Function.update_self]
    exact iff_of_true ((h.mem j).mpr hl) hn
  · dsimp only
    rw [Function.update_of_ne hj]
    exact h.mem j

/-- A thread gets a handler that no other has. -/
theorem Inv.setHandler (h : r.Inv) {i fd : ℕ} {opened : List ℕ} (hfd : fd ∉ opened)
    (hkeep : ∀ j k, j ≠ i → r._handler j = some k → k ∈ opened) :
    { r with _handler := Function.update r._handler i (some fd), opened := fd :: opened }.Inv := by
  have hold : ∀ j k, j ≠ i → Function.update r._handler i (some fd) j = some k → k ∈ opened := by
    intro j k hj hk
    rw [Function.update_of_ne hj] at hk
    exact hkeep j k hj hk
  have hnew : ∀ k, Function.update r._handler i (some fd) i = some k → k = fd := by
    intro k hk
    rw [Function.update_self] at hk
    exact (Option.some.inj hk).symm
  refine ⟨h.nodup, h.mem, h.cnt, ?_, ?_⟩
  · intro j k hk
    by_cases hj : j = i
    · subst hj
      rw [hnew k hk]
      exact List.mem_cons_self
    · exact List.mem_cons_of_mem fd (hold j k hj hk)
  · intro j j' k hk hk'
    by_cases hj : j = i
    · subst hj
      by_cases hj' : j' = j
      · exact hj'.symm
      · rw [hnew k hk] at hk'
        exact absurd (hold j' fd hj' hk') hfd
    · by_cases hj' : j' = i
      · subst hj'
        rw [hnew k hk'] at hk
        exact absurd (hold j fd hj hk) hfd
      · dsimp only at hk hk'
        rw [Function.update_of_ne hj] at hk
        rw [Function.update_of_ne hj'] at hk'
        exact h.inj j j' k hk hk'

theorem Inv.getServiceImpl (h : r.Inv) {i fd : ℕ} (hfd : fd ∉ r.opened) :
    (r.getServiceImpl i fd).Inv := by
  unfold Registry.getServiceImpl
  split
  · exact h.setHandler hfd fun j k _ hk => h.opened j k hk
  · exact h

theorem Inv.register (h : r.Inv) {i k : ℕ} (hl : r.loop i = .outside) : (r.register i k).Inv := by
  have hnew : i ∉ r._implvector := by
    rw [h.mem, hl]
    exact fun hne => hne rfl
  refine ⟨?_, ?_, ?_, h.opened, h.inj⟩
  · refine List.nodup_append.mpr ⟨h.nodup, List.nodup_singleton i, ?_⟩
    rintro a ha b hb rfl
    rw [List.mem_singleton] at hb
    exact hnew (hb ▸ ha)
  · intro j
    unfold Registry.register
    dsimp only
    rw [List.mem_append, List.mem_singleton]
    by_cases hj : j = i
    · subst hj
      rw [Function.update_self]
      exact iff_of_true (.inr rfl) (by decide)
    · rw [Function.update_of_ne hj, ← h.mem j]
      simp [hj]
  · unfold Registry.register
    dsimp only
    rw [h.cnt, List.length_append, List.length_singleton]
    rfl

theorem getServiceImpl_loop (r : Registry) (i fd : ℕ) : (r.getServiceImpl i fd).loop = r.loop := by
  unfold getServiceImpl
  split
  · rfl
  · rfl

theorem Inv.createIoImpl (h : r.Inv) {i fd : ℕ} (hl : r.loop i = .outside) (hfd : fd ∉ r.opened) :
    (r._createIoImpl i fd).Inv := by
  have hget := h.getServiceImpl (i := i) hfd
  have hloop := getServiceImpl_loop r i fd
  unfold _createIoImpl
  dsimp only
  split
  · split
    · exact hget
    · exact hget.register (by rw [hloop]; exact hl)
  · exact hget

theorem Inv.closeHandler (h : r.Inv) {i k fd : ℕ} (hl : r.loop i = .left)
    (hk : r._handler i = some k) (hfd : fd ∉ r.opened.erase k) : (r.closeHandler i k fd).Inv := by
  have hset := h.setHandler (i := i) hfd (by
    intro j k' hj hk'
    have hne : k' ≠ k := by
      rintro rfl
      exact hj (h.inj j i k' hk' hk)
    exact (List.mem_erase_of_ne hne).mpr (h.opened j k' hk'))
  have hout : r.loop i ≠ .outside := by
    rw [hl]
    decide
  exact (hset.setLoop (i := i) (l := .releasing) hout (by decide)).congr rfl rfl rfl rfl rfl

theorem Inv.erase (h : r.Inv) {i : ℕ} (hl : r.loop i = .releasing) : (r.erase i).Inv := by
  have hmem : i ∈ r._implvector := by
    rw [h.mem, hl]
    decide
  refine ⟨h.nodup.erase i, ?_, ?_, h.opened, h.inj⟩
  · intro j
    unfold Registry.erase
    dsimp only
    rw [h.nodup.mem_erase_iff, h.mem]
    by_cases hj : j = i
    · subst hj
      rw [Function.update_self]
      exact iff_of_false (fun hne => hne.1 rfl) fun hne => hne rfl
    · rw [Function.update_of_ne hj]
      exact ⟨fun hne => hne.2, fun hne => ⟨hj, hne⟩⟩
  · have hlen := List.length_erase_of_mem hmem
    have hpos := List.length_pos_of_mem hmem
    unfold Registry.erase
    dsimp only
    rw [h.cnt, hlen]
    omega

theorem Inv.step {a : RegistryAction} (h : r.Inv) (hs : r.step a = some r') : r'.Inv := by
  cases a with
  | createIoImpl i fd =>
    obtain ⟨⟨hl, hfd⟩, hs⟩ := Option.ite_none_right_eq_some.mp hs
    cases hs
    exact h.createIoImpl hl hfd
  | leave i =>
    obtain ⟨hl, hs⟩ := Option.ite_none_right_eq_some.mp hs
    cases hs
    exact h.setLoop (by rw [hl]; decide) (by decide)
  | closeHandler i fd =>
    unfold Registry.step at hs
    dsimp only at hs
    split at hs
    · rename_i k hk
      obtain ⟨⟨hl, hfd⟩, hs⟩ := Option.ite_none_right_eq_some.mp hs
      cases hs
      exact h.closeHandler hl hk hfd
    · cases hs
  | erase i =>
    obtain ⟨hl, hs⟩ := Option.ite_none_right_eq_some.mp hs
    cases hs
    exact h.erase hl
  | ctlEpoll impl flag events ctl =>
    obtain rfl := Option.some.inj hs
    exact h.congr rfl rfl rfl rfl rfl
  | op impl core =>
    obtain ⟨-, hs⟩ := Option.ite_none_right_eq_some.mp hs
    cases hs
    exact h.congr rfl rfl rfl rfl rfl
  | close impl =>
    obtain rfl := Option.some.inj hs
    unfold close
    dsimp only
    split
    · exact h.congr rfl rfl rfl rfl rfl
    · exact h
  | enqueue impl i =>
    obtain ⟨-, hs⟩ := Option.ite_none_right_eq_some.mp hs
    cases hs
    exact h.congr rfl rfl rfl rfl rfl
  | doClose i =>
    unfold Registry.step at hs
    dsimp only at hs
    split at hs
    · obtain ⟨-, hs⟩ := Option.ite_none_right_eq_some.mp hs
      cases hs
      exact h.congr rfl rfl rfl rfl rfl
    · cases hs

theorem start_inv (opened : List ℕ) : (start opened).Inv := by
  refine ⟨List.nodup_nil, ?_, rfl, ?_, ?_⟩
  · intro i
    exact iff_of_false List.not_mem_nil fun hne => hne rfl
  · intro i h hh
    cases hh
  · intro i j h hh
    cases hh

theorem reach_inv {opened : List ℕ} {C : Registry → RegistryAction → Prop}
    (h : Reach step C (start opened) r) : r.Inv :=
  h.inv (start_inv opened) fun _ _ _ hi _ hs => hi.step hs

/-- **A release breaks the map**: the entry of the old handler is left, for a service that is not in
the vector any more. -/
theorem Inv.release {i fd : ℕ} {r₁ r₂ : Registry} (h : r.Inv) (hc : r.Consistent)
    (h1 : r.step (.closeHandler i fd) = some r₁) (h2 : r₁.step (.erase i) = some r₂) :
    ¬ r₂.Consistent := by
  unfold Registry.step at h1
  dsimp only at h1
  split at h1
  · rename_i k hk
    obtain ⟨⟨hl, -⟩, h1⟩ := Option.ite_none_right_eq_some.mp h1
    cases h1
    obtain ⟨-, h2⟩ := Option.ite_none_right_eq_some.mp h2
    cases h2
    have hmem : i ∈ r._implvector := by
      rw [h.mem, hl]
      decide
    have hentry : r._implmap k = some i := (hc.map k i).mpr ⟨hmem, hk⟩
    intro hc2
    exact h.nodup.not_mem_erase ((hc2.map k i).mp hentry).1
  · cases h1

/-! ## Runs in which no thread leaves -/

/-- What holds while all threads stay: the map, and every service in it runs its loop. -/
structure Whole (r : Registry) : Prop where
  map : ∀ h i, r._implmap h = some i ↔ i ∈ r._implvector ∧ r._handler i = some h
  running : ∀ i, r.loop i ≠ .outside → r.loop i = .looping
  inflight : ∀ e ∈ r.inflight, r.loop e.2 = .looping
  enqueued : ∀ e ∈ r.enqueued, e.2 = .looping

theorem Whole.getServiceImpl (h : r.Whole) (hi : r.Inv) {i fd : ℕ} (hl : r.loop i = .outside) :
    (r.getServiceImpl i fd).Whole := by
  unfold Registry.getServiceImpl
  split
  · refine ⟨?_, h.running, h.inflight, h.enqueued⟩
    intro k j
    dsimp only
    rw [h.map]
    by_cases hj : j = i
    · subst hj
      have hno : j ∉ r._implvector := by
        rw [hi.mem, hl]
        exact fun hne => hne rfl
      exact iff_of_false (fun hm => hno hm.1) fun hm => hno hm.1
    · rw [Function.update_of_ne hj]
  · exact h

/-- **A thread registers**: no entry is overwritten, since its handler is its own. -/
theorem Whole.register (h : r.Whole) (hi : r.Inv) {i k : ℕ} (hl : r.loop i = .outside)
    (hk : r._handler i = some k) : (r.register i k).Whole := by
  have hnew : i ∉ r._implvector := by
    rw [hi.mem, hl]
    exact fun hne => hne rfl
  unfold Registry.register
  refine ⟨?_, ?_, ?_, h.enqueued⟩
  · intro k' j
    dsimp only
    rw [List.mem_append, List.mem_singleton]
    by_cases hk' : k' = k
    · subst hk'
      rw [Function.update_self]
      refine ⟨?_, ?_⟩
      · intro hj
        obtain rfl := Option.some.inj hj
        exact ⟨.inr rfl, hk⟩
      · rintro ⟨-, hj⟩
        rw [hi.inj j i k' hj hk]
    · rw [Function.update_of_ne hk', h.map]
      refine ⟨fun hm => ⟨.inl hm.1, hm.2⟩, ?_⟩
      rintro ⟨hm | rfl, hj⟩
      · exact ⟨hm, hj⟩
      · rw [hk] at hj
        exact absurd (Option.some.inj hj).symm hk'
  · intro j hj
    dsimp only at hj ⊢
    by_cases hji : j = i
    · subst hji
      exact Function.update_self _ _ _
    · rw [Function.update_of_ne hji] at hj ⊢
      exact h.running j hj
  · intro e he
    dsimp only
    have hne : e.2 ≠ i := by
      intro heq
      have hrun := h.inflight e he
      rw [heq, hl] at hrun
      cases hrun
    rw [Function.update_of_ne hne]
    exact h.inflight e he

theorem Whole.createIoImpl (h : r.Whole) (hi : r.Inv) {i fd : ℕ} (hl : r.loop i = .outside)
    (hfd : fd ∉ r.opened) : (r._createIoImpl i fd).Whole := by
  have hget : (r.getServiceImpl i fd).Whole := h.getServiceImpl hi hl
  have hinv := hi.getServiceImpl (i := i) hfd
  have hloop := getServiceImpl_loop r i fd
  unfold _createIoImpl
  dsimp only
  split
  · rename_i k hk
    split
    · exact hget
    · exact hget.register hinv (by rw [hloop]; exact hl) hk
  · exact hget

/-- The service that `Close` finds is in the vector. -/
theorem Whole.close (h : r.Whole) (hi : r.Inv) (impl : ℕ) : (r.close impl).Whole := by
  unfold Registry.close
  dsimp only
  split
  · refine ⟨h.map, h.running, ?_, h.enqueued⟩
    intro e he
    dsimp only at he ⊢
    split at he
    · rename_i i hfind
      rcases List.mem_append.mp he with he | he
      · exact h.inflight e he
      · rw [List.mem_singleton] at he
        unfold _getIoServiceImpl at hfind
        split at hfind
        · cases hfind
        split at hfind
        · cases hfind
        have hmem := ((h.map _ _).mp hfind).1
        rw [he]
        exact h.running i ((hi.mem i).mp hmem)
    · exact h.inflight e he
  · exact h

theorem Whole.step {a : RegistryAction} (h : r.Whole) (hi : r.Inv) (ha : r.Stays a)
    (hs : r.step a = some r') : r'.Whole := by
  cases a with
  | createIoImpl i fd =>
    obtain ⟨⟨hl, hfd⟩, hs⟩ := Option.ite_none_right_eq_some.mp hs
    cases hs
    exact h.createIoImpl hi hl hfd
  | leave i => exact absurd ha id
  | closeHandler i fd =>
    unfold Registry.step at hs
    dsimp only at hs
    split at hs
    · obtain ⟨⟨hl, -⟩, -⟩ := Option.ite_none_right_eq_some.mp hs
      have hrun := h.running i (by rw [hl]; decide)
      rw [hl] at hrun
      cases hrun
    · cases hs
  | erase i =>
    obtain ⟨hl, -⟩ := Option.ite_none_right_eq_some.mp hs
    have hrun := h.running i (by rw [hl]; decide)
    rw [hl] at hrun
    cases hrun
  | ctlEpoll impl flag events ctl =>
    obtain rfl := Option.some.inj hs
    exact ⟨h.map, h.running, h.inflight, h.enqueued⟩
  | op impl core =>
    obtain ⟨-, hs⟩ := Option.ite_none_right_eq_some.mp hs
    cases hs
    exact ⟨h.map, h.running, h.inflight, h.enqueued⟩
  | close impl =>
    obtain rfl := Option.some.inj hs
    exact h.close hi impl
  | enqueue impl i =>
    obtain ⟨hmem, hs⟩ := Option.ite_none_right_eq_some.mp hs
    cases hs
    refine ⟨h.map, h.running, ?_, ?_⟩
    · intro e he
      exact h.inflight e (List.mem_of_mem_erase he)
    · intro e he
      rcases List.mem_append.mp he with he | he
      · exact h.enqueued e he
      · rw [List.mem_singleton.mp he]
        exact h.inflight (impl, i) hmem
  | doClose i =>
    unfold Registry.step at hs
    dsimp only at hs
    split at hs
    · obtain ⟨-, hs⟩ := Option.ite_none_right_eq_some.mp hs
      cases hs
      exact ⟨h.map, h.running, h.inflight, h.enqueued⟩
    · cases hs

theorem start_whole (opened : List ℕ) : (start opened).Whole := by
  refine ⟨?_, ?_, ?_, ?_⟩
  · intro h i
    refine ⟨?_, ?_⟩
    · intro hm
      cases hm
    · rintro ⟨hm, -⟩
      cases hm
  · intro i hne
    exact absurd rfl hne
  · intro e he
    cases he
  · intro e he
    cases he

/-- **The registry is right** in every run in which no thread leaves its loop, and wrong after every
release from a state in which it was right. -/
theorem registry_sound (opened : List ℕ) :
    (∀ r, Reach step Stays (start opened) r → r.Sound) ∧
      ∀ r r₁ r₂ i fd, Reach step always (start opened) r → r.Consistent →
        r.step (.closeHandler i fd) = some r₁ → r₁.step (.erase i) = some r₂ → ¬ r₂.Consistent := by
  refine ⟨?_, ?_⟩
  · intro r h
    have hinv : r.Inv ∧ r.Whole := by
      refine h.inv (I := fun r => r.Inv ∧ r.Whole) ⟨start_inv opened, start_whole opened⟩ ?_
      intro r a r' hi ha hs
      exact ⟨hi.1.step hs, hi.2.step hi.1 ha hs⟩
    exact ⟨fun _ => ⟨hinv.2.map, hinv.1.cnt⟩, hinv.2.enqueued⟩
  · intro r r₁ r₂ i fd h hc h1 h2
    exact (reach_inv h).release hc h1 h2

/-- Two threads run the service; a socket is bound to one of them and closed. Then a thread runs
another service and leaves it. -/
theorem registry_sound_two :
    (∃ r : Registry, r._implvector = [0, 1] ∧ r.enqueued = [(1, .looping)] ∧ r.Sound) ∧
      ∃ r : Registry, r._implvector = [] ∧ r._implmap 5 = some 0 ∧ ¬ r.Consistent := by
  have hrun : Reach step Stays (start [0]) _ := Reach.of_foldlM
    (l := [.createIoImpl 0 5, .createIoImpl 1 6, .op 9 (Core.init.openFd 7),
      .ctlEpoll 9 .add ⟨true, false, false⟩ none, .close 9, .enqueue 9 1, .doClose 1])
    (by simp [Stays]) rfl
  have hone : Reach step Stays (start [0]) _ := Reach.single (a := .createIoImpl 0 5) trivial rfl
  have hloop : ∀ i, Function.update (fun _ => Loop.outside) 0 .looping i ≠ .releasing := by
    intro i
    by_cases hi : i = 0
    · subst hi
      decide
    · simp [hi]
  have hsound := ((registry_sound [0]).1 _ hone).consistent hloop
  have hleave : Reach step always (start [0]) _ :=
    (hone.mono fun _ _ _ => trivial).next (a := .leave 0) trivial rfl
  refine ⟨⟨_, rfl, rfl, (registry_sound [0]).1 _ hrun⟩, _, rfl, rfl,
    (registry_sound [0]).2 _ _ _ 0 5 hleave ⟨hsound.map, hsound.cnt⟩ rfl rfl⟩

/-- A thread leaves: the map still has its service. -/
theorem not_registry_sound : ¬ ∀ r, Reach step always (start [0]) r → r.Sound := by
  intro h
  have hrun : Reach step always (start [0]) _ := Reach.of_foldlM
    (l := [.createIoImpl 0 5, .leave 0, .closeHandler 0 5, .erase 0]) (fun _ _ _ => trivial) rfl
  have hloop : ∀ i, Function.update (Function.update (Function.update (Function.update
      (fun _ => Loop.outside) 0 .looping) 0 .left) 0 .releasing) 0 .outside i ≠ .releasing := by
    intro i
    by_cases hi : i = 0
    · subst hi
      decide
    · simp [hi]
  have hmem := (((h _ hrun).consistent hloop).map 5 0).mp rfl
  cases hmem.1

end Registry

end Netlib
