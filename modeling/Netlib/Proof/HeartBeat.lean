import Netlib.Spec.HeartBeat

/-!
# The heart-beat closes silent sockets

A scan expires the entries before it applies the notifications it has taken, so an entry
that is out of date is closed although its socket has just sent data (`not_faithful`). Where
no such entry has a notification in the queues, the time in an entry is the last scan that saw
the socket (`Inv`), and every close is due (`beats_faithfully`).
-/

namespace Netlib

open Lib

variable {σ : Type*}

namespace Beat

variable {k : HeartKind} {b : Beat σ k} {s : σ} {now : ℤ} {beat : ℕ}

/-- The time in the entry of a socket. -/
def stamp (b : Beat σ k) (s : σ) : Option ℤ := (b.info s).map k.time

theorem expired_eq : b.expired beat now s = (b.stamp s).any fun t => t + beat < now := by
  unfold expired stamp
  cases b.info s <;> rfl

theorem expired_iff : b.expired beat now s = true ↔ ∃ t, b.stamp s = some t ∧ t + beat < now := by
  rw [expired_eq]
  cases b.stamp s with
  | none => simp
  | some t => simp

theorem info_none : b.info s = none ↔ b.stamp s = none := Option.map_eq_none_iff.symm

theorem isSome_stamp : (b.stamp s).isSome = (b.info s).isSome := Option.isSome_map

theorem time_keep (k : HeartKind) (now : ℤ) (i : k.Info) : k.time (k.keep now i) = k.time i := by
  cases k with
  | tcp => rfl
  | http => rfl
  | conn =>
    unfold HeartKind.keep
    dsimp only
    split <;> rfl

theorem stamp_expire :
    (b._expire beat now).stamp s = if b.expired beat now s then none else b.stamp s := by
  unfold _expire stamp
  dsimp only
  split
  · rfl
  · rw [Option.map_map]
    congr 1
    funext i
    exact time_keep k now i

variable [DecidableEq σ]

theorem stamp_connect (p : σ × k.Setup) :
    (_connect now b p).stamp s = if s = p.1 then some now else b.stamp s := by
  unfold _connect stamp
  dsimp only
  rw [Function.update_apply]
  split
  · cases k <;> rfl
  · rfl

theorem stamp_receive (s' : σ) :
    (_receive now b s').stamp s = if s = s' then (b.stamp s).map fun _ => now else b.stamp s := by
  unfold _receive stamp
  dsimp only
  rw [Function.update_apply]
  split
  · rename_i h
    subst h
    rw [Option.map_map, Option.map_map]
    congr 1
    funext i
    cases k <;> rfl
  · rfl

/-- The queue of connect notifications. -/
theorem stamp_connects (co : List (σ × k.Setup)) :
    (co.foldl (_connect now) b).stamp s = if s ∈ co.map Prod.fst then some now else b.stamp s := by
  induction co generalizing b with
  | nil => rfl
  | cons p co ih =>
    rw [List.foldl_cons, ih, stamp_connect, List.map_cons]
    by_cases hp : s = p.1
    · simp only [List.mem_cons, hp, true_or, if_true]
      split <;> rfl
    · simp only [List.mem_cons, hp, false_or, if_false]

/-- The queue of receive notifications. -/
theorem stamp_receives (data : List σ) :
    (data.foldl (_receive now) b).stamp s =
      if s ∈ data then (b.stamp s).map fun _ => now else b.stamp s := by
  induction data generalizing b with
  | nil => rfl
  | cons s' data ih =>
    rw [List.foldl_cons, ih, stamp_receive]
    by_cases hs : s = s'
    · simp only [List.mem_cons, hs, true_or, if_true, Option.map_map]
      split <;> rfl
    · simp only [List.mem_cons, hs, false_or, if_false]

/-- A pass: expire, connect, receive. -/
theorem stamp_run : (b._run beat now).stamp s =
    let old := if b.expired beat now s then none else b.stamp s
    let old := if s ∈ b.co.map Prod.fst then some now else old
    if s ∈ b.data then old.map fun _ => now else old := by
  unfold _run
  dsimp only
  rw [stamp_receives, stamp_connects, stamp_expire]
  rfl

theorem queues_connects (co : List (σ × k.Setup)) :
    (co.foldl (_connect now) b).co = b.co ∧ (co.foldl (_connect now) b).data = b.data := by
  induction co generalizing b with
  | nil => exact ⟨rfl, rfl⟩
  | cons p co ih => exact ih

theorem queues_receives (data : List σ) :
    (data.foldl (_receive now) b).co = b.co ∧ (data.foldl (_receive now) b).data = b.data := by
  induction data generalizing b with
  | nil => exact ⟨rfl, rfl⟩
  | cons s data ih => exact ih

/-- A pass that has seen the socket. -/
theorem stamp_run_seen {t : ℤ} (h : s ∈ b.co.map Prod.fst ∨ s ∈ b.data)
    (hst : (b._run beat now).stamp s = some t) : t = now := by
  rw [stamp_run] at hst
  dsimp only at hst
  by_cases hd : s ∈ b.data
  · rw [if_pos hd] at hst
    obtain ⟨_, -, rfl⟩ := Option.map_eq_some_iff.mp hst
    rfl
  · rw [if_neg hd, if_pos (h.resolve_right hd)] at hst
    exact (Option.some.inj hst).symm

/-- A pass that has not. -/
theorem stamp_run_unseen (h : ¬ (s ∈ b.co.map Prod.fst ∨ s ∈ b.data)) :
    (b._run beat now).stamp s = if b.expired beat now s then none else b.stamp s := by
  rw [stamp_run]
  dsimp only
  rw [if_neg fun hd => h (.inr hd), if_neg fun hc => h (.inl hc)]

/-- The sockets that have an entry after a pass. -/
theorem isSome_run : ((b._run beat now).stamp s).isSome = true ↔
    s ∈ b.co.map Prod.fst ∨ b.expired beat now s = false ∧ (b.stamp s).isSome = true := by
  have hmap : ∀ o : Option ℤ, (if s ∈ b.data then o.map fun _ => now else o).isSome = o.isSome := by
    intro o
    split
    · exact Option.isSome_map
    · rfl
  rw [stamp_run]
  dsimp only
  rw [hmap]
  by_cases hc : s ∈ b.co.map Prod.fst
  · rw [if_pos hc]
    exact ⟨fun _ => .inl hc, fun _ => rfl⟩
  · rw [if_neg hc]
    cases b.expired beat now s <;> simp [hc]

/-- A pass leaves empty queues. -/
theorem queues_run : (b._run beat now).co = [] ∧ (b._run beat now).data = [] := by
  unfold _run
  dsimp only
  rw [(queues_receives _).1, (queues_receives _).2, (queues_connects _).1, (queues_connects _).2]
  exact ⟨rfl, rfl⟩

end Beat

namespace HeartBeatMng

variable {m : HeartBeatMng σ} {i j : ℕ} {k k' : HeartKind} {f : Beat σ k → Beat σ k}

/-- A change of queues leaves the maps alone. -/
theorem at_info (hf : ∀ b, (f b).info = b.info) (j : ℕ) (k' : HeartKind) :
    ((m.at_ i k f)._heartinfo j k').info = (m._heartinfo j k').info := by
  unfold at_
  dsimp only
  by_cases hj : j = i
  · subst hj
    rw [Function.update_self]
    by_cases hk : k' = k
    · subst hk
      rw [Function.update_self]
      exact hf _
    · rw [Function.update_of_ne hk]
  · rw [Function.update_of_ne hj]

/-- What a change of queues adds to a queue. -/
theorem at_co {s : σ} (h : s ∈ ((m.at_ i k f)._heartinfo j k').co.map Prod.fst) :
    s ∈ (m._heartinfo j k').co.map Prod.fst ∨
      j = i ∧ k' = k ∧ s ∈ (f (m._heartinfo i k)).co.map Prod.fst := by
  unfold at_ at h
  dsimp only at h
  by_cases hj : j = i
  · subst hj
    rw [Function.update_self] at h
    by_cases hk : k' = k
    · subst hk
      rw [Function.update_self] at h
      exact .inr ⟨rfl, rfl, h⟩
    · rw [Function.update_of_ne hk] at h
      exact .inl h
  · rw [Function.update_of_ne hj] at h
    exact .inl h

theorem run_self [DecidableEq σ] (m : HeartBeatMng σ) (i : ℕ) (now : ℤ) (k : HeartKind) :
    (m._run i now)._heartinfo i k = (m._heartinfo i k)._run m._beat now := by
  unfold _run
  dsimp only
  rw [Function.update_self]

theorem run_ne [DecidableEq σ] (now : ℤ) (h : j ≠ i) (k : HeartKind) :
    (m._run i now)._heartinfo j k = m._heartinfo j k := by
  unfold _run
  dsimp only
  rw [Function.update_of_ne h]

end HeartBeatMng

/-! ## Runs -/

namespace BeatWorld

open HeartBeatMng

variable {GetFd : HeartKind → σ → ℕ} {w w' : BeatWorld σ}

/-- The invariant: a shard holds its own sockets only, the time in an entry is the last scan
that saw the socket, and a watched socket has an entry. -/
structure Inv (GetFd : HeartKind → σ → ℕ) (w : BeatWorld σ) : Prop where
  own : ∀ i k s, w.mng.idx (GetFd k s) ≠ i → (w.mng._heartinfo i k).info s = none ∧
    s ∉ (w.mng._heartinfo i k).co.map Prod.fst
  stamp : ∀ k s t, (w.beat GetFd k s).stamp s = some t → w.seen k s = some t
  watch : ∀ k s, w.watched k s = true → ((w.beat GetFd k s).stamp s).isSome = true
  due : ∀ k s, ∀ c ∈ w.closed k s, Due w.mng._beat c

/-- A notification. -/
theorem Inv.queue {i : ℕ} {k : HeartKind} {f : Beat σ k → Beat σ k} (h : w.Inv GetFd)
    (hf : ∀ b, (f b).info = b.info)
    (hco : ∀ s ∈ (f (w.mng._heartinfo i k)).co.map Prod.fst,
      s ∈ (w.mng._heartinfo i k).co.map Prod.fst ∨ w.mng.idx (GetFd k s) = i) :
    ({ w with mng := w.mng.at_ i k f } : BeatWorld σ).Inv GetFd := by
  have hstamp : ∀ k' s, (({ w with mng := w.mng.at_ i k f } : BeatWorld σ).beat GetFd k' s).stamp s =
      (w.beat GetFd k' s).stamp s := by
    intro k' s
    unfold Beat.stamp beat
    rw [show ({ w with mng := w.mng.at_ i k f } : BeatWorld σ).mng = w.mng.at_ i k f from rfl,
      at_info hf]
    rfl
  refine ⟨?_, ?_, ?_, h.due⟩
  · intro j k' s hs
    obtain ⟨hinfo, hmem⟩ := h.own j k' s hs
    refine ⟨?_, ?_⟩
    · dsimp only
      rw [at_info hf]
      exact hinfo
    · intro hs'
      rcases at_co hs' with hs' | ⟨rfl, rfl, hs'⟩
      · exact hmem hs'
      · rcases hco s hs' with hs' | hs'
        · exact hmem hs'
        · exact hs hs'
  · intro k' s t ht
    rw [hstamp] at ht
    exact h.stamp k' s t ht
  · intro k' s hw
    rw [hstamp]
    exact h.watch k' s hw

theorem start_inv (svr_cnt beat : ℕ) : (start svr_cnt beat : BeatWorld σ).Inv GetFd := by
  refine ⟨fun i k s _ => ⟨rfl, List.not_mem_nil⟩, ?_, ?_, ?_⟩
  · intro k s t h
    cases h
  · intro k s h
    cases h
  · intro k s c h
    cases h

/-- What the manager keeps of a socket in its own shard. -/
theorem beat_shard {i : ℕ} {k : HeartKind} {s : σ} (hs : w.mng.idx (GetFd k s) = i) :
    w.beat GetFd k s = w.mng._heartinfo i k := by
  unfold beat
  rw [hs]

/-- The socket of an entry that is out of date is silent. -/
theorem Inv.silent_of_expired (h : w.Inv GetFd) {k : HeartKind} {s : σ} {now : ℤ}
    (hx : (w.beat GetFd k s).expired w.mng._beat now s = true) : w.silent k s now = true := by
  obtain ⟨t, hst, hlt⟩ := Beat.expired_iff.mp hx
  unfold silent
  rw [h.stamp k s t hst]
  exact decide_eq_true hlt

variable [DecidableEq σ]

theorem queued_iff {k : HeartKind} {s : σ} : w.queued GetFd k s = true ↔
    s ∈ (w.beat GetFd k s).co.map Prod.fst ∨ s ∈ (w.beat GetFd k s).data := by
  unfold queued connecting
  rw [Bool.or_eq_true, decide_eq_true_iff, decide_eq_true_iff]

variable {i : ℕ} {now : ℤ} {isConnected : HeartKind → σ → Bool}

theorem beat_pass (k : HeartKind) (s : σ) : (w.pass GetFd i now isConnected).beat GetFd k s =
    if w.mng.idx (GetFd k s) = i then (w.beat GetFd k s)._run w.mng._beat now
    else w.beat GetFd k s := by
  have hidx : (w.pass GetFd i now isConnected).mng.idx (GetFd k s) = w.mng.idx (GetFd k s) := rfl
  split
  · rename_i hs
    rw [beat_shard hs, beat_shard (hidx.trans hs)]
    exact run_self _ _ _ _
  · rename_i hs
    unfold beat
    rw [hidx]
    exact run_ne now hs k

/-- A shard still holds its own sockets only. -/
theorem Inv.pass_own (h : w.Inv GetFd) (j : ℕ) (k : HeartKind) (s : σ)
    (hs : w.mng.idx (GetFd k s) ≠ j) :
    ((w.pass GetFd i now isConnected).mng._heartinfo j k).info s = none ∧
      s ∉ ((w.pass GetFd i now isConnected).mng._heartinfo j k).co.map Prod.fst := by
  by_cases hj : j = i
  · subst hj
    obtain ⟨hinfo, hco⟩ := h.own j k s hs
    have hrun : (w.pass GetFd j now isConnected).mng._heartinfo j k =
        (w.mng._heartinfo j k)._run w.mng._beat now := run_self _ _ _ _
    rw [Beat.info_none] at hinfo
    rw [hrun, Beat.info_none, Beat.stamp_run, (Beat.queues_run).1, hinfo]
    refine ⟨?_, List.not_mem_nil⟩
    simp only [hco, if_false, ite_self, Option.map_none]
  · have hkept : (w.pass GetFd i now isConnected).mng._heartinfo j k = w.mng._heartinfo j k :=
      run_ne now hj k
    rw [hkept]
    exact h.own j k s hs

/-- The time in an entry is still that of the last scan that saw the socket. -/
theorem Inv.pass_stamp (h : w.Inv GetFd) (k : HeartKind) (s : σ) (t : ℤ)
    (hst : ((w.pass GetFd i now isConnected).beat GetFd k s).stamp s = some t) :
    (w.pass GetFd i now isConnected).seen k s = some t := by
  rw [beat_pass] at hst
  unfold BeatWorld.pass
  dsimp only
  split at hst
  · rename_i hs
    by_cases hq : w.queued GetFd k s = true
    · rw [if_pos ⟨hs, hq⟩, Beat.stamp_run_seen (queued_iff.mp hq) hst]
    · rw [if_neg fun hc => hq hc.2]
      rw [Beat.stamp_run_unseen fun hc => hq (queued_iff.mpr hc)] at hst
      split at hst
      · cases hst
      · exact h.stamp k s t hst
  · rename_i hs
    rw [if_neg fun hc => hs hc.1]
    exact h.stamp k s t hst

/-- A socket that is watched after a timely pass has an entry. -/
theorem Inv.pass_watch (h : w.Inv GetFd) {k : HeartKind} {s : σ}
    (ht : w.mng.idx (GetFd k s) = i →
      (w.beat GetFd k s).expired w.mng._beat now s = true → w.queued GetFd k s = false)
    (hw : (w.pass GetFd i now isConnected).watched k s = true) :
    (((w.pass GetFd i now isConnected).beat GetFd k s).stamp s).isSome = true := by
  rw [beat_pass]
  unfold BeatWorld.pass at hw
  dsimp only at hw
  split at hw
  · rename_i hs
    rw [if_pos hs, Beat.isSome_run]
    rcases Bool.or_eq_true _ _ ▸ hw with hw | hw
    · exact .inl (of_decide_eq_true hw)
    · rw [Bool.and_eq_true] at hw
      refine .inr ⟨?_, h.watch k s hw.1⟩
      by_contra hx
      rw [Bool.not_eq_false] at hx
      rw [ht hs hx, h.silent_of_expired hx] at hw
      exact Bool.false_ne_true hw.2
  · rename_i hs
    rw [if_neg hs]
    exact h.watch k s hw

/-- A timely pass closes what is due. -/
theorem Inv.pass_due (h : w.Inv GetFd) {k : HeartKind} {s : σ}
    (ht : w.mng.idx (GetFd k s) = i →
      (w.beat GetFd k s).expired w.mng._beat now s = true → w.queued GetFd k s = false)
    {c : Closing} (hc : c ∈ (w.pass GetFd i now isConnected).closed k s) : Due w.mng._beat c := by
  unfold BeatWorld.pass at hc
  dsimp only at hc
  split at hc
  · rename_i hx
    rcases List.mem_append.mp hc with hc | hc
    · exact h.due k s c hc
    · obtain rfl := List.mem_singleton.mp hc
      rw [Bool.and_eq_true] at hx
      obtain ⟨t, hst, hlt⟩ := Beat.expired_iff.mp hx.1
      -- an entry of the shard is one of its own sockets
      have hs : w.mng.idx (GetFd k s) = i := by
        by_contra hne
        have hnone := Beat.info_none.mp (h.own i k s hne).1
        rw [hst] at hnone
        cases hnone
      rw [← beat_shard hs] at hst hx
      exact ⟨ht hs hx.1, t, h.stamp k s t hst, hlt⟩
  · exact h.due k s c hc

/-- **A timely pass** keeps the invariant. -/
theorem Inv.pass (h : w.Inv GetFd)
    (ht : ∀ k s, w.mng.idx (GetFd k s) = i →
      (w.beat GetFd k s).expired w.mng._beat now s = true → w.queued GetFd k s = false) :
    (w.pass GetFd i now isConnected).Inv GetFd where
  own := h.pass_own
  stamp := h.pass_stamp
  watch k s hw := h.pass_watch (ht k s) hw
  due _ _ _ hc := h.pass_due (ht _ _) hc

theorem Inv.step {a : BeatAction σ} (h : w.Inv GetFd) (hc : w.Timely GetFd a)
    (hs : w.step GetFd a = some w') : w'.Inv GetFd := by
  cases a with
  | onConnected k s setup =>
    obtain rfl := Option.some.inj hs
    refine h.queue (fun _ => rfl) fun s' hs' => ?_
    dsimp only at hs'
    rw [List.map_append, List.mem_append] at hs'
    rcases hs' with hs' | hs'
    · exact .inl hs'
    · obtain rfl := List.mem_singleton.mp hs'
      exact .inr rfl
  | onReceiveData k s =>
    obtain rfl := Option.some.inj hs
    exact h.queue (fun _ => rfl) fun s' hs' => .inl hs'
  | begin now =>
    obtain ⟨-, hs⟩ := Option.ite_none_right_eq_some.mp hs
    cases hs
    exact ⟨h.own, h.stamp, h.watch, h.due⟩
  | shard isConnected =>
    unfold BeatWorld.step at hs
    dsimp only at hs
    split at hs
    · cases hs
    · rename_i now i hscan
      split at hs
      · obtain rfl := Option.some.inj hs
        have hp : (w.pass GetFd i now isConnected).Inv GetFd := h.pass (hc now i hscan)
        exact ⟨hp.own, hp.stamp, hp.watch, hp.due⟩
      · obtain rfl := Option.some.inj hs
        exact ⟨h.own, h.stamp, h.watch, h.due⟩

theorem reach_inv {svr_cnt beat : ℕ}
    (h : Reach (step GetFd) (Timely GetFd) (start svr_cnt beat) w) : w.Inv GetFd :=
  h.inv (start_inv svr_cnt beat) fun _ _ _ hi hc hs => hi.step hc hs

/-- **The heart-beat.** For every number of shards and every run whose passes are timely, each
close is due, and every socket whose connect was taken is tracked until it is silent. -/
theorem beats_faithfully {svr_cnt beat : ℕ}
    (h : Reach (step GetFd) (Timely GetFd) (start svr_cnt beat) w) : w.Faithful GetFd := by
  have hi := reach_inv h
  refine ⟨hi.due, ?_⟩
  intro k s hw
  unfold tracked
  rw [← Beat.isSome_stamp]
  exact hi.watch k s hw

/-- The only socket, with descriptor 3. -/
def fd3 : HeartKind → Unit → ℕ := fun _ _ => 3

def open3 : HeartKind → Unit → Bool := fun _ _ => true

theorem timely_fd3 {w : BeatWorld Unit} {isConnected : HeartKind → Unit → Bool}
    (h : ∀ k, w.scan.all (fun p => !(decide (w.mng.idx 3 = p.2) &&
      (w.beat fd3 k ()).expired w.mng._beat p.1 () && w.queued fd3 k ())) = true) :
    w.Timely fd3 (.shard isConnected) := by
  intro now i hscan k s hi hx
  cases s
  have hk := h k
  rw [hscan, Option.all_some, hx, decide_eq_true (by exact hi)] at hk
  exact Bool.not_eq_true' _ ▸ hk

/-- It is connected, and silent from 0 to 31. -/
theorem beats_faithfully_silent : ∃ w : BeatWorld Unit,
    [.onConnected .tcp () (), .begin 0, .shard open3, .shard open3, .begin 31,
      .shard open3].foldlM (step fd3) (start 1 30) = some w ∧
    (w.closed .tcp ()).length = 1 ∧ w.Faithful fd3 := by
  have h1 : Reach (step fd3) (Timely fd3) (start 1 30) _ :=
    .single (a := .onConnected .tcp () ()) trivial rfl
  have h2 := h1.next (a := BeatAction.begin 0) trivial rfl
  have h3 := h2.next (a := BeatAction.shard open3) (timely_fd3 fun k => by cases k <;> rfl) rfl
  have h4 := h3.next (a := BeatAction.shard open3) (timely_fd3 fun k => by cases k <;> rfl) rfl
  have h5 := h4.next (a := BeatAction.begin 31) trivial rfl
  have h6 := h5.next (a := BeatAction.shard open3) (timely_fd3 fun k => by cases k <;> rfl) rfl
  exact ⟨_, rfl, rfl, beats_faithfully h6⟩

/-- It has sent data after the last scan, and is closed as well. -/
theorem not_faithful : ¬ ∀ w : BeatWorld Unit,
    Reach (step fd3) always (start 1 30) w → w.Faithful fd3 := by
  intro h
  have hrun : ∃ w : BeatWorld Unit,
      [.onConnected .tcp () (), .begin 0, .shard open3, .shard open3, .onReceiveData .tcp (),
        .begin 31, .shard open3].foldlM (step fd3) (start 1 30) = some w ∧
      (w.closed .tcp ()).map Closing.queued = [true] := ⟨_, rfl, rfl⟩
  obtain ⟨w, hw, hc⟩ := hrun
  have hmem : true ∈ (w.closed .tcp ()).map Closing.queued := by
    rw [hc]
    exact List.mem_singleton_self _
  obtain ⟨c, hc, hq⟩ := List.mem_map.mp hmem
  have hdue := (h w (Reach.of_foldlM (fun _ _ _ => trivial) hw)).1 .tcp () c hc
  exact Bool.noConfusion (hdue.1.symm.trans hq)

end BeatWorld

end Netlib
