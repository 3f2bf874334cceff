import Netlib.Proof.HeartBeat
import Netlib.Spec.KeepAlive

/-!
# Keep-alive messages keep a connector alive

After a pass an entry has sent at most `idle` before, and either its last message has been answered
or the answer is not due (`Fresh`). The next pass comes at most `gap` later, so it does not find the
entry out of date (`Fresh.alive`) and leaves a fresh one (`Fresh.pass`). The last pass over a shard
was in this scan or in the one before (`Passed`), which gives the invariant of the run (`Live.step`,
`keeps_alive`).
-/

namespace Netlib

open Lib

variable {σ : Type*}

/-! ## One entry -/

/-- An entry after a pass at the time `L`. -/
structure Fresh (t : Timing) (beat : ℕ) (L : ℤ) (e : ConnSocketInfo) : Prop where
  fits : t.Fits beat e.idle
  past : e.snd_time ≤ L
  sent : L ≤ e.snd_time + e.idle
  answered : e.rcv_time < e.snd_time → L < e.snd_time + t.reply
  near : e.snd_time ≤ e.rcv_time + e.idle + t.gap

section Entry

variable {t : Timing} {beat : ℕ} {L now : ℤ} {e e' : ConnSocketInfo}

/-- **The next pass does not find the entry out of date.** -/
theorem Fresh.alive (h : Fresh t beat L e) (hgap : now ≤ L + t.gap) : ¬ e.rcv_time + beat < now := by
  obtain ⟨⟨hpos, hreply, hbeat⟩, hpast, hsent, hanswered, hnear⟩ := h
  by_cases hans : e.rcv_time < e.snd_time
  · -- the answer is not due
    have hdue := hanswered hans
    omega
  · omega

/-- **A pass leaves the entry fresh**, if the answer comes when it is due. -/
theorem Fresh.pass (h : Fresh t beat L e) (hle : L ≤ now) (hgap : now ≤ L + t.gap) {data : Prop}
    [Decidable data] (hdue : e.rcv_time < e.snd_time → e.snd_time + t.reply ≤ now → data)
    (hidle : e'.idle = e.idle)
    (hsnd : e'.snd_time = if e.snd_time + e.idle < now then now else e.snd_time)
    (hrcv : e'.rcv_time = if data then now else e.rcv_time) : Fresh t beat now e' := by
  obtain ⟨hfits, hpast, hsent, hanswered, hnear⟩ := h
  have hfits' : t.Fits beat e'.idle := by
    rw [hidle]
    exact hfits
  obtain ⟨hpos, hreply, hbeat⟩ := hfits
  by_cases hsend : e.snd_time + e.idle < now
  · -- a message is sent; the one before it has been answered, or is now
    rw [if_pos hsend] at hsnd
    by_cases hdata : data
    · rw [if_pos hdata] at hrcv
      exact ⟨hfits', by omega, by omega, by omega, by omega⟩
    · rw [if_neg hdata] at hrcv
      have hans : ¬ e.rcv_time < e.snd_time := fun hlt => hdata (hdue hlt (by omega))
      exact ⟨hfits', by omega, by omega, by omega, by omega⟩
  · rw [if_neg hsend] at hsnd
    by_cases hdata : data
    · rw [if_pos hdata] at hrcv
      exact ⟨hfits', by omega, by omega, by omega, by omega⟩
    · rw [if_neg hdata] at hrcv
      refine ⟨hfits', by omega, by omega, fun hlt => ?_, by omega⟩
      have hlate : ¬ e.snd_time + t.reply ≤ now := fun hlt' => hdata (hdue (by omega) hlt')
      omega

/-- A connector that has just been taken. -/
theorem fresh_connected {idle : ℕ} (h : t.Fits beat idle) (hidle : e.idle = idle)
    (hsnd : e.snd_time = now) (hrcv : e.rcv_time = now) : Fresh t beat now e := by
  subst hidle
  exact ⟨h, by omega, by omega, by omega, by omega⟩

end Entry

/-! ## One pass -/

namespace Beat

variable [DecidableEq σ] {b : Beat σ .conn} {s : σ} {now : ℤ} {beat : ℕ} {e' : ConnSocketInfo}

theorem info_receives {data : List σ} (h : (data.foldl (_receive now) b).info s = some e') :
    ∃ e : ConnSocketInfo, b.info s = some e ∧ e'.idle = e.idle ∧ e'.snd_time = e.snd_time ∧
      e'.rcv_time = if s ∈ data then now else e.rcv_time := by
  induction data generalizing b with
  | nil => exact ⟨e', h, rfl, rfl, rfl⟩
  | cons s' data ih =>
    obtain ⟨e, he, hidle, hsnd, hrcv⟩ := ih h
    by_cases hs : s = s'
    · subst hs
      have hself : (_receive now b s).info s = (b.info s).map (HeartKind.conn.touch now) :=
        Function.update_self ..
      obtain ⟨e₀, he₀, rfl⟩ := Option.map_eq_some_iff.mp (hself.symm.trans he)
      refine ⟨e₀, he₀, hidle, hsnd, ?_⟩
      rw [if_pos List.mem_cons_self, hrcv]
      exact ite_self now
    · have hne : (_receive now b s').info s = b.info s := Function.update_of_ne hs ..
      refine ⟨e, hne.symm.trans he, hidle, hsnd, ?_⟩
      rw [hrcv]
      simp only [List.mem_cons, hs, false_or]

theorem info_connects {co : List (σ × ℕ)}
    (h : (co.foldl (_connect (k := .conn) now) b).info s = some e') :
    (∃ idle, (s, idle) ∈ co ∧ e' = ⟨idle, now, now, 0⟩) ∨ b.info s = some e' := by
  induction co generalizing b with
  | nil => exact .inr h
  | cons p co ih =>
    rcases ih h with ⟨idle, hmem, rfl⟩ | he
    · exact .inl ⟨idle, List.mem_cons_of_mem p hmem, rfl⟩
    · by_cases hs : s = p.1
      · subst hs
        have hself : (_connect now b p).info p.1 = some (HeartKind.conn.fresh now p.2) :=
          Function.update_self ..
        exact .inl ⟨p.2, List.mem_cons_self, (Option.some.inj (hself.symm.trans he)).symm⟩
      · have hne : (_connect now b p).info s = b.info s := Function.update_of_ne hs ..
        exact .inr (hne.symm.trans he)

/-- **The entry of a connector after a pass**: a new one, or the one before, which may have sent and
may have received. -/
theorem info_run (h : (b._run beat now).info s = some e') :
    (∃ idle, (s, idle) ∈ b.co ∧ e'.idle = idle ∧ e'.snd_time = now ∧ e'.rcv_time = now) ∨
      ∃ e : ConnSocketInfo, b.info s = some e ∧ b.expired beat now s = false ∧ e'.idle = e.idle ∧
        e'.snd_time = (if e.snd_time + e.idle < now then now else e.snd_time) ∧
        e'.rcv_time = if s ∈ b.data then now else e.rcv_time := by
  obtain ⟨e₁, he₁, hidle₁, hsnd₁, hrcv₁⟩ := info_receives h
  rcases info_connects he₁ with ⟨idle, hmem, rfl⟩ | he₁
  · refine .inl ⟨idle, hmem, hidle₁, hsnd₁, ?_⟩
    rw [hrcv₁]
    exact ite_self now
  · right
    have hexp : (_expire { b with co := [], data := [] } beat now).info s =
        if b.expired beat now s then none else (b.info s).map (HeartKind.conn.keep now) := rfl
    rw [hexp] at he₁
    split at he₁
    · cases he₁
    · rename_i hx
      obtain ⟨e, he, rfl⟩ := Option.map_eq_some_iff.mp he₁
      refine ⟨e, he, by simpa using hx, ?_, ?_, ?_⟩
      · rw [hidle₁]
        unfold HeartKind.keep
        dsimp only
        split <;> rfl
      · rw [hsnd₁]
        unfold HeartKind.keep HeartKind.sends
        dsimp only
        by_cases hlt : e.snd_time + e.idle < now
        · rw [if_pos hlt, if_pos (decide_eq_true hlt)]
        · rw [if_neg hlt, if_neg (by simpa using hlt)]
      · have htime : (HeartKind.conn.keep now e).rcv_time = e.rcv_time := time_keep .conn now e
        rw [hrcv₁, htime]

end Beat

/-! ## Runs -/

namespace BeatWorld

open HeartBeatMng

variable {GetFd : HeartKind → σ → ℕ} {t : Timing} {w w' : BeatWorld σ}

/-- The last pass over the shard `i` was at the time `L`, so the next one is near. -/
def Passed (t : Timing) (w : BeatWorld σ) (i : ℕ) (L : ℤ) : Prop :=
  match w.scan with
  | none => w.last = some L
  | some (now, j) => w.last = some now ∧ if i < j then L = now else L ≤ now ∧ now ≤ L + t.gap

/-- The invariant: connectors have fresh entries, in their own shard, and no entry is older than the
beat. -/
structure Live (GetFd : HeartKind → σ → ℕ) (t : Timing) (w : BeatWorld σ) : Prop where
  own : ∀ i s, w.mng.idx (GetFd .conn s) ≠ i → (w.mng._heartinfo i .conn).info s = none ∧
    ∀ idle, (s, idle) ∉ (w.mng._heartinfo i .conn).co
  fits : ∀ i s idle, (s, idle) ∈ (w.mng._heartinfo i .conn).co → t.Fits w.mng._beat idle
  fresh : ∀ s e, (w.beat GetFd .conn s).info s = some e → ∃ L, Fresh t w.mng._beat L e ∧
    w.Passed t (w.mng.idx (GetFd .conn s)) L
  spared : ∀ s, w.closed .conn s = []
  clock : ∀ now i, w.scan = some (now, i) → w.last = some now
  young : ∀ k s e, (w.beat GetFd k s).info s = some e → w.mng.idx (GetFd k s) < w.mng._svr_cnt ∧
    ∃ L, L ≤ k.time e + w.mng._beat ∧ w.Passed t (w.mng.idx (GetFd k s)) L

theorem start_live (svr_cnt beat : ℕ) : (start svr_cnt beat : BeatWorld σ).Live GetFd t := by
  refine ⟨fun i s _ => ⟨rfl, fun idle => List.not_mem_nil⟩, ?_, ?_, fun s => rfl, ?_, ?_⟩
  · intro i s idle h
    cases h
  · intro s e h
    cases h
  · intro now i h
    cases h
  · intro k s e h
    cases h

/-- A change of queues changes no map. -/
theorem beat_info_at {i : ℕ} {k : HeartKind} {f : Beat σ k → Beat σ k} (hf : ∀ b, (f b).info = b.info)
    (k' : HeartKind) (s : σ) :
    (({ w with mng := w.mng.at_ i k f } : BeatWorld σ).beat GetFd k' s).info =
      (w.beat GetFd k' s).info := at_info hf _ _

/-- A notification. -/
theorem Live.queue {i : ℕ} {k : HeartKind} {f : Beat σ k → Beat σ k} (h : w.Live GetFd t)
    (hf : ∀ b, (f b).info = b.info)
    (hco : ∀ j s idle, (s, idle) ∈ ((w.mng.at_ i k f)._heartinfo j .conn).co →
      (s, idle) ∈ (w.mng._heartinfo j .conn).co ∨
        w.mng.idx (GetFd .conn s) = j ∧ t.Fits w.mng._beat idle) :
    ({ w with mng := w.mng.at_ i k f } : BeatWorld σ).Live GetFd t := by
  refine ⟨fun j s hs => ⟨?_, fun idle hmem => ?_⟩, fun j s idle hmem => ?_, fun s e he => ?_,
    h.spared, h.clock, fun k' s e he => ?_⟩
  · exact (congrFun (at_info hf j .conn) s).trans (h.own j s hs).1
  · rcases hco j s idle hmem with hmem | ⟨hidx, -⟩
    · exact (h.own j s hs).2 idle hmem
    · exact hs hidx
  · rcases hco j s idle hmem with hmem | ⟨-, hfits⟩
    · exact h.fits j s idle hmem
    · exact hfits
  · rw [beat_info_at hf] at he
    exact h.fresh s e he
  · rw [beat_info_at hf] at he
    exact h.young k' s e he

/-- A change of the queues of another kind. -/
theorem at_other {i j : ℕ} {k : HeartKind} {f : Beat σ k → Beat σ k} (hk : .conn ≠ k) :
    (w.mng.at_ i k f)._heartinfo j .conn = w.mng._heartinfo j .conn := by
  unfold at_
  dsimp only
  by_cases hj : j = i
  · subst hj
    rw [Function.update_self, Function.update_of_ne hk]
  · rw [Function.update_of_ne hj]

/-- A change of the queues for connectors. -/
theorem at_conn {i j : ℕ} {f : Beat σ .conn → Beat σ .conn} {p : σ × ℕ}
    (h : p ∈ ((w.mng.at_ i .conn f)._heartinfo j .conn).co) :
    p ∈ (w.mng._heartinfo j .conn).co ∨ j = i ∧ p ∈ (f (w.mng._heartinfo i .conn)).co := by
  unfold at_ at h
  dsimp only at h
  by_cases hj : j = i
  · subst hj
    rw [Function.update_self, Function.update_self] at h
    exact .inr ⟨rfl, h⟩
  · rw [Function.update_of_ne hj] at h
    exact .inl h

theorem Live.onReceiveData (h : w.Live GetFd t) (k : HeartKind) (s : σ) :
    ({ w with mng := w.mng.onReceiveData k (GetFd k s) s } : BeatWorld σ).Live GetFd t := by
  refine h.queue (fun _ => rfl) fun j s' idle hmem => .inl ?_
  by_cases hk : .conn = k
  · subst hk
    rcases at_conn hmem with hold | ⟨rfl, hold⟩
    · exact hold
    · exact hold
  · rw [at_other hk] at hmem
    exact hmem

theorem Live.onConnected (h : w.Live GetFd t) (k : HeartKind) (s : σ) (setup : k.Setup)
    (hfits : ∀ idle, (⟨k, setup⟩ : (k : HeartKind) × k.Setup) = ⟨.conn, idle⟩ →
      t.Fits w.mng._beat idle) :
    ({ w with mng := w.mng.onConnected k (GetFd k s) s setup } : BeatWorld σ).Live GetFd t := by
  refine h.queue (fun _ => rfl) fun j s' idle hmem => ?_
  by_cases hk : .conn = k
  · subst hk
    rcases at_conn hmem with hold | ⟨rfl, hnew⟩
    · exact .inl hold
    · rcases List.mem_append.mp hnew with hold | hnew
      · exact .inl hold
      · obtain ⟨rfl, rfl⟩ := Prod.mk.inj (List.mem_singleton.mp hnew)
        exact .inr ⟨rfl, hfits idle rfl⟩
  · rw [at_other hk] at hmem
    exact .inl hmem

variable {now : ℤ} {i : ℕ}

/-- In the shard that comes next the last pass was in the scan before. -/
theorem Passed.next {L : ℤ} (h : w.Passed t i L) (hscan : w.scan = some (now, i)) :
    L ≤ now ∧ now ≤ L + t.gap := by
  unfold Passed at h
  rw [hscan] at h
  have hnear := h.2
  rwa [if_neg (Nat.lt_irrefl i)] at hnear

/-- **No connector is out of date** in the shard that comes next. -/
theorem Live.not_expired (h : w.Live GetFd t) (hscan : w.scan = some (now, i)) (s : σ) :
    (w.mng._heartinfo i .conn).expired w.mng._beat now s = false := by
  rw [Bool.eq_false_iff]
  intro hx
  by_cases hs : w.mng.idx (GetFd .conn s) = i
  · subst hs
    obtain ⟨time, hst, hlt⟩ := Beat.expired_iff.mp hx
    obtain ⟨e, he, rfl⟩ := Option.map_eq_some_iff.mp hst
    obtain ⟨L, hfresh, hpassed⟩ := h.fresh s e he
    exact hfresh.alive (hpassed.next hscan).2 hlt
  · unfold Beat.expired at hx
    rw [(h.own i s hs).1] at hx
    cases hx

variable [DecidableEq σ] {isConnected : HeartKind → σ → Bool}

/-- The pass over the shard itself. -/
theorem passed_self {j : ℕ} (hj : j = i) (hlast : w.last = some now) :
    Passed t { w.pass GetFd i now isConnected with scan := some (now, i + 1) } j now := by
  subst hj
  exact ⟨hlast, (if_pos (Nat.lt_succ_self j)).mpr rfl⟩

/-- The pass over another shard. -/
theorem passed_other {j : ℕ} {L : ℤ} (hj : j ≠ i) (hscan : w.scan = some (now, i))
    (h : w.Passed t j L) :
    Passed t { w.pass GetFd i now isConnected with scan := some (now, i + 1) } j L := by
  unfold Passed at h ⊢
  rw [hscan] at h
  refine ⟨h.1, ?_⟩
  have hiff : j < i + 1 ↔ j < i := by omega
  rw [if_congr hiff rfl rfl]
  exact h.2

/-- **One pass.** -/
theorem Live.pass (h : w.Live GetFd t) (hscan : w.scan = some (now, i)) (hi : i < w.mng._svr_cnt)
    (hdue : ∀ s, w.mng.idx (GetFd .conn s) = i → w.Answered GetFd t now s) :
    Live GetFd t { w.pass GetFd i now isConnected with scan := some (now, i + 1) } := by
  have hbeat : ∀ k s, ({ w.pass GetFd i now isConnected with scan := some (now, i + 1) } :
      BeatWorld σ).beat GetFd k s = if w.mng.idx (GetFd k s) = i then
        (w.beat GetFd k s)._run w.mng._beat now else w.beat GetFd k s :=
    @beat_pass σ GetFd w _ i now isConnected
  have hself : (w.mng._run i now)._heartinfo i .conn = (w.mng._heartinfo i .conn)._run w.mng._beat now :=
    run_self _ _ _ _
  have hlast := h.clock now i hscan
  refine ⟨fun j s hs => ?_, fun j s idle hmem => ?_, fun s e he => ?_, fun s => ?_,
    fun now' j hs => ?_, fun k s e he => ?_⟩
  · change ((w.mng._run i now)._heartinfo j .conn).info s = none ∧
      ∀ idle, (s, idle) ∉ ((w.mng._run i now)._heartinfo j .conn).co
    obtain ⟨hinfo, hco⟩ := h.own j s hs
    by_cases hj : j = i
    · subst hj
      rw [hself, (Beat.queues_run).1]
      refine ⟨Option.eq_none_iff_forall_ne_some.mpr fun e he => ?_, fun idle => List.not_mem_nil⟩
      rcases Beat.info_run he with ⟨idle, hmem, -⟩ | ⟨e₀, he₀, -⟩
      · exact hco idle hmem
      · rw [hinfo] at he₀
        cases he₀
    · rw [run_ne now hj]
      exact ⟨hinfo, hco⟩
  · change (s, idle) ∈ ((w.mng._run i now)._heartinfo j .conn).co at hmem
    by_cases hj : j = i
    · subst hj
      rw [hself, (Beat.queues_run).1] at hmem
      cases hmem
    · rw [run_ne now hj] at hmem
      exact h.fits j s idle hmem
  · -- the entry of a connector
    rw [hbeat] at he
    split at he
    · rename_i hs
      refine ⟨now, ?_, passed_self hs hlast⟩
      rcases Beat.info_run he with ⟨idle, hmem, hidle, hsnd, hrcv⟩ | ⟨e₀, he₀, -, hidle, hsnd, hrcv⟩
      · exact fresh_connected (h.fits _ s idle hmem) hidle hsnd hrcv
      · obtain ⟨L, hfresh, hpassed⟩ := h.fresh s e₀ he₀
        rw [hs] at hpassed
        obtain ⟨hle, hgap⟩ := hpassed.next hscan
        exact hfresh.pass hle hgap (hdue s hs e₀ he₀) hidle hsnd hrcv
    · rename_i hs
      obtain ⟨L, hfresh, hpassed⟩ := h.fresh s e he
      exact ⟨L, hfresh, passed_other hs hscan hpassed⟩
  · have hx := h.not_expired hscan s
    change (if (w.mng._heartinfo i .conn).expired w.mng._beat now s && isConnected .conn s then _
      else w.closed .conn s) = []
    rw [hx, Bool.false_and, if_neg Bool.false_ne_true]
    exact h.spared s
  · obtain ⟨rfl, -⟩ := Prod.mk.inj (Option.some.inj hs)
    exact hlast
  · -- an entry of any kind
    rw [hbeat] at he
    split at he
    · rename_i hs
      refine ⟨hs ▸ hi, now, ?_, passed_self hs hlast⟩
      have hst : ((w.beat GetFd k s)._run w.mng._beat now).stamp s = some (k.time e) := by
        unfold Beat.stamp
        rw [he]
        rfl
      change now ≤ k.time e + w.mng._beat
      by_cases hq : s ∈ (w.beat GetFd k s).co.map Prod.fst ∨ s ∈ (w.beat GetFd k s).data
      · rw [Beat.stamp_run_seen hq hst]
        omega
      · rw [Beat.stamp_run_unseen hq] at hst
        split at hst
        · cases hst
        · rename_i hx
          rw [Beat.expired_iff] at hx
          by_contra hlt
          exact hx ⟨k.time e, hst, by omega⟩
    · rename_i hs
      obtain ⟨hidx, L, hle, hpassed⟩ := h.young k s e he
      exact ⟨hidx, L, hle, passed_other hs hscan hpassed⟩

/-- **One step.** -/
theorem Live.step {a : BeatAction σ} (h : w.Live GetFd t) (hc : w.Prompt GetFd t a)
    (hs : w.step GetFd a = some w') : w'.Live GetFd t := by
  cases a with
  | onConnected k s setup =>
    obtain rfl := Option.some.inj hs
    refine h.onConnected k s setup fun idle heq => ?_
    cases heq
    exact hc
  | onReceiveData k s => exact Option.some.inj hs ▸ h.onReceiveData k s
  | begin now =>
    obtain ⟨⟨hscan, hlater⟩, hs⟩ := Option.ite_none_right_eq_some.mp hs
    cases hs
    -- the last scan becomes the one before
    have hpassed : ∀ {i : ℕ} {L : ℤ}, w.Passed t i L →
        Passed t { w with scan := some (now, 0), last := some now } i L := by
      intro i L hp
      unfold Passed at hp ⊢
      rw [hscan] at hp
      dsimp only at hp
      rw [hp] at hlater
      refine ⟨rfl, ?_⟩
      rw [if_neg (Nat.not_lt_zero i)]
      exact ⟨of_decide_eq_true hlater, hc L hp⟩
    refine ⟨h.own, h.fits, fun s e he => ?_, h.spared, fun now' j hj => ?_, fun k s e he => ?_⟩
    · obtain ⟨L, hfresh, hp⟩ := h.fresh s e he
      exact ⟨L, hfresh, hpassed hp⟩
    · obtain ⟨rfl, -⟩ := Prod.mk.inj (Option.some.inj hj)
      rfl
    · obtain ⟨hidx, L, hle, hp⟩ := h.young k s e he
      exact ⟨hidx, L, hle, hpassed hp⟩
  | shard isConnected =>
    unfold BeatWorld.step at hs
    dsimp only at hs
    split at hs
    · cases hs
    · rename_i now i hscan
      split at hs
      · rename_i hi
        obtain rfl := Option.some.inj hs
        exact h.pass hscan hi (hc now i hscan)
      · rename_i hi
        obtain rfl := Option.some.inj hs
        -- the scan is over all shards
        have hpassed : ∀ {j : ℕ} {L : ℤ}, j < w.mng._svr_cnt → w.Passed t j L →
            Passed t { w with scan := none } j L := by
          intro j L hj hp
          unfold Passed at hp ⊢
          rw [hscan] at hp
          obtain ⟨hlast, hp⟩ := hp
          rw [if_pos (by omega)] at hp
          rw [hp]
          exact hlast
        refine ⟨h.own, h.fits, fun s e he => ?_, h.spared, fun now' j hj => (by cases hj),
          fun k s e he => ?_⟩
        · obtain ⟨L, hfresh, hp⟩ := h.fresh s e he
          exact ⟨L, hfresh, hpassed (h.young .conn s e he).1 hp⟩
        · obtain ⟨hidx, L, hle, hp⟩ := h.young k s e he
          exact ⟨hidx, L, hle, hpassed hidx hp⟩

/-- **The keep-alive.** For every number of shards and every run in which scans are at most `gap`
apart and the last keep-alive message is answered within `reply`, no connector for which the beat is
long enough is closed or dropped; and after each scan no entry of any kind is older than the
beat. -/
theorem keeps_alive {svr_cnt beat : ℕ}
    (h : Reach (step GetFd) (Prompt GetFd t) (start svr_cnt beat) w) : w.KeepsAlive GetFd := by
  have hlive : w.Live GetFd t :=
    h.inv (start_live svr_cnt beat) fun _ _ _ hi hc hs => hi.step hc hs
  refine ⟨hlive.spared, fun now i hscan s hs => ?_, fun hscan last hlast k s e he => ?_⟩
  · rw [beat_shard hs]
    exact hlive.not_expired hscan s
  · obtain ⟨-, L, hle, hp⟩ := hlive.young k s e he
    unfold Passed at hp
    rw [hscan] at hp
    obtain rfl : last = L := Option.some.inj (hlast.symm.trans hp)
    exact hle

theorem prompt_fd3 {w : BeatWorld Unit} {isConnected : HeartKind → Unit → Bool}
    (h : w.scan.all (fun p => ((w.beat fd3 .conn ()).info ()).all fun e : ConnSocketInfo =>
      !(decide (e.rcv_time < e.snd_time) && decide (e.snd_time + (t.reply : ℤ) ≤ p.1)) ||
        decide (() ∈ (w.beat fd3 .conn ()).data)) = true) :
    w.Prompt fd3 t (.shard isConnected) := by
  intro now i hscan s _ e he hlt hdue
  rw [hscan, Option.all_some, he, Option.all_some, decide_eq_true hlt, decide_eq_true hdue] at h
  exact of_decide_eq_true h

/-- A connector is silent for 5 seconds, sends at the second scan, and its peer answers. -/
theorem keeps_alive_answered : ∃ w : BeatWorld Unit,
    [.onConnected .conn () 5, .begin 0, .shard open3, .shard open3, .begin 10, .shard open3,
      .shard open3, .onReceiveData .conn (), .begin 20, .shard open3].foldlM (step fd3)
        (start 1 30) = some w ∧
    ((w.beat fd3 .conn ()).info ()).map (fun e : ConnSocketInfo => (e.snd_time, e.rcv_time)) = some (20, 20) ∧
    w.KeepsAlive fd3 := by
  let t : Timing := ⟨10, 2⟩
  have hgap : ∀ {w : BeatWorld Unit} {now : ℤ}, w.last.all (fun last => decide (now ≤ last + 10)) →
      w.Prompt fd3 t (.begin now) := by
    intro w now h last hlast
    rw [hlast] at h
    exact of_decide_eq_true h
  have h1 : Reach (step fd3) (Prompt fd3 t) (start 1 30) _ :=
    .single (a := .onConnected .conn () 5) ⟨by decide, by decide, by decide⟩ rfl
  have h2 := h1.next (a := BeatAction.begin 0) (hgap rfl) rfl
  have h3 := h2.next (a := BeatAction.shard open3) (prompt_fd3 rfl) rfl
  have h4 := h3.next (a := BeatAction.shard open3) (prompt_fd3 rfl) rfl
  have h5 := h4.next (a := BeatAction.begin 10) (hgap rfl) rfl
  have h6 := h5.next (a := BeatAction.shard open3) (prompt_fd3 rfl) rfl
  have h7 := h6.next (a := BeatAction.shard open3) (prompt_fd3 rfl) rfl
  have h8 := h7.next (a := BeatAction.onReceiveData .conn ()) trivial rfl
  have h9 := h8.next (a := BeatAction.begin 20) (hgap rfl) rfl
  have h10 := h9.next (a := BeatAction.shard open3) (prompt_fd3 rfl) rfl
  exact ⟨_, rfl, rfl, keeps_alive h10⟩

end BeatWorld

end Netlib
