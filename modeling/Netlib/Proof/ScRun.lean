import Netlib.Spec.ScRun
import Netlib.Proof.ScClient
import Mathlib.Algebra.BigOperators.Group.Finset.Piecewise
import Mathlib.Algebra.Order.BigOperators.Group.Finset

/-!
# A call is executed twice at most

On every connection, also one that the client has left, there is one request at most that the
server has not taken, and behind it perhaps a beginning of one that could not be sent
(`ScLink.Backlog`). So the server calls a handler for each request once at most, in the order in
which they were sent (`ScLink.Tidy`). A connection has no call twice, since an attempt that
fails closes it, and the attempts of a call are counted by `sends` (`ScRun.Inv`).
-/

namespace Netlib

open Lib BaseScClient

variable {ω : Type*}

/-! ## A request that is not sent to the end -/

/-- A beginning of a frame is no frame. -/
theorem nextFrame_cut {limit t : ℕ} {data bytes rest : List Byte} (hl : data.length ≤ limit)
    (h32 : data.length < 2 ^ 32) (h : bytes ++ rest = encodeFrame t data) (hrest : rest ≠ []) :
    nextFrame limit bytes = .more := by
  have hpos : 0 < rest.length := List.length_pos_iff.mpr hrest
  have hwhole : nextFrame limit (encodeFrame t data ++ []) =
      .frame data (encodeFrame t data).length :=
    nextFrame_encode hl h32 []
  rw [List.append_nil, ← h] at hwhole
  obtain ⟨-, hn, -⟩ := nextFrame_frame hwhole
  have hlen := encodeFrame_length t data
  rw [← h] at hlen
  rw [List.length_append] at hn hlen
  by_cases hshort : bytes.length < hdrlen
  · exact if_pos hshort
  · have hsize := frameSize_append (t := rest) (Nat.le_of_not_lt hshort)
    unfold nextFrame
    rw [if_neg hshort, if_neg (by omega), if_pos (by omega)]

namespace SyncConnector

/-- A loop of `Send` that returns false has not sent all bytes. -/
theorem sendLoop_false (as : List SendSome) : ∀ {b : Buffer} {bytes : List Byte}, b.WF →
    b._pos < 2 ^ 31 → 0 < b.length → sendLoop b as = some (false, bytes) →
    ∃ rest, rest ≠ [] ∧ bytes ++ rest = b.unread := by
  induction as with
  | nil =>
    intro b bytes _ _ _ h
    cases h
  | cons a as ih =>
    intro b bytes hwf hpos hlen h
    cases a with
    | fail =>
      cases h
      refine ⟨b.unread, ?_, rfl⟩
      intro hnil
      rw [← hwf.unread_length, hnil] at hlen
      exact Nat.lt_irrefl _ hlen
    | sent n =>
      unfold sendLoop at h
      split at h
      · rename_i hn
        have hle := hwf.length_eq
        have hint : toInt32 n = n := by
          rw [toInt32, u32_of_lt (by omega), if_pos (by omega)]
        obtain ⟨hcut, hcwf⟩ := hwf.cutData hn
        have htake : b.data.take n = b.unread.take n := by
          rw [← hwf.data_take, List.take_take, Nat.min_eq_left hn]
        have hrest : (b.cutData n).unread = b.unread.drop n := by rw [hcut, Buffer.unread_offset]
        simp only [hint, htake] at h
        split at h
        · cases h
        · rename_i h0
          rw [Option.map_eq_some_iff] at h
          obtain ⟨⟨ok, bytes'⟩, hloop, heq⟩ := h
          cases heq
          obtain ⟨rest, hne, happ⟩ := ih hcwf (by rw [hcut]; exact hpos) (Nat.pos_of_ne_zero h0) hloop
          refine ⟨rest, hne, ?_⟩
          rw [List.append_assoc, happ, hrest, List.take_append_drop]
      · cases h

/-- A `Send` that returns false leaves no whole frame behind. -/
theorem send_false {c c' : SyncConnector} {now : ℕ} {data bytes : List Byte} {as : List SendSome}
    (h : c.send now data as = some (false, bytes, c')) : nextFrame socketPackSize bytes = .more := by
  unfold send at h
  split at h
  · cases h
    exact nextFrame_nil socketPackSize
  split at h
  · rename_i hlen
    simp only [Option.map_eq_some_iff] at h
    obtain ⟨⟨ok, sent⟩, hloop, heq⟩ := h
    cases heq
    have hfilled := sndbuffer_filled now hlen.2
    have hmax : data.length ≤ 65527 := hlen.2
    have hsmall := hfilled.pos
    rw [encodeFrame_length] at hsmall
    obtain ⟨rest, hne, happ⟩ := sendLoop_false as hfilled.wf (by rw [hsmall]; simp only [hdrlen]; omega)
      (by rw [← hfilled.wf.unread_length, hfilled.unread, encodeFrame_length]; simp only [hdrlen]; omega)
      hloop
    rw [hfilled.unread] at happ
    exact nextFrame_cut (Nat.le_trans hlen.2 limit_le) (by omega) happ hne
  · cases h
    exact nextFrame_nil socketPackSize

end SyncConnector

/-! ## One connection -/

namespace ScLink

variable {l : ScLink}

/-- **What the server has not taken**: one request at most. -/
inductive Backlog (l : ScLink) : Prop
  | clear (frames : l.frames = l.asked.length)
      (next : nextFrame socketPackSize (l.up.drop l.taken) = .more)
  | one {as : List Asked} {a : Asked} (asked : l.asked = as ++ [a]) (frames : l.frames = as.length)
      (taken : l.taken ≤ l.up.length) {timestamp idx : ℕ}
      (up : l.up.drop l.taken = encodeFrame timestamp (request a.args idx))
      (len : (request a.args idx).length ≤ socketPackSize) (hidx : idx < 2 ^ 32)

/-- **Each request is dealt with once at most**, in order, as it was asked. -/
structure Tidy (l : ScLink) : Prop where
  info : l.InfoWF
  backlog : l.Backlog
  lt : ∀ s ∈ l.served, s.frame < l.frames
  order : l.served.Pairwise fun s s' => s.frame < s'.frame
  genuine : ∀ s ∈ l.served, ∃ a, l.asked[s.frame]? = some a ∧ s.dealt = a.args.dealt

theorem connected_tidy (port : ℕ) : (connected port).Tidy := by
  have hquiet := connected_quiet port
  refine ⟨hquiet.info, .clear hquiet.frames hquiet.next, ?_, List.Pairwise.nil, ?_⟩
  · intro s hs
    cases hs
  · intro s hs
    cases hs

/-- What the client reads changes nothing. -/
theorem Tidy.read (h : l.Tidy) (got : ℕ) : Tidy { l with got := got } := by
  refine ⟨h.info, ?_, h.lt, h.order, h.genuine⟩
  cases h.backlog with
  | clear frames next => exact .clear frames next
  | one asked frames taken up len hidx => exact .one asked frames taken up len hidx

/-- A request that is sent. -/
theorem Tidy.ask (h : l.Tidy) (hquiet : l.Quiet) (a : Asked) (timestamp : ℕ) {idx : ℕ}
    (hlen : (request a.args idx).length ≤ socketPackSize) (hidx : idx < 2 ^ 32) :
    Tidy { l with
      up := l.up ++ encodeFrame timestamp (request a.args idx)
      asked := l.asked ++ [a] } := by
  have hup : (l.up ++ encodeFrame timestamp (request a.args idx)).drop l.taken =
      encodeFrame timestamp (request a.args idx) := by
    rw [hquiet.taken]
    exact List.drop_left
  refine ⟨h.info, .one rfl hquiet.frames ?_ hup hlen hidx, h.lt, h.order, ?_⟩
  · rw [hquiet.taken, List.length_append]
    exact Nat.le_add_right _ _
  · intro s hs
    obtain ⟨a', hask, hdealt⟩ := h.genuine s hs
    refine ⟨a', ?_, hdealt⟩
    dsimp only
    rw [List.getElem?_append_left (List.getElem?_eq_some_iff.mp hask).1, hask]

/-- A request that is not sent to the end. -/
theorem Tidy.cut (h : l.Tidy) (hquiet : l.Quiet) {bytes : List Byte}
    (hmore : nextFrame socketPackSize bytes = .more) : Tidy { l with up := l.up ++ bytes } := by
  refine ⟨h.info, .clear hquiet.frames ?_, h.lt, h.order, h.genuine⟩
  dsimp only
  rw [hquiet.taken, List.drop_left]
  exact hmore

/-- **The server takes a frame.** -/
theorem Tidy.serve (h : l.Tidy) (_handlers : ℕ → Option (ScHandler ω)) (user : ω) {frame : Buffer}
    (hb : frame.WF) {n : ℕ}
    (hnext : nextFrame socketPackSize (l.up.drop l.taken) = .frame frame.unread n) (now : ℕ)
    (sock : TcpBaseSocket) (err : Bool) :
    (l.serve _handlers user frame n now sock err).1.Tidy := by
  cases h.backlog with
  | clear frames next =>
    rw [hnext] at next
    cases next
  | @one as a asked frames taken timestamp idx up len hidx =>
    have hlen : (request a.args idx).length < 2 ^ 32 := by
      simp only [socketPackSize] at len
      omega
    have hframe : nextFrame socketPackSize (encodeFrame timestamp (request a.args idx) ++ []) = _ :=
      nextFrame_encode len hlen []
    rw [List.append_nil, ← up, hnext] at hframe
    obtain ⟨hun, hn⟩ := Next.frame.inj hframe
    obtain ⟨s', hs', hwf, hres⟩ := ScServer.onReceiveData_reply _handlers
      (s := ⟨l.info, user, [], []⟩) h.info rfl rfl hb (toU32_lt a.args.msg_type) hidx hun
    rw [toInt32_toU32 a.args.int.1 a.args.int.2] at hres
    have hclear : ∀ info served down, Backlog { l with
        taken := l.taken + n
        frames := l.frames + 1
        info := info
        served := served
        down := down } := by
      intro info served down
      refine .clear ?_ ?_
      · dsimp only
        rw [asked, frames, List.length_append]
        rfl
      · have hall : l.up.length ≤ l.taken + n := by
          rw [hn, List.length_drop]
          omega
        dsimp only
        rw [List.drop_eq_nil_of_le hall]
        exact nextFrame_nil socketPackSize
    have hlt : ∀ s ∈ l.served, s.frame < l.frames + 1 := fun s hs => Nat.lt_succ_of_lt (h.lt s hs)
    simp only [ScLink.serve, hs']
    rcases hres with ⟨hd, hr⟩ | ⟨bytes, hr, hd⟩
    · -- there is no handler
      simp only [hd, hr, List.zip_nil_left, List.map_nil, List.flatMap_nil, List.append_nil]
      exact ⟨hwf, hclear _ _ _, hlt, h.order, h.genuine⟩
    · simp only [hd, hr, List.zip_cons_cons, List.zip_nil_left, List.map_cons, List.map_nil]
      refine ⟨hwf, hclear _ _ _, ?_, ?_, ?_⟩
      · intro s hs
        rcases List.mem_append.mp hs with hs | hs
        · exact hlt s hs
        · rw [List.mem_singleton.mp hs]
          exact Nat.lt_succ_self _
      · refine List.pairwise_append.mpr ⟨h.order, List.pairwise_singleton _ _, ?_⟩
        intro s hs t ht
        rw [List.mem_singleton.mp ht]
        exact h.lt s hs
      · intro s hs
        rcases List.mem_append.mp hs with hs | hs
        · exact h.genuine s hs
        · rw [List.mem_singleton.mp hs]
          refine ⟨a, ?_, rfl⟩
          dsimp only
          rw [asked, frames, List.getElem?_concat_length]

/-- The requests of one connection are those of calls one after the other. -/
def Sorted (l : ScLink) : Prop := l.sent.Pairwise (· < ·)

theorem Tidy.executed_sorted (h : l.Tidy) (hs : l.Sorted) : l.executed.Pairwise (· < ·) := by
  unfold executed
  rw [List.pairwise_filterMap]
  refine h.order.imp ?_
  intro s t hlt n hn m hm
  obtain ⟨a, ha, rfl⟩ := Option.map_eq_some_iff.mp hn
  obtain ⟨b, hb, rfl⟩ := Option.map_eq_some_iff.mp hm
  obtain ⟨hi, rfl⟩ := List.getElem?_eq_some_iff.mp ha
  obtain ⟨hj, rfl⟩ := List.getElem?_eq_some_iff.mp hb
  exact List.pairwise_iff_getElem.mp (List.pairwise_map.mp hs) _ _ hi hj hlt

theorem executed_subset : l.executed ⊆ l.sent := by
  intro n hn
  obtain ⟨s, -, hs⟩ := List.mem_filterMap.mp hn
  obtain ⟨a, ha, rfl⟩ := Option.map_eq_some_iff.mp hs
  exact List.mem_map_of_mem (List.mem_of_getElem? ha)

/-- A call is executed at most as often as it was sent. -/
theorem Tidy.count_executed_le (h : l.Tidy) (hs : l.Sorted) (n : ℕ) :
    l.executed.count n ≤ l.sent.count n := by
  have hnd : l.executed.Nodup := (h.executed_sorted hs).imp Nat.ne_of_lt
  exact (hnd.subperm executed_subset).count_le n

end ScLink

/-! ## Runs -/

namespace ScPc

/-- A call is under way. -/
def busy : ScPc → Bool
  | idle | reconnect none => false
  | _ => true

/-- An attempt is under way, and its request is not sent. -/
def before : ScPc → Bool
  | attempt _ | reconnect (some _) | ready _ => true
  | _ => false

end ScPc

namespace ScRun

variable {r : ScRun ω} {w : ScWorld ω}

/-- **The invariant.** -/
structure Inv (r : ScRun ω) : Prop where
  world : r.world.Inv
  blank : ∀ k, r.world.made ≤ k → (r.world.link k).asked = []
  tidy : ∀ k, (r.world.link k).Tidy
  sorted : ∀ k, (r.world.link k).Sorted
  len : r.made.length = r.world.calls
  last : r.world.pc.busy = true → ∃ n, r.world.calls = n + 1 ∧ r.made[n]? = some r.world.call
  known : ∀ k, ∀ a ∈ (r.world.link k).asked, ∃ n, a.call = n + 1 ∧ r.made[n]? = some a.args
  earlier : r.world.pc.before = true → ∀ k c, r.world._socket = some (k, c) →
    ∀ n ∈ (r.world.link k).sent, n < r.world.calls
  tries : r.attempts r.world.calls ≤ r.world.sends
  twice : ∀ n, r.attempts n ≤ 2

/-- No request is one of a call to come. -/
theorem Inv.sent_le (h : r.Inv) {k n : ℕ} (hn : n ∈ (r.world.link k).sent) : n ≤ r.world.calls := by
  obtain ⟨a, ha, rfl⟩ := List.mem_map.mp hn
  obtain ⟨m, hm, hmade⟩ := h.known k a ha
  rw [hm, ← h.len]
  exact (List.getElem?_eq_some_iff.mp hmade).1

/-- A step that sends no request and makes no call. -/
theorem Inv.links (h : r.Inv) (hw : w.Inv) (hmade : w.made = r.world.made)
    (hcalls : w.calls = r.world.calls) (hcall : w.call = r.world.call)
    (hsends : r.world.sends ≤ w.sends)
    (hasked : ∀ k, (w.link k).asked = (r.world.link k).asked) (htidy : ∀ k, (w.link k).Tidy)
    (hbusy : w.pc.busy = true → r.world.pc.busy = true)
    (hbefore : w.pc.before = true → ∀ k c, w._socket = some (k, c) →
      r.world.pc.before = true ∧ ∃ c', r.world._socket = some (k, c')) :
    Inv ⟨w, r.made⟩ := by
  have hsent : ∀ k, (w.link k).sent = (r.world.link k).sent := fun k =>
    congrArg (List.map Asked.call) (hasked k)
  have hattempts : ∀ n, ScRun.attempts ⟨w, r.made⟩ n = r.attempts n := by
    intro n
    unfold attempts
    dsimp only
    rw [hmade]
    refine Finset.sum_congr rfl fun k _ => ?_
    rw [hsent k]
  refine ⟨hw, ?_, htidy, ?_, ?_, ?_, ?_, ?_, ?_, ?_⟩
  · intro k hk
    dsimp only at hk ⊢
    rw [hasked k]
    exact h.blank k (hmade ▸ hk)
  · intro k
    unfold ScLink.Sorted
    dsimp only
    rw [hsent k]
    exact h.sorted k
  · exact h.len.trans hcalls.symm
  · intro hb
    obtain ⟨n, hn, hlast⟩ := h.last (hbusy hb)
    exact ⟨n, hcalls.trans hn, hlast.trans (congrArg some hcall.symm)⟩
  · intro k a ha
    dsimp only at ha
    rw [hasked k] at ha
    exact h.known k a ha
  · intro hb k c hsock n hn
    dsimp only at hb hsock hn ⊢
    obtain ⟨hb', c', hsock'⟩ := hbefore hb k c hsock
    rw [hsent k] at hn
    rw [hcalls]
    exact h.earlier hb' k c' hsock' n hn
  · rw [hattempts]
    dsimp only
    rw [hcalls]
    exact Nat.le_trans h.tries hsends
  · intro n
    rw [hattempts]
    exact h.twice n

/-- A step on one connection. -/
theorem Inv.setLink (h : r.Inv) {k : ℕ} {l : ScLink} (htidy : l.Tidy) (j : ℕ) :
    ((r.world.setLink k l).link j).Tidy := by
  rw [ScWorld.setLink_link]
  split
  · exact htidy
  · exact h.tidy j

theorem setLink_asked (w : ScWorld ω) {k : ℕ} {l : ScLink} (hasked : l.asked = (w.link k).asked)
    (j : ℕ) : ((w.setLink k l).link j).asked = (w.link j).asked := by
  rw [ScWorld.setLink_link]
  split
  · rename_i hj
    rw [hj, hasked]
  · rfl

/-- **A call.** -/
theorem Inv.call (h : r.Inv) {c : ScCall}
    (hw : ScWorld.Inv { r.world with
      call := c, calls := r.world.calls + 1, sends := 0, pc := .attempt 0, code := 0 }) :
    Inv ⟨{ r.world with
      call := c, calls := r.world.calls + 1, sends := 0, pc := .attempt 0, code := 0 },
      r.made ++ [c]⟩ := by
  refine ⟨hw, h.blank, h.tidy, h.sorted, ?_, ?_, ?_, ?_, ?_, h.twice⟩
  · rw [List.length_append, h.len]
    rfl
  · intro _
    refine ⟨r.world.calls, rfl, ?_⟩
    dsimp only
    rw [← h.len, List.getElem?_concat_length]
  · intro k a ha
    obtain ⟨n, hn, hmade⟩ := h.known k a ha
    refine ⟨n, hn, ?_⟩
    dsimp only
    rw [List.getElem?_append_left (List.getElem?_eq_some_iff.mp hmade).1, hmade]
  · intro _ k c' _ n hn
    exact Nat.lt_succ_of_le (h.sent_le hn)
  · have hnone : r.attempts (r.world.calls + 1) = 0 := by
      refine Finset.sum_eq_zero fun k _ => List.count_eq_zero_of_not_mem fun hn => ?_
      exact Nat.not_succ_le_self _ (h.sent_le hn)
    exact Nat.le_of_eq hnone

/-- **A new connection.** -/
theorem Inv.connected (h : r.Inv) {pc : ScPc} {c : SyncConnector} (hbusy : pc.busy = true →
    r.world.pc.busy = true) (hw : ScWorld.Inv { r.world with
      _socket := some (r.world.made, c), made := r.world.made + 1, pc := pc }) :
    Inv ⟨{ r.world with _socket := some (r.world.made, c), made := r.world.made + 1, pc := pc },
      r.made⟩ := by
  have hattempts : ∀ n, ScRun.attempts ⟨{ r.world with
      _socket := some (r.world.made, c), made := r.world.made + 1, pc := pc }, r.made⟩ n =
        r.attempts n := by
    intro n
    unfold attempts
    dsimp only
    rw [Finset.sum_range_succ]
    have hnew : (r.world.link r.world.made).sent.count n = 0 := by
      unfold ScLink.sent
      rw [h.blank r.world.made (Nat.le_refl _)]
      rfl
    rw [hnew, Nat.add_zero]
  refine ⟨hw, fun k hk => h.blank k (Nat.le_of_succ_le hk), h.tidy, h.sorted, h.len,
    fun hb => h.last (hbusy hb), h.known, ?_, ?_, ?_⟩
  · intro _ k c' hsock n hn
    obtain ⟨rfl, -⟩ := Prod.mk.inj (Option.some.inj hsock)
    unfold ScLink.sent at hn
    dsimp only at hn
    rw [h.blank r.world.made (Nat.le_refl _)] at hn
    cases hn
  · rw [hattempts]
    exact h.tries
  · intro n
    rw [hattempts]
    exact h.twice n

/-- **A request is sent.** -/
theorem Inv.asked (h : r.Inv) {cnt k : ℕ} {c c' : SyncConnector} {up : List Byte}
    {client : BaseScClient} (hpc : r.world.pc = .ready cnt) (hsock : r.world._socket = some (k, c))
    (hk : k < r.world.made)
    (htidy : ScLink.Tidy { r.world.link k with
      up := up, asked := (r.world.link k).asked ++ [⟨r.world.calls, cnt, r.world.call⟩] })
    (hw : ScWorld.Inv { r.world.setLink k { r.world.link k with
        up := up, asked := (r.world.link k).asked ++ [⟨r.world.calls, cnt, r.world.call⟩] } with
      client := client, _socket := some (k, c'), sends := r.world.sends + 1, pc := .waiting cnt }) :
    Inv ⟨{ r.world.setLink k { r.world.link k with
        up := up, asked := (r.world.link k).asked ++ [⟨r.world.calls, cnt, r.world.call⟩] } with
      client := client, _socket := some (k, c'), sends := r.world.sends + 1, pc := .waiting cnt },
      r.made⟩ := by
  have hbusy : r.world.pc.busy = true := by rw [hpc]; rfl
  have hbefore : r.world.pc.before = true := by rw [hpc]; rfl
  have hearlier := h.earlier hbefore k c hsock
  generalize hl : ({ r.world.link k with
    up := up, asked := (r.world.link k).asked ++ [⟨r.world.calls, cnt, r.world.call⟩] } : ScLink) = l
    at htidy hw ⊢
  have hasked : l.asked = (r.world.link k).asked ++ [⟨r.world.calls, cnt, r.world.call⟩] := by
    rw [← hl]
  have hsent : l.sent = (r.world.link k).sent ++ [r.world.calls] := by
    unfold ScLink.sent
    rw [hasked, List.map_append]
    rfl
  have hattempts : ∀ n, ScRun.attempts ⟨{ r.world.setLink k l with
      client := client, _socket := some (k, c'), sends := r.world.sends + 1, pc := .waiting cnt },
      r.made⟩ n = r.attempts n + if n = r.world.calls then 1 else 0 := by
    intro n
    have hlink : ∀ j, ((r.world.setLink k l).link j).sent.count n = (r.world.link j).sent.count n +
        if k = j then (if n = r.world.calls then 1 else 0) else 0 := by
      intro j
      by_cases hj : j = k
      · subst hj
        rw [ScWorld.setLink_self, hsent, List.count_append, if_pos rfl]
        by_cases hn : n = r.world.calls
        · rw [if_pos hn, hn, List.count_singleton_self]
        · rw [if_neg hn, List.count_eq_zero_of_not_mem fun hmem => hn (List.mem_singleton.mp hmem)]
      · rw [ScWorld.setLink_of_ne _ _ hj, if_neg (Ne.symm hj), Nat.add_zero]
    unfold attempts
    dsimp only
    have hmade : (r.world.setLink k l).made = r.world.made := rfl
    rw [hmade, Finset.sum_congr rfl fun j _ => hlink j, Finset.sum_add_distrib, Finset.sum_ite_eq,
      if_pos (Finset.mem_range.mpr hk)]
  refine ⟨hw, ?_, h.setLink htidy, ?_, h.len, fun _ => h.last hbusy, ?_, ?_, ?_, ?_⟩
  · intro j hj
    have hne : j ≠ k := Nat.ne_of_gt (Nat.lt_of_lt_of_le hk hj)
    exact (congrArg ScLink.asked (ScWorld.setLink_of_ne r.world l hne)).trans (h.blank j hj)
  · intro j
    dsimp only
    rw [ScWorld.setLink_link]
    split
    · unfold ScLink.Sorted
      rw [hsent]
      refine List.pairwise_append.mpr ⟨h.sorted k, List.pairwise_singleton _ _, ?_⟩
      intro n hn m hm
      rw [List.mem_singleton.mp hm]
      exact hearlier n hn
    · exact h.sorted j
  · intro j a ha
    dsimp only at ha
    rw [ScWorld.setLink_link] at ha
    split at ha
    · rw [hasked] at ha
      rcases List.mem_append.mp ha with ha | ha
      · exact h.known k a ha
      · rw [List.mem_singleton.mp ha]
        exact h.last hbusy
    · exact h.known j a ha
  · intro hb
    cases hb
  · rw [hattempts]
    have hcalls : (r.world.setLink k l).calls = r.world.calls := rfl
    dsimp only
    rw [hcalls, if_pos rfl]
    exact Nat.succ_le_succ h.tries
  · intro n
    rw [hattempts]
    split
    · rename_i hn
      have hle := hw.bound.le
      have htries := h.tries
      dsimp only at hle
      rw [hn]
      omega
    · exact h.twice n

/-- The end of an attempt that does not return 0. -/
theorem Inv.failed (h : r.Inv) {cnt : ℕ} {code : ℤ} (hbusy : r.world.pc.busy = true)
    (hw : (w.closeSocket.nextAttempt cnt code).Inv) (hmade : w.made = r.world.made)
    (hcalls : w.calls = r.world.calls) (hcall : w.call = r.world.call)
    (hsends : r.world.sends ≤ w.sends)
    (hasked : ∀ k, (w.link k).asked = (r.world.link k).asked) (htidy : ∀ k, (w.link k).Tidy) :
    Inv ⟨w.closeSocket.nextAttempt cnt code, r.made⟩ := by
  refine h.links hw hmade hcalls hcall hsends hasked htidy (fun _ => hbusy) ?_
  intro _ k c hsock
  cases hsock

theorem Inv.sendStep (h : r.Inv) {cnt now : ℕ} {as : List SendSome} (hpc : r.world.pc = .ready cnt)
    (hw : w.Inv) (hs : r.world.sendStep cnt now as = some w) : Inv ⟨w, r.made⟩ := by
  have hbusy : r.world.pc.busy = true := by rw [hpc]; rfl
  unfold ScWorld.sendStep at hs
  cases hsock : r.world._socket with
  | none =>
    rw [hsock] at hs
    cases hs
  | some kc =>
    obtain ⟨k, c⟩ := kc
    simp only [hsock] at hs
    split_ifs at hs with hroom
    obtain ⟨⟨ok, bytes, c'⟩, hsend, rfl⟩ := Option.map_eq_some_iff.mp hs
    obtain ⟨hk, -, -⟩ := h.world.socket k c hsock
    have hquiet := h.world.quiet hpc (fun _ => ScPc.noConfusion) hsock
    have hfill := fill_filled h.world.request (ScKind.scClient.wayOf r.world.call.reply)
      r.world.call.msg_type hroom
    rw [← ScKind.syncCall_eq] at hfill
    rw [hfill.wf.sendData, hfill.unread] at hsend
    cases ok with
    | false =>
      have hcut := (h.tidy k).cut hquiet (SyncConnector.send_false hsend)
      exact h.failed (w := { r.world.setLink k { r.world.link k with
        up := (r.world.link k).up ++ bytes } with
          client := _, _socket := some (k, c'), sends := r.world.sends + 1 }) hbusy hw rfl rfl rfl
        (Nat.le_succ _) (setLink_asked _ rfl) (h.setLink hcut)
    | true =>
      obtain ⟨rfl, -, hlen, -⟩ := SyncConnector.send_true hsend
      have hask := (h.tidy k).ask hquiet ⟨r.world.calls, cnt, r.world.call⟩ (u32 now)
        (Nat.le_trans hlen SyncConnector.limit_le)
        (Nat.mod_lt (r.world.client._packidx + 1) (by decide))
      exact h.asked hpc hsock hk hask hw

theorem Inv.recvStep (h : r.Inv) {cnt : ℕ} {rs : List RecvSome} (hpc : r.world.pc = .waiting cnt)
    (hw : w.Inv) (hs : r.world.recvStep cnt rs = some w) : Inv ⟨w, r.made⟩ := by
  have hbusy : r.world.pc.busy = true := by rw [hpc]; rfl
  unfold ScWorld.recvStep at hs
  cases hsock : r.world._socket with
  | none =>
    rw [hsock] at hs
    cases hs
  | some kc =>
    obtain ⟨k, c⟩ := kc
    simp only [hsock] at hs
    split_ifs at hs
    split at hs
    · have htidy := (h.tidy k).read ((r.world.link k).got + (rs.flatMap RecvSome.bytes).length)
      split_ifs at hs
      · obtain rfl := Option.some.inj hs
        refine h.links hw rfl rfl rfl (Nat.le_refl _) (setLink_asked _ rfl) (h.setLink htidy) ?_ ?_
        · intro hb
          cases hb
        · intro hb
          cases hb
      · obtain rfl := Option.some.inj hs
        have hclosed : ∀ socket, (ScWorld.nextAttempt (ScWorld.closeSocket
            { r.world.setLink k { r.world.link k with
                got := (r.world.link k).got + (rs.flatMap RecvSome.bytes).length } with
              _socket := socket }) cnt (-3)).Inv →
            Inv ⟨ScWorld.nextAttempt (ScWorld.closeSocket
              { r.world.setLink k { r.world.link k with
                  got := (r.world.link k).got + (rs.flatMap RecvSome.bytes).length } with
                _socket := socket }) cnt (-3), r.made⟩ := by
          intro socket hw
          exact h.failed hbusy hw rfl rfl rfl (Nat.le_refl _) (setLink_asked _ rfl) (h.setLink htidy)
        exact hclosed _ hw
    · cases hs

theorem Inv.serveStep (h : r.Inv) {_handlers : ℕ → Option (ScHandler ω)} {k : ℕ} {frame : Buffer}
    (hb : frame.WF) {now : ℕ} {sock : TcpBaseSocket} {err : Bool} (hw : w.Inv)
    (hs : r.world.serveStep _handlers k frame now sock err = some w) : Inv ⟨w, r.made⟩ := by
  unfold ScWorld.serveStep at hs
  simp only at hs
  split at hs
  · rename_i p n hnext
    split_ifs at hs with hun
    obtain rfl := Option.some.inj hs
    subst hun
    have htidy := (h.tidy k).serve _handlers r.world.user hb hnext now sock err
    exact h.links hw rfl rfl rfl (Nat.le_refl _) (setLink_asked _ rfl) (h.setLink htidy) id
      fun hb k c hsock => ⟨hb, c, hsock⟩
  · cases hs

/-- **One step** keeps the invariant. -/
theorem Inv.step {_handlers : ℕ → Option (ScHandler ω)} {a : ScAction ω} {r' : ScRun ω} (h : r.Inv)
    (hs : r.step _handlers a = some r') : r'.Inv := by
  obtain ⟨w, hw, rfl⟩ := Option.map_eq_some_iff.mp hs
  have hinv := h.world.step hw
  cases a with
  | open_ =>
    simp only [ScWorld.step] at hw
    split_ifs at hw with hpc
    obtain rfl := Option.some.inj hw
    refine h.links hinv rfl rfl rfl (Nat.le_refl _) (fun _ => rfl) h.tidy ?_ ?_
    · intro hb
      cases hb
    · intro hb
      cases hb
  | call c =>
    simp only [ScWorld.step] at hw
    split_ifs at hw
    obtain rfl := Option.some.inj hw
    exact h.call hinv
  | close =>
    simp only [ScWorld.step] at hw
    split_ifs at hw
    obtain rfl := Option.some.inj hw
    refine h.links hinv rfl rfl rfl (Nat.le_refl _) (fun _ => rfl) h.tidy id ?_
    intro _ k c hsock
    cases hsock
  | use b =>
    simp only [ScWorld.step] at hw
    split at hw
    · rename_i k c hsock
      split_ifs at hw with hpc
      obtain rfl := Option.some.inj hw
      refine h.links hinv rfl rfl rfl (Nat.le_refl _) (fun _ => rfl) h.tidy id ?_
      intro hb
      dsimp only at hb
      rw [hpc] at hb
      cases hb
    · cases hw
  | check =>
    simp only [ScWorld.step] at hw
    split at hw
    · rename_i cnt hpc
      have hbusy : r.world.pc.busy = true := by rw [hpc]; rfl
      have hbefore : r.world.pc.before = true := by rw [hpc]; rfl
      have hpcs : ∀ pc, ScWorld.Inv { r.world with pc := pc } → Inv ⟨{ r.world with pc := pc }, r.made⟩ :=
        fun pc hinv => h.links hinv rfl rfl rfl (Nat.le_refl _) (fun _ => rfl) h.tidy (fun _ => hbusy)
          fun _ k c hsock => ⟨hbefore, c, hsock⟩
      split at hw
      · split_ifs at hw
        · obtain rfl := Option.some.inj hw
          exact hpcs _ hinv
        · obtain rfl := Option.some.inj hw
          exact hpcs _ hinv
      · obtain rfl := Option.some.inj hw
        exact hpcs _ hinv
    · cases hw
  | connect ok =>
    simp only [ScWorld.step] at hw
    split at hw
    · rename_i cnt hpc
      obtain rfl := Option.some.inj hw
      cases ok with
      | true =>
        cases cnt with
        | none => exact h.connected (fun hb => by cases hb) hinv
        | some cnt => exact h.connected (fun _ => by rw [hpc]; rfl) hinv
      | false =>
        cases cnt with
        | none =>
          refine h.links hinv rfl rfl rfl (Nat.le_refl _) (fun _ => rfl) h.tidy ?_ ?_
          · intro hb
            cases hb
          · intro hb
            cases hb
        | some cnt =>
          exact h.failed (by rw [hpc]; rfl) hinv rfl rfl rfl (Nat.le_refl _) (fun _ => rfl) h.tidy
    · cases hw
  | send now as =>
    simp only [ScWorld.step] at hw
    split at hw
    · rename_i cnt hpc
      exact h.sendStep hpc hinv hw
    · cases hw
  | recv rs =>
    simp only [ScWorld.step] at hw
    split at hw
    · rename_i cnt hpc
      exact h.recvStep hpc hinv hw
    · cases hw
  | serve k frame now sock err => exact h.serveStep frame.property hinv hw
  | user u =>
    simp only [ScWorld.step] at hw
    obtain rfl := Option.some.inj hw
    exact h.links hinv rfl rfl rfl (Nat.le_refl _) (fun _ => rfl) h.tidy id
      fun hb k c hsock => ⟨hb, c, hsock⟩

theorem start_inv (port : ℕ) (user : ω) : (start port user).Inv := by
  refine ⟨ScWorld.start_inv port user, fun _ _ => rfl, fun _ => ScLink.connected_tidy port,
    fun _ => List.Pairwise.nil, rfl, ?_, ?_, ?_, Nat.le_refl 0, fun _ => Nat.zero_le 2⟩
  · intro hb
    cases hb
  · intro k a ha
    cases ha
  · intro hb
    cases hb

/-- **A call is executed twice at most**, in every run. -/
theorem at_most_twice {port : ℕ} {user : ω} {_handlers : ℕ → Option (ScHandler ω)}
    (h : Reach (ScRun.step _handlers) always (start port user) r) : r.AtMostTwice := by
  have hinv : r.Inv := h.inv (start_inv port user) fun _ _ _ hi _ hs => hi.step hs
  have hsent : ∀ n, r.executions n ≤ r.attempts n := fun n =>
    Finset.sum_le_sum fun k _ => (hinv.tidy k).count_executed_le (hinv.sorted k) n
  refine ⟨?_, fun k => (hinv.tidy k).executed_sorted (hinv.sorted k),
    fun n => Nat.le_trans (hsent n) (hinv.twice n), hsent, hinv.tries, ?_⟩
  · intro k s hs
    obtain ⟨a, hask, hdealt⟩ := (hinv.tidy k).genuine s hs
    obtain ⟨n, hn, hmade⟩ := hinv.known k a (List.mem_of_getElem? hask)
    refine ⟨n, a.args, hmade, hdealt, ?_⟩
    rw [hask, ← hn]
    rfl
  · intro ret hret
    obtain ⟨hask, s, hs, hframe, -⟩ := hinv.world.returns ret hret
    have hlink : ret.link ∈ Finset.range r.world.made := by
      rw [Finset.mem_range]
      by_contra hge
      rw [hinv.blank ret.link (Nat.le_of_not_lt hge)] at hask
      cases hask
    have hmem : ret.asked.call ∈ (r.world.link ret.link).executed := by
      refine List.mem_filterMap.mpr ⟨s, hs, ?_⟩
      rw [hframe, hask]
      rfl
    exact Finset.sum_pos' (fun _ _ => Nat.zero_le _) ⟨ret.link, hlink, List.count_pos_iff.mpr hmem⟩

/-- A call whose first request is taken only after it has returned. -/
theorem at_most_twice_late : ∃ r : ScRun Unit, r.executions 1 = 2 ∧
    r.world.returns.map Returned.reply = [[7]] ∧ r.AtMostTwice := by
  have hrun : ∃ r : ScRun Unit, ([.call ⟨true, 5, [3], by decide⟩, .check, .connect true,
      .send 0 [.sent 21], .recv [.fail (-1)], .check, .connect true, .send 0 [.sent 21],
      .serve 1 ⟨⟨13, 13, 0, words twowayType 5 2 ++ [3]⟩, ⟨by decide, by decide, by decide, rfl⟩⟩ 0
        .connected false,
      .recv [.data (encodeFrame 0 (words twowayType 5 2 ++ [7]))],
      .serve 0 ⟨⟨13, 13, 0, words twowayType 5 1 ++ [3]⟩, ⟨by decide, by decide, by decide, rfl⟩⟩ 0
        .connected false] : List (ScAction Unit)).foldlM
        (ScRun.step fun _ => some ScWorld.byteHandler) (start 80 ()) = some r ∧
      r.executions 1 = 2 ∧ r.world.returns.map Returned.reply = [[7]] := ⟨_, rfl, rfl, rfl⟩
  obtain ⟨r, hrun, htwo, hreply⟩ := hrun
  exact ⟨r, htwo, hreply, at_most_twice (Reach.of_foldlM (fun _ _ _ => trivial) hrun)⟩

end ScRun

end Netlib
