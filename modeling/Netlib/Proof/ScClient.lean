import Netlib.Spec.ScClient
import Netlib.Proof.Rpc
import Netlib.Proof.SyncConnector

/-!
# Replies match their calls

A client that does not wait has a connection on which every frame is taken and every reply is
read (`ScLink.Quiet`), with a connector that has no byte left over. So the one frame that it
then sends is the next that the server takes, and a reply that is read is the reply to it
(`ScLink.Asking`). Every failure closes the connector, which is what keeps this true
(`ScWorld.Inv`, `ScWorld.matched`).
-/

namespace Netlib

open Lib BaseScClient

variable {ω : Type*}

/-! ## The server's answer to a frame -/

namespace ScServer

/-- **The reply to a request**, if there is a handler: the three words of the request, and what
the handler appends. -/
theorem onReceiveData_reply (_handlers : ℕ → Option (ScHandler ω)) {s : ScConn ω} (hs : s.WF)
    (hdealt : s.dealt = []) (hsends : s.sends = []) {b : Buffer} (hb : b.WF) {reply : Bool}
    {msg_type idx : ℕ} {payload : List Byte} (hmsg : msg_type < 2 ^ 32) (hidx : idx < 2 ^ 32)
    (hun : b.unread = words (ScKind.scClient.wayOf reply) msg_type idx ++ payload) :
    ∃ s', (onReceiveData (fun id => (_handlers id).map ScHandler.toIServerHandler) s b).1 = s' ∧
      s'.WF ∧ (s'.dealt = [] ∧ s'.sends = [] ∨
        ∃ bytes, s'.sends = [words (ScKind.scClient.wayOf reply) msg_type idx ++ bytes] ∧
          s'.dealt = [if reply then .twoWay (toInt32 msg_type) payload
            else .oneWay (toInt32 msg_type) payload]) := by
  refine ⟨_, rfl, (onReceiveData_wf hs hb).1, ?_⟩
  set way := ScKind.scClient.wayOf reply with hwaydef
  have hway : way < 2 ^ 32 ∧ way ≠ keepaliveId := by cases reply <;> decide
  have hun1 : b.unread = le32 way ++ (le32 msg_type ++ (le32 idx ++ payload)) := by
    rw [hun, words, List.append_assoc, List.append_assoc]
  obtain ⟨hr1, hwf1, hun2⟩ := hb.readWord_eq hway.1 hun1
  obtain ⟨hr2, hwf2, hun3⟩ := hwf1.readWord_eq hmsg hun2
  obtain ⟨hr3, hwf3, hun4⟩ := hwf2.readWord_eq hidx hun3
  unfold onReceiveData
  cases hi : s.info with
  | none => exact .inl ⟨hdealt, hsends⟩
  | some pscinfo =>
    simp only [hr1, if_neg hway.2]
    cases _handlers pscinfo.id with
    | none => exact .inl ⟨hdealt, hsends⟩
    | some handler =>
      right
      have hfilled := filled_words (hs _ hi) way msg_type idx
      simp only [Option.map_some, hb.unreadWord, hr1, hr2, hr3, hun4, hdealt, hsends,
        List.nil_append]
      cases reply with
      | false =>
        have hone : way = onewayType := rfl
        simp only [if_pos hone]
        refine ⟨[], ?_, rfl⟩
        rw [hfilled.wf.sendData, hfilled.unread, List.append_nil]
      | true =>
        have htwo : way = twowayType := rfl
        have hone : ¬ way = onewayType := by rw [htwo]; decide
        simp only [if_neg hone, if_pos htwo]
        obtain ⟨bytes, happ⟩ := handler.appends s.user (toInt32 msg_type) _ _ hwf3 hfilled.wf
        have hw := (handler.wf_twoWay s.user (toInt32 msg_type) _ _ hwf3 hfilled.wf).2
        refine ⟨bytes, ?_, rfl⟩
        rw [hw.sendData, happ, hfilled.unread]

end ScServer

/-! ## Connections -/

namespace ScLink

variable {l : ScLink}

/-- The buffer of the `_ScInfo_` is well formed. -/
def InfoWF (l : ScLink) : Prop := ∀ i, l.info = some i → i.buffer.WF

/-- **Every frame is taken and every reply is read.** -/
structure Quiet (l : ScLink) : Prop where
  info : l.InfoWF
  taken : l.taken = l.up.length
  frames : l.frames = l.asked.length
  got : l.got = l.down.length

theorem connected_quiet (port : ℕ) : (connected port).Quiet := by
  refine ⟨?_, rfl, rfl, rfl⟩
  rintro i ⟨⟩
  exact Buffer.new_wf

/-- The data of a request. -/
def request (c : ScCall) (idx : ℕ) : List Byte :=
  words (ScKind.scClient.wayOf c.reply) (toU32 c.msg_type) idx ++ c.msg

/-- **The last request is the only one that is not answered**, or was not answered before the
reply that is on its way: its frame is not taken, or nothing is on its way back, or its reply is. -/
inductive Asking (l : ScLink) (a : Asked) : Prop
  | sent (info : l.InfoWF) {as : List Asked} (asked : l.asked = as ++ [a])
      (frames : l.frames = as.length) (got : l.got = l.down.length) (taken : l.taken ≤ l.up.length)
      {timestamp idx : ℕ} (up : l.up.drop l.taken = encodeFrame timestamp (request a.args idx))
      (len : (request a.args idx).length ≤ socketPackSize) (hidx : idx < 2 ^ 32)
  | taken (info : l.InfoWF) {as : List Asked} (asked : l.asked = as ++ [a])
      (frames : l.frames = l.asked.length) (taken : l.taken = l.up.length) (got : l.got = l.down.length)
  | replied (info : l.InfoWF) {as : List Asked} (asked : l.asked = as ++ [a])
      (frames : l.frames = l.asked.length) (taken : l.taken = l.up.length)
      {s : Served} (served : s ∈ l.served) (frame : s.frame = as.length)
      (dealt : s.dealt = a.args.dealt) (got : l.got ≤ l.down.length) {timestamp : ℕ}
      (down : l.down.drop l.got = encodeFrame timestamp s.data)
      (len : s.data.length ≤ socketPackSize) (words : 12 ≤ s.data.length)

/-- What was asked and served stays. -/
structure Extends (l l' : ScLink) : Prop where
  asked : l.asked <+: l'.asked
  served : ∀ s ∈ l.served, s ∈ l'.served

theorem Extends.refl (l : ScLink) : l.Extends l := ⟨List.prefix_refl _, fun _ hs => hs⟩

theorem serve_extends (_handlers : ℕ → Option (ScHandler ω)) (l : ScLink) (user : ω) (frame : Buffer)
    (n now : ℕ) (sock : TcpBaseSocket) (err : Bool) :
    l.Extends (l.serve _handlers user frame n now sock err).1 :=
  ⟨List.prefix_refl _, fun _ hs => List.mem_append_left _ hs⟩

theorem Quiet.next (h : l.Quiet) : nextFrame socketPackSize (l.up.drop l.taken) = .more := by
  rw [h.taken, List.drop_length]
  exact nextFrame_nil socketPackSize

/-- **The server takes the frame** of a client that waits. -/
theorem Asking.serve {a : Asked} (h : l.Asking a) (_handlers : ℕ → Option (ScHandler ω)) (user : ω)
    {frame : Buffer} (hb : frame.WF) {n : ℕ}
    (hnext : nextFrame socketPackSize (l.up.drop l.taken) = .frame frame.unread n) (now : ℕ)
    (sock : TcpBaseSocket) (err : Bool) :
    (l.serve _handlers user frame n now sock err).1.Asking a := by
  cases h with
  | taken _ _ _ taken _ =>
    rw [taken, List.drop_length] at hnext
    cases hnext
  | replied _ _ _ taken _ _ _ _ _ _ _ =>
    rw [taken, List.drop_length] at hnext
    cases hnext
  | @sent info as asked frames got taken timestamp idx up len hidx =>
    have hlen : (request a.args idx).length < 2 ^ 32 := by
      simp only [socketPackSize] at len
      omega
    have hframe : nextFrame socketPackSize (encodeFrame timestamp (request a.args idx) ++ []) = _ :=
      nextFrame_encode len hlen []
    rw [List.append_nil, ← up, hnext] at hframe
    obtain ⟨hun, hn⟩ := Next.frame.inj hframe
    obtain ⟨s', hs', hwf, hres⟩ := ScServer.onReceiveData_reply _handlers
      (s := ⟨l.info, user, [], []⟩) info rfl rfl hb (toU32_lt a.args.msg_type) hidx hun
    rw [toInt32_toU32 a.args.int.1 a.args.int.2] at hres
    have htaken : l.taken + n = l.up.length := by
      rw [hn, List.length_drop]
      omega
    have hframes : l.frames + 1 = l.asked.length := by
      rw [frames, asked, List.length_append]
      rfl
    simp only [ScLink.serve, hs']
    rcases hres with ⟨hd, hr⟩ | ⟨bytes, hr, hd⟩
    · -- there is no handler
      simp only [hd, hr, List.zip_nil_left, List.map_nil, List.flatMap_nil, List.append_nil]
      exact .taken hwf asked hframes htaken got
    simp only [hd, hr, List.zip_cons_cons, List.zip_nil_left, List.map_cons, List.map_nil,
      List.flatMap_cons, List.flatMap_nil, List.append_nil]
    cases hacc : (sock.send now (words (ScKind.scClient.wayOf a.args.reply) (toU32 a.args.msg_type)
        idx ++ bytes) err).1 with
    | false =>
      -- the reply is refused
      rw [if_neg Bool.false_ne_true, List.append_nil]
      exact .taken hwf asked hframes htaken got
    | true =>
      rw [if_pos rfl]
      have hdown : ∀ s : List Byte, (l.down ++ s).drop l.got = s := fun s => by
        rw [got]
        exact List.drop_left
      refine .replied hwf asked hframes htaken (List.mem_append_right _ List.mem_cons_self) frames rfl
        ?_ (hdown _) (TcpBaseSocket.send_length hacc).2 ?_
      · rw [got, List.length_append]
        exact Nat.le_add_right _ _
      · rw [List.length_append, words_length]
        exact Nat.le_add_right _ _

/-- **The client sends its request.** -/
theorem Quiet.ask (h : l.Quiet) (a : Asked) (timestamp : ℕ) {idx : ℕ}
    (hlen : (request a.args idx).length ≤ socketPackSize) (hidx : idx < 2 ^ 32) :
    { l with
      up := l.up ++ encodeFrame timestamp (request a.args idx)
      asked := l.asked ++ [a] }.Asking a := by
  have hasked : l.asked ++ [a] = l.asked ++ [a] := rfl
  have hup : (l.up ++ encodeFrame timestamp (request a.args idx)).drop l.taken =
      encodeFrame timestamp (request a.args idx) := by
    rw [h.taken]
    exact List.drop_left
  refine .sent h.info hasked h.frames h.got ?_ hup hlen hidx
  rw [h.taken, List.length_append]
  exact Nat.le_add_right _ _

/-- Nothing comes from a connection that has nothing to read. -/
theorem recv_nothing {c : SyncConnector} (hc : c.Idle) {rs : List RecvSome}
    (hsmall : ∀ x ∈ rs, x.bytes.length ≤ socketReadSize) (hnil : rs.flatMap RecvSome.bytes = [])
    (b : Buffer) (c' : SyncConnector) : c.recv rs ≠ some (some b, c', []) := by
  intro hrecv
  have hpre : rs.flatMap RecvSome.bytes <+: encodeFrame 0 [] := by
    rw [hnil]
    exact List.nil_prefix
  have hall := (SyncConnector.recv_one hc (Nat.zero_le _) hsmall hpre hrecv).2.1
  rw [hnil] at hall
  cases hall

/-- **The client reads a reply**: the one to its request. -/
theorem Asking.recv {a : Asked} (h : l.Asking a) {c : SyncConnector} (hc : c.Idle)
    {rs : List RecvSome} (hsmall : ∀ x ∈ rs, x.bytes.length ≤ socketReadSize)
    (hpre : rs.flatMap RecvSome.bytes <+: l.down.drop l.got) {b : Buffer} {c' : SyncConnector}
    (hrecv : c.recv rs = some (some b, c', [])) :
    { l with got := l.got + (rs.flatMap RecvSome.bytes).length }.Quiet ∧ c'.Idle ∧
      b = c'._reader.msgbuffer ∧ l.asked[l.asked.length - 1]? = some a ∧
      ∃ s ∈ l.served, s.frame = l.asked.length - 1 ∧ s.dealt = a.args.dealt ∧ b.unread = s.data ∧
        12 ≤ s.data.length := by
  have hnothing : l.got = l.down.length → False := by
    intro hgot
    rw [hgot, List.drop_length] at hpre
    exact recv_nothing hc hsmall (List.prefix_nil.mp hpre) b c' hrecv
  cases h with
  | sent _ _ _ got _ _ _ _ => exact (hnothing got).elim
  | taken _ _ _ _ got => exact (hnothing got).elim
  | @replied info as asked frames taken s served frame dealt got timestamp down len words =>
    rw [down] at hpre
    obtain ⟨hun, hall, hb, hidle⟩ := SyncConnector.recv_one hc len hsmall hpre hrecv
    have hlast : l.asked.length - 1 = as.length := by
      rw [asked, List.length_append]
      rfl
    refine ⟨⟨info, taken, frames, ?_⟩, hidle, hb, ?_, s, served, ?_, dealt, hun, words⟩
    · change l.got + _ = l.down.length
      rw [hall, ← down, List.length_drop]
      omega
    · rw [hlast, asked, List.getElem?_concat_length]
    · rw [hlast, frame]

end ScLink

/-- An answer stays an answer. -/
theorem Returned.Answers.extend {r : Returned} {l l' : ScLink} (h : r.Answers l)
    (hl : l.Extends l') : r.Answers l' := by
  obtain ⟨hasked, s, hs, hframe⟩ := h
  refine ⟨?_, s, hl.served s hs, hframe⟩
  obtain ⟨more, hmore⟩ := hl.asked
  rw [← hmore, List.getElem?_append_left (List.getElem?_eq_some_iff.mp hasked).1, hasked]

/-! ## Runs -/

/-- How many requests a call can have sent. -/
def ScPc.Bound (sends : ℕ) : ScPc → Prop
  | attempt cnt | reconnect (some cnt) | ready cnt => sends ≤ cnt ∧ cnt < 2
  | waiting cnt => sends ≤ cnt + 1 ∧ cnt < 2
  | _ => sends ≤ 2

theorem ScPc.Bound.le {sends : ℕ} {pc : ScPc} (h : pc.Bound sends) : sends ≤ 2 := by
  cases pc with
  | idle => exact h
  | attempt cnt => exact Nat.le_of_lt (Nat.lt_of_le_of_lt h.1 h.2)
  | reconnect cnt =>
    cases cnt with
    | none => exact h
    | some cnt => exact Nat.le_of_lt (Nat.lt_of_le_of_lt h.1 h.2)
  | ready cnt => exact Nat.le_of_lt (Nat.lt_of_le_of_lt h.1 h.2)
  | waiting cnt => exact Nat.le_trans h.1 h.2

namespace ScWorld

open Function (update)

variable {w w' : ScWorld ω}

/-- The connection of the client: it waits for the answer to its request, or it is quiet. -/
def Ties (w : ScWorld ω) (l : ScLink) : Prop :=
  match w.pc with
  | .waiting cnt => l.Asking ⟨w.calls, cnt, w.call⟩
  | _ => l.Quiet

/-- **The invariant.** -/
structure Inv (w : ScWorld ω) : Prop where
  request : w.client._request.WF
  fresh : ∀ k, w.made ≤ k → (w.link k).Quiet
  socket : ∀ k c, w._socket = some (k, c) → k < w.made ∧ c.Idle ∧ w.Ties (w.link k)
  bound : w.pc.Bound w.sends
  returns : ∀ r ∈ w.returns, r.Answers (w.link r.link)

theorem setLink_link (w : ScWorld ω) (k : ℕ) (l : ScLink) (j : ℕ) :
    (w.setLink k l).link j = if j = k then l else w.link j :=
  Function.update_apply w.link k l j

theorem setLink_self (w : ScWorld ω) (k : ℕ) (l : ScLink) : (w.setLink k l).link k = l := by
  rw [setLink_link, if_pos rfl]

theorem setLink_of_ne (w : ScWorld ω) {j k : ℕ} (l : ScLink) (hne : j ≠ k) :
    (w.setLink k l).link j = w.link j := by
  rw [setLink_link, if_neg hne]

/-- The connections to come are quiet after a step on one that is there. -/
theorem Inv.setLink_fresh (h : w.Inv) {k : ℕ} (hk : k < w.made) (l : ScLink) :
    ∀ j, w.made ≤ j → ((w.setLink k l).link j).Quiet := by
  intro j hj
  rw [setLink_of_ne w l (Nat.ne_of_gt (Nat.lt_of_lt_of_le hk hj))]
  exact h.fresh j hj

/-- The answers stay answers. -/
theorem Inv.setLink_returns (h : w.Inv) (k : ℕ) {l : ScLink} (hl : (w.link k).Extends l) :
    ∀ r ∈ w.returns, r.Answers ((w.setLink k l).link r.link) := by
  intro r hr
  by_cases hk : r.link = k
  · subst hk
    rw [setLink_self]
    exact (h.returns r hr).extend hl
  · rw [setLink_of_ne w l hk]
    exact h.returns r hr

theorem start_inv (port : ℕ) (user : ω) : (start port user).Inv where
  request := Buffer.new_wf
  fresh _ _ := ScLink.connected_quiet port
  socket _ _ h := by cases h
  bound := Nat.zero_le _
  returns _ hr := by cases hr

theorem Inv.bound_at (h : w.Inv) {pc : ScPc} (hpc : w.pc = pc) : pc.Bound w.sends := by
  rw [← hpc]
  exact h.bound

theorem Inv.quiet (h : w.Inv) {pc : ScPc} (hpc : w.pc = pc) (hne : ∀ cnt, pc ≠ .waiting cnt) {k : ℕ}
    {c : SyncConnector} (hs : w._socket = some (k, c)) : (w.link k).Quiet := by
  have hties := (h.socket k c hs).2.2
  unfold Ties at hties
  rw [hpc] at hties
  split at hties
  · rename_i cnt
    exact absurd rfl (hne cnt)
  · exact hties

theorem Inv.asking (h : w.Inv) {cnt : ℕ} (hpc : w.pc = .waiting cnt) {k : ℕ} {c : SyncConnector}
    (hs : w._socket = some (k, c)) : (w.link k).Asking ⟨w.calls, cnt, w.call⟩ := by
  have hties := (h.socket k c hs).2.2
  unfold Ties at hties
  rw [hpc] at hties
  exact hties

/-- The connector is closed. -/
theorem Inv.closed (h : w.Inv) {pc : ScPc} (hbound : pc.Bound w.sends) :
    ({ w.closeSocket with pc := pc } : ScWorld ω).Inv where
  request := h.request
  fresh := h.fresh
  socket _ _ hsock := by cases hsock
  bound := hbound
  returns := h.returns

/-- The end of an attempt that does not return 0: the connector is gone. -/
theorem Inv.failed (request : w.client._request.WF) (fresh : ∀ k, w.made ≤ k → (w.link k).Quiet)
    (returns : ∀ r ∈ w.returns, r.Answers (w.link r.link)) {cnt : ℕ}
    (hs : w.sends ≤ cnt + 1 ∧ cnt < 2) (code : ℤ) : (w.closeSocket.nextAttempt cnt code).Inv where
  request := request
  fresh := fresh
  socket _ _ hsock := by cases hsock
  bound := by
    unfold ScWorld.nextAttempt
    by_cases hcnt : cnt + 1 < 2
    · rw [if_pos hcnt]
      exact ⟨hs.1, hcnt⟩
    · rw [if_neg hcnt]
      exact Nat.le_trans hs.1 hs.2
  returns := returns

/-- **`_Reconnect`**: a new connector, and a connection that is quiet. -/
theorem Inv.connectStep (h : w.Inv) {cnt : Option ℕ} (hpc : w.pc = .reconnect cnt) (ok : Bool) :
    (w.connectStep cnt ok).Inv := by
  have hbound := h.bound_at hpc
  have hquiet := h.fresh w.made (Nat.le_refl _)
  have hnew : ∀ k c, some (w.made, SyncConnector.connected) = some (k, c) →
      k < w.made + 1 ∧ c.Idle ∧ (w.link k).Quiet := by
    intro k c hsock
    obtain ⟨rfl, rfl⟩ := Prod.mk.inj (Option.some.inj hsock)
    exact ⟨Nat.lt_succ_self _, SyncConnector.connected_idle, hquiet⟩
  have hfresh : ∀ k, w.made + 1 ≤ k → (w.link k).Quiet := fun k hk =>
    h.fresh k (Nat.le_of_succ_le hk)
  cases ok with
  | true =>
    cases cnt with
    | none => exact ⟨h.request, hfresh, hnew, hbound, h.returns⟩
    | some cnt => exact ⟨h.request, hfresh, hnew, hbound, h.returns⟩
  | false =>
    cases cnt with
    | none => exact h.closed h.bound.le
    | some cnt =>
      exact Inv.failed h.request h.fresh h.returns ⟨Nat.le_succ_of_le hbound.1, hbound.2⟩ (-2)

/-- **The request** goes out on a quiet connection, or the connector is closed. -/
theorem Inv.sendStep (h : w.Inv) {cnt now : ℕ} {as : List SendSome} (hpc : w.pc = .ready cnt)
    (hs : w.sendStep cnt now as = some w') : w'.Inv := by
  unfold ScWorld.sendStep at hs
  cases hsock : w._socket with
  | none =>
    rw [hsock] at hs
    cases hs
  | some kc =>
    obtain ⟨k, c⟩ := kc
    simp only [hsock] at hs
    split_ifs at hs with hroom
    obtain ⟨⟨ok, bytes, c'⟩, hsend, rfl⟩ := Option.map_eq_some_iff.mp hs
    obtain ⟨hk, hidle, -⟩ := h.socket k c hsock
    have hquiet := h.quiet hpc (fun _ => ScPc.noConfusion) hsock
    have hbound : w.sends ≤ cnt ∧ cnt < 2 := h.bound_at hpc
    have hfill := fill_filled h.request (ScKind.scClient.wayOf w.call.reply) w.call.msg_type hroom
    rw [← ScKind.syncCall_eq] at hfill
    rw [hfill.wf.sendData, hfill.unread] at hsend
    cases ok with
    | false =>
      refine Inv.failed hfill.wf (h.setLink_fresh hk _) (h.setLink_returns k ?_)
        ⟨Nat.succ_le_succ hbound.1, hbound.2⟩ (-3)
      exact ⟨List.prefix_refl _, fun _ hs => hs⟩
    | true =>
      obtain ⟨rfl, -, hlen, rfl⟩ := SyncConnector.send_true hsend
      have hasking := hquiet.ask ⟨w.calls, cnt, w.call⟩ (u32 now)
        (Nat.le_trans hlen SyncConnector.limit_le) (Nat.mod_lt (w.client._packidx + 1) (by decide))
      refine ⟨hfill.wf, h.setLink_fresh hk _, ?_, ⟨Nat.succ_le_succ hbound.1, hbound.2⟩,
        h.setLink_returns k ⟨List.prefix_append _ _, fun _ hs => hs⟩⟩
      intro j c'' hj
      obtain ⟨rfl, rfl⟩ := Prod.mk.inj (Option.some.inj hj)
      refine ⟨hk, hidle, ?_⟩
      change ScLink.Asking ((w.setLink k _).link k) _
      rw [setLink_self]
      exact hasking

/-- **The reply** is the answer to the request, or the connector is closed. -/
theorem Inv.recvStep (h : w.Inv) {cnt : ℕ} {rs : List RecvSome} (hpc : w.pc = .waiting cnt)
    (hs : w.recvStep cnt rs = some w') : w'.Inv := by
  unfold ScWorld.recvStep at hs
  cases hsock : w._socket with
  | none =>
    rw [hsock] at hs
    cases hs
  | some kc =>
    obtain ⟨k, c⟩ := kc
    simp only [hsock] at hs
    split_ifs at hs with hreads
    obtain ⟨hsmall, hpre⟩ := hreads
    obtain ⟨hk, hidle, -⟩ := h.socket k c hsock
    have hasking := h.asking hpc hsock
    have hbound : w.sends ≤ cnt + 1 ∧ cnt < 2 := h.bound_at hpc
    have hext : (w.link k).Extends { w.link k with
        got := (w.link k).got + (rs.flatMap RecvSome.bytes).length } :=
      ⟨List.prefix_refl _, fun _ hs => hs⟩
    split at hs
    · rename_i preply c' hrecv
      split_ifs at hs with hok
      · -- `_CheckReply` returns true only for a buffer
        obtain rfl := Option.some.inj hs
        cases preply with
        | none => cases hok
        | some b =>
          obtain ⟨hquiet, hidle', hb, hlast, s, hserved, hframe, hdealt, hun, h12⟩ :=
            hasking.recv hidle hsmall hpre hrecv
          obtain ⟨b', hcheck, hwf, hrest⟩ := w.client.checkReply_eq (b := b)
            (by rw [hb]; exact hidle'.wf) (by rw [hun]; exact h12)
          simp only [hcheck, Option.getD_some]
          refine ⟨h.request, h.setLink_fresh hk _, ?_, Nat.le_trans hbound.1 hbound.2, ?_⟩
          · intro j c'' hj
            obtain ⟨rfl, rfl⟩ := Prod.mk.inj (Option.some.inj hj)
            refine ⟨hk, ⟨hidle'.flag, hidle'.readsize, hwf, hidle'.header⟩, ?_⟩
            · change ScLink.Quiet ((w.setLink k _).link k)
              rw [setLink_self]
              exact hquiet
          · intro r hr
            rcases List.mem_append.mp hr with hr | hr
            · exact h.setLink_returns k hext r hr
            · obtain rfl := List.mem_singleton.mp hr
              change Returned.Answers _ ((w.setLink k _).link k)
              rw [setLink_self]
              refine ⟨hlast, s, hserved, hframe, hdealt, ?_⟩
              change b'.unread = s.data.drop 12
              rw [hrest, hun]
      · obtain rfl := Option.some.inj hs
        have hclosed : ∀ socket, (ScWorld.nextAttempt (closeSocket { w.setLink k { w.link k with
            got := (w.link k).got + (rs.flatMap RecvSome.bytes).length } with
              _socket := socket }) cnt (-3)).Inv := by
          intro socket
          exact Inv.failed (w := { w.setLink k _ with _socket := socket }) h.request
            (h.setLink_fresh hk _) (h.setLink_returns k hext) hbound (-3)
        exact hclosed _
    · cases hs

/-- **The server takes a frame**, of this connection or another. -/
theorem Inv.serveStep (h : w.Inv) {_handlers : ℕ → Option (ScHandler ω)} {k : ℕ} {frame : Buffer}
    (hb : frame.WF) {now : ℕ} {sock : TcpBaseSocket} {err : Bool}
    (hs : w.serveStep _handlers k frame now sock err = some w') : w'.Inv := by
  unfold ScWorld.serveStep at hs
  simp only at hs
  split at hs
  · rename_i p n hnext
    split_ifs at hs with hun
    obtain rfl := Option.some.inj hs
    subst hun
    have hbusy : ¬ (w.link k).Quiet := by
      intro hquiet
      rw [hquiet.next] at hnext
      cases hnext
    have hk : k < w.made := by
      by_contra hk
      exact hbusy (h.fresh k (Nat.le_of_not_lt hk))
    refine ⟨h.request, h.setLink_fresh hk _, ?_, h.bound,
      h.setLink_returns k (ScLink.serve_extends _handlers (w.link k) w.user frame n now sock err)⟩
    intro j c hj
    obtain ⟨hj', hidle, hties⟩ := h.socket j c hj
    refine ⟨hj', hidle, ?_⟩
    change w.Ties ((w.setLink k _).link j)
    by_cases hjk : j = k
    · subst hjk
      rw [setLink_self]
      unfold Ties at hties ⊢
      split at hties
      · exact hties.serve _handlers w.user hb hnext now sock err
      · exact absurd hties hbusy
    · rw [setLink_of_ne w _ hjk]
      exact hties
  · cases hs

/-- **One step** keeps the invariant. -/
theorem Inv.step {_handlers : ℕ → Option (ScHandler ω)} {a : ScAction ω} (h : w.Inv)
    (hs : w.step _handlers a = some w') : w'.Inv := by
  cases a with
  | open_ =>
    simp only [ScWorld.step] at hs
    split_ifs at hs with hpc
    obtain rfl := Option.some.inj hs
    refine ⟨h.request, h.fresh, ?_, h.bound.le, h.returns⟩
    intro k c hsock
    rw [show w._socket = none from hpc.2] at hsock
    cases hsock
  | call c =>
    simp only [ScWorld.step] at hs
    split_ifs at hs with hpc
    obtain rfl := Option.some.inj hs
    refine ⟨h.request, h.fresh, ?_, ⟨Nat.le_refl 0, by decide⟩, h.returns⟩
    intro k c hsock
    obtain ⟨hk, hidle, -⟩ := h.socket k c hsock
    exact ⟨hk, hidle, h.quiet hpc (fun _ => ScPc.noConfusion) hsock⟩
  | close =>
    simp only [ScWorld.step] at hs
    split_ifs at hs with hpc
    obtain rfl := Option.some.inj hs
    exact h.closed h.bound
  | use b =>
    simp only [ScWorld.step] at hs
    split at hs
    · rename_i k c hsock
      split_ifs at hs with hpc
      obtain rfl := Option.some.inj hs
      obtain ⟨hk, hidle, hties⟩ := h.socket k c hsock
      refine ⟨h.request, h.fresh, ?_, h.bound, h.returns⟩
      intro j c' hj
      obtain ⟨rfl, rfl⟩ := Prod.mk.inj (Option.some.inj hj)
      exact ⟨hk, ⟨hidle.flag, hidle.readsize, b.property, hidle.header⟩, hties⟩
    · cases hs
  | check =>
    simp only [ScWorld.step] at hs
    split at hs
    · rename_i cnt hpc
      have hbound := h.bound_at hpc
      have hquiet : ∀ k c, w._socket = some (k, c) → k < w.made ∧ c.Idle ∧ (w.link k).Quiet := by
        intro k c hsock
        obtain ⟨hk, hidle, -⟩ := h.socket k c hsock
        exact ⟨hk, hidle, h.quiet hpc (fun _ => ScPc.noConfusion) hsock⟩
      have hready : ({ w with pc := .ready cnt } : ScWorld ω).Inv :=
        ⟨h.request, h.fresh, hquiet, hbound, h.returns⟩
      have hlost : ({ w with pc := .reconnect (some cnt) } : ScWorld ω).Inv :=
        ⟨h.request, h.fresh, hquiet, hbound, h.returns⟩
      split at hs
      · split_ifs at hs
        · obtain rfl := Option.some.inj hs
          exact hready
        · obtain rfl := Option.some.inj hs
          exact hlost
      · obtain rfl := Option.some.inj hs
        exact hlost
    · cases hs
  | connect ok =>
    simp only [ScWorld.step] at hs
    split at hs
    · rename_i cnt hpc
      obtain rfl := Option.some.inj hs
      exact h.connectStep hpc ok
    · cases hs
  | send now as =>
    simp only [ScWorld.step] at hs
    split at hs
    · rename_i cnt hpc
      exact h.sendStep hpc hs
    · cases hs
  | recv rs =>
    simp only [ScWorld.step] at hs
    split at hs
    · rename_i cnt hpc
      exact h.recvStep hpc hs
    · cases hs
  | serve k frame now sock err => exact h.serveStep frame.property hs
  | user u =>
    simp only [ScWorld.step] at hs
    obtain rfl := Option.some.inj hs
    exact ⟨h.request, h.fresh, h.socket, h.bound, h.returns⟩

/-- **Replies match their calls** in every run. -/
theorem matched {port : ℕ} {user : ω} {_handlers : ℕ → Option (ScHandler ω)}
    (h : Reach (ScWorld.step _handlers) always (start port user) w) : w.Matched := by
  have hinv : w.Inv := h.inv (start_inv port user) fun _ _ _ hi _ hs => hi.step hs
  exact ⟨hinv.bound.le, hinv.returns⟩

/-- A handler that appends one byte while there is room. -/
def byteHandler : ScHandler Unit where
  onOneWayDealer u _ b := (u, b)
  onTwoWayDealer u _ b r := (u, b, if r._pos + 1 + bufferDefaultSize < 2 ^ 32 then r.write [7] 1 else r)
  wf_oneWay _ _ _ h := h
  wf_twoWay _ _ _ r h h' := by
    refine ⟨h, ?_⟩
    simp only
    split
    · rename_i hroom
      exact (h'.write (Nat.le_refl 1) hroom).1
    · exact h'
  appends _ _ _ r _ h' := by
    simp only
    split
    · rename_i hroom
      exact ⟨[7], h'.write_unread (Nat.le_refl 1) hroom⟩
    · exact ⟨[], (List.append_nil _).symm⟩

/-- A call of a client that is not connected, its frame, and the reply to it. -/
def oneCall : List (ScAction Unit) :=
  [.call ⟨true, 5, [3], by decide⟩, .check, .connect true, .send 0 [.sent 21],
    .serve 0 ⟨⟨13, 13, 0, words twowayType 5 1 ++ [3]⟩, ⟨by decide, by decide, by decide, rfl⟩⟩ 0
      .connected false,
    .recv [.data (encodeFrame 0 (words twowayType 5 1 ++ [7]))]]

theorem matched_oneCall : ∃ w, Reach (ScWorld.step fun _ => some byteHandler) always (start 80 ()) w ∧
    w.returns.map Returned.reply = [[7]] ∧ w.Matched := by
  have hw : ∃ w, oneCall.foldlM (ScWorld.step fun _ => some byteHandler) (start 80 ()) = some w ∧
      w.returns.map Returned.reply = [[7]] := ⟨_, rfl, rfl⟩
  obtain ⟨w, hrun, hreply⟩ := hw
  have hreach := Reach.of_foldlM (C := always) (fun _ _ _ => trivial) hrun
  exact ⟨w, hreach, hreply, matched hreach⟩

end ScWorld

end Netlib
