import Netlib.Spec.ScServer
import Netlib.Proof.Rpc
import Mathlib.Data.List.Induction

/-!
# What the server of synchronous calls lets through

A body of less than four bytes makes the un-read go back into the frame header, and a body
of four to eleven bytes with one of the two way types reaches the handler
(`request_validated_iff`). The table holds what was registered last under a port number, and
a connection is looked up under the number its listener is bound to (`dispatches_iff`).
-/

namespace Netlib

open Lib TcpStreamSocket

namespace Buffer

variable {b : Buffer}

/-- Less than four bytes are not read. -/
theorem WF.readWord_short (h : b.WF) (hlen : b.unread.length < 4) (hoff : b._offset + 4 < 2 ^ 32) :
    b.readWord = (0, b) := by
  have hle := h.offset_le
  rw [h.unread_length, h.length_eq] at hlen
  have hgt : u32 (b._offset + 4) > b._pos := by
    rw [u32_of_lt hoff]
    omega
  unfold Buffer.readWord Buffer.read
  rw [if_pos hgt]

end Buffer

namespace ScServer

variable {ω : Type*} {_handlers : ℕ → Option (IServerHandler ω)} {s : ScConn ω} {b : Buffer}

/-! ## Requests -/

/-- The un-read after a word gives it back. -/
theorem peek_eq (hb : b.WF) (hlen : 4 ≤ b.unread.length) : peek b = b := by
  rw [peek, (hb.readWord_take hlen).1]
  exact hb.unreadWord

/-- After less than four bytes it gives four bytes of the header. -/
theorem peek_short (hb : Handed b) (hlen : b.unread.length < 4) : (peek b).unread ≠ b.unread := by
  have hoff := hb.offset
  have hpos := wf_pos hb.wf
  rw [hoff, hdrlen] at hpos
  have hcut : b.cutData (-4) = { b with _offset := 4 } := by
    have hu : toU32 ((b._offset : ℤ) + (-4)) = 4 := by rw [hoff]; decide
    rw [Buffer.cutData, hu, if_neg (by omega)]
  rw [peek, hb.wf.readWord_short hlen (by rw [hoff]; decide), hcut]
  intro h
  have hl := congrArg List.length h
  have hcontent := hb.wf.content_length
  simp only [Buffer.unread, List.length_drop, hoff, hdrlen] at hl
  have hsame : { b with _offset := 4 }.content.length = b.content.length := rfl
  omega

/-- What is dealt with when a handler is there and the first word is not that of a
keep-alive. -/
theorem onReceiveData_dealt (hb : b.WF) (hlen : 4 ≤ b.unread.length) {pscinfo : ScInfo}
    {handler : IServerHandler ω} (hi : s.info = some pscinfo)
    (hh : _handlers pscinfo.id = some handler)
    (hkeep : ofLe32 (b.unread.take 4) ≠ keepaliveId) :
    ∃ msg_type request, (onReceiveData _handlers s b).1.dealt =
        s.dealt ++ dealt (ofLe32 (b.unread.take 4)) msg_type request ∧
      (headLen ≤ b.unread.length →
        msg_type = toInt32 (ofLe32 ((b.unread.drop 4).take 4)) ∧ request = b.unread.drop headLen) := by
  obtain ⟨hr1, hwf1⟩ := hb.readWord_take hlen
  rcases hr2 : ({ b with _offset := b._offset + 4 } : Buffer).readWord with ⟨msg_type, b2⟩
  rcases hr3 : b2.readWord with ⟨pack_idx, b3⟩
  refine ⟨toInt32 msg_type, b3.unread, ?_, ?_⟩
  · unfold onReceiveData dealt
    simp only [hi, hr1, if_neg hkeep, hh, hb.unreadWord, hr2, hr3]
    split
    · rfl
    split
    · rfl
    · exact (List.append_nil _).symm
  · intro hwhole
    rw [headLen] at hwhole
    have hun1 : ({ b with _offset := b._offset + 4 } : Buffer).unread = b.unread.drop 4 :=
      Buffer.unread_offset b 4
    obtain ⟨ht2, hwf2⟩ := hwf1.readWord_take (by rw [hun1, List.length_drop]; omega)
    rw [hr2, Prod.mk.injEq] at ht2
    obtain ⟨htype, rfl⟩ := ht2
    obtain ⟨ht3, -⟩ := hwf2.readWord_take (by
      simp only [Nat.add_assoc, Buffer.unread_offset, List.length_drop]
      omega)
    rw [hr3, Prod.mk.injEq] at ht3
    obtain ⟨-, rfl⟩ := ht3
    refine ⟨by rw [htype, hun1], ?_⟩
    simp only [Nat.add_assoc, Buffer.unread_offset, Nat.reduceAdd, headLen]

/-- What is expected of a request is what is dealt with when it is whole. -/
theorem request?_eq {body : List Byte} (hwhole : headLen ≤ body.length) :
    (request? body).toList = dealt (ofLe32 (body.take 4))
      (toInt32 (ofLe32 ((body.drop 4).take 4))) (body.drop headLen) := by
  unfold request? dealt
  rw [if_neg (Nat.not_lt.mpr hwhole)]
  split
  · rfl
  split
  · rfl
  · rfl

/-- The two way types reach a handler. -/
theorem dealt_call {way : ℕ} (msg_type : ℤ) (request : List Byte)
    (h : ¬ way ≠ onewayType ∨ ¬ way ≠ twowayType) :
    ∃ d, dealt way msg_type request = [d] ∧ d ≠ .keepAlive := by
  unfold dealt
  by_cases hone : way = onewayType
  · exact ⟨_, if_pos hone, by simp⟩
  · have htwo : way = twowayType := by
      rcases h with h | h
      · exact absurd hone h
      · exact not_not.mp h
    exact ⟨_, by rw [if_neg hone, if_pos htwo], by simp⟩

/-- A keep-alive, and a request for which there is no handler. -/
theorem onReceiveData_keep (h : ∀ pscinfo handler, s.info = some pscinfo →
      _handlers pscinfo.id = some handler → b.readWord.1 = keepaliveId) {ds : List Dealt}
    (hds : (onReceiveData _handlers s b).1.dealt = s.dealt ++ ds) : ∀ d ∈ ds, d = .keepAlive := by
  unfold onReceiveData at hds
  cases hi : s.info with
  | none =>
    simp only [hi, List.self_eq_append_right] at hds
    simp [hds]
  | some pscinfo =>
    simp only [hi] at hds
    by_cases hkeep : b.readWord.1 = keepaliveId
    · rw [if_pos hkeep] at hds
      simp only [List.append_cancel_left_eq] at hds
      simp [← hds]
    rw [if_neg hkeep] at hds
    cases hh : _handlers pscinfo.id with
    | none =>
      simp only [hh, List.self_eq_append_right] at hds
      simp [hds]
    | some handler => exact absurd (h pscinfo handler hi hh) hkeep

/-- **When `OnReceiveData` does what is expected of it.** -/
theorem validates_iff (hb : Handed b) :
    Validates _handlers s b ↔ ValidateOk _handlers s b.unread := by
  by_cases hnone : ∀ pscinfo handler, s.info = some pscinfo →
      _handlers pscinfo.id = some handler → b.readWord.1 = keepaliveId
  · -- no handler is asked
    refine ⟨?_, fun _ => ⟨?_, ?_⟩⟩
    · intro _ pscinfo handler hi hh
      have hkeep := hnone pscinfo handler hi hh
      have hlen : 4 ≤ b.unread.length := by
        by_contra hlt
        rw [hb.wf.readWord_short (by omega) (by rw [hb.offset]; decide)] at hkeep
        exact absurd hkeep (show (0 : ℕ) ≠ keepaliveId by decide)
      rw [(hb.wf.readWord_take hlen).1] at hkeep
      simp only at hkeep
      rw [hkeep]
      exact .inr ⟨hlen, by decide, by decide⟩
    · intro ds hds d hd hne
      exact absurd (onReceiveData_keep hnone hds d hd) hne
    · intro pscinfo handler hi hh hne
      exact absurd (hnone pscinfo handler hi hh) hne
  push Not at hnone
  obtain ⟨pscinfo, handler, hi, hh, hkeep⟩ := hnone
  have honly : ValidateOk _handlers s b.unread ↔ headLen ≤ b.unread.length ∨ 4 ≤ b.unread.length ∧
      ofLe32 (b.unread.take 4) ≠ onewayType ∧ ofLe32 (b.unread.take 4) ≠ twowayType := by
    refine ⟨fun h => h pscinfo handler hi hh, ?_⟩
    intro h pscinfo' handler' hi' hh'
    exact h
  rw [honly]
  by_cases hlen : 4 ≤ b.unread.length
  · rw [(hb.wf.readWord_take hlen).1] at hkeep
    obtain ⟨msg_type, request, hdealt, hwhole⟩ := onReceiveData_dealt hb.wf hlen hi hh hkeep
    by_cases h12 : headLen ≤ b.unread.length
    · -- a whole head
      obtain ⟨rfl, rfl⟩ := hwhole h12
      rw [← request?_eq h12] at hdealt
      refine ⟨fun _ => .inl h12, fun _ => ⟨?_, ?_⟩⟩
      · intro ds hds d hd _
        rw [hdealt, List.append_cancel_left_eq] at hds
        rw [← hds, Option.mem_toList] at hd
        exact hd
      · intro _ _ _ _ _
        rw [peek_eq hb.wf hlen]
    · -- a part of one
      have hnot : request? b.unread = none := by
        unfold request?
        rw [if_pos (Nat.lt_of_not_le h12)]
      constructor
      · intro h
        refine .inr ⟨hlen, ?_⟩
        by_contra hway
        obtain ⟨d, hd, hne⟩ := dealt_call msg_type request (not_and_or.mp hway)
        rw [hd] at hdealt
        have := h.calls _ hdealt d List.mem_cons_self hne
        rw [hnot] at this
        cases this
      · rintro (h | ⟨-, h1, h2⟩)
        · exact absurd h h12
        refine ⟨?_, ?_⟩
        · intro ds hds d hd _
          rw [hdealt, dealt, if_neg h1, if_neg h2, List.append_cancel_left_eq] at hds
          rw [← hds] at hd
          cases hd
        · intro _ _ _ _ _
          rw [peek_eq hb.wf hlen]
  · -- not even a word
    constructor
    · intro h
      exact absurd (h.unread pscinfo handler hi hh hkeep) (peek_short hb (Nat.lt_of_not_le hlen))
    · rintro (h | ⟨h, -⟩)
      · rw [headLen] at h
        omega
      · exact absurd h hlen

/-- **A frame of any length in any reads** comes to `OnReceiveData` once, and is validated
exactly under the condition. -/
theorem request_validated_iff (_handlers : ℕ → Option (IServerHandler ω)) {r : ReaderInfo}
    (hr : Holds socketPackSize r []) (s : { s : ScConn ω // s.WF }) (t : ℕ) {body : List Byte}
    (hle : body.length ≤ socketPackSize) {chunks : List (List Byte)}
    (hchunks : chunks.flatten = encodeFrame t body) :
    ∃ answers s' b, calls (_cutMsgPack (receiver _handlers)) ⟨r, s⟩ chunks = some (answers, s') ∧
      b.unread = body ∧ s'.user.val = (onReceiveData _handlers s.val b).1 ∧
      (Validates _handlers s.val b ↔ ValidateOk _handlers s.val body) := by
  obtain ⟨answers, s', b, hcalls, hb, hun, hu⟩ := frame_handed (receiver _handlers) hr s t hle hchunks
  refine ⟨answers, s', b, hcalls, hun, ?_, ?_⟩
  · rw [hu, receiver_eq hb.wf]
  · rw [← hun]
    exact validates_iff hb

/-- A one-way request of 4 bytes. -/
def truncated : List Byte := le32 onewayType

theorem request_validated_iff_truncated :
    ∃ answers s' b, calls (_cutMsgPack (receiver fun _ => some idleHandler)) ⟨.fresh, idleConn⟩
        [encodeFrame 0 truncated] = some (answers, s') ∧
      b.unread = truncated ∧
      s'.user.val = (onReceiveData (fun _ => some idleHandler) idleConn.val b).1 ∧
      (Validates (fun _ => some idleHandler) idleConn.val b ↔
        ValidateOk (fun _ => some idleHandler) idleConn.val truncated) :=
  request_validated_iff _ Holds.fresh idleConn 0 (by decide) (List.append_nil _)

/-- The handler is called for the request of 4 bytes. -/
theorem not_validated : ¬ ∀ (_handlers : ℕ → Option (IServerHandler Unit)) (s : ScConn Unit) b,
    Handed b → Validates _handlers s b := by
  intro h
  obtain ⟨-, -, b, -, hb, hun, -⟩ := frame_handed (receiver fun _ => some idleHandler) Holds.fresh
    idleConn 0 (show truncated.length ≤ socketPackSize by decide)
    (show [encodeFrame 0 truncated].flatten = encodeFrame 0 truncated from List.append_nil _)
  have hok := (validates_iff hb).mp (h (fun _ => some idleHandler) idleConn.val b hb)
  rw [hun] at hok
  obtain hlen | ⟨-, hway, -⟩ := hok ⟨80, .new⟩ idleHandler rfl rfl
  · exact absurd hlen (by decide)
  · exact hway (by decide)

/-! ## The table of handlers -/

section Table

variable {η : Type*} {regs : List (Registration η)}

/-- What was registered last under a port number. -/
def lastHandler (regs : List (Registration η)) (port : ℕ) : Option η :=
  (regs.reverse.find? fun q => q.port = port).map Registration.handler

theorem lastHandler_snoc (regs : List (Registration η)) (r : Registration η) (port : ℕ) :
    lastHandler (regs ++ [r]) port = if r.port = port then some r.handler else lastHandler regs port := by
  unfold lastHandler
  rw [List.reverse_append, List.reverse_singleton, List.singleton_append, List.find?_cons]
  by_cases h : r.port = port
  · simp [h]
  · simp [h]

/-- What a call of `Register` does to a table that agrees with the calls so far. -/
theorem register_eq {_handlers : List (Option η)} (hlen : _handlers.length = handlerCount)
    (h : ∀ i < handlerCount, _handlers[i]? = some (lastHandler regs i)) (r : Registration η) :
    if r.port < handlerCount then
      ∃ _handlers', register _handlers r = some _handlers' ∧ _handlers'.length = handlerCount ∧
        ∀ i < handlerCount, _handlers'[i]? = some (lastHandler (regs ++ [r]) i)
    else register _handlers r = none := by
  unfold register uniqueId
  rw [hlen]
  by_cases hport : r.port < handlerCount
  · rw [if_pos hport, if_pos hport]
    refine ⟨_, rfl, by rw [List.length_set, hlen], ?_⟩
    intro i hi
    rw [List.getElem?_set, lastHandler_snoc, h i hi]
    by_cases hsame : r.port = i
    · simp [hsame, hlen, hi]
    · simp [hsame]
  · rw [if_neg hport, if_neg hport]

/-- **The table after the calls**: each entry holds what was registered last under its number,
and a port outside the table makes the calls undefined. -/
theorem registerAll_eq (regs : List (Registration η)) :
    if ∀ r ∈ regs, r.port < handlerCount then
      ∃ _handlers, registerAll regs = some _handlers ∧ _handlers.length = handlerCount ∧
        ∀ i < handlerCount, _handlers[i]? = some (lastHandler regs i)
    else registerAll regs = none := by
  induction regs using List.reverseRecOn with
  | nil =>
    rw [if_pos (by simp)]
    refine ⟨newHandlers, rfl, List.length_replicate, ?_⟩
    intro i hi
    rw [newHandlers, List.getElem?_replicate, if_pos hi]
    rfl
  | append_singleton regs r ih =>
    have hcalls : registerAll (regs ++ [r]) = (registerAll regs).bind (register · r) := by
      rw [registerAll, List.foldlM_append]
      simp only [List.foldlM_cons, List.foldlM_nil, bind_pure]
      rfl
    by_cases hall : ∀ r ∈ regs, r.port < handlerCount
    · rw [if_pos hall] at ih
      obtain ⟨_handlers, hsome, hlen, hget⟩ := ih
      have hreg := register_eq hlen hget r
      by_cases hport : r.port < handlerCount
      · rw [if_pos hport] at hreg
        obtain ⟨_handlers', hr, hlen', hget'⟩ := hreg
        rw [if_pos (List.forall_mem_append.mpr ⟨hall, by simpa using hport⟩)]
        exact ⟨_handlers', by rw [hcalls, hsome, Option.bind_some, hr], hlen', hget'⟩
      · rw [if_neg hport] at hreg
        rw [if_neg fun h => hport (h r (by simp)), hcalls, hsome, Option.bind_some, hreg]
    · rw [if_neg hall] at ih
      rw [if_neg fun h => hall fun q hq => h q (List.mem_append_left _ hq), hcalls, ih, Option.bind_none]

/-- **When every request goes to the handler of its endpoint**, for every sequence of calls of
`Register`. -/
theorem dispatches_iff (regs : List (Registration η)) : Dispatches regs ↔ EndpointsOk regs := by
  have htable := registerAll_eq regs
  by_cases hall : ∀ r ∈ regs, r.port < handlerCount
  · rw [if_pos hall] at htable
    obtain ⟨_handlers, hsome, hlen, hget⟩ := htable
    have hport : ∀ r ∈ regs, r.port ≠ 0xFFFF := by
      intro r hr
      exact Nat.ne_of_lt (hall r hr)
    -- the entry that a connection of `r` is looked up in
    have hentry : ∀ r ∈ regs, ∀ ip, handlerOf _handlers (onConnected r ip) = some (some r.handler) ↔
        lastHandler regs r.bound = some r.handler := by
      intro r hr ip
      change _handlers[r.bound]? = _ ↔ _
      by_cases hin : r.bound < handlerCount
      · rw [hget _ hin, Option.some.injEq]
      · -- no call has written there
        rw [List.getElem?_eq_none (by rw [hlen]; omega)]
        have hnone : lastHandler regs r.bound = none := by
          unfold lastHandler
          rw [Option.map_eq_none_iff, List.find?_eq_none]
          intro q hq hqp
          have := hall q (List.mem_reverse.mp hq)
          have := of_decide_eq_true hqp
          omega
        rw [hnone]
        simp
    constructor
    · rintro ⟨_handlers', hsome', hserve⟩
      rw [hsome] at hsome'
      cases hsome'
      exact ⟨hport, fun r hr => (hentry r hr []).mp (hserve r hr [])⟩
    · intro hok
      exact ⟨_handlers, hsome, fun r hr ip => (hentry r hr ip).mpr (hok.last r hr)⟩
  · rw [if_neg hall] at htable
    constructor
    · rintro ⟨_handlers, hsome, -⟩
      rw [htable] at hsome
      cases hsome
    · intro hok
      refine absurd (fun r hr => ?_) hall
      have h1 := hok.port r hr
      have h2 := r.port_lt
      rw [handlerCount]
      omega

/-- A request of a connection is dealt with by the handler of the entry. -/
theorem onReceiveData_handlerOf {_handlers : List (Option η)} {pscinfo : ScInfo} {handler : η}
    (h : handlerOf _handlers pscinfo = some (some handler)) (impl : η → IServerHandler ω)
    {s : ScConn ω} (hi : s.info = some pscinfo) (buffer : Buffer) :
    onReceiveData (fun id => (_handlers[id]?).join.map impl) s buffer =
      onReceiveData (fun _ => some (impl handler)) s buffer := by
  have hentry : _handlers[pscinfo.id]? = some (some handler) := h
  unfold onReceiveData
  simp only [hi, hentry, Option.join_some, Option.map_some]

/-- Port 80 on two addresses. -/
def samePort (ip : List Char) (handler : ℕ) : Registration ℕ where
  ip := ip
  port := 80
  handler := handler
  bound := 80
  port_lt := by decide
  bound_eq _ := rfl
  bound_pos := by decide
  bound_lt := by decide

/-- The second handler gets the requests of the first endpoint. -/
theorem not_dispatches : ¬ ∀ regs : List (Registration ℕ),
    regs.Pairwise (fun r q => (r.ip, r.port) ≠ (q.ip, q.port)) → Dispatches regs := by
  intro h
  have hpair : [samePort ['a'] 1, samePort ['b'] 2].Pairwise
      (fun r q => (r.ip, r.port) ≠ (q.ip, q.port)) := by
    simp [samePort]
  obtain ⟨_handlers, hsome, hserve⟩ := h _ hpair
  have htable := registerAll_eq [samePort ['a'] 1, samePort ['b'] 2]
  rw [if_pos (by simp [samePort, handlerCount])] at htable
  obtain ⟨_handlers', hsome', -, hget⟩ := htable
  rw [hsome] at hsome'
  cases hsome'
  have hfirst : _handlers[80]? = some (some 1) := hserve (samePort ['a'] 1) (by simp) []
  rw [hget 80 (by decide)] at hfirst
  exact absurd hfirst (by decide)

end Table

end ScServer

end Netlib
