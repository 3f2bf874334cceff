import Netlib.Spec.CoScClient
import Netlib.Proof.ScServer

/-!
# Waiting coroutines

A coroutine that has registered is awaited: its ids are in the data of a connector that is not
reported, or its thread holds them, or the resume is queued (`CoWorld.Awaits`). Each step keeps
that, so a suspended coroutine is woken when its request was accepted
(`CoWorld.no_lost_wakeup`). A frame with the pack index stays where `_CheckReply` finds it
until it is read (`CoWorld.Kept`, `CoWorld.no_lost_reply`).
-/

namespace Netlib

open Lib

/-! ## Connectors -/

namespace CoConn

variable {c : CoConn}

/-- The ids that the thread has read are those in the data until it writes them. -/
def Sound (c : CoConn) : Prop :=
  ∀ thr_id co_id frame, c.io = .took thr_id co_id frame →
    c.info.thr_id = thr_id ∧ c.info.co_id = co_id

/-- The connector, or its thread, will wake the coroutine. -/
def Awaited (c : CoConn) (r : ℕ × Option ℕ) : Prop :=
  (c.info.thr_id, c.info.co_id) = r ∧ c.down = false ∨ c.io.ids = some r

theorem sound_of_frame (h : c.io.frame = none) : c.Sound := by
  intro thr_id co_id frame hio
  rw [hio] at h
  cases h

theorem connected_sound : connected.Sound := sound_of_frame rfl

theorem idle_sound : { c with io := .idle }.Sound := sound_of_frame rfl

theorem Sound.withSend (h : c.Sound) (send : SendWorld) : { c with send := send }.Sound := h

theorem Sound.withValid (h : c.Sound) : { c with info := { c.info with valid := true } }.Sound := h

theorem Sound.withBuffer (h : c.Sound) (b : Buffer) :
    { c with info := { c.info with buffer := b } }.Sound := h

theorem Sound.receive (h : c.Sound) (frame : { b : Buffer // b.WF }) : (c.receive frame).Sound := by
  unfold CoConn.receive
  split
  · exact h
  · rintro _ _ _ ⟨⟩
    exact ⟨rfl, rfl⟩

theorem receive_send (c : CoConn) (frame : { b : Buffer // b.WF }) : (c.receive frame).send = c.send := by
  unfold CoConn.receive
  split <;> rfl

theorem Awaited.receive {r : ℕ × Option ℕ} (h : c.Awaited r) (hio : c.io = .idle)
    (frame : { b : Buffer // b.WF }) : (c.receive frame).Awaited r := by
  unfold CoConn.receive
  split
  · exact h
  · rcases h with h | h
    · exact .inl h
    · rw [hio] at h
      cases h

theorem onDisconnected_sound (c : CoConn) : c.onDisconnected.Sound := sound_of_frame rfl

/-- The thread takes the ids over in `OnDisconnected`. -/
theorem Awaited.onDisconnected {r : ℕ × Option ℕ} (h : c.Awaited r) (hio : c.io = .idle) :
    c.onDisconnected.Awaited r := by
  rcases h with h | h
  · exact .inr (congrArg some h.1)
  · rw [hio] at h
    cases h

end CoConn

namespace CoPc

/-- The coroutine has registered with the connector `k`, and is not resumed yet. -/
def registers : CoPc → ℕ → Bool
  | registered _ k', k | sent _ k' _, k | suspended _ k' _, k => k' = k
  | _, _ => false

/-- `Send` of the connector `k` has refused the request. -/
def refused : CoPc → ℕ → Bool
  | sent _ k' false, k | suspended _ k' false, k => k' = k
  | _, _ => false

end CoPc

namespace CoWorld

open Function (update)

variable {w w' : CoWorld}

/-- What a step does. -/
inductive Did (w : CoWorld) : CoAction → CoWorld → Prop
  | open_ (hpc : w.pc = .idle) : Did w .open_ (w.setPc (.reconnect none))
  | call (hpc : w.pc = .idle) (c : CoCall) :
      Did w (.call c) { w with call := c, pc := .attempt 0, sends := 0, attempts := [], code := 0 }
  | close (hpc : w.pc = .idle) : Did w .close w.closeSocket
  | checked {cnt : ℕ} (hpc : w.pc = .attempt cnt) (k : ℕ) : Did w .check (w.setPc (.ready cnt k))
  | lost {cnt : ℕ} (hpc : w.pc = .attempt cnt) : Did w .check (w.setPc (.reconnect (some cnt)))
  | connected {cnt : Option ℕ} (hpc : w.pc = .reconnect cnt) :
      Did w (.connect true) { (w.setConn w.made .connected).setPc (.connected cnt w.made) with
        _socket := some w.made, made := w.made + 1 }
  | refused (hpc : w.pc = .reconnect none) :
      Did w (.connect false) { w with _socket := none, pc := .idle }
  | failed {cnt : ℕ} (hpc : w.pc = .reconnect (some cnt)) :
      Did w (.connect false) ({ w with _socket := none }.nextAttempt cnt (-2))
  | valid {k : ℕ} (hpc : w.pc = .connected none k) :
      Did w .setValid ((w.setConn k { w.conn k with
        info := { (w.conn k).info with valid := true } }).setPc .idle)
  | validReady {cnt k : ℕ} (hpc : w.pc = .connected (some cnt) k) :
      Did w .setValid ((w.setConn k { w.conn k with
        info := { (w.conn k).info with valid := true } }).setPc (.ready cnt k))
  | register {cnt k : ℕ} (hpc : w.pc = .ready cnt k) : Did w .register (w.registerStep cnt k)
  | send {cnt k : ℕ} (hpc : w.pc = .registered cnt k) (now : ℕ) (err : Bool) :
      Did w (.send now err) (w.sendStep cnt k now err)
  | yield {cnt k : ℕ} {accepted : Bool} (hpc : w.pc = .sent cnt k accepted) :
      Did w .yield (w.setPc (.suspended cnt k accepted))
  | resume {cnt k : ℕ} {accepted : Bool} (hpc : w.pc = .suspended cnt k accepted)
      (hr : w.caller ∈ w.resumes) :
      Did w .resume { w with resumes := w.resumes.erase w.caller, pc := .resumed cnt k }
  | stale {r : ℕ × Option ℕ} (hr : w.pc = .idle ∨ r ≠ w.caller) :
      Did w (.stale r) { w with resumes := w.resumes.erase r }
  | finish {cnt k : ℕ} (hpc : w.pc = .resumed cnt k) : Did w .finish (w.finishStep cnt k)
  | receive {k : ℕ} (hio : (w.conn k).io = .idle) (frame : { b : Buffer // b.WF }) :
      Did w (.receive k frame) (w.receiveStep k frame)
  | cleared {k thr_id : ℕ} {co_id : Option ℕ} {frame : { b : Buffer // b.WF }}
      (hio : (w.conn k).io = .took thr_id co_id frame) :
      Did w (.io k) (w.setConn k { w.conn k with
        info := { (w.conn k).info with thr_id := 0, co_id := none }
        io := .cleared thr_id co_id frame })
  | parked {k thr_id : ℕ} {co_id : Option ℕ} {frame : { b : Buffer // b.WF }}
      (hio : (w.conn k).io = .cleared thr_id co_id frame) :
      Did w (.io k) (w.setConn k { w.conn k with
        info := { (w.conn k).info with buffer := frame }
        io := .parked thr_id co_id })
  | queued {k thr_id : ℕ} {co_id : Option ℕ} (hio : (w.conn k).io = .parked thr_id co_id) :
      Did w (.io k) { w.setConn k { w.conn k with io := .idle } with
        resumes := w.resumes ++ [(thr_id, co_id)] }
  | reported {k thr_id : ℕ} {co_id : Option ℕ} (hio : (w.conn k).io = .down thr_id co_id) :
      Did w (.io k) { w.setConn k { w.conn k with io := .idle } with
        resumes := if co_id = none then w.resumes else w.resumes ++ [(thr_id, co_id)] }
  | onDisconnected {k : ℕ} (hio : (w.conn k).io = .idle) :
      Did w (.onDisconnected k) (w.setConn k (w.conn k).onDisconnected)
  | sock (k : ℕ) (a : SendAction) {send : SendWorld} (hs : (w.conn k).send.step a = some send) :
      Did w (.sock k a) (w.setConn k { w.conn k with send := send })

theorem ioStep_did {k : ℕ} (hs : w.ioStep k = some w') : w.Did (.io k) w' := by
  unfold ioStep at hs
  cases hio : (w.conn k).io with
  | idle =>
    simp only [hio] at hs
    cases hs
  | took thr_id co_id frame =>
    simp only [hio] at hs
    obtain rfl := Option.some.inj hs
    exact .cleared hio
  | cleared thr_id co_id frame =>
    simp only [hio] at hs
    obtain rfl := Option.some.inj hs
    exact .parked hio
  | parked thr_id co_id =>
    simp only [hio] at hs
    obtain rfl := Option.some.inj hs
    exact .queued hio
  | down thr_id co_id =>
    simp only [hio] at hs
    obtain rfl := Option.some.inj hs
    exact .reported hio

theorem check_did (hs : w.step .check = some w') : w.Did .check w' := by
  simp only [step] at hs
  split at hs
  · rename_i cnt hpc
    split at hs
    · rename_i k _
      split_ifs at hs
      · obtain rfl := Option.some.inj hs
        exact .checked hpc k
      · obtain rfl := Option.some.inj hs
        exact .lost hpc
    · obtain rfl := Option.some.inj hs
      exact .lost hpc
  · cases hs

theorem connect_did {ok : Bool} (hs : w.step (.connect ok) = some w') : w.Did (.connect ok) w' := by
  simp only [step] at hs
  split at hs
  · rename_i cnt hpc
    split_ifs at hs with hok
    · subst hok
      obtain rfl := Option.some.inj hs
      exact .connected hpc
    · obtain rfl := eq_false_of_ne_true hok
      cases cnt with
      | none =>
        obtain rfl := Option.some.inj hs
        exact .refused hpc
      | some cnt =>
        obtain rfl := Option.some.inj hs
        exact .failed hpc
  · cases hs

theorem setValid_did (hs : w.step .setValid = some w') : w.Did .setValid w' := by
  simp only [step] at hs
  split at hs
  · rename_i cnt k hpc
    cases cnt with
    | none =>
      obtain rfl := Option.some.inj hs
      exact .valid hpc
    | some cnt =>
      obtain rfl := Option.some.inj hs
      exact .validReady hpc
  · cases hs

theorem register_did (hs : w.step .register = some w') : w.Did .register w' := by
  simp only [step] at hs
  split at hs
  · rename_i cnt k hpc
    obtain rfl := Option.some.inj hs
    exact .register hpc
  · cases hs

theorem send_did {now : ℕ} {err : Bool} (hs : w.step (.send now err) = some w') :
    w.Did (.send now err) w' := by
  simp only [step] at hs
  split at hs
  · rename_i cnt k hpc
    obtain rfl := Option.some.inj hs
    exact .send hpc now err
  · cases hs

theorem yield_did (hs : w.step .yield = some w') : w.Did .yield w' := by
  simp only [step] at hs
  split at hs
  · rename_i cnt k accepted hpc
    obtain rfl := Option.some.inj hs
    exact .yield hpc
  · cases hs

theorem resume_did (hs : w.step .resume = some w') : w.Did .resume w' := by
  simp only [step] at hs
  split at hs
  · rename_i cnt k accepted hpc
    split_ifs at hs with hr
    obtain rfl := Option.some.inj hs
    exact .resume hpc hr
  · cases hs

theorem finish_did (hs : w.step .finish = some w') : w.Did .finish w' := by
  simp only [step] at hs
  split at hs
  · rename_i cnt k hpc
    obtain rfl := Option.some.inj hs
    exact .finish hpc
  · cases hs

theorem receive_did {k : ℕ} {frame : { b : Buffer // b.WF }}
    (hs : w.step (.receive k frame) = some w') : w.Did (.receive k frame) w' := by
  simp only [step] at hs
  split at hs
  · rename_i hio
    split_ifs at hs
    obtain rfl := Option.some.inj hs
    exact .receive hio frame
  · cases hs

theorem onDisconnected_did {k : ℕ} (hs : w.step (.onDisconnected k) = some w') :
    w.Did (.onDisconnected k) w' := by
  simp only [step] at hs
  split at hs
  · rename_i hio
    split_ifs at hs
    obtain rfl := Option.some.inj hs
    exact .onDisconnected hio
  · cases hs

/-- **The inversion of a step.** -/
theorem step_did {a : CoAction} (hs : w.step a = some w') : w.Did a w' := by
  cases a with
  | open_ =>
    simp only [step] at hs
    split_ifs at hs with h
    obtain rfl := Option.some.inj hs
    exact .open_ h.1
  | call c =>
    simp only [step] at hs
    split_ifs at hs with h
    obtain rfl := Option.some.inj hs
    exact .call h c
  | close =>
    simp only [step] at hs
    split_ifs at hs with h
    obtain rfl := Option.some.inj hs
    exact .close h
  | check => exact check_did hs
  | connect ok => exact connect_did hs
  | setValid => exact setValid_did hs
  | register => exact register_did hs
  | send now err => exact send_did hs
  | yield => exact yield_did hs
  | resume => exact resume_did hs
  | stale r =>
    simp only [step] at hs
    split_ifs at hs with h
    obtain rfl := Option.some.inj hs
    exact .stale h.2
  | finish => exact finish_did hs
  | receive k frame => exact receive_did hs
  | io k => exact ioStep_did hs
  | onDisconnected k => exact onDisconnected_did hs
  | sock k a =>
    simp only [step] at hs
    split_ifs at hs
    obtain ⟨send, hsend, rfl⟩ := Option.map_eq_some_iff.mp hs
    exact .sock k a hsend

/-- The caller will be woken through the connector `k`. -/
def Awaits (w : CoWorld) (k : ℕ) : Prop := (w.conn k).Awaited w.caller ∨ w.caller ∈ w.resumes

/-- **The invariant of the wake-ups.** -/
structure Safe (w : CoWorld) : Prop where
  conn : ∀ k, (w.conn k).Sound
  awaits : ∀ k, w.pc.registers k = true → w.Awaits k
  refused : ∀ k, w.pc.refused k = true → (w.conn k).send.sock.Called

theorem setConn_conn (w : CoWorld) (k : ℕ) (c : CoConn) (j : ℕ) :
    (w.setConn k c).conn j = if j = k then c else w.conn j :=
  Function.update_apply w.conn k c j

@[simp] theorem setConn_self (w : CoWorld) (k : ℕ) (c : CoConn) : (w.setConn k c).conn k = c := by
  rw [setConn_conn, if_pos rfl]

theorem setConn_of_ne (w : CoWorld) {j k : ℕ} (c : CoConn) (hne : j ≠ k) :
    (w.setConn k c).conn j = w.conn j := by
  rw [setConn_conn, if_neg hne]

/-- A connector is replaced by one that is sound. -/
theorem Safe.setConn_sound (h : w.Safe) (k : ℕ) {c : CoConn} (hc : c.Sound) (j : ℕ) :
    ((w.setConn k c).conn j).Sound := by
  rw [setConn_conn]
  split
  · exact hc
  · exact h.conn j

/-- Where no coroutine waits it is enough that the connectors are sound. -/
theorem Safe.of_sound (hconn : ∀ k, (w.conn k).Sound) (hreg : ∀ k, w.pc.registers k = false)
    (href : ∀ k, w.pc.refused k = false) : w.Safe where
  conn := hconn
  awaits k hk := by rw [hreg k] at hk; cases hk
  refused k hk := by rw [href k] at hk; cases hk

/-- **A connector goes on**, and resumes are queued: the caller is still awaited when the
connector or the queue has its ids, and what `_socket->Close` was called on stays so. -/
theorem Safe.setConn (h : w.Safe) (k : ℕ) {c : CoConn} (hc : c.Sound)
    {resumes : List (ℕ × Option ℕ)} (hr : ∀ r ∈ w.resumes, r ∈ resumes)
    (ha : (w.conn k).Awaited w.caller → c.Awaited w.caller ∨ w.caller ∈ resumes)
    (hf : (w.conn k).send.sock.Called → c.send.sock.Called)
    (handed : Option (ℕ × List Byte)) :
    { w.setConn k c with resumes := resumes, handed := handed }.Safe where
  conn := h.setConn_sound k hc
  awaits j hj := by
    have hw : w.Awaits j := h.awaits j hj
    unfold Awaits at hw ⊢
    change ((w.setConn k c).conn j).Awaited w.caller ∨ w.caller ∈ resumes
    rcases hw with hw | hw
    · by_cases hjk : j = k
      · subst hjk
        rw [setConn_self]
        exact ha hw
      · rw [setConn_of_ne w c hjk]
        exact .inl hw
    · exact .inr (hr _ hw)
  refused j hj := by
    have hw := h.refused j hj
    change ((w.setConn k c).conn j).send.sock.Called
    by_cases hjk : j = k
    · subst hjk
      rw [setConn_self]
      exact hf hw
    · rw [setConn_of_ne w c hjk]
      exact hw

/-- The ids that are wiped are those that the thread has read. -/
theorem Safe.cleared (h : w.Safe) {k thr_id : ℕ} {co_id : Option ℕ} {frame : { b : Buffer // b.WF }}
    (hio : (w.conn k).io = .took thr_id co_id frame) :
    (w.setConn k { w.conn k with
      info := { (w.conn k).info with thr_id := 0, co_id := none }
      io := .cleared thr_id co_id frame }).Safe := by
  obtain ⟨hthr, hco⟩ := h.conn k _ _ _ hio
  have hc : ({ w.conn k with
      info := { (w.conn k).info with thr_id := 0, co_id := none }
      io := .cleared thr_id co_id frame } : CoConn).Sound := fun _ _ _ he => IoPc.noConfusion he
  apply h.setConn k hc (fun _ hr => hr) _ id w.handed
  intro ha
  left
  right
  rcases ha with ⟨hids, -⟩ | ha
  · rw [← hids, hthr, hco]
    rfl
  · rw [← ha, hio]
    rfl

theorem Safe.parked (h : w.Safe) {k thr_id : ℕ} {co_id : Option ℕ} {frame : { b : Buffer // b.WF }}
    (hio : (w.conn k).io = .cleared thr_id co_id frame) :
    (w.setConn k { w.conn k with
      info := { (w.conn k).info with buffer := frame }
      io := .parked thr_id co_id }).Safe := by
  have hc : ({ w.conn k with
      info := { (w.conn k).info with buffer := frame }
      io := .parked thr_id co_id } : CoConn).Sound := CoConn.sound_of_frame rfl
  apply h.setConn k hc (fun _ hr => hr) _ id w.handed
  intro ha
  left
  rcases ha with ha | ha
  · exact .inl ha
  · right
    rw [← ha, hio]
    rfl

/-- The thread lets go of the ids when it has queued the resume. -/
theorem Safe.released (h : w.Safe) {k thr_id : ℕ} {co_id : Option ℕ}
    (hio : (w.conn k).io.ids = some (thr_id, co_id)) {resumes : List (ℕ × Option ℕ)}
    (hr : ∀ r ∈ w.resumes, r ∈ resumes)
    (hq : ∀ co, co_id = some co → (thr_id, some co) ∈ resumes) :
    { w.setConn k { w.conn k with io := .idle } with resumes := resumes }.Safe := by
  apply h.setConn k CoConn.idle_sound hr _ id w.handed
  intro ha
  rcases ha with ha | ha
  · exact .inl (.inl ha)
  · right
    rw [hio] at ha
    obtain ⟨hthr, hco⟩ := Prod.mk.inj (Option.some.inj ha)
    have hmem := hq w.call.co_id hco
    rw [hthr] at hmem
    exact hmem

theorem closeSocket_pc (w : CoWorld) : w.closeSocket.pc = w.pc := by
  unfold closeSocket
  split <;> rfl

/-- `Close` leaves the data of the connectors alone. -/
theorem closeSocket_sound (h : ∀ k, (w.conn k).Sound) (k : ℕ) : (w.closeSocket.conn k).Sound := by
  unfold closeSocket
  split
  · exact h k
  · rename_i k' _
    change ((w.setConn k' _).conn k).Sound
    rw [setConn_conn]
    split
    · exact (h k').withSend _
    · exact h k

theorem nextAttempt_pc (w : CoWorld) (cnt : ℕ) (code : ℤ) :
    (w.nextAttempt cnt code).pc = .attempt (cnt + 1) ∨ (w.nextAttempt cnt code).pc = .idle := by
  unfold nextAttempt
  by_cases h : cnt + 1 < 2
  · rw [if_pos h]
    exact .inl rfl
  · rw [if_neg h]
    exact .inr rfl

/-- Nobody waits after an attempt that does not return 0. -/
theorem nextAttempt_safe (hconn : ∀ k, (w.conn k).Sound) (cnt : ℕ) (code : ℤ) :
    (w.nextAttempt cnt code).Safe := by
  apply Safe.of_sound (w := w.nextAttempt cnt code) hconn
  · intro k
    rcases nextAttempt_pc w cnt code with hpc | hpc <;> rw [hpc] <;> rfl
  · intro k
    rcases nextAttempt_pc w cnt code with hpc | hpc <;> rw [hpc] <;> rfl

/-- **The registration** puts the ids where the connector's thread finds them. -/
theorem Safe.register (h : w.Safe) {cnt k : ℕ}
    (hdown : (w.conn k).info.valid = true → (w.conn k).down = false)
    (hio : ∀ thr_id co_id frame, (w.conn k).io ≠ .took thr_id co_id frame) :
    (w.registerStep cnt k).Safe := by
  have hk := h.conn k
  unfold registerStep
  simp only
  split
  · rename_i hvalid
    set c : CoConn := { w.conn k with
      info := { (w.conn k).info with thr_id := w.call.thr_id, co_id := some w.call.co_id } } with hcdef
    have hc : c.Sound := fun t i f he => absurd he (hio t i f)
    refine ⟨h.setConn_sound k hc, ?_, ?_⟩
    · intro j hj
      obtain rfl : k = j := of_decide_eq_true hj
      left
      change ((w.setConn k c).conn k).Awaited w.caller
      rw [setConn_self]
      exact .inl ⟨rfl, hdown hvalid⟩
    · intro j hj
      cases hj
  · apply nextAttempt_safe
    exact closeSocket_sound h.conn

/-- **The request**: what is refused is refused by a connector that has called
`_socket->Close`. -/
theorem Safe.sendStep (h : w.Safe) {cnt k : ℕ} (hpc : w.pc = .registered cnt k) (now : ℕ) (err : Bool)
    (hroom : (w.conn k).send.sock._flag = .start →
      12 + w.call.msg.length ≤ socketPackSize ∧
        (w.conn k).send.sock._writer.msgbuffer2.size + (12 + w.call.msg.length + hdrlen) ≤
          maxBufferSize)
    (hcalled : (w.conn k).send.sock._flag ≠ .start → (w.conn k).send.sock.Called) :
    (w.sendStep cnt k now err).Safe := by
  set data := (ScKind.coScClient.fill w.client twowayType w.call.msg_type
    w.call.msg)._request.sendData with hdata
  set send := ((w.conn k).send.step (.send now data err)).getD (w.conn k).send with hsend
  have hconn : (w.sendStep cnt k now err).conn = (w.setConn k { w.conn k with send := send }).conn :=
    rfl
  refine ⟨?_, ?_, ?_⟩
  · rw [hconn]
    exact h.setConn_sound k ((h.conn k).withSend send)
  · intro j hj
    have hj : k = j := of_decide_eq_true hj
    subst hj
    have hw : w.Awaits k := h.awaits k (by rw [hpc]; exact decide_eq_true rfl)
    change ((w.sendStep cnt k now err).conn k).Awaited w.caller ∨ w.caller ∈ w.resumes
    rw [hconn, setConn_self]
    exact hw
  · intro j hj
    rw [hconn]
    cases hacc : ((w.conn k).send.sock.send now data err).1 with
    | true =>
      have hpc' : (w.sendStep cnt k now err).pc = .sent cnt k true := by
        rw [← hacc]
        rfl
      rw [hpc'] at hj
      cases hj
    | false =>
      have hpc' : (w.sendStep cnt k now err).pc = .sent cnt k false := by
        rw [← hacc]
        rfl
      rw [hpc'] at hj
      obtain rfl : k = j := of_decide_eq_true hj
      rw [setConn_self]
      have hflag : (w.conn k).send.sock._flag ≠ .start := by
        intro hf
        obtain ⟨hlen, hfits⟩ := hroom hf
        obtain ⟨h0, hle⟩ := BaseScClient.fill_sendData w.client twowayType w.call.msg_type
          w.call.msg (by simp only [socketPackSize, bufferDefaultSize] at *; omega)
        have := TcpBaseSocket.send_accepted hf now err h0 (Nat.le_trans hle hlen)
          (Nat.le_trans (Nat.add_le_add_left (Nat.add_le_add_right hle _) _) hfits)
        rw [← Bool.not_eq_true] at hacc
        exact hacc this
      exact TcpBaseSocket.called_stable.step (hcalled hflag) (a := .send now data err)
        (by rw [hsend]; rfl)

theorem Safe.finish (h : w.Safe) (cnt k : ℕ) : (w.finishStep cnt k).Safe := by
  have hconn : ∀ j, ((w.checkReply k).2.conn j).Sound :=
    h.setConn_sound k ((h.conn k).withBuffer _)
  unfold finishStep
  generalize w.checkReply k = r at hconn
  obtain ⟨ok, v⟩ := r
  cases ok with
  | true => exact .of_sound (w := { v with pc := .idle, code := 0 }) hconn (fun _ => rfl) fun _ => rfl
  | false => exact nextAttempt_safe (closeSocket_sound hconn) cnt (-3)

/-- A resume that is taken in vain is not the one that the caller waits for. -/
theorem Safe.stale (h : w.Safe) {r : ℕ × Option ℕ} (hr : w.pc = .idle ∨ r ≠ w.caller) :
    { w with resumes := w.resumes.erase r }.Safe := by
  refine ⟨h.conn, ?_, h.refused⟩
  intro k hk
  rcases hr with hpc | hne
  · have hk' : w.pc.registers k = true := hk
    rw [hpc] at hk'
    cases hk'
  · have hw : w.Awaits k := h.awaits k hk
    rcases hw with hw | hw
    · exact .inl hw
    · exact .inr ((List.mem_erase_of_ne hne.symm).mpr hw)

/-- **One step** that meets the condition keeps the invariant. -/
theorem Safe.step {a : CoAction} (h : w.Safe) (hc : w.WaiterSafe a) (hs : w.step a = some w') :
    w'.Safe := by
  have quiet : ∀ pc : CoPc, (∀ k, pc.registers k = false) → (∀ k, pc.refused k = false) →
      (w.setPc pc).Safe := fun pc hreg href => .of_sound h.conn hreg href
  cases step_did hs with
  | open_ => exact quiet (.reconnect none) (fun _ => rfl) fun _ => rfl
  | call => exact .of_sound h.conn (fun _ => rfl) fun _ => rfl
  | close hpc =>
    apply Safe.of_sound (closeSocket_sound h.conn)
    · intro k
      rw [closeSocket_pc, hpc]
      rfl
    · intro k
      rw [closeSocket_pc, hpc]
      rfl
  | checked hpc k => exact quiet (.ready _ k) (fun _ => rfl) fun _ => rfl
  | lost hpc => exact quiet (.reconnect _) (fun _ => rfl) fun _ => rfl
  | connected hpc =>
    exact .of_sound (h.setConn_sound w.made CoConn.connected_sound) (fun _ => rfl) fun _ => rfl
  | refused hpc => exact .of_sound h.conn (fun _ => rfl) fun _ => rfl
  | failed hpc => exact nextAttempt_safe (w := { w with _socket := none }) h.conn _ _
  | valid hpc =>
    exact .of_sound (h.setConn_sound _ (h.conn _).withValid) (fun _ => rfl) fun _ => rfl
  | validReady hpc =>
    exact .of_sound (h.setConn_sound _ (h.conn _).withValid) (fun _ => rfl) fun _ => rfl
  | register hpc => exact h.register (hc _ _ hpc).1 (hc _ _ hpc).2
  | send hpc now err => exact h.sendStep hpc now err (hc _ _ hpc).1 (hc _ _ hpc).2
  | yield hpc =>
    rename_i cnt k accepted
    refine ⟨h.conn, ?_, ?_⟩
    · intro j hj
      exact h.awaits j (by rw [hpc]; exact hj)
    · intro j hj
      apply h.refused j
      rw [hpc]
      cases accepted with
      | true => cases hj
      | false => exact hj
  | resume hpc hr => exact .of_sound h.conn (fun _ => rfl) fun _ => rfl
  | stale hr => exact h.stale hr
  | finish hpc => exact h.finish _ _
  | receive hio frame =>
    exact h.setConn _ ((h.conn _).receive frame) (fun _ hr => hr)
      (fun ha => .inl (ha.receive hio frame)) (by rw [CoConn.receive_send]; exact id) _
  | cleared hio => exact h.cleared hio
  | parked hio => exact h.parked hio
  | queued hio =>
    apply h.released (by rw [hio]; rfl) (fun _ hr => List.mem_append_left _ hr)
    rintro co rfl
    exact List.mem_append_right _ List.mem_cons_self
  | reported hio =>
    apply h.released (by rw [hio]; rfl)
    · intro r hr
      split
      · exact hr
      · exact List.mem_append_left _ hr
    · rintro co rfl
      rw [if_neg (Option.some_ne_none co)]
      exact List.mem_append_right _ List.mem_cons_self
  | onDisconnected hio =>
    exact h.setConn _ (CoConn.onDisconnected_sound _) (fun _ hr => hr)
      (fun ha => .inl (ha.onDisconnected hio)) id w.handed
  | sock k a hsend =>
    rename_i send
    exact h.setConn k ((h.conn k).withSend send) (fun _ hr => hr) .inl
      (fun hf => TcpBaseSocket.called_stable.step hf hsend) w.handed

/-- A buffer with the pack index and, after the three words, a payload. -/
structure Carried (b : Buffer) (packidx : ℕ) (payload : List Byte) : Prop where
  wf : b.WF
  words : 12 ≤ b.unread.length
  idx : ofLe32 ((b.unread.drop 8).take 4) = packidx
  payload : b.unread.drop 12 = payload

theorem carried_of_carries {frame : { b : Buffer // b.WF }} {packidx : ℕ}
    (h : carries frame packidx = true) :
    frame.val.readWord.1 ≠ keepaliveAckId ∧
      Carried frame packidx (frame.val.unread.drop 12) := by
  unfold carries at h
  rw [Bool.and_eq_true, Bool.and_eq_true, decide_eq_true_eq, decide_eq_true_eq,
    decide_eq_true_eq] at h
  exact ⟨h.1.1, frame.property, h.1.2, h.2, rfl⟩

/-- The buffer of a connector, as it is when its thread has parked what it holds. -/
def latest (c : CoConn) : Buffer := (c.io.frame.map Subtype.val).getD c.info.buffer

/-- The un-read of a word that is there changes nothing. -/
theorem peeked_eq {frame : { b : Buffer // b.WF }} (hlen : 4 ≤ frame.val.unread.length) :
    peeked frame = frame := Subtype.ext (ScServer.peek_eq frame.property hlen)

theorem latest_receive {c : CoConn} {frame : { b : Buffer // b.WF }}
    (h : frame.val.readWord.1 ≠ keepaliveAckId) : latest (c.receive frame) = peeked frame := by
  unfold CoConn.receive
  rw [if_neg h]
  rfl

/-- The request has been handed to the connector `k`, and the reply is not checked yet. -/
def pending : CoPc → ℕ → Bool
  | .sent _ k' _, k | .suspended _ k' _, k | .resumed _ k', k => k' = k
  | _, _ => false

theorem pending_of_waits {pc : CoPc} {k : ℕ} (h : pc.waits k = true) : pending pc k = true := by
  cases pc <;> first | exact h | cases h

/-- The client is in `_Sync`. -/
def calling : CoPc → Bool
  | .idle | .reconnect none | .connected none _ => false
  | _ => true

/-- **The invariant of the replies.** -/
structure Kept (w : CoWorld) : Prop where
  frame : ∀ k p, w.handed = some (k, p) →
    pending w.pc k = true ∧ Carried (latest (w.conn k)) w.client._packidx p
  calls : calling w.pc = true → ∀ a ∈ w.attempts, a.handed = none
  replies : w.NoLostReply

theorem start_kept : start.Kept where
  frame _ _ h := by cases h
  calls h := by cases h
  replies _ ha := by cases ha

theorem Kept.handed_none (h : w.Kept) {pc : CoPc} (hpc : w.pc = pc)
    (hp : ∀ k, pending pc k = false) : w.handed = none := by
  cases hh : w.handed with
  | none => rfl
  | some kp =>
    have hpend := (h.frame kp.1 kp.2 hh).1
    rw [hpc, hp] at hpend
    cases hpend

/-- Where no frame was handed over, a step may do as it likes with the connectors. -/
theorem Kept.quiet (h : w.Kept) (hnone : w.handed = none) (hh : w'.handed = w.handed)
    (ha : w'.attempts = w.attempts) (hs : w'.sends = w.sends)
    (hc : calling w'.pc = true → calling w.pc = true) : w'.Kept where
  frame k p hkp := by
    rw [hh, hnone] at hkp
    cases hkp
  calls hcall := by
    rw [ha]
    exact h.calls (hc hcall)
  replies := by
    unfold NoLostReply
    rw [ha, hs]
    exact h.replies

/-- The client goes on from a place where no reply is awaited. -/
theorem Kept.moves (h : w.Kept) {pc : CoPc} (hpc : w.pc = pc) (hp : ∀ k, pending pc k = false)
    (hc : calling w'.pc = true → calling pc = true) (hh : w'.handed = w.handed)
    (ha : w'.attempts = w.attempts) (hs : w'.sends = w.sends) : w'.Kept := by
  apply h.quiet (h.handed_none hpc hp) hh ha hs
  rw [hpc]
  exact hc

/-- The client goes on with its reply to come. -/
theorem Kept.awaiting (h : w.Kept) {pc pc' : CoPc} (hpc : w.pc = pc) (hcall : calling pc = true)
    (hp : ∀ k, pending pc k = true → pending pc' k = true) (resumes : List (ℕ × Option ℕ)) :
    { w with resumes := resumes, pc := pc' }.Kept where
  frame k p hkp := by
    obtain ⟨hpend, hcar⟩ := h.frame k p hkp
    rw [hpc] at hpend
    exact ⟨hp k hpend, hcar⟩
  calls _ := h.calls (by rw [hpc]; exact hcall)
  replies := h.replies

/-- A connector goes on with the same buffer to come. -/
theorem Kept.setConn (h : w.Kept) (k : ℕ) {c : CoConn}
    (hl : ∀ p, w.handed = some (k, p) → latest c = latest (w.conn k))
    (resumes : List (ℕ × Option ℕ)) : { w.setConn k c with resumes := resumes }.Kept where
  frame j p hjp := by
    obtain ⟨hpend, hcar⟩ := h.frame j p hjp
    refine ⟨hpend, ?_⟩
    change Carried (latest ((w.setConn k c).conn j)) w.client._packidx p
    by_cases hjk : j = k
    · subst hjk
      rw [setConn_self, hl p hjp]
      exact hcar
    · rw [setConn_of_ne w c hjk]
      exact hcar
  calls := h.calls
  replies := h.replies

/-- A frame that is handed over is the one that will be in the buffer. -/
theorem Kept.receive (h : w.Kept) {k : ℕ} {frame : { b : Buffer // b.WF }}
    (hsafe : frame.val.readWord.1 = keepaliveAckId ∨ ∀ p, w.handed ≠ some (k, p)) :
    (w.receiveStep k frame).Kept where
  frame j p hjp := by
    change pending w.pc j = true ∧
      Carried (latest ((w.setConn k ((w.conn k).receive frame)).conn j)) w.client._packidx p
    by_cases hcarry : w.pc.waits k ∧ carries frame w.client._packidx
    · rw [receiveStep, if_pos hcarry] at hjp
      obtain ⟨rfl, rfl⟩ := Prod.mk.inj (Option.some.inj hjp)
      obtain ⟨hack, hcar⟩ := carried_of_carries hcarry.2
      rw [setConn_self, latest_receive hack, peeked_eq (Nat.le_trans (by decide : 4 ≤ 12) hcar.words)]
      exact ⟨pending_of_waits hcarry.1, hcar⟩
    · rw [receiveStep, if_neg hcarry] at hjp
      obtain ⟨hpend, hcar⟩ := h.frame j p hjp
      refine ⟨hpend, ?_⟩
      by_cases hjk : j = k
      · subst hjk
        rcases hsafe with hack | hother
        · rw [setConn_self, CoConn.receive, if_pos hack]
          exact hcar
        · exact absurd hjp (hother p)
      · rw [setConn_of_ne w _ hjk]
        exact hcar
  calls := h.calls
  replies := h.replies

theorem closeSocket_handed (w : CoWorld) : w.closeSocket.handed = w.handed := by
  unfold closeSocket
  split <;> rfl

/-- `Close` leaves the replies alone. -/
theorem Kept.closeSocket (h : w.Kept) (hnone : w.handed = none) : w.closeSocket.Kept := by
  unfold CoWorld.closeSocket
  split
  · exact h
  · exact h.quiet hnone rfl rfl rfl id

theorem Kept.nextAttempt (h : w.Kept) (hnone : w.handed = none) (hcall : calling w.pc = true)
    (cnt : ℕ) (code : ℤ) : (w.nextAttempt cnt code).Kept :=
  h.quiet hnone rfl rfl rfl fun _ => hcall

/-- **The check of the reply**: a frame that was handed over is found, and passes. -/
theorem Kept.checkReply (h : w.Kept) {cnt k : ℕ} (hpc : w.pc = .resumed cnt k)
    (hsafe : ∀ k p, w.handed = some (k, p) → (w.conn k).io.frame = none) :
    (w.checkReply k).2.NoLostReply ∧ ((w.checkReply k).1 = false →
      ∀ a ∈ (w.checkReply k).2.attempts, a.handed = none) := by
  have hold : ∀ a ∈ w.attempts, a.handed = none := h.calls (by rw [hpc]; rfl)
  have hcheck : ∀ k' p, w.handed = some (k', p) → ∃ b',
      w.client._checkReply (some (w.conn k).info.buffer) = (true, some b') ∧ b'.unread = p := by
    intro k' p hkp
    obtain ⟨hpend, hcar⟩ := h.frame k' p hkp
    rw [hpc] at hpend
    obtain rfl : k = k' := of_decide_eq_true hpend
    have hlatest : latest (w.conn k) = (w.conn k).info.buffer := by
      rw [latest, hsafe k p hkp]
      rfl
    rw [hlatest] at hcar
    obtain ⟨b', hreply, -, hun⟩ := w.client.checkReply_eq hcar.wf hcar.words
    refine ⟨b', ?_, hun.trans hcar.payload⟩
    rw [hreply, decide_eq_true hcar.idx]
  refine ⟨?_, ?_⟩
  · intro a ha p hp
    rcases List.mem_append.mp ha with ha | ha
    · rw [hold a ha] at hp
      cases hp
    · rw [List.mem_singleton] at ha
      subst ha
      obtain ⟨⟨k', p'⟩, hkp, rfl⟩ := Option.map_eq_some_iff.mp hp
      obtain ⟨b', hreply, hun⟩ := hcheck k' p' hkp
      refine ⟨?_, ?_, rfl⟩
      · simp only [hreply]
      · simp only [hreply, Option.getD_some, hun]
  · intro hfail a ha
    rcases List.mem_append.mp ha with ha | ha
    · exact hold a ha
    · rw [List.mem_singleton] at ha
      subst ha
      cases hh : w.handed with
      | none => simp only [Option.map_none]
      | some kp =>
        obtain ⟨b', hreply, -⟩ := hcheck kp.1 kp.2 hh
        rw [CoWorld.checkReply, hreply] at hfail
        cases hfail

theorem Kept.finish (h : w.Kept) {cnt k : ℕ} (hpc : w.pc = .resumed cnt k)
    (hsafe : ∀ k p, w.handed = some (k, p) → (w.conn k).io.frame = none) :
    (w.finishStep cnt k).Kept := by
  obtain ⟨hreplies, hfail⟩ := h.checkReply hpc hsafe
  have hnone : (w.checkReply k).2.handed = none := rfl
  have hpc' : (w.checkReply k).2.pc = .resumed cnt k := hpc
  unfold finishStep
  generalize w.checkReply k = r at hreplies hfail hnone hpc'
  obtain ⟨ok, v⟩ := r
  have hframe : ∀ {P : Prop} k p, v.handed = some (k, p) → P := by
    intro P k p hkp
    rw [hnone] at hkp
    cases hkp
  cases ok with
  | true =>
    have hidle : calling CoPc.idle = true → ∀ a ∈ v.attempts, a.handed = none := fun hcall => by
      cases hcall
    exact ⟨fun k p => hframe k p, hidle, hreplies⟩
  | false =>
    have hkept : v.Kept := ⟨fun k p => hframe k p, fun _ => hfail rfl, hreplies⟩
    apply (hkept.closeSocket hnone).nextAttempt ((closeSocket_handed v).trans hnone)
    rw [closeSocket_pc, hpc']
    rfl

/-- Before the request nothing was handed over, and no attempt of the call was. -/
theorem Kept.sendStep (h : w.Kept) {cnt k : ℕ} (hpc : w.pc = .registered cnt k) (now : ℕ)
    (err : Bool) : (w.sendStep cnt k now err).Kept := by
  have hold : ∀ a ∈ w.attempts, a.handed = none := h.calls (by rw [hpc]; rfl)
  refine ⟨?_, fun _ => hold, ?_⟩
  · intro j p hjp
    cases hjp
  · intro a ha p hp
    rw [hold a ha] at hp
    cases hp

theorem Kept.register (h : w.Kept) {cnt k : ℕ} (hpc : w.pc = .ready cnt k)
    (hnone : w.handed = none) : (w.registerStep cnt k).Kept := by
  unfold registerStep
  simp only
  split
  · exact h.quiet hnone rfl rfl rfl fun _ => by rw [hpc]; rfl
  · apply (h.closeSocket hnone).nextAttempt ((closeSocket_handed w).trans hnone)
    rw [closeSocket_pc, hpc]
    rfl

/-- **One step** that meets the condition keeps the invariant. -/
theorem Kept.step {a : CoAction} (h : w.Kept) (hc : w.ReplySafe a) (hs : w.step a = some w') :
    w'.Kept := by
  cases step_did hs with
  | open_ hpc =>
    exact h.moves hpc (fun _ => rfl) (fun hcall => by cases hcall) rfl rfl rfl
  | call hpc c =>
    have hnone := h.handed_none hpc fun _ => rfl
    refine ⟨?_, ?_, ?_⟩
    · intro j p hjp
      rw [hnone] at hjp
      cases hjp
    · intro _ a ha
      cases ha
    · intro a ha
      cases ha
  | close hpc => exact h.closeSocket (h.handed_none hpc fun _ => rfl)
  | checked hpc k =>
    exact h.moves hpc (fun _ => rfl) (fun _ => rfl) rfl rfl rfl
  | lost hpc =>
    exact h.moves hpc (fun _ => rfl) (fun _ => rfl) rfl rfl rfl
  | connected hpc =>
    rename_i cnt
    refine h.moves hpc ?_ ?_ rfl rfl rfl
    · intro _
      cases cnt <;> rfl
    · intro hcall
      cases cnt with
      | none => cases hcall
      | some cnt => rfl
  | refused hpc =>
    exact h.moves hpc (fun _ => rfl) (fun hcall => by cases hcall) rfl rfl rfl
  | failed hpc =>
    exact h.moves hpc (fun _ => rfl) (fun _ => rfl) rfl rfl rfl
  | valid hpc =>
    exact h.moves hpc (fun _ => rfl) (fun hcall => by cases hcall) rfl rfl rfl
  | validReady hpc =>
    exact h.moves hpc (fun _ => rfl) (fun _ => rfl) rfl rfl rfl
  | register hpc => exact h.register hpc (h.handed_none hpc fun _ => rfl)
  | send hpc now err => exact h.sendStep hpc now err
  | yield hpc =>
    apply h.awaiting hpc rfl
    intro k hp
    exact hp
  | resume hpc hr =>
    apply h.awaiting hpc rfl
    intro k hp
    exact hp
  | stale hr => exact ⟨h.frame, h.calls, h.replies⟩
  | finish hpc => exact h.finish hpc hc
  | receive hio frame => exact h.receive hc
  | cleared hio => exact h.setConn _ (fun _ _ => by rw [latest, latest, hio]; rfl) w.resumes
  | parked hio => exact h.setConn _ (fun _ _ => by rw [latest, latest, hio]; rfl) w.resumes
  | queued hio => exact h.setConn _ (fun _ _ => by rw [latest, latest, hio]; rfl) _
  | reported hio => exact h.setConn _ (fun _ _ => by rw [latest, latest, hio]; rfl) _
  | onDisconnected hio => exact h.setConn _ (fun p hp => absurd hp (hc p)) w.resumes
  | sock k a hsend =>
    rename_i send
    exact h.setConn k (c := { w.conn k with send := send }) (fun _ _ => rfl) w.resumes

/-- **No reply is lost** in the runs whose steps meet the condition. -/
theorem no_lost_reply (h : Reach step ReplySafe start w) : w.NoLostReply :=
  (h.inv start_kept fun _ _ _ hi hc hs => hi.step hc hs).replies

/-- The reply to a first request. -/
def replyFrame : { b : Buffer // b.WF } :=
  ⟨⟨13, 13, 0, BaseScClient.words twowayType 1 1 ++ [9]⟩, ⟨by decide, by decide, by decide, rfl⟩⟩

/-- A call that returns 0 with its reply. -/
theorem no_lost_reply_answered : ∃ w, Reach step ReplySafe start w ∧
    w.attempts = [⟨some [9], true, [9], 1⟩] ∧ w.NoLostReply := by
  have h1 : Reach step ReplySafe start _ := .single (a := CoAction.call ⟨1, [], 0, 0⟩) trivial rfl
  have h2 := h1.next (a := CoAction.check) trivial rfl
  have h3 := h2.next (a := CoAction.connect true) trivial rfl
  have h4 := h3.next (a := CoAction.setValid) trivial rfl
  have h5 := h4.next (a := CoAction.register) trivial rfl
  have h6 := h5.next (a := CoAction.send 0 false) trivial rfl
  have h7 := h6.next (a := CoAction.yield) trivial rfl
  have h8 := h7.next (a := CoAction.receive 0 replyFrame) (.inr fun _ hp => by cases hp) rfl
  have h9 := h8.next (a := CoAction.io 0) trivial rfl
  have h10 := h9.next (a := CoAction.io 0) trivial rfl
  have h11 := h10.next (a := CoAction.io 0) trivial rfl
  have h12 := h11.next (a := CoAction.resume) trivial rfl
  have h13 := h12.next (a := CoAction.finish) (fun _ _ hp => by cases hp; rfl) rfl
  exact ⟨_, h13, rfl, no_lost_reply h13⟩

/-- A first call whose reply is handed over and parked. -/
def answered : List CoAction :=
  [.call ⟨1, [], 0, 0⟩, .check, .connect true, .setValid, .register, .send 0 false, .yield,
    .receive 0 replyFrame, .io 0, .io 0, .io 0]

/-- The connection is reported disconnected before the coroutine is resumed. -/
def thenDisconnected : List CoAction :=
  [.sock 0 (.complete 0 true false), .onDisconnected 0, .io 0, .resume, .finish]

/-- **`OnDisconnected` clears the buffer** in which the reply is parked: the attempt fails, and
the request will be sent a second time. -/
theorem not_no_lost_reply : ¬ ∀ w, Reach step always start w → w.NoLostReply := by
  intro hall
  have hw : ∃ w, (answered ++ thenDisconnected).foldlM step start = some w ∧
      ∃ l, w.attempts = [⟨some [9], false, l, 1⟩] := ⟨_, rfl, _, rfl⟩
  obtain ⟨w, hrun, l, hatt⟩ := hw
  have hlost := hall w (Reach.of_foldlM (fun _ _ _ => trivial) hrun) ⟨some [9], false, l, 1⟩
    (by rw [hatt]; exact List.mem_singleton_self _) [9] rfl
  cases hlost.1

end CoWorld

end Netlib
