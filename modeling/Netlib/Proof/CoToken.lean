import Netlib.Spec.CoRpc
import Netlib.Proof.CoScClient

/-!
# Where a coroutine waits

A coroutine that has registered is held in one place: in the data of its connector, by the thread of
it, or in the queue (`CoConn.Stage`). So when it is resumed the buffer holds a frame that came for it,
or was cleared for a disconnection (`CoConn.Ready`).
-/

namespace Netlib

open Lib BaseScClient

/-! ## A coroutine that waits -/

/-- No resume for a coroutine is queued. -/
def NoneQueued (resumes : List (ℕ × Option ℕ)) : Prop := ∀ r ∈ resumes, r.2 = none

theorem NoneQueued.append {l q : List (ℕ × Option ℕ)} (h : NoneQueued l) (hq : NoneQueued q) :
    NoneQueued (l ++ q) := by
  intro r hr
  rcases List.mem_append.mp hr with hr | hr
  · exact h r hr
  · exact hq r hr

theorem NoneQueued.erase {l : List (ℕ × Option ℕ)} (h : NoneQueued l) (r : ℕ × Option ℕ) :
    NoneQueued (l.erase r) := fun x hx => h x (List.mem_of_mem_erase hx)

theorem noneQueued_nil : NoneQueued [] := fun r hr => by cases hr

theorem noneQueued_one (thr_id : ℕ) : NoneQueued [(thr_id, none)] := by
  intro r hr
  rw [List.mem_singleton.mp hr]

/-- The thread holds no coroutine. -/
def IoPc.Free (io : IoPc) : Prop := ∀ thr_id co_id, io.ids = some (thr_id, co_id) → co_id = none

theorem IoPc.idle_free : IoPc.idle.Free := fun _ _ h => by cases h

namespace CoConn

variable {c c' : CoConn} {R R' : List Byte → Prop} {q : List (ℕ × Option ℕ)}

/-- Neither the data nor the thread has a coroutine. -/
structure Bare (c : CoConn) : Prop where
  info : c.info.co_id = none
  io : c.io.Free

/-- What the coroutine finds when it is resumed: a frame as `R` says, or a buffer that was cleared for
a disconnection. -/
def Ready (c : CoConn) (R : List Byte → Prop) : Prop :=
  (∃ b : Buffer, c.info.buffer = b.clear) ∧ c.down = true ∨ R c.info.buffer.unread ∧ c.io.frame = none

/-- A frame that the thread holds is as `R` says. -/
def Brings (c : CoConn) (R : List Byte → Prop) : Prop :=
  ∀ frame, c.io.frame = some frame → R frame.val.unread

/-- What happens at a connector, but for a frame that comes, with the resumes that are queued. -/
inductive Turn (c : CoConn) : CoConn → List (ℕ × Option ℕ) → Prop
  | cleared {thr_id : ℕ} {co_id : Option ℕ} {frame : { b : Buffer // b.WF }}
      (hio : c.io = .took thr_id co_id frame) :
      Turn c { c with
        info := { c.info with thr_id := 0, co_id := none }
        io := .cleared thr_id co_id frame } []
  | parked {thr_id : ℕ} {co_id : Option ℕ} {frame : { b : Buffer // b.WF }}
      (hio : c.io = .cleared thr_id co_id frame) :
      Turn c { c with info := { c.info with buffer := frame }, io := .parked thr_id co_id } []
  | queued {thr_id : ℕ} {co_id : Option ℕ} (hio : c.io = .parked thr_id co_id) :
      Turn c { c with io := .idle } [(thr_id, co_id)]
  | reported {thr_id : ℕ} {co_id : Option ℕ} (hio : c.io = .down thr_id co_id) :
      Turn c { c with io := .idle } (if co_id = none then [] else [(thr_id, co_id)])
  | disconnected (hio : c.io = .idle) : Turn c c.onDisconnected []
  | sent (send : SendWorld) : Turn c { c with send := send } []

theorem connected_bare : connected.Bare := ⟨rfl, IoPc.idle_free⟩

theorem Bare.turn (h : c.Bare) (ht : c.Turn c' q) : c'.Bare ∧ NoneQueued q := by
  cases ht with
  | @cleared thr_id co_id frame hio =>
    obtain rfl : co_id = none := h.io thr_id co_id (by rw [hio]; rfl)
    refine ⟨⟨rfl, ?_⟩, noneQueued_nil⟩
    rintro _ _ ⟨⟩
    rfl
  | @parked thr_id co_id frame hio =>
    obtain rfl : co_id = none := h.io thr_id co_id (by rw [hio]; rfl)
    refine ⟨⟨h.info, ?_⟩, noneQueued_nil⟩
    rintro _ _ ⟨⟩
    rfl
  | @queued thr_id co_id hio =>
    obtain rfl : co_id = none := h.io thr_id co_id (by rw [hio]; rfl)
    exact ⟨⟨h.info, IoPc.idle_free⟩, noneQueued_one thr_id⟩
  | @reported thr_id co_id hio =>
    obtain rfl : co_id = none := h.io thr_id co_id (by rw [hio]; rfl)
    exact ⟨⟨h.info, IoPc.idle_free⟩, noneQueued_nil⟩
  | disconnected hio =>
    refine ⟨⟨rfl, ?_⟩, noneQueued_nil⟩
    rintro _ _ ⟨⟩
    exact h.info
  | sent send => exact ⟨⟨h.info, h.io⟩, noneQueued_nil⟩

theorem Bare.receive (h : c.Bare) (frame : { b : Buffer // b.WF }) : (c.receive frame).Bare := by
  unfold CoConn.receive
  split
  · exact h
  · refine ⟨h.info, ?_⟩
    rintro _ _ ⟨⟩
    exact h.info

theorem Brings.turn (h : c.Brings R) (ht : c.Turn c' q) : c'.Brings R := by
  cases ht with
  | cleared hio =>
    rintro _ ⟨⟩
    exact h _ (by rw [hio]; rfl)
  | parked hio => exact fun _ hf => by cases hf
  | queued hio => exact fun _ hf => by cases hf
  | reported hio => exact fun _ hf => by cases hf
  | disconnected hio => exact fun _ hf => by cases hf
  | sent send => exact h

theorem Ready.turn (h : c.Ready R) (hb : c.Brings R) (ht : c.Turn c' q) : c'.Ready R := by
  cases ht with
  | cleared hio =>
    rcases h with h | ⟨-, hf⟩
    · exact .inl h
    · rw [hio] at hf
      cases hf
  | parked hio => exact .inr ⟨hb _ (by rw [hio]; rfl), rfl⟩
  | queued hio => exact h.imp id fun h => ⟨h.1, rfl⟩
  | reported hio => exact h.imp id fun h => ⟨h.1, rfl⟩
  | disconnected hio => exact .inl ⟨⟨_, rfl⟩, rfl⟩
  | sent send => exact h

theorem Ready.mono (h : c.Ready R) (hR : ∀ d, R d → R' d) : c.Ready R' :=
  h.imp id fun h => ⟨hR _ h.1, h.2⟩

/-- A frame comes that nothing was before. -/
theorem Ready.receive (h : c.Ready R) (hno : ∀ d, ¬ R d) {frame : { b : Buffer // b.WF }} :
    (c.receive frame).Ready R' := by
  have hleft := h.resolve_right fun h => hno _ h.1
  unfold CoConn.receive
  split
  · exact .inl hleft
  · exact .inl hleft

theorem Brings.receive {frame : { b : Buffer // b.WF }} (hack : frame.val.readWord.1 ≠ keepaliveAckId)
    (hR : R (peeked frame).val.unread) : (c.receive frame).Brings R := by
  unfold CoConn.receive
  rw [if_neg hack]
  rintro _ ⟨⟩
  exact hR

/-- **Where the coroutine `r` is held** that waits at a connector, if it is held at all: in the data, by
the thread, or in the queue. When it has left the data, the buffer is ready for it. -/
inductive Stage (c : CoConn) (resumes : List (ℕ × Option ℕ)) (r : ℕ × Option ℕ)
    (R : List Byte → Prop) : Prop
  | waits (hio : c.io.Free) (hinfo : c.info.co_id = none ∨ (c.info.thr_id, c.info.co_id) = r)
      (hq : NoneQueued resumes)
  | took {frame : { b : Buffer // b.WF }} (hio : c.io = .took r.1 r.2 frame)
      (hinfo : (c.info.thr_id, c.info.co_id) = r) (hq : NoneQueued resumes)
  | holds (hids : c.io.ids = some r) (hinfo : c.info.co_id = none) (hq : NoneQueued resumes)
      (hready : c.io.frame = none → c.Ready R)
  | queued (hbare : c.Bare) (hr : r ∈ resumes) (hq : NoneQueued (resumes.erase r)) (hready : c.Ready R)

variable {resumes : List (ℕ × Option ℕ)} {r : ℕ × Option ℕ}

theorem Stage.mono (h : c.Stage resumes r R) (hR : ∀ d, R d → R' d) : c.Stage resumes r R' := by
  cases h with
  | waits hio hinfo hq => exact .waits hio hinfo hq
  | took hio hinfo hq => exact .took hio hinfo hq
  | holds hids hinfo hq hready => exact .holds hids hinfo hq fun hf => (hready hf).mono hR
  | queued hbare hr hq hready => exact .queued hbare hr hq (hready.mono hR)

/-- **One step** at the connector of a coroutine that waits. -/
theorem Stage.turn (h : c.Stage resumes r R) (hsome : r.2 ≠ none) (hb : c.Brings R)
    (ht : c.Turn c' q) : c'.Stage (resumes ++ q) r R := by
  cases h with
  | queued hbare hr hq hready =>
    obtain ⟨hbare', hnone⟩ := hbare.turn ht
    refine .queued hbare' (List.mem_append_left _ hr) ?_ (hready.turn hb ht)
    rw [List.erase_append_left _ hr]
    exact hq.append hnone
  | waits hio hinfo hq =>
    -- what the thread has in hand was taken before the coroutine came
    cases ht with
    | @cleared thr_id co_id frame hio' =>
      obtain rfl : co_id = none := hio thr_id co_id (by rw [hio']; rfl)
      refine .waits ?_ (.inl rfl) (hq.append noneQueued_nil)
      rintro _ _ ⟨⟩
      rfl
    | @parked thr_id co_id frame hio' =>
      obtain rfl : co_id = none := hio thr_id co_id (by rw [hio']; rfl)
      refine .waits ?_ hinfo (hq.append noneQueued_nil)
      rintro _ _ ⟨⟩
      rfl
    | @queued thr_id co_id hio' =>
      obtain rfl : co_id = none := hio thr_id co_id (by rw [hio']; rfl)
      exact .waits IoPc.idle_free hinfo (hq.append (noneQueued_one thr_id))
    | @reported thr_id co_id hio' =>
      obtain rfl : co_id = none := hio thr_id co_id (by rw [hio']; rfl)
      exact .waits IoPc.idle_free hinfo (hq.append noneQueued_nil)
    | disconnected hio' =>
      rcases hinfo with hinfo | hinfo
      · refine .waits ?_ (.inl rfl) (hq.append noneQueued_nil)
        rintro _ _ ⟨⟩
        exact hinfo
      -- `OnDisconnected` takes the ids and clears the buffer at once
      · exact .holds (congrArg some hinfo) rfl (hq.append noneQueued_nil) fun _ =>
          .inl ⟨⟨_, rfl⟩, rfl⟩
    | sent send => exact .waits hio hinfo (hq.append noneQueued_nil)
  | took hio hinfo hq =>
    cases ht with
    | cleared hio' =>
      rw [hio] at hio'
      cases hio'
      exact .holds rfl rfl (hq.append noneQueued_nil) fun hf => by cases hf
    | parked hio' => rw [hio] at hio'; cases hio'
    | queued hio' => rw [hio] at hio'; cases hio'
    | reported hio' => rw [hio] at hio'; cases hio'
    | disconnected hio' => rw [hio] at hio'; cases hio'
    | sent send => exact .took hio hinfo (hq.append noneQueued_nil)
  | holds hids hinfo hq hready =>
    -- the resume is queued once: there is none for a coroutine in the queue yet
    have hout : r ∉ resumes := fun hr => hsome (hq r hr)
    have hqueue : ∀ thr_id co_id, c.io.ids = some (thr_id, co_id) → c.io.frame = none →
        Stage { c with io := .idle } (resumes ++ [(thr_id, co_id)]) r R := by
      intro thr_id co_id hids' hframe
      obtain rfl := Option.some.inj (hids.symm.trans hids')
      refine .queued ⟨hinfo, IoPc.idle_free⟩ (List.mem_append_right _ List.mem_cons_self) ?_
        ((hready hframe).imp id fun h => ⟨h.1, rfl⟩)
      rw [List.erase_append_right _ hout, List.erase_cons_head, List.append_nil]
      exact hq
    cases ht with
    | cleared hio =>
      rw [hio] at hids
      exact .holds hids rfl (hq.append noneQueued_nil) fun hf => by cases hf
    | parked hio =>
      rw [hio] at hids
      exact .holds hids hinfo (hq.append noneQueued_nil) fun _ =>
        .inr ⟨hb _ (by rw [hio]; rfl), rfl⟩
    | queued hio => exact hqueue _ _ (by rw [hio]; rfl) (by rw [hio]; rfl)
    | @reported thr_id co_id hio =>
      have hne : co_id ≠ none := by
        rw [hio] at hids
        obtain rfl := Option.some.inj hids
        exact hsome
      rw [if_neg hne]
      exact hqueue _ _ (by rw [hio]; rfl) (by rw [hio]; rfl)
    | disconnected hio =>
      rw [hio] at hids
      cases hids
    | sent send => exact .holds hids hinfo (hq.append noneQueued_nil) hready

/-- **A frame comes** to the connector of a coroutine that waits. -/
theorem Stage.receive (h : c.Stage resumes r R) (hno : ∀ d, ¬ R d) (hidle : c.io = .idle)
    {frame : { b : Buffer // b.WF }} (hack : frame.val.readWord.1 ≠ keepaliveAckId) :
    (c.receive frame).Stage resumes r R' := by
  cases h with
  | waits hio hinfo hq =>
    unfold CoConn.receive
    rw [if_neg hack]
    rcases hinfo with hinfo | hinfo
    · refine .waits ?_ (.inl hinfo) hq
      rintro _ _ ⟨⟩
      exact hinfo
    · obtain rfl := hinfo
      exact .took rfl rfl hq
  | took hio =>
    rw [hidle] at hio
    cases hio
  | holds hids =>
    rw [hidle] at hids
    cases hids
  | queued hbare hr hq hready => exact .queued (hbare.receive frame) hr hq (hready.receive hno)

/-- **The coroutine is resumed** only when the buffer is ready. -/
theorem Stage.resume (h : c.Stage resumes r R) (hsome : r.2 ≠ none) (hr : r ∈ resumes) :
    c.Bare ∧ NoneQueued (resumes.erase r) ∧ c.Ready R := by
  cases h with
  | waits _ _ hq => exact absurd (hq r hr) hsome
  | took _ _ hq => exact absurd (hq r hr) hsome
  | holds _ _ hq => exact absurd (hq r hr) hsome
  | queued hbare _ hq hready => exact ⟨hbare, hq, hready⟩

/-- Another resume is taken from the queue. -/
theorem Stage.erase (h : c.Stage resumes r R) {r' : ℕ × Option ℕ} (hne : r' ≠ r) :
    c.Stage (resumes.erase r') r R := by
  cases h with
  | waits hio hinfo hq => exact .waits hio hinfo (hq.erase r')
  | took hio hinfo hq => exact .took hio hinfo (hq.erase r')
  | holds hids hinfo hq hready => exact .holds hids hinfo (hq.erase r') hready
  | queued hbare hr hq hready =>
    refine .queued hbare ((List.mem_erase_of_ne hne.symm).mpr hr) ?_ hready
    rw [List.erase_comm]
    exact hq.erase r'

end CoConn

/-! ## A socket that is closed -/

namespace TcpBaseSocket

variable {s : TcpBaseSocket}

/-- Nothing is sent after `_socket->Close`. -/
def Shut (s : TcpBaseSocket) : Prop := s._socket.closes ≠ [] → s._flag ≠ .start

theorem close_shut (s : TcpBaseSocket) : s._close.Shut := fun _ => close_flag s

theorem shut_stable : CloseStable Shut :=
  ⟨fun h hf hc hne => hf ▸ h (hc ▸ hne), fun _ => close_shut _⟩

end TcpBaseSocket

theorem SendWorld.step_shut {w w' : SendWorld} {a : SendAction} (h : w.sock.Shut)
    (hs : w.step a = some w') : w'.sock.Shut :=
  TcpBaseSocket.shut_stable.step h hs

/-! ## The client -/

namespace CoPc

/-- The connector that the client is at work with. -/
def conn? : CoPc → Option ℕ
  | connected _ k | ready _ k | registered _ k | sent _ k _ | suspended _ k _ | resumed _ k => some k
  | _ => none

/-- The coroutine has registered with the connector `k`, and its reply is not checked yet. -/
def awaits : CoPc → ℕ → Bool
  | registered _ k', k | sent _ k' _, k | suspended _ k' _, k | resumed _ k', k => k' = k
  | _, _ => false

theorem awaits_of_registers {pc : CoPc} {k : ℕ} (h : pc.registers k = true) : pc.awaits k = true := by
  cases pc <;> first | exact h | cases h

theorem registers_inj {pc : CoPc} {j k : ℕ} (hj : pc.registers j = true) (hk : pc.registers k = true) :
    j = k := by
  cases pc <;> first
    | exact (of_decide_eq_true hj).symm.trans (of_decide_eq_true hk)
    | cases hj

theorem conn_of_awaits {pc : CoPc} {k : ℕ} (h : pc.awaits k = true) : pc.conn? = some k := by
  cases pc <;> first
    | exact congrArg some (of_decide_eq_true h)
    | cases h

end CoPc

/-- Resumes that are for no coroutine are queued. -/
theorem CoConn.Stage.append {c : CoConn} {resumes q : List (ℕ × Option ℕ)} {r : ℕ × Option ℕ}
    {R : List Byte → Prop} (h : c.Stage resumes r R) (hn : NoneQueued q) :
    c.Stage (resumes ++ q) r R := by
  cases h with
  | waits hio hinfo hq => exact .waits hio hinfo (hq.append hn)
  | took hio hinfo hq => exact .took hio hinfo (hq.append hn)
  | holds hids hinfo hq hready => exact .holds hids hinfo (hq.append hn) hready
  | queued hbare hr hq hready =>
    refine .queued hbare (List.mem_append_left _ hr) ?_ hready
    rw [List.erase_append_left _ hr]
    exact hq.append hn

namespace CoWorld

open Function (update)

variable {w w' : CoWorld} {R R' : List Byte → Prop}

/-- **The coroutine that waits is the only one** that is held anywhere. `R` says which frames come for
it. -/
structure Tokens (w : CoWorld) (R : List Byte → Prop) : Prop where
  bare : ∀ k, w.pc.registers k = false → (w.conn k).Bare
  quiet : (∀ k, w.pc.registers k = false) → NoneQueued w.resumes
  stage : ∀ k, w.pc.registers k = true → (w.conn k).Stage w.resumes w.caller R
  ready : ∀ cnt k, w.pc = .resumed cnt k → (w.conn k).Ready R
  brings : ∀ k, w.pc.awaits k = true → (w.conn k).Brings R

theorem Tokens.of_bare (hb : ∀ k, (w.conn k).Bare) (hq : NoneQueued w.resumes)
    (hpc : ∀ k, w.pc.awaits k = false) : w.Tokens R where
  bare k _ := hb k
  quiet _ := hq
  stage k hk := by
    have := CoPc.awaits_of_registers hk
    rw [hpc k] at this
    cases this
  ready cnt k hk := by
    have := hpc k
    rw [hk] at this
    exact absurd (decide_eq_true rfl) (Bool.eq_false_iff.mp this)
  brings k hk := by
    rw [hpc k] at hk
    cases hk

theorem Tokens.mono (h : w.Tokens R) (hR : ∀ k, w.pc.awaits k = true → ∀ d, R d → R' d) :
    w.Tokens R' where
  bare := h.bare
  quiet := h.quiet
  stage k hk := (h.stage k hk).mono (hR k (CoPc.awaits_of_registers hk))
  ready cnt k hk := (h.ready cnt k hk).mono (hR k (by rw [hk]; exact decide_eq_true rfl))
  brings k hk frame hf := hR k hk _ (h.brings k hk frame hf)

/-- The client goes on at the same connector. -/
theorem Tokens.of_eq (h : w.Tokens R) (hreg : ∀ k, w'.pc.registers k = w.pc.registers k)
    (haw : ∀ k, w'.pc.awaits k = w.pc.awaits k)
    (hresumed : ∀ cnt k, w'.pc = .resumed cnt k → w.pc = .resumed cnt k) (hconn : w'.conn = w.conn)
    (hres : w'.resumes = w.resumes) (hcall : w'.call = w.call) : w'.Tokens R := by
  have hcaller : w'.caller = w.caller := by
    unfold caller
    rw [hcall]
  refine ⟨?_, ?_, ?_, ?_, ?_⟩
  · intro k hk
    rw [hreg] at hk
    rw [hconn]
    exact h.bare k hk
  · intro hnone
    rw [hres]
    exact h.quiet fun k => by rw [← hreg]; exact hnone k
  · intro k hk
    rw [hreg] at hk
    rw [hconn, hres, hcaller]
    exact h.stage k hk
  · intro cnt k hk
    rw [hconn]
    exact h.ready cnt k (hresumed cnt k hk)
  · intro k hk
    rw [haw] at hk
    rw [hconn]
    exact h.brings k hk

theorem setConn_eq (w : CoWorld) (k : ℕ) : (w.setConn k (w.conn k)).conn = w.conn :=
  Function.update_eq_self k w.conn

theorem caller_ne (w : CoWorld) : w.caller.2 ≠ none := Option.some_ne_none w.call.co_id

/-- **A connector goes on.** -/
theorem Tokens.turn (h : w.Tokens R) {k : ℕ} {c : CoConn} {q : List (ℕ × Option ℕ)}
    (ht : (w.conn k).Turn c q) : { w.setConn k c with resumes := w.resumes ++ q }.Tokens R := by
  have hconn : ∀ {P : CoConn → Prop} (j : ℕ), (j = k → P c) → (j ≠ k → P (w.conn j)) →
      P ((w.setConn k c).conn j) := by
    intro P j hself hother
    rw [setConn_conn]
    split
    · rename_i hjk
      exact hself hjk
    · rename_i hjk
      exact hother hjk
  refine ⟨?_, ?_, ?_, ?_, ?_⟩
  · intro j hj
    refine hconn j ?_ fun _ => h.bare j hj
    rintro rfl
    exact ((h.bare j hj).turn ht).1
  · intro hnone
    exact (h.quiet hnone).append ((h.bare k (hnone k)).turn ht).2
  · intro j hj
    change ((w.setConn k c).conn j).Stage (w.resumes ++ q) w.caller R
    refine hconn (P := fun c => c.Stage (w.resumes ++ q) w.caller R) j ?_ fun hne => ?_
    · rintro rfl
      exact (h.stage j hj).turn w.caller_ne (h.brings j (CoPc.awaits_of_registers hj)) ht
    · have hk : w.pc.registers k = false := by
        rw [Bool.eq_false_iff]
        exact fun hk => hne (CoPc.registers_inj hj hk)
      exact (h.stage j hj).append ((h.bare k hk).turn ht).2
  · intro cnt j hj
    refine hconn (P := fun c => c.Ready R) j ?_ fun _ => h.ready cnt j hj
    rintro rfl
    have haw : w.pc.awaits j = true := by
      rw [show w.pc = .resumed cnt j from hj]
      exact decide_eq_true rfl
    exact (h.ready cnt j hj).turn (h.brings j haw) ht
  · intro j hj
    refine hconn (P := fun c => c.Brings R) j ?_ fun _ => h.brings j hj
    rintro rfl
    exact (h.brings j hj).turn ht

/-- **A frame comes** to a connector. -/
theorem Tokens.receive (h : w.Tokens R) {k : ℕ} (hidle : (w.conn k).io = .idle)
    {frame : { b : Buffer // b.WF }} (hack : frame.val.readWord.1 ≠ keepaliveAckId)
    (hhere : w.pc.awaits k = true → (∀ d, ¬ R d) ∧ R' (peeked frame).val.unread)
    (hmono : w.pc.awaits k = false → ∀ d, R d → R' d) : (w.receiveStep k frame).Tokens R' := by
  have hconn : ∀ {P : CoConn → Prop} (j : ℕ), (j = k → P ((w.conn j).receive frame)) →
      (j ≠ k → P (w.conn j)) → P ((w.receiveStep k frame).conn j) := by
    intro P j hself hother
    change P ((w.setConn k ((w.conn k).receive frame)).conn j)
    by_cases hjk : j = k
    · subst hjk
      rw [setConn_self]
      exact hself rfl
    · rw [setConn_of_ne w _ hjk]
      exact hother hjk
  -- a coroutine that waits at another connector does not wait at this one
  have hothers : ∀ j, j ≠ k → w.pc.awaits j = true → ∀ d, R d → R' d := by
    intro j hne hj
    apply hmono
    rw [Bool.eq_false_iff]
    intro hk
    exact hne (Option.some.inj ((CoPc.conn_of_awaits hj).symm.trans (CoPc.conn_of_awaits hk)))
  refine ⟨?_, h.quiet, ?_, ?_, ?_⟩
  · intro j hj
    exact hconn j (fun _ => (h.bare j hj).receive frame) fun _ => h.bare j hj
  · intro j hj
    have haw := CoPc.awaits_of_registers hj
    refine hconn (P := fun c => c.Stage w.resumes w.caller R') j ?_ fun hne =>
      (h.stage j hj).mono (hothers j hne haw)
    rintro rfl
    exact (h.stage j hj).receive (hhere haw).1 hidle hack
  · intro cnt j hj
    have haw : w.pc.awaits j = true := by
      rw [show w.pc = .resumed cnt j from hj]
      exact decide_eq_true rfl
    refine hconn (P := fun c => c.Ready R') j ?_ fun hne =>
      (h.ready cnt j hj).mono (hothers j hne haw)
    rintro rfl
    exact (h.ready cnt j hj).receive (hhere haw).1
  · intro j hj
    refine hconn (P := fun c => c.Brings R') j ?_ fun hne f hf =>
      hothers j hne hj _ (h.brings j hj f hf)
    rintro rfl
    exact CoConn.Brings.receive hack (hhere hj).2

/-- `Close` changes only what is sent, and stops it. -/
theorem closeSocket_conn (w : CoWorld) (k : ℕ) : ∃ send : SendWorld,
    w.closeSocket.conn k = { w.conn k with send := send } ∧
      (send = (w.conn k).send ∨ send.sock._flag ≠ .start) := by
  unfold closeSocket
  split
  · exact ⟨_, rfl, .inl rfl⟩
  · rename_i k' _
    change ∃ send : SendWorld, (w.setConn k' _).conn k = _ ∧ _
    by_cases hk : k = k'
    · subst hk
      rw [setConn_self]
      exact ⟨_, rfl, .inr (TcpBaseSocket.close_flag _)⟩
    · rw [setConn_of_ne w _ hk]
      exact ⟨_, rfl, .inl rfl⟩

theorem closeSocket_bare (h : ∀ k, (w.conn k).Bare) (k : ℕ) : (w.closeSocket.conn k).Bare := by
  obtain ⟨send, he, -⟩ := w.closeSocket_conn k
  rw [he]
  exact ⟨(h k).info, (h k).io⟩

theorem closeSocket_resumes (w : CoWorld) : w.closeSocket.resumes = w.resumes := by
  unfold closeSocket
  split <;> rfl

theorem nextAttempt_awaits (w : CoWorld) (cnt : ℕ) (code : ℤ) (k : ℕ) :
    (w.nextAttempt cnt code).pc.awaits k = false := by
  rcases nextAttempt_pc w cnt code with hpc | hpc <;> rw [hpc] <;> rfl

/-- The end of an attempt: nobody waits. -/
theorem Tokens.failed (hb : ∀ k, (w.conn k).Bare) (hq : NoneQueued w.resumes) (cnt : ℕ) (code : ℤ) :
    (w.closeSocket.nextAttempt cnt code).Tokens R := by
  refine .of_bare (w := w.closeSocket.nextAttempt cnt code) (closeSocket_bare hb) ?_
    (nextAttempt_awaits _ cnt code)
  change NoneQueued w.closeSocket.resumes
  rw [closeSocket_resumes]
  exact hq

theorem setConn_bare (h : ∀ k, (w.conn k).Bare) (k : ℕ) {c : CoConn} (hc : c.Bare) (j : ℕ) :
    ((w.setConn k c).conn j).Bare := by
  rw [setConn_conn]
  split
  · exact hc
  · exact h j

theorem Tokens.register (hb : ∀ k, (w.conn k).Bare) (hq : NoneQueued w.resumes) {cnt k : ℕ}
    (hframe : (w.conn k).io.frame = none) : (w.registerStep cnt k).Tokens R := by
  unfold registerStep
  simp only
  split
  · set c : CoConn := { w.conn k with
      info := { (w.conn k).info with thr_id := w.call.thr_id, co_id := some w.call.co_id } } with hc
    have hself : ∀ j, k = j → ((w.setConn k c).conn j) = c := by
      rintro j rfl
      exact setConn_self w k c
    refine ⟨?_, ?_, ?_, ?_, ?_⟩
    · intro j hj
      have hne : j ≠ k := fun he => of_decide_eq_false hj he.symm
      change ((w.setConn k c).conn j).Bare
      rw [setConn_of_ne w c hne]
      exact hb j
    · intro hnone
      exact absurd rfl (of_decide_eq_false (hnone k))
    · intro j hj
      change ((w.setConn k c).conn j).Stage w.resumes w.caller R
      rw [hself j (of_decide_eq_true hj)]
      exact .waits (hb k).io (.inr rfl) hq
    · intro cnt' j hj
      cases hj
    · intro j hj frame hf
      change ((w.setConn k c).conn j).io.frame = some frame at hf
      rw [hself j (of_decide_eq_true hj), hc] at hf
      rw [hframe] at hf
      cases hf
  · exact Tokens.failed hb hq cnt (-3)

/-- **The coroutine is resumed.** -/
theorem Tokens.resume (h : w.Tokens R) {cnt k : ℕ} {accepted : Bool}
    (hpc : w.pc = .suspended cnt k accepted) (hr : w.caller ∈ w.resumes) :
    { w with resumes := w.resumes.erase w.caller, pc := .resumed cnt k }.Tokens R := by
  have hreg : w.pc.registers k = true := by
    rw [hpc]
    exact decide_eq_true rfl
  obtain ⟨hbare, hq, hready⟩ := (h.stage k hreg).resume w.caller_ne hr
  refine ⟨?_, fun _ => hq, ?_, ?_, ?_⟩
  · intro j _
    change (w.conn j).Bare
    by_cases hjk : k = j
    · rw [← hjk]
      exact hbare
    · apply h.bare j
      rw [hpc]
      exact decide_eq_false hjk
  · intro j hj
    cases hj
  · intro cnt' j hj
    cases hj
    exact hready
  · intro j hj
    obtain rfl : k = j := of_decide_eq_true hj
    exact h.brings k (CoPc.awaits_of_registers hreg)

theorem Tokens.stale (h : w.Tokens R) {r : ℕ × Option ℕ} (hr : w.pc = .idle ∨ r ≠ w.caller) :
    { w with resumes := w.resumes.erase r }.Tokens R := by
  refine ⟨h.bare, fun hnone => (h.quiet hnone).erase r, ?_, h.ready, h.brings⟩
  intro k hk
  rcases hr with hpc | hne
  · have hk' : w.pc.registers k = true := hk
    rw [hpc] at hk'
    cases hk'
  · exact (h.stage k hk).erase hne

/-- **One step** in which no frame comes. -/
theorem Tokens.step {a : CoAction} (h : w.Tokens R) (hd : w.Did a w')
    (hready : ∀ cnt k, w.pc = .ready cnt k → (w.conn k).io.frame = none)
    (hno : ∀ k frame, a ≠ .receive k frame) : w'.Tokens R := by
  have free : ∀ {pc : CoPc}, w.pc = pc → (∀ k, pc.registers k = false) →
      (∀ k, (w.conn k).Bare) ∧ NoneQueued w.resumes := by
    intro pc hpc hreg
    have hnone : ∀ k, w.pc.registers k = false := by
      rw [hpc]
      exact hreg
    exact ⟨fun k => h.bare k (hnone k), h.quiet hnone⟩
  cases hd with
  | open_ hpc =>
    obtain ⟨hb, hq⟩ := free hpc fun _ => rfl
    exact .of_bare hb hq fun _ => rfl
  | call hpc c =>
    obtain ⟨hb, hq⟩ := free hpc fun _ => rfl
    exact .of_bare hb hq fun _ => rfl
  | close hpc =>
    obtain ⟨hb, hq⟩ := free hpc fun _ => rfl
    refine .of_bare (closeSocket_bare hb) (by rw [closeSocket_resumes]; exact hq) fun k => ?_
    rw [closeSocket_pc, hpc]
    rfl
  | checked hpc k =>
    obtain ⟨hb, hq⟩ := free hpc fun _ => rfl
    exact .of_bare hb hq fun _ => rfl
  | lost hpc =>
    obtain ⟨hb, hq⟩ := free hpc fun _ => rfl
    exact .of_bare hb hq fun _ => rfl
  | connected hpc =>
    obtain ⟨hb, hq⟩ := free hpc fun _ => rfl
    exact .of_bare (setConn_bare hb w.made CoConn.connected_bare) hq fun _ => rfl
  | refused hpc =>
    obtain ⟨hb, hq⟩ := free hpc fun _ => rfl
    exact .of_bare hb hq fun _ => rfl
  | failed hpc =>
    obtain ⟨hb, hq⟩ := free hpc fun _ => rfl
    exact .of_bare hb hq (nextAttempt_awaits _ _ _)
  | valid hpc =>
    obtain ⟨hb, hq⟩ := free hpc fun _ => rfl
    exact .of_bare (setConn_bare hb _ ⟨(hb _).info, (hb _).io⟩) hq fun _ => rfl
  | validReady hpc =>
    obtain ⟨hb, hq⟩ := free hpc fun _ => rfl
    exact .of_bare (setConn_bare hb _ ⟨(hb _).info, (hb _).io⟩) hq fun _ => rfl
  | register hpc =>
    obtain ⟨hb, hq⟩ := free hpc fun _ => rfl
    exact .register hb hq (hready _ _ hpc)
  | @send cnt k hpc now err =>
    have hturn := h.turn (k := k) (.sent (((w.conn k).send.step (.send now
      (ScKind.coScClient.fill w.client twowayType w.call.msg_type w.call.msg)._request.sendData
      err)).getD (w.conn k).send))
    refine hturn.of_eq ?_ ?_ ?_ rfl (List.append_nil _).symm rfl
    · intro j
      change decide (k = j) = w.pc.registers j
      rw [hpc]
      rfl
    · intro j
      change decide (k = j) = w.pc.awaits j
      rw [hpc]
      rfl
    · intro cnt' j hj
      cases hj
  | yield hpc =>
    refine h.of_eq ?_ ?_ ?_ rfl rfl rfl
    · intro j
      rw [hpc]
      rfl
    · intro j
      rw [hpc]
      rfl
    · intro cnt' j hj
      cases hj
  | resume hpc hr => exact h.resume hpc hr
  | stale hr => exact h.stale hr
  | @finish cnt k hpc =>
    obtain ⟨hb, hq⟩ := free hpc fun _ => rfl
    have hb' : ∀ j, ((w.checkReply k).2.conn j).Bare := setConn_bare hb k ⟨(hb k).info, (hb k).io⟩
    have hq' : NoneQueued (w.checkReply k).2.resumes := hq
    unfold finishStep
    generalize w.checkReply k = r at hb' hq'
    obtain ⟨ok, v⟩ := r
    cases ok with
    | true => exact .of_bare (w := { v with pc := .idle, code := 0 }) hb' hq' fun _ => rfl
    | false => exact Tokens.failed hb' hq' cnt (-3)
  | receive hio frame => exact absurd rfl (hno _ frame)
  | cleared hio =>
    refine (h.turn (.cleared hio)).of_eq (fun _ => rfl) (fun _ => rfl) (fun _ _ hj => hj) rfl
      (List.append_nil _).symm rfl
  | parked hio =>
    refine (h.turn (.parked hio)).of_eq (fun _ => rfl) (fun _ => rfl) (fun _ _ hj => hj) rfl
      (List.append_nil _).symm rfl
  | queued hio => exact h.turn (.queued hio)
  | @reported k thr_id co_id hio =>
    refine (h.turn (.reported hio)).of_eq (fun _ => rfl) (fun _ => rfl) (fun _ _ hj => hj) rfl ?_ rfl
    change (if co_id = none then w.resumes else w.resumes ++ [(thr_id, co_id)]) = _
    split
    · exact (List.append_nil _).symm
    · rfl
  | onDisconnected hio =>
    refine (h.turn (.disconnected hio)).of_eq (fun _ => rfl) (fun _ => rfl) (fun _ _ hj => hj) rfl
      (List.append_nil _).symm rfl
  | sock k a hsend =>
    refine (h.turn (.sent _)).of_eq (fun _ => rfl) (fun _ => rfl) (fun _ _ hj => hj) rfl
      (List.append_nil _).symm rfl

end CoWorld

/-! ## What the client keeps -/

namespace BaseScClient

theorem checkReply_wf (c : BaseScClient) {b : Buffer} (h : b.WF) :
    ((c._checkReply (some b)).2.getD b).WF := by
  rcases hr1 : b.readWord with ⟨way, b1⟩
  rcases hr2 : b1.readWord with ⟨msg, b2⟩
  rcases hr3 : b2.readWord with ⟨idx, b3⟩
  have hcheck : c._checkReply (some b) = (decide (idx = c._packidx), some b3) := by
    simp only [_checkReply, hr1, hr2, hr3]
  rw [hcheck]
  exact ((h.readWord hr1).readWord hr2).readWord hr3

/-- **A buffer that was cleared passes for a reply** when the pack index is 0. -/
theorem checkReply_clear (c : BaseScClient) (b : Buffer) :
    c._checkReply (some b.clear) = (decide (0 = c._packidx), some b.clear) := rfl

end BaseScClient

namespace CoConn

variable {c : CoConn}

/-- A connector that was reported is closed. -/
structure Ok (c : CoConn) : Prop where
  buffer : c.info.buffer.WF
  shut : c.send.sock.Shut
  down : c.down = true → c.send.sock._flag ≠ .start

theorem connected_ok : connected.Ok where
  buffer := Buffer.new_wf
  shut h := absurd rfl h
  down h := by cases h

theorem Ok.withSend (h : c.Ok) {send : SendWorld} (hs : send.sock.Shut)
    (hf : c.send.sock._flag ≠ .start → send.sock._flag ≠ .start) : { c with send := send }.Ok :=
  ⟨h.buffer, hs, fun hd => hf (h.down hd)⟩

theorem Ok.receive (h : c.Ok) (frame : { b : Buffer // b.WF }) : (c.receive frame).Ok := by
  unfold CoConn.receive
  split
  · exact h
  · exact ⟨h.buffer, h.shut, h.down⟩

end CoConn

namespace CoWorld

variable {w w' : CoWorld}

/-- **What holds of the client** whatever its connectors bring. -/
structure Base (w : CoWorld) : Prop where
  request : w.client._request.WF
  conn : ∀ k, (w.conn k).Ok
  here : ∀ k, w.pc.conn? = some k → w._socket = some k
  made : ∀ k, w._socket = some k → k < w.made

theorem start_base : start.Base where
  request := Buffer.new_wf
  conn _ := CoConn.connected_ok
  here k h := by cases h
  made k h := by cases h

theorem setConn_ok (h : ∀ k, (w.conn k).Ok) (k : ℕ) {c : CoConn} (hc : c.Ok) (j : ℕ) :
    ((w.setConn k c).conn j).Ok := by
  rw [setConn_conn]
  split
  · exact hc
  · exact h j

theorem checkReply_ok (h : ∀ k, (w.conn k).Ok) (k j : ℕ) : ((w.checkReply k).2.conn j).Ok := by
  have hwf := w.client.checkReply_wf (h k).buffer
  generalize hb : (w.client._checkReply (some (w.conn k).info.buffer)).2.getD
    (w.conn k).info.buffer = b at hwf
  have hok : CoConn.Ok { w.conn k with info := { (w.conn k).info with buffer := b } } :=
    ⟨hwf, (h k).shut, (h k).down⟩
  have hconn : (w.checkReply k).2.conn =
      (w.setConn k { w.conn k with info := { (w.conn k).info with buffer := b } }).conn := by
    rw [← hb]
    rfl
  rw [hconn]
  exact setConn_ok h k hok j

theorem closeSocket_ok (h : ∀ k, (w.conn k).Ok) (k : ℕ) : (w.closeSocket.conn k).Ok := by
  obtain ⟨send, he, hsend⟩ := w.closeSocket_conn k
  rw [he]
  rcases hsend with rfl | hne
  · exact h k
  · exact (h k).withSend (fun _ => hne) fun _ => hne

theorem closeSocket_socket (w : CoWorld) : w.closeSocket._socket = none := by
  unfold closeSocket
  split
  · assumption
  · rfl

theorem closeSocket_client (w : CoWorld) : w.closeSocket.client = w.client := by
  unfold closeSocket
  split <;> rfl

theorem nextAttempt_conn? (w : CoWorld) (cnt : ℕ) (code : ℤ) :
    (w.nextAttempt cnt code).pc.conn? = none := by
  rcases nextAttempt_pc w cnt code with hpc | hpc <;> rw [hpc] <;> rfl

/-- The end of an attempt: the connector is closed. -/
theorem Base.failed (hr : w.client._request.WF) (hc : ∀ k, (w.conn k).Ok) (cnt : ℕ) (code : ℤ) :
    (w.closeSocket.nextAttempt cnt code).Base where
  request := by
    change w.closeSocket.client._request.WF
    rw [closeSocket_client]
    exact hr
  conn := closeSocket_ok hc
  here k hk := by
    rw [nextAttempt_conn?] at hk
    cases hk
  made k hk := by
    have hk' : w.closeSocket._socket = some k := hk
    rw [closeSocket_socket] at hk'
    cases hk'

/-- `_Sync` goes on without a reconnection when the connector is connected. -/
theorem check_ready {cnt k : ℕ} (hs : w.step .check = some w') (hpc : w'.pc = .ready cnt k) :
    w._socket = some k ∧ (w.conn k).send.sock._flag = .start := by
  simp only [CoWorld.step] at hs
  split at hs
  · split at hs
    · rename_i k' hsock
      split_ifs at hs with hflag
      · obtain rfl := Option.some.inj hs
        cases hpc
        exact ⟨hsock, hflag⟩
      · obtain rfl := Option.some.inj hs
        cases hpc
    · obtain rfl := Option.some.inj hs
      cases hpc
  · cases hs

theorem onDisconnected_closes {k : ℕ} (hs : w.step (.onDisconnected k) = some w') :
    (w.conn k).send.sock._socket.closes ≠ [] := by
  simp only [CoWorld.step] at hs
  split at hs
  · split_ifs at hs with h
    exact h.2.2
  · cases hs

theorem sock_made {k : ℕ} {a : SendAction} (hs : w.step (.sock k a) = some w') : k < w.made := by
  simp only [CoWorld.step] at hs
  split_ifs at hs with h
  exact h

theorem Base.close (h : w.Base) (hpc : w.pc = .idle) : w.closeSocket.Base := by
  refine ⟨?_, closeSocket_ok h.conn, ?_, ?_⟩
  · rw [closeSocket_client]
    exact h.request
  · intro k hk
    rw [closeSocket_pc, hpc] at hk
    cases hk
  · intro k hk
    rw [closeSocket_socket] at hk
    cases hk

theorem Base.register (h : w.Base) {cnt k : ℕ} (hpc : w.pc = .ready cnt k) :
    (w.registerStep cnt k).Base := by
  unfold registerStep
  simp only
  split
  · have hok := h.conn k
    refine ⟨h.request, setConn_ok h.conn k ⟨hok.buffer, hok.shut, hok.down⟩, ?_, h.made⟩
    intro j hj
    exact h.here j (by rw [hpc]; exact hj)
  · exact Base.failed h.request h.conn cnt (-3)

theorem Base.send (h : w.Base) {cnt k : ℕ} (hpc : w.pc = .registered cnt k) (now : ℕ) (err : Bool)
    (hlen : 12 + w.call.msg.length + bufferDefaultSize < 2 ^ 32) :
    (w.sendStep cnt k now err).Base := by
  set data := (ScKind.coScClient.fill w.client twowayType w.call.msg_type
    w.call.msg)._request.sendData with hdata
  set send := ((w.conn k).send.step (.send now data err)).getD (w.conn k).send with hsend
  have hstep : (w.conn k).send.step (.send now data err) = some send := by
    rw [hsend]
    rfl
  have hclient : (w.sendStep cnt k now err).client =
      w.client._fillRequest twowayType w.call.msg_type w.call.msg := rfl
  refine ⟨?_, ?_, ?_, h.made⟩
  · rw [hclient]
    exact (fill_filled h.request twowayType w.call.msg_type hlen).wf
  · exact setConn_ok h.conn k ((h.conn k).withSend (SendWorld.step_shut (h.conn k).shut hstep)
      fun hf => SendWorld.step_flag hf hstep)
  · intro j hj
    exact h.here j (by rw [hpc]; exact hj)

theorem Base.finish (h : w.Base) (cnt k : ℕ) : (w.finishStep cnt k).Base := by
  have hconn := checkReply_ok h.conn k
  have hrequest : (w.checkReply k).2.client._request.WF := h.request
  have hmade : ∀ j, (w.checkReply k).2._socket = some j → j < (w.checkReply k).2.made := h.made
  unfold finishStep
  generalize w.checkReply k = r at hconn hrequest hmade
  obtain ⟨ok, v⟩ := r
  cases ok with
  | true => exact ⟨hrequest, hconn, (fun j hj => by cases hj), hmade⟩
  | false => exact Base.failed hrequest hconn cnt (-3)

/-- **One step** keeps it, if a request is not too long for `_request`. -/
theorem Base.step {a : CoAction} (h : w.Base) (hs : w.step a = some w')
    (hlen : ∀ now err, a = .send now err → 12 + w.call.msg.length + bufferDefaultSize < 2 ^ 32) :
    w'.Base := by
  cases step_did hs with
  | open_ hpc => exact ⟨h.request, h.conn, (fun k hk => by cases hk), h.made⟩
  | call hpc c => exact ⟨h.request, h.conn, (fun k hk => by cases hk), h.made⟩
  | close hpc => exact h.close hpc
  | checked hpc k =>
    refine ⟨h.request, h.conn, ?_, h.made⟩
    intro j hj
    obtain rfl := Option.some.inj hj
    exact (check_ready hs rfl).1
  | lost hpc => exact ⟨h.request, h.conn, (fun k hk => by cases hk), h.made⟩
  | connected hpc =>
    refine ⟨h.request, setConn_ok h.conn _ CoConn.connected_ok, ?_, ?_⟩
    · intro k hk
      exact hk
    · intro k hk
      obtain rfl := Option.some.inj hk
      exact Nat.lt_succ_self _
  | refused hpc => exact ⟨h.request, h.conn, (fun k hk => by cases hk), fun k hk => by cases hk⟩
  | failed hpc =>
    refine ⟨h.request, h.conn, ?_, fun k hk => by cases hk⟩
    intro k hk
    rw [nextAttempt_conn?] at hk
    cases hk
  | @valid k hpc =>
    have hok := h.conn k
    exact ⟨h.request, setConn_ok h.conn k ⟨hok.buffer, hok.shut, hok.down⟩, (fun k hk => by cases hk),
      h.made⟩
  | @validReady cnt k hpc =>
    have hok := h.conn k
    refine ⟨h.request, setConn_ok h.conn k ⟨hok.buffer, hok.shut, hok.down⟩, ?_, h.made⟩
    intro j hj
    exact h.here j (by rw [hpc]; exact hj)
  | register hpc => exact h.register hpc
  | send hpc now err => exact h.send hpc now err (hlen now err rfl)
  | yield hpc =>
    refine ⟨h.request, h.conn, ?_, h.made⟩
    intro j hj
    exact h.here j (by rw [hpc]; exact hj)
  | resume hpc hr =>
    refine ⟨h.request, h.conn, ?_, h.made⟩
    intro j hj
    exact h.here j (by rw [hpc]; exact hj)
  | stale hr => exact ⟨h.request, h.conn, h.here, h.made⟩
  | @finish cnt k hpc => exact h.finish cnt k
  | @receive k hio frame =>
    exact ⟨h.request, setConn_ok h.conn k ((h.conn k).receive frame), h.here, h.made⟩
  | @cleared k _ _ _ hio =>
    have hok := h.conn k
    exact ⟨h.request, setConn_ok h.conn k ⟨hok.buffer, hok.shut, hok.down⟩, h.here, h.made⟩
  | @parked k _ _ frame hio =>
    have hok := h.conn k
    exact ⟨h.request, setConn_ok h.conn k ⟨frame.property, hok.shut, hok.down⟩, h.here, h.made⟩
  | @queued k _ _ hio =>
    have hok := h.conn k
    exact ⟨h.request, setConn_ok h.conn k ⟨hok.buffer, hok.shut, hok.down⟩, h.here, h.made⟩
  | @reported k _ _ hio =>
    have hok := h.conn k
    exact ⟨h.request, setConn_ok h.conn k ⟨hok.buffer, hok.shut, hok.down⟩, h.here, h.made⟩
  | @onDisconnected k hio =>
    have hok := h.conn k
    exact ⟨h.request, setConn_ok h.conn k ⟨hok.buffer.clear, hok.shut, fun _ =>
      hok.shut (onDisconnected_closes hs)⟩, h.here, h.made⟩
  | sock k a hsend =>
    exact ⟨h.request, setConn_ok h.conn k ((h.conn k).withSend (SendWorld.step_shut (h.conn k).shut hsend)
      fun hf => SendWorld.step_flag hf hsend), h.here, h.made⟩

end CoWorld

/-! ## Attempts -/

namespace CoPc

/-- How many attempts of the last call may have been sent. -/
def tries : CoPc → ℕ
  | attempt cnt | reconnect (some cnt) | connected (some cnt) _ | ready cnt _ | registered cnt _ => cnt
  | sent cnt _ _ | suspended cnt _ _ | resumed cnt _ => cnt + 1
  | idle | reconnect none | connected none _ => 2

/-- A call has two attempts. -/
def Fits : CoPc → Prop
  | attempt cnt | reconnect (some cnt) | connected (some cnt) _ | ready cnt _ | registered cnt _
  | sent cnt _ _ | suspended cnt _ _ | resumed cnt _ => cnt < 2
  | idle | reconnect none | connected none _ => True

end CoPc

namespace CoWorld

variable {w w' : CoWorld}

theorem nextAttempt_fits (w : CoWorld) {cnt : ℕ} (code : ℤ) :
    (w.nextAttempt cnt code).pc.Fits := by
  unfold nextAttempt
  by_cases h : cnt + 1 < 2
  · rw [if_pos h]
    exact h
  · rw [if_neg h]
    trivial

theorem nextAttempt_tries (w : CoWorld) {cnt : ℕ} (code : ℤ) (h : cnt < 2) :
    cnt + 1 ≤ (w.nextAttempt cnt code).pc.tries := by
  unfold nextAttempt
  by_cases hcnt : cnt + 1 < 2
  · rw [if_pos hcnt]
    exact Nat.le_refl _
  · rw [if_neg hcnt]
    exact h

/-- **The attempts go on**, but for a new call. -/
theorem Did.tries {a : CoAction} (hd : w.Did a w') (hfits : w.pc.Fits) (hno : ∀ c, a ≠ .call c) :
    w'.pc.Fits ∧ w.pc.tries ≤ w'.pc.tries := by
  cases hd with
  | open_ hpc =>
    rw [hpc]
    exact ⟨trivial, Nat.le_refl _⟩
  | call hpc c => exact absurd rfl (hno c)
  | close hpc =>
    rw [closeSocket_pc]
    exact ⟨hfits, Nat.le_refl _⟩
  | checked hpc k =>
    rw [hpc] at hfits ⊢
    exact ⟨hfits, Nat.le_refl _⟩
  | lost hpc =>
    rw [hpc] at hfits ⊢
    exact ⟨hfits, Nat.le_refl _⟩
  | @connected cnt hpc =>
    rw [hpc] at hfits ⊢
    cases cnt with
    | none => exact ⟨trivial, Nat.le_refl _⟩
    | some cnt => exact ⟨hfits, Nat.le_refl _⟩
  | refused hpc =>
    rw [hpc]
    exact ⟨trivial, Nat.le_refl _⟩
  | failed hpc =>
    rw [hpc] at hfits ⊢
    exact ⟨nextAttempt_fits _ _, Nat.le_trans (Nat.le_succ _) (nextAttempt_tries _ _ hfits)⟩
  | valid hpc =>
    rw [hpc]
    exact ⟨trivial, Nat.le_refl _⟩
  | validReady hpc =>
    rw [hpc] at hfits ⊢
    exact ⟨hfits, Nat.le_refl _⟩
  | @register cnt k hpc =>
    rw [hpc] at hfits ⊢
    unfold registerStep
    simp only
    split
    · exact ⟨hfits, Nat.le_refl _⟩
    · exact ⟨nextAttempt_fits _ _, Nat.le_trans (Nat.le_succ _) (nextAttempt_tries _ _ hfits)⟩
  | send hpc now err =>
    rw [hpc] at hfits ⊢
    exact ⟨hfits, Nat.le_succ _⟩
  | yield hpc =>
    rw [hpc] at hfits ⊢
    exact ⟨hfits, Nat.le_refl _⟩
  | resume hpc hr =>
    rw [hpc] at hfits ⊢
    exact ⟨hfits, Nat.le_refl _⟩
  | @finish cnt k hpc =>
    rw [hpc] at hfits ⊢
    unfold finishStep
    generalize w.checkReply k = r
    obtain ⟨ok, v⟩ := r
    cases ok with
    | true => exact ⟨trivial, hfits⟩
    | false => exact ⟨nextAttempt_fits _ _, nextAttempt_tries _ _ hfits⟩
  | _ => exact ⟨hfits, Nat.le_refl _⟩

end CoWorld

end Netlib
