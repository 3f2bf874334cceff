import Netlib.Spec.Connector
import Netlib.Proof.Writer

/-!
# Closed is final until a connect completes

`_Close` leaves a closed socket as it is, and no other function of a closed socket writes
`_flag` but `_ConnectHandler` (`connectorStep_flag`). A completion that epoll has reported
before the descriptor is closed still comes to that handler.
-/

namespace Netlib

open Lib

namespace CbWorld

variable {w w' : CbWorld}

/-! ## What a closed socket does -/

theorem close_closed (h : w._flag = .close) : w._close = w := if_pos h

theorem tryRecvData_closed (h : w._flag = .close) (env : Env) :
    (w._tryRecvData env)._flag = .close := by
  unfold _tryRecvData
  dsimp only
  split
  · exact h
  · rw [close_closed (by exact h)]
    exact h

theorem trySendData_closed (h : w._flag = .close) (data len : ℕ) (env : Env) :
    (w._trySendData data len env).2._flag = .close := by
  unfold _trySendData
  split
  · exact h
  split
  · exact h
  dsimp only
  split
  · exact h
  · rw [close_closed (by exact h)]
    exact h

theorem send_closed (h : w._flag = .close) (data len : ℕ) (env : Env) :
    (w.send data len env)._flag = .close := by
  unfold send
  split
  · exact trySendData_closed h data len env
  · exact h

theorem writeHandler_closed (h : w._flag = .close) (n : ℕ) (error : Option SockError)
    (data len : ℕ) (env : Env) : (w._writeHandler n error data len env)._flag = .close := by
  unfold _writeHandler
  dsimp only
  split
  · rw [close_closed (by exact h)]
    exact h
  · have hsend := trySendData_closed (w := { w with writing := false }) h data len env
    split
    · rw [close_closed hsend]
      exact hsend
    · exact hsend

theorem readHandler_closed (h : w._flag = .close) (n : ℕ) (error : Option SockError) :
    (w._readHandler n error)._flag = .close := by
  unfold _readHandler
  split
  · rw [close_closed h]
    exact h
  · exact h

theorem finish_closed (h : w._flag = .close) (d : Dir) (notify : Bool) (error : Option SockError)
    (ret : ℤ) (so : Option ℕ) (data len : ℕ) (env : Env) :
    (w.finish d notify error ret so data len env)._flag = .close := by
  unfold finish
  dsimp only
  split
  · exact h
  cases d with
  | read => exact readHandler_closed (by exact h) _ _
  | write => exact writeHandler_closed (by exact h) _ _ _ _ _

theorem afterReceive_closed (h : w._flag = .close) (cut : Bool) (env : Env) :
    (w.afterReceive cut env)._flag = .close := by
  unfold afterReceive
  split
  · exact tryRecvData_closed h env
  · rw [close_closed h]
    exact h

theorem afterConnected_closed (h : w._flag = .close) (error : Option SockError) (env : Env) :
    (w.afterConnected error env)._flag = .close := by
  unfold afterConnected
  dsimp only
  split
  · exact h
  split
  · exact h
  · exact tryRecvData_closed (by exact h) env

/-- **The handler of a connect** on a closed socket. -/
theorem connectHandler_closed (h : w._flag = .close) (error : Option SockError) (endpoints : Bool) :
    (w._connectHandler error endpoints)._flag =
      if error = none ∧ endpoints = true then .start else .close := by
  unfold _connectHandler
  split
  · rename_i he
    rw [if_neg fun hc => he hc.1]
    exact h
  rename_i he
  rw [not_not] at he
  cases endpoints with
  | true => exact (if_pos ⟨he, rfl⟩).symm
  | false =>
    have hno : ¬ (error = none ∧ false = true) := by
      rintro ⟨-, hc⟩
      cases hc
    rw [if_neg hno]
    exact h

/-! ## Runs -/

/-- A step with a guard. -/
theorem guarded {P : Prop} [Decidable P] {v : CbWorld}
    (hs : (if P then some v else none) = some w') (hv : v._flag = .close) : w'._flag = .close := by
  split at hs
  · obtain rfl := Option.some.inj hs
    exact hv
  · cases hs

/-- **A step of a closed socket**: it stays closed, or its connect handler puts it back into
`E_STATE_START`. -/
theorem connectorStep_flag {a : CbAction} (h : w._flag = .close)
    (hs : w.connectorStep a = some w') :
    w'._flag = .close ∧ ¬ w.Connects a ∨ w'._flag = .start ∧ w.Connects a := by
  cases a with
  | openFd fd =>
    obtain rfl := Option.some.inj hs
    exact .inl ⟨h, id⟩
  | asyncConnect valid connect env =>
    obtain rfl := Option.some.inj hs
    exact .inl ⟨h, id⟩
  | accept fd => exact .inl ⟨guarded hs h, id⟩
  | connectComplete so => exact .inl ⟨guarded hs h, id⟩
  | connectHandler endpoints =>
    unfold connectorStep step at hs
    dsimp only at hs
    split at hs
    · rename_i error he
      obtain rfl := Option.some.inj hs
      rw [connectHandler_closed h]
      by_cases hc : error = none ∧ endpoints = true
      · rw [if_pos hc]
        obtain ⟨rfl, rfl⟩ := hc
        exact .inr ⟨rfl, he, rfl⟩
      · rw [if_neg hc]
        refine .inl ⟨rfl, ?_⟩
        rintro ⟨hnone, hend⟩
        rw [he, Starter.entered.injEq] at hnone
        exact hc ⟨hnone, hend⟩
    · cases hs
  | onConnected => exact .inl ⟨guarded hs h, id⟩
  | afterConnected env =>
    unfold connectorStep step at hs
    dsimp only at hs
    split at hs
    · obtain rfl := Option.some.inj hs
      exact .inl ⟨afterConnected_closed h _ env, id⟩
    · cases hs
  | lock d ctl =>
    simp only [connectorStep, step, Option.ite_none_right_eq_some, Option.some.injEq] at hs
    obtain ⟨-, rfl⟩ := hs
    exact .inl ⟨h, id⟩
  | finish ret so data len env =>
    unfold connectorStep step at hs
    dsimp only at hs
    split at hs
    · obtain rfl := Option.some.inj hs
      exact .inl ⟨finish_closed h _ _ _ ret so data len env, id⟩
    · cases hs
  | onReceiveData => exact .inl ⟨guarded hs h, id⟩
  | afterReceive cut env => exact .inl ⟨guarded hs (afterReceive_closed (by exact h) cut env), id⟩
  | send data len env => exact .inl ⟨guarded hs (send_closed h data len env), id⟩
  | close =>
    have hkeep : w._close._flag = .close := by
      rw [close_closed h]
      exact h
    exact .inl ⟨guarded hs hkeep, id⟩
  | enqueue => exact .inl ⟨guarded hs h, id⟩
  | doClose => exact .inl ⟨guarded hs h, id⟩
  | closeHandler => exact .inl ⟨guarded hs h, id⟩
  | createIo i =>
    obtain rfl := Option.some.inj hs
    exact .inl ⟨h, id⟩

theorem closed_of_flag (h : w._flag = .close) : w.Closed := by
  have hne : ∀ s : TcpBaseSocket, s._flag = w._flag → s._flag ≠ .start := by
    intro s hs
    rw [hs, h]
    decide
  refine ⟨h, ?_, ?_, ?_⟩
  · unfold isConnected
    rw [h]
    rfl
  · intro s hs now data err
    rw [TcpBaseSocket.send_refused (hne s hs)]
  · intro s hs b err
    rw [TcpBaseSocket.sendBuffer_refused (hne s hs)]

/-- **Closed is final while no connect completes**: in every run from a reached state that is in
`E_STATE_CLOSE`, where no connect is requested and none comes to its handler, the socket stays
closed; a step that does not meet the condition puts it back into `E_STATE_START`. -/
theorem closed_final {readbuf : ℕ} {implmap : List ℕ}
    (_ : Reach connectorStep always (start true readbuf implmap) w) (hflag : w._flag = .close)
    (h : Reach connectorStep AfterClose w w') :
    w'.Closed ∧ ∀ a w'', w'.connectorStep a = some w'' → (w''._flag ≠ .start ↔ w'.CloseFinal a) := by
  have hclose : w'._flag = .close := by
    refine h.inv (I := fun w => w._flag = .close) hflag ?_
    intro s a s' hi hc hs
    rcases connectorStep_flag hi hs with hkeep | hstart
    · exact hkeep.1
    · exact absurd hstart.2 (hc.2 hi)
  refine ⟨closed_of_flag hclose, ?_⟩
  intro a w'' hs
  rcases connectorStep_flag hclose hs with ⟨hkeep, hno⟩ | ⟨hstart, hcon⟩
  · refine iff_of_true ?_ fun _ => hno
    rw [hkeep]
    decide
  · refine iff_of_false (fun hne => hne hstart) ?_
    intro hfinal
    exact hfinal hclose hcon

/-- A connect that has completed, with its handler not yet run, and a `Close`. -/
def closing : List CbAction :=
  [.openFd 5, .asyncConnect true none ⟨none, some 1, none⟩, .connectComplete (some 0), .close]

theorem closing_reach : ∃ w, Reach connectorStep always (start true 0 [1]) w ∧
    w._flag = .close ∧ w.starter = .entered none := by
  refine ⟨_, Reach.of_foldlM (l := closing) (fun _ _ _ => trivial) rfl, rfl, rfl⟩

/-- The handler finds the descriptor gone. -/
theorem closed_final_gone : ∃ w w', Reach connectorStep always (start true 0 [1]) w ∧
    w._flag = .close ∧ w.connectorStep (.connectHandler false) = some w' ∧ w'.Closed := by
  obtain ⟨w, hreach, hflag, hst⟩ := closing_reach
  have hs : w.connectorStep (.connectHandler false) = some (w._connectHandler none false) := by
    unfold connectorStep step
    dsimp only
    rw [hst]
  refine ⟨w, _, hreach, hflag, hs, ?_⟩
  have hcond : w.AfterClose (.connectHandler false) := by
    refine ⟨trivial, ?_⟩
    intro _ hc
    exact Bool.false_ne_true hc.2
  exact (closed_final hreach hflag (.single hcond hs)).1

/-- The connect had completed before the `Close`: its handler opens the socket again. -/
theorem not_closed_final : ¬ ∀ w w' : CbWorld, Reach connectorStep always (start true 0 [1]) w →
    w._flag = .close → Reach connectorStep NoConnect w w' → w'._flag ≠ .start := by
  intro h
  obtain ⟨w, hreach, hflag, hst⟩ := closing_reach
  have hs : w.connectorStep (.connectHandler true) = some (w._connectHandler none true) := by
    unfold connectorStep step
    dsimp only
    rw [hst]
  exact h w _ hreach hflag (.single (a := .connectHandler true) trivial hs) rfl

end CbWorld

end Netlib
