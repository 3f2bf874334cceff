import Netlib.Spec.Iocp

/-!
# The lock discipline on IOCP

Each call is followed through its parts: `prepare` keeps the mutex (`held_prepare`), `leave` gives
it back, and `unpost` takes it and gives it back. So `AsyncAccept` and `AsyncRecvSome` are
disciplined on every path, with any number of connections reset (`asyncAccept_disciplined`);
`AsyncConnect` never takes the mutex, and `AsyncSendSome` gives it back twice when it has posted and
not at all when the flag is set (`asyncSendSome_disciplined_iff`).
-/

namespace Netlib

open Lib
open Lib.Locking

namespace IocpCall

variable (c : IocpCore) (env : IocpEnv) (n : ℕ)

@[simp] theorem after_invalid : invalid.after c = c := after_look c _

@[simp] theorem held_invalid : invalid.held c n = some n := held_look c n _

theorem result_invalid_iff : invalid.result c = true ↔ c._fd = none := by
  rw [invalid, result_look]
  exact Option.isNone_iff_eq_none

@[simp] theorem result_get (b : StateBit) : (get b).result c = c._state b := result_read c b _

@[simp] theorem after_get (b : StateBit) : (get b).after c = c := after_read c b _

@[simp] theorem held_get (b : StateBit) : (get b).held c (n + 1) = some (n + 1) :=
  held_read c n b _

@[simp] theorem held_get_zero (b : StateBit) : (get b).held c 0 = none := held_read_zero c b _

@[simp] theorem after_set (b : StateBit) (value : Bool) :
    (set b value).after c = { c with _state := Function.update c._state b value } :=
  after_write c b _

@[simp] theorem held_set (b : StateBit) (value : Bool) :
    (set b value).held c (n + 1) = some (n + 1) := held_write c n b _

/-- The end of the function gives the mutex back. -/
@[simp] theorem held_leave (e : SockError) : (leave e).held c (n + 1) = some n := by
  simp [leave]

@[simp] theorem held_leave_zero (e : SockError) : (leave e).held c 0 = none := by
  simp [leave]

/-- Taken and given back. -/
@[simp] theorem held_unpost (flag : StateBit) : (unpost flag).held c n = some n := by
  simp [unpost]

theorem held_setNonblock : (setNonblock env).held c (n + 1) = some (n + 1) := by
  cases hblock : c._state .block <;> cases hnonblock : env.nonblock <;>
    simp [setNonblock, hblock, hnonblock]

theorem held_setBind : (setBind env).held c (n + 1) = some (n + 1) := by
  cases hbind : c._state .bind <;> cases hiocp : env.bindIocp <;> simp [setBind, hbind, hiocp]

/-- **The preparation uses the flags under the mutex**, and keeps it. -/
@[simp] theorem held_prepare : (prepare env).held c (n + 1) = some (n + 1) := by
  unfold prepare
  rw [held_bind, held_setNonblock, Option.bind_some]
  cases (setNonblock env).result c with
  | none => exact held_setBind _ env n
  | some e => exact held_pure _ _ _

/-- When the preparation ends with an error. -/
theorem result_prepare_ne_none : (prepare env).result c ≠ none ↔
    c._state .block = true ∧ env.nonblock ≠ none ∨
      c._state .bind = false ∧ env.bindIocp ≠ none := by
  cases hblock : c._state .block <;> cases hbind : c._state .bind <;>
    cases hnonblock : env.nonblock <;> cases hiocp : env.bindIocp <;>
    simp [prepare, setNonblock, setBind, hblock, hbind, hnonblock, hiocp]

/-- The loop of `AsyncAccept` keeps nothing, however often the connection is reset. -/
theorem held_acceptLoop (results : List AcceptEx) : (acceptLoop results).held c n = some n := by
  induction results with
  | nil => rfl
  | cons r results ih =>
    cases r with
    | posted => simp [acceptLoop]
    | reset => exact ih
    | failed errno => simp [acceptLoop]

/-- **`AsyncAccept` is disciplined.** -/
theorem asyncAccept_disciplined (openErr : Bool → Option ℕ) (results : List AcceptEx) :
    (asyncAccept env openErr results).Disciplined c := by
  unfold Disciplined asyncAccept
  simp only [held_bind, held_lock, Option.bind_some, after_lock, held_invalid, after_invalid]
  cases invalid.result c with
  | true => simp
  | false =>
    simp only [Bool.false_eq_true, if_false, held_bind, held_get, Option.bind_some, after_get]
    cases (get .accept).result c with
    | true => simp
    | false =>
      simp only [Bool.false_eq_true, if_false, held_bind, held_prepare, Option.bind_some]
      cases (prepare env).result c with
      | some e => simp
      | none =>
        simp only [held_bind, held_get, Option.bind_some, after_get]
        cases openErr ((get .v).result ((prepare env).after c)) with
        | some errno => simp
        | none => simp [held_acceptLoop]

/-- **`AsyncRecvSome` is disciplined.** -/
theorem asyncRecvSome_disciplined (wsarecv : Option ℕ) :
    (asyncRecvSome env wsarecv).Disciplined c := by
  unfold Disciplined asyncRecvSome
  simp only [held_bind, held_lock, Option.bind_some, after_lock, held_invalid, after_invalid]
  cases invalid.result c with
  | true => simp
  | false =>
    simp only [Bool.false_eq_true, if_false, held_bind, held_get, Option.bind_some, after_get]
    cases (get .read).result c with
    | true => simp
    | false =>
      simp only [Bool.false_eq_true, if_false, held_bind, held_prepare, Option.bind_some]
      cases (prepare env).result c with
      | some e => simp
      | none => cases wsarecv <;> simp

/-- **`AsyncConnect` is never disciplined**: it starts without the mutex, and gives it back. -/
theorem not_asyncConnect_disciplined (valid : Bool) (connectEx : Option ℕ) :
    ¬ (asyncConnect env valid connectEx).Disciplined c := by
  unfold Disciplined asyncConnect
  simp only [held_bind, held_invalid, Option.bind_some, after_invalid]
  cases invalid.result c with
  | true => simp
  | false => simp

/-- **When `AsyncSendSome` is disciplined**: exactly when it ends before it posts, and not because
of the flag. -/
theorem asyncSendSome_disciplined_iff (wsasend : Option ℕ) :
    (asyncSendSome env wsasend).Disciplined c ↔ c.Refuses env .write := by
  unfold Disciplined asyncSendSome IocpCore.Refuses
  rw [← result_invalid_iff]
  simp only [held_bind, held_lock, Option.bind_some, after_lock, held_invalid, after_invalid]
  cases invalid.result c with
  | true => simp
  | false =>
    simp only [Bool.false_eq_true, if_false, false_or, held_bind, held_get, Option.bind_some,
      after_get]
    rw [← result_get]
    cases (get .write).result c with
    | true =>
      -- it returns with the mutex held
      simp
    | false =>
      simp only [Bool.false_eq_true, if_false, held_bind, held_prepare, Option.bind_some, true_and]
      rw [← result_prepare_ne_none]
      cases (prepare env).result c with
      | some e => simp
      | none =>
        -- the mutex is not held any more where the loop ends
        cases wsasend <;> simp

end IocpCall

namespace IocpCore

/-- One call is disciplined exactly when it is balanced. -/
theorem disciplined_iff (c : IocpCore) (a : IocpAction) : c.Disciplined a ↔ c.Balanced a := by
  cases a with
  | asyncAccept env openErr results =>
    exact iff_of_true (IocpCall.asyncAccept_disciplined c env openErr results) trivial
  | asyncConnect env valid connectEx =>
    exact iff_of_false (IocpCall.not_asyncConnect_disciplined c env valid connectEx) id
  | asyncRecvSome env wsarecv =>
    exact iff_of_true (IocpCall.asyncRecvSome_disciplined c env wsarecv) trivial
  | asyncSendSome env wsasend => exact IocpCall.asyncSendSome_disciplined_iff c env wsasend
  | others core => exact iff_of_true rfl trivial

/-- **When the lock discipline is kept**: for every socket and every sequence of calls, with
anything that others do between them, every call is disciplined exactly when every call is
balanced. -/
theorem along_disciplined_iff (c : IocpCore) (l : List IocpAction) :
    Along step Disciplined c l ↔ Along step Balanced c l :=
  along_iff (I := fun _ => True) (fun _ _ _ _ _ _ => trivial) (fun c a _ => disciplined_iff c a)
    l c trivial

/-- `AsyncSendSome` on a socket that is ready to send, which posts at once. -/
theorem not_along_disciplined : ¬ ∀ (c : IocpCore) (l : List IocpAction),
    Along step Disciplined c l := by
  intro hall
  have hcall := hall ⟨some 3, fun b => b = .bind⟩ [.asyncSendSome ⟨none, none⟩ none]
  have hnot : ¬ (IocpCall.asyncSendSome ⟨none, none⟩ none).Disciplined
      ⟨some 3, fun b => b = .bind⟩ := by decide
  exact hnot hcall.1

end IocpCore

end Netlib
