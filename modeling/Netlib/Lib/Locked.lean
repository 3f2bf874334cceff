import Mathlib.Data.Nat.Notation
import Mathlib.Data.List.Basic

/-!
# Calls that lock

A call works on a state and is seen by what it does to a mutex and to the fields that the mutex
protects (`LockEvent`). `held` is how often it holds the mutex after some events: there is no such
number when it unlocks or uses a field without holding it. A call is disciplined when it holds the
mutex as often when it returns as when it started, and `held` of a call is that of its parts, one
after the other (`Locking.held_bind`).
-/

namespace Netlib.Lib

/-- What a call does to the mutex and to a field of `F`. -/
inductive LockEvent (F : Type*)
  | lock
  | unlock
  | access (field : F)
  deriving DecidableEq

universe u

variable {S F : Type*} {α β : Type u}

/-- How often the mutex is held after an event. -/
def LockEvent.held : ℕ → LockEvent F → Option ℕ
  | n, .lock => some (n + 1)
  | 0, .unlock => none
  | n + 1, .unlock => some n
  | 0, .access _ => none
  | n + 1, .access _ => some (n + 1)

/-- A call on a state of `S`: its result, the state after it, and what it did to the mutex. -/
def Locking (S F α : Type*) := S → α × S × List (LockEvent F)

namespace Locking

instance : Monad (Locking S F) where
  pure a := fun s => (a, s, [])
  bind m f := fun s =>
    let (a, s₁, events) := m s
    let (b, s₂, events') := f a s₁
    (b, s₂, events ++ events')

def lock : Locking S F Unit := fun s => ((), s, [.lock])

def unlock : Locking S F Unit := fun s => ((), s, [.unlock])

/-- A part of the state that the mutex does not protect. -/
def look (f : S → α) : Locking S F α := fun s => (f s, s, [])

/-- A field is read. -/
def read (field : F) (f : S → α) : Locking S F α := fun s => (f s, s, [.access field])

/-- A field is written. -/
def write (field : F) (f : S → S) : Locking S F Unit := fun s => ((), f s, [.access field])

variable (m : Locking S F α) (s : S)

def result : α := (m s).1

def after : S := (m s).2.1

/-- How often the mutex is held after the call, when it is held `n` times before. -/
def held (n : ℕ) : Option ℕ := (m s).2.2.foldlM LockEvent.held n

/-- **The discipline**: the call unlocks and uses the fields only while it holds the mutex, and
does not hold it when it returns. -/
def Disciplined : Prop := m.held s 0 = some 0

instance : Decidable (m.Disciplined s) := inferInstanceAs (Decidable (_ = _))

variable (n : ℕ) (field : F)

@[simp] theorem result_pure (a : α) : (pure a : Locking S F α).result s = a := rfl

@[simp] theorem after_pure (a : α) : (pure a : Locking S F α).after s = s := rfl

@[simp] theorem held_pure (a : α) : (pure a : Locking S F α).held s n = some n := rfl

@[simp] theorem result_bind (f : α → Locking S F β) :
    (m >>= f).result s = (f (m.result s)).result (m.after s) := rfl

@[simp] theorem after_bind (f : α → Locking S F β) :
    (m >>= f).after s = (f (m.result s)).after (m.after s) := rfl

/-- **One part after the other.** -/
@[simp] theorem held_bind (f : α → Locking S F β) :
    (m >>= f).held s n = (m.held s n).bind ((f (m.result s)).held (m.after s)) :=
  List.foldlM_append

@[simp] theorem after_lock : (lock : Locking S F Unit).after s = s := rfl

@[simp] theorem held_lock : (lock : Locking S F Unit).held s n = some (n + 1) := rfl

@[simp] theorem held_unlock : (unlock : Locking S F Unit).held s (n + 1) = some n := rfl

@[simp] theorem held_unlock_zero : (unlock : Locking S F Unit).held s 0 = none := rfl

@[simp] theorem result_look (f : S → α) : (look f : Locking S F α).result s = f s := rfl

@[simp] theorem after_look (f : S → α) : (look f : Locking S F α).after s = s := rfl

@[simp] theorem held_look (f : S → α) : (look f : Locking S F α).held s n = some n := rfl

@[simp] theorem result_read (f : S → α) : (read field f).result s = f s := rfl

@[simp] theorem after_read (f : S → α) : (read field f).after s = s := rfl

@[simp] theorem held_read (f : S → α) : (read field f).held s (n + 1) = some (n + 1) := rfl

@[simp] theorem held_read_zero (f : S → α) : (read field f).held s 0 = none := rfl

@[simp] theorem after_write (f : S → S) : (write field f).after s = f s := rfl

@[simp] theorem held_write (f : S → S) : (write field f).held s (n + 1) = some (n + 1) := rfl

end Locking

end Netlib.Lib
