import Mathlib.Tactic.Common

set_option autoImplicit false

/-! # MutexLock and Condition

The two classes wrap a `pthread_mutex_t` and a `pthread_cond_t`. `MutexLock` remembers who holds it in
`holder_`, written behind `pthread_mutex_lock` and before `pthread_mutex_unlock`: two steps more, between
which other threads run. `Condition::wait` hands the bare `pthread_mutex_t` to `pthread_cond_wait`, so
`holder_` is left alone when a thread goes to sleep and when it comes back.

A thread is a value of any type; a thread id of zero is `none`. A call that blocks is `none`, and so is
one that is undefined: to unlock, or to wait with, a mutex that the thread does not hold. -/

namespace WwjMuduo

variable {θ : Type*}

structure MutexLock (θ : Type*) where
  /-- The thread that holds the `pthread_mutex_t`. -/
  mutex_ : Option θ
  holder_ : Option θ

namespace MutexLock

/-- The constructor. -/
def new : MutexLock θ := { mutex_ := none, holder_ := none }

/-- The first statement of `lock`. It blocks while the mutex is held, also by the same thread. -/
def pthread_mutex_lock (m : MutexLock θ) (t : θ) : Option (MutexLock θ) :=
  match m.mutex_ with
  | none => some { m with mutex_ := some t }
  | some _ => none

/-- The second statement of `lock`. -/
def setHolder (m : MutexLock θ) (t : θ) : MutexLock θ := { m with holder_ := some t }

/-- The first statement of `unlock`. -/
def clearHolder (m : MutexLock θ) : MutexLock θ := { m with holder_ := none }

/-- The second statement of `unlock`. -/
def pthread_mutex_unlock [DecidableEq θ] (m : MutexLock θ) (t : θ) : Option (MutexLock θ) :=
  if m.mutex_ = some t then some { m with mutex_ := none } else none

@[simp]
theorem mutex_setHolder (m : MutexLock θ) (t : θ) : (m.setHolder t).mutex_ = m.mutex_ := rfl

@[simp]
theorem mutex_clearHolder (m : MutexLock θ) : m.clearHolder.mutex_ = m.mutex_ := rfl

theorem lock_eq_some {m m' : MutexLock θ} {t : θ} :
    m.pthread_mutex_lock t = some m' ↔ m.mutex_ = none ∧ m' = { m with mutex_ := some t } := by
  unfold pthread_mutex_lock
  cases h : m.mutex_ with
  | none => simp [eq_comm]
  | some u => simp

theorem unlock_eq_some [DecidableEq θ] {m m' : MutexLock θ} {t : θ} :
    m.pthread_mutex_unlock t = some m' ↔ m.mutex_ = some t ∧ m' = { m with mutex_ := none } := by
  unfold pthread_mutex_unlock
  by_cases h : m.mutex_ = some t
  · simp [h, eq_comm]
  · simp [h]

end MutexLock

structure Condition (θ : Type*) where
  /-- The threads that sleep in `pthread_cond_wait`. -/
  pcond_ : List θ

namespace Condition

/-- The constructor. -/
def new : Condition θ := { pcond_ := [] }

variable [DecidableEq θ]

/-- `wait` up to falling asleep: the mutex is released in the same step. -/
def wait (c : Condition θ) (m : MutexLock θ) (t : θ) : Option (Condition θ × MutexLock θ) :=
  (m.pthread_mutex_unlock t).map fun m => ({ pcond_ := c.pcond_ ++ [t] }, m)

/-- The end of `wait`, for a thread that does not sleep any more: it takes the mutex back. -/
def resume (c : Condition θ) (m : MutexLock θ) (t : θ) : Option (MutexLock θ) :=
  if t ∈ c.pcond_ then none else m.pthread_mutex_lock t

/-- A thread is woken: by a notification, or for no reason. -/
def wake (c : Condition θ) (t : θ) : Condition θ := { pcond_ := c.pcond_.erase t }

/-- `notify` wakes one of the threads that sleep, the system chooses which, if any does. -/
def notify (c : Condition θ) (chosen : θ) : Option (Condition θ) :=
  if c.pcond_ = [] then some c else if chosen ∈ c.pcond_ then some (c.wake chosen) else none

theorem wait_eq_some {c c' : Condition θ} {m m' : MutexLock θ} {t : θ} :
    c.wait m t = some (c', m') ↔
      m.mutex_ = some t ∧ m' = { m with mutex_ := none } ∧ c' = { pcond_ := c.pcond_ ++ [t] } := by
  rw [wait, Option.map_eq_some_iff]
  constructor
  · rintro ⟨m₁, hm, heq⟩
    obtain ⟨hheld, rfl⟩ := MutexLock.unlock_eq_some.1 hm
    obtain ⟨rfl, rfl⟩ := Prod.mk.inj heq
    exact ⟨hheld, rfl, rfl⟩
  · rintro ⟨hheld, rfl, rfl⟩
    exact ⟨_, MutexLock.unlock_eq_some.2 ⟨hheld, rfl⟩, rfl⟩

theorem resume_eq_some {c : Condition θ} {m m' : MutexLock θ} {t : θ} :
    c.resume m t = some m' ↔
      t ∉ c.pcond_ ∧ m.mutex_ = none ∧ m' = { m with mutex_ := some t } := by
  unfold resume
  by_cases h : t ∈ c.pcond_
  · simp [h]
  · simp [h, MutexLock.lock_eq_some]

end Condition

end WwjMuduo
