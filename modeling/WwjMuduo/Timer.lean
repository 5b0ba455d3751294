import Mathlib.Data.Prod.Lex
import Mathlib.Data.Rat.Defs
import Mathlib.Algebra.Order.Ring.Rat
import Mathlib.Tactic.Common
import WwjMuduo.Lib.OrderedSet

set_option autoImplicit false

/-! # Timestamp, Timer and TimerId

Timestamps are microseconds since the epoch, taken as integers that do not overflow. So are sequence
numbers: the 64 bits of `s_numCreated_` are taken to be enough for all timers that are ever made. An
interval is a `double`, of which the code reads two things: whether it is positive, and the
microseconds that `addTime` makes of it.

A `Timer` lives in memory at an address. Addresses are used again after a `delete`; sequence numbers
are not. -/

namespace WwjMuduo

/-! ## Timestamps -/

abbrev Timestamp := ℤ

namespace Timestamp

def invalid : Timestamp := 0

def valid (t : Timestamp) : Bool := decide (0 < t)

end Timestamp

/-- A `double` of seconds, and `static_cast<int64_t>(seconds * kMicroSecondsPerSecond)`. The
    product is rounded to a `double` and then cut, which keeps its sign. -/
structure Interval where
  seconds : ℚ
  micros : ℤ
  micros_nonneg : 0 < seconds → 0 ≤ micros

/-- The interval `0.0` of a timer that runs once. -/
def Interval.zero : Interval := ⟨0, 0, fun _ => le_rfl⟩

/-- The interval `1.0`. -/
def Interval.second : Interval := ⟨1, 1000000, fun _ => by decide⟩

def addTime (timestamp : Timestamp) (interval : Interval) : Timestamp := timestamp + interval.micros

/-! ## Timers -/

/-- A `Timer*`. -/
abbrev Addr := ℕ

/-- `UINTPTR_MAX`. No object lies there. -/
def UINTPTR_MAX : Addr := 2 ^ 64 - 1

/-- A `TimerList` is a set of these. -/
abbrev Entry := Timestamp ×ₗ Addr

/-- An `ActiveTimerSet` is a set of these. -/
abbrev ActiveTimer := Addr ×ₗ ℤ

structure Timer where
  interval_ : Interval
  sequence_ : ℤ
  repeat_ : Bool
  expiration_ : Timestamp
  repeat_eq : repeat_ = decide (0 < interval_.seconds)

namespace Timer

/-- The constructor, with the value of `++s_numCreated_`. -/
def new (when : Timestamp) (interval : Interval) (sequence : ℤ) : Timer :=
  { interval_ := interval
    sequence_ := sequence
    repeat_ := decide (0 < interval.seconds)
    expiration_ := when
    repeat_eq := rfl }

def restart (t : Timer) (now : Timestamp) : Timer :=
  { t with expiration_ := if t.repeat_ then addTime now t.interval_ else Timestamp.invalid }

/-- The entry of a timer at an address. -/
def entry (t : Timer) (a : Addr) : Entry := toLex (t.expiration_, a)

/-- The pair that names a timer at an address. -/
def active (t : Timer) (a : Addr) : ActiveTimer := toLex (a, t.sequence_)

theorem micros_nonneg {t : Timer} (h : t.repeat_ = true) : 0 ≤ t.interval_.micros := by
  rw [t.repeat_eq, decide_eq_true_eq] at h
  exact t.interval_.micros_nonneg h

theorem restart_expiration {t : Timer} (h : t.repeat_ = true) (now : Timestamp) :
    (t.restart now).expiration_ = now + t.interval_.micros := by
  unfold restart
  rw [if_pos h]
  rfl

theorem active_inj {t u : Timer} {a b : Addr} :
    t.active a = u.active b ↔ a = b ∧ t.sequence_ = u.sequence_ := by
  unfold active
  rw [toLex_inj, Prod.mk.injEq]

theorem entry_inj {t u : Timer} {a b : Addr} :
    t.entry a = u.entry b ↔ t.expiration_ = u.expiration_ ∧ a = b := by
  unfold entry
  rw [toLex_inj, Prod.mk.injEq]

end Timer

/-- What `addTimer` returns and `cancel` takes. -/
structure TimerId where
  timer_ : Addr
  sequence_ : ℤ
  deriving DecidableEq

namespace TimerId

/-- The pair that the sets are searched for. -/
def active (id : TimerId) : ActiveTimer := toLex (id.timer_, id.sequence_)

end TimerId

end WwjMuduo
