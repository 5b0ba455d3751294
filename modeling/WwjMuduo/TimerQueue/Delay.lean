import Mathlib.Data.Int.Basic
import WwjMuduo.TimerQueue.Ownership

set_option autoImplicit false

/-! # The delay of the timerfd

The queue's `resetTimerfd` takes an expiration. What goes to `timerfd_settime` is the delay until
then, at least 100 microseconds, in seconds and nanoseconds. It is worked out in `int64_t`, taken
here as two's complement: the standard leaves an overflow undefined, and the machine wraps.

The subtraction is the only one of the operations that can overflow. A clock reading is positive, so
it can only go below the least `int64_t`, and comes out as a large positive number. -/

namespace WwjMuduo

namespace Timerfd

/-! ## The code -/

def kMicroSecondsPerSecond : Int64 := 1000 * 1000

/-- `struct timespec`. A `time_t` and a `long` have 64 bits. -/
structure Timespec where
  tv_sec : Int64
  tv_nsec : Int64
deriving DecidableEq

/-- `struct itimerspec`. -/
structure Itimerspec where
  it_interval : Timespec
  it_value : Timespec
deriving DecidableEq

/-- `howMuchTimeFromNow`, of the timestamp's microseconds and those that `Timestamp::now()` reads. -/
def howMuchTimeFromNow (when now : Int64) : Timespec :=
  let microseconds := when - now
  let microseconds := if microseconds < 100 then 100 else microseconds
  { tv_sec := microseconds / kMicroSecondsPerSecond
    tv_nsec := (microseconds % kMicroSecondsPerSecond) * 1000 }

/-- What `resetTimerfd` passes to `timerfd_settime`; both parts are `bzero`ed first. -/
def resetTimerfd (expiration now : Int64) : Itimerspec :=
  let newValue : Itimerspec := ⟨⟨0, 0⟩, ⟨0, 0⟩⟩
  { newValue with it_value := howMuchTimeFromNow expiration now }

/-! ## What a `timespec` says -/

/-- What `timerfd_settime` accepts. -/
structure Timespec.Normalised (ts : Timespec) : Prop where
  sec_nonneg : 0 ≤ ts.tv_sec.toInt
  nsec_nonneg : 0 ≤ ts.tv_nsec.toInt
  nsec_lt : ts.tv_nsec.toInt < 1000000000

def Timespec.nanoseconds (ts : Timespec) : ℤ := ts.tv_sec.toInt * 1000000000 + ts.tv_nsec.toInt

/-- The delay that is meant, in microseconds. -/
def delay (when now : Int64) : ℤ := max 100 (when.toInt - now.toInt)

/-! ## The arithmetic -/

/-- The clamped difference divides without overflow: below `2 ^ 63`, it has fewer than `2 ^ 63`
    seconds, and a rest that has fewer than `10 ^ 9` nanoseconds. -/
theorem toInt_parts {m : Int64} (h : 0 ≤ m.toInt) :
    (m / kMicroSecondsPerSecond).toInt = m.toInt / 1000000 ∧
      ((m % kMicroSecondsPerSecond) * 1000).toInt = m.toInt % 1000000 * 1000 := by
  have hk : kMicroSecondsPerSecond.toInt = 1000000 := by decide
  have h1000 : (1000 : Int64).toInt = 1000 := by decide
  have hmod : m.toInt.tmod 1000000 = m.toInt % 1000000 := Int.tmod_eq_emod_of_nonneg h
  constructor
  · rw [Int64.toInt_div_of_ne_right _ _ (by decide), hk, Int.tdiv_eq_ediv_of_nonneg h]
  · rw [Int64.toInt_mul, Int64.toInt_mod, hk, h1000, hmod]
    exact Int.bmod_eq_of_le (by omega) (by omega)

/-- The difference of a timestamp and a positive clock reading, as `int64_t`. -/
theorem toInt_sub_now (when : Int64) {now : Int64} (hnow : 0 < now.toInt) :
    (when - now).toInt = when.toInt - now.toInt ∧ -2 ^ 63 ≤ when.toInt - now.toInt ∨
      (when - now).toInt = when.toInt - now.toInt + 2 ^ 64 ∧
        when.toInt - now.toInt < -2 ^ 63 := by
  have hlt := when.toInt_lt
  have hle := when.le_toInt
  have hnlt := now.toInt_lt
  rw [Int64.toInt_sub, Int.bmod_def]
  omega

/-- The two fields, by the clamped difference. -/
theorem toInt_howMuchTimeFromNow (when now : Int64) :
    (howMuchTimeFromNow when now).tv_sec.toInt = max 100 (when - now).toInt / 1000000 ∧
      (howMuchTimeFromNow when now).tv_nsec.toInt =
        max 100 (when - now).toInt % 1000000 * 1000 := by
  have h100 : (100 : Int64).toInt = 100 := by decide
  have hclamp : (if when - now < 100 then 100 else when - now : Int64).toInt =
      max 100 (when - now).toInt := by
    split_ifs with hc
    · rw [Int64.lt_iff_toInt_lt, h100] at hc
      rw [h100]
      omega
    · rw [Int64.lt_iff_toInt_lt, h100] at hc
      omega
  rw [← hclamp]
  exact toInt_parts (by rw [hclamp]; omega)

/-- Whatever the difference came out as, the result is in normal form and says the difference or 100
    microseconds. -/
theorem howMuchTimeFromNow_spec (when now : Int64) :
    (howMuchTimeFromNow when now).Normalised ∧
      (howMuchTimeFromNow when now).nanoseconds = 1000 * max 100 (when - now).toInt := by
  obtain ⟨hsec, hnsec⟩ := toInt_howMuchTimeFromNow when now
  refine ⟨⟨?_, ?_, ?_⟩, ?_⟩
  · omega
  · omega
  · omega
  · unfold Timespec.nanoseconds
    omega

/-- A `timespec` of at least 100 microseconds is not the one that disarms. -/
theorem ne_zero_of_nanoseconds {ts : Timespec} {m : ℤ} (h : ts.nanoseconds = 1000 * max 100 m) :
    ts ≠ ⟨0, 0⟩ := by
  rintro rfl
  have hzero : (⟨0, 0⟩ : Timespec).nanoseconds = 0 := by decide
  omega

/-! ## When the delay is right -/

/-- `reset` sets the timerfd to valid expirations only, and for these the difference never wraps. -/
theorem delay_of_valid {when now : Int64} (hnow : 0 < now.toInt)
    (hvalid : Timestamp.valid when.toInt = true) :
    (resetTimerfd when now).it_value.nanoseconds = 1000 * delay when now := by
  have hnlt := now.toInt_lt
  have hpos : 0 < when.toInt := of_decide_eq_true hvalid
  rcases toInt_sub_now when hnow with ⟨hd, -⟩ | ⟨-, hrange⟩
  · rw [delay, ← hd]
    exact (howMuchTimeFromNow_spec when now).2
  · omega

/-- `addTimerInLoop` sets it to any: of the timestamp of a new timer it only asks whether it is the
    earliest. -/
theorem any_timestamp_arms {s : TimerQueue} {a : Addr} {t : Timer} (ht : s.heap a = some t)
    (hearliest : s.Earliest t) : ∃ s', s.addTimerInLoop a = some s' ∧
      (s.started, Act.resetTimerfd t.expiration_) ∈ s'.log := by
  refine ⟨(s.inserted a t).resetTimerfd t.expiration_, ?_,
    List.mem_append_right _ (List.mem_singleton_self _)⟩
  have hfirst : (({ s with inFlight := s.inFlight.erase a }.emit (.added a t)).insert a t).1 =
      true := (TimerQueue.insert_fst ..).2 hearliest
  simp only [TimerQueue.addTimerInLoop, ht, Option.map_some, hfirst, if_true]
  rfl

/-- **The delay.** At a positive clock reading, the value passed on is in normal form, does not
    disarm the timer and is the delay that is meant exactly if the difference did not wrap, or
    wrapped to no more than the least delay. -/
theorem resetTimerfd_delay_iff {when now : Int64} (hnow : 0 < now.toInt) :
    ((resetTimerfd when now).it_value.Normalised ∧ (resetTimerfd when now).it_value ≠ ⟨0, 0⟩ ∧
      (resetTimerfd when now).it_value.nanoseconds = 1000 * delay when now) ↔
    -2 ^ 63 ≤ when.toInt - now.toInt ∨ when.toInt - now.toInt ≤ 100 - 2 ^ 64 := by
  obtain ⟨hnorm, hnanos⟩ := howMuchTimeFromNow_spec when now
  have hvalue : (resetTimerfd when now).it_value = howMuchTimeFromNow when now := rfl
  have hzero := ne_zero_of_nanoseconds hnanos
  rw [hvalue, hnanos, delay]
  rcases toInt_sub_now when hnow with ⟨hd, hrange⟩ | ⟨hd, hrange⟩
  · rw [hd]
    exact ⟨fun _ => .inl hrange, fun _ => ⟨hnorm, hzero, rfl⟩⟩
  · rw [hd]
    constructor
    · rintro ⟨-, -, heq⟩
      right
      omega
    · intro hcond
      exact ⟨hnorm, hzero, by omega⟩

/-- An ordinary deadline, two and a half seconds ahead. -/
theorem resetTimerfd_delay_iff_ahead :
    ((resetTimerfd 1700000002500000 1700000000000000).it_value.Normalised ∧
      (resetTimerfd 1700000002500000 1700000000000000).it_value ≠ ⟨0, 0⟩ ∧
      (resetTimerfd 1700000002500000 1700000000000000).it_value.nanoseconds =
        1000 * delay 1700000002500000 1700000000000000) ↔
    -2 ^ 63 ≤ (1700000002500000 : Int64).toInt - (1700000000000000 : Int64).toInt ∨
      (1700000002500000 : Int64).toInt - (1700000000000000 : Int64).toInt ≤ 100 - 2 ^ 64 :=
  resetTimerfd_delay_iff (by decide)

/-- The least `Timestamp`, at an ordinary clock reading: the timer waits 290 thousand years. -/
theorem least_timestamp_waits :
    0 < (1700000000000000 : Int64).toInt ∧
      (resetTimerfd Int64.minValue 1700000000000000).it_value = ⟨9221672036854, 775808000⟩ ∧
      delay Int64.minValue 1700000000000000 = 100 ∧
      (resetTimerfd Int64.minValue 1700000000000000).it_value.nanoseconds ≠
        1000 * delay Int64.minValue 1700000000000000 := by
  decide

end Timerfd

end WwjMuduo
