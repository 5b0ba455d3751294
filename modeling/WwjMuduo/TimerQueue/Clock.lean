import Mathlib.Data.Int.Basic
import WwjMuduo.TimerQueue.Delay
import WwjMuduo.TimerQueue.Effects
import WwjMuduo.TimerQueue.Firing

set_option autoImplicit false

/-! # The queue, the timerfd and the clock

What the queue does to its timerfd reaches the kernel here: `resetTimerfd` reads the clock and passes
on a delay, in the `int64_t` of `Delay.lean`, and the descriptor is readable once that has gone by.
`handleRead` is the read callback of the timerfd's channel, which is the first of its loop and so is
handled before anything else can set the timerfd again: it runs only when there is something to read.

Time goes by between the steps, and a step reads one instant. The timerfd counts the monotonic clock,
and `Timestamp::now()` is the wall clock; nobody sets the wall clock here. -/

namespace WwjMuduo

open Timerfd (Itimerspec)

/-- A timer queue, its timerfd and the time. -/
structure Clocked where
  timerQueue_ : TimerQueue
  /-- What `Timestamp::now()` reads. -/
  clock : Timestamp
  /-- When the timerfd becomes readable, if it is set and has not been read since. -/
  fires : Option Timestamp
  /-- The clock reading of the latest `timerfd_settime`. -/
  setAt : Timestamp
  /-- The clock readings of the `handleRead`s so far, oldest first. -/
  wakeups : List Timestamp

/-- The three functions of `EventLoop` that add a timer. -/
inductive TimerCall where
  | runAt (time : Timestamp)
  | runAfter (delay : Interval)
  | runEvery (interval : Interval)

namespace TimerCall

/-- The time that is passed to `addTimer`, at a clock reading. -/
def time (now : Timestamp) : TimerCall → Timestamp
  | .runAt time => time
  | .runAfter delay => addTime now delay
  | .runEvery interval => addTime now interval

/-- The interval that is passed to `addTimer`. -/
def interval : TimerCall → Interval
  | .runAt _ => .zero
  | .runAfter _ => .zero
  | .runEvery interval => interval

end TimerCall

inductive ClockedEvent where
  | tick (microseconds : ℕ)
  | addTimer (a : Addr) (call : TimerCall) (others : ℕ)
  | on (e : TimerQueue.Event)

namespace Clocked

/-- The constructor of the queue, at some clock reading. -/
def new (numCreated : ℤ) (clock : Timestamp) : Clocked :=
  { timerQueue_ := .new numCreated
    clock := clock
    fires := none
    setAt := clock
    wakeups := [] }

/-- `::poll` would report the timerfd. -/
def Readable (s : Clocked) : Prop := ∃ m ∈ s.fires, m ≤ s.clock

instance (s : Clocked) : Decidable s.Readable := inferInstanceAs (Decidable (∃ m ∈ s.fires, _))

/-- The system call. A value of zero disarms, any other replaces what was set. -/
def timerfd_settime (s : Clocked) (newValue : Itimerspec) : Clocked :=
  { s with
    fires := if newValue.it_value = ⟨0, 0⟩ then none
      else some (s.clock + newValue.it_value.nanoseconds / 1000)
    setAt := s.clock }

def resetTimerfd (s : Clocked) (expiration : Timestamp) : Clocked :=
  s.timerfd_settime (Timerfd.resetTimerfd (Int64.ofInt expiration) (Int64.ofInt s.clock))

/-- The read takes the expiration that is there; with none it fails, and nothing looks at that. -/
def readTimerfd (s : Clocked) (now : Timestamp) : Clocked :=
  { s with fires := if s.Readable then none else s.fires, wakeups := s.wakeups ++ [now] }

/-- What an act of the queue does to the timerfd. -/
def onTimerfd (s : Clocked) : Act → Clocked
  | .resetTimerfd expiration => s.resetTimerfd expiration
  | .readTimerfd now => s.readTimerfd now
  | _ => s

/-- A step of the queue, with what it adds to its log done to the timerfd. -/
def onQueue (s : Clocked) (e : TimerQueue.Event) : Option Clocked :=
  (s.timerQueue_.step e).map fun q =>
    ((q.log.drop s.timerQueue_.log.length).map Prod.snd).foldl onTimerfd { s with timerQueue_ := q }

/-- `EventLoop` makes the timers, and `handleRead` runs when the timerfd is readable. -/
def Enabled (s : Clocked) : ClockedEvent → Prop
  | .on (.newTimer ..) => False
  | .on (.handleReadBegin now) => now = s.clock ∧ s.Readable
  | _ => True

instance (s : Clocked) : (e : ClockedEvent) → Decidable (s.Enabled e)
  | .tick _ => isTrue trivial
  | .addTimer .. => isTrue trivial
  | .on (.handleReadBegin now) => inferInstanceAs (Decidable (now = s.clock ∧ s.Readable))
  | .on (.newTimer ..) => isFalse id
  | .on (.addTimerInLoop _) => isTrue trivial
  | .on (.cancelInLoop _) => isTrue trivial
  | .on .runNext => isTrue trivial
  | .on .handleReadEnd => isTrue trivial
  | .on .destroy => isTrue trivial

def exec (s : Clocked) : ClockedEvent → Option Clocked
  | .tick microseconds => some { s with clock := s.clock + microseconds }
  | .addTimer a call others => s.onQueue (.newTimer a (call.time s.clock) call.interval others)
  | .on e => s.onQueue e

def step : Clocked → ClockedEvent → Option Clocked := Run.restrict Enabled exec

end Clocked

namespace Act

theorem Silent.onTimerfd {act : Act} (h : act.Silent) (s : Clocked) : s.onTimerfd act = s := by
  cases act with
  | resetTimerfd expiration => exact h.elim
  | readTimerfd now => exact h.elim
  | _ => rfl

theorem AllSilent.foldl_onTimerfd {acts : List Act} (h : AllSilent acts) (s : Clocked) :
    acts.foldl Clocked.onTimerfd s = s := by
  induction acts with
  | nil => rfl
  | cons act acts ih =>
      rw [List.foldl_cons, (h act List.mem_cons_self).onTimerfd]
      exact ih fun b hb => h b (List.mem_cons_of_mem act hb)

end Act

namespace Clocked

/-! ## One step -/

/-- What becomes of the timerfd when the queue takes a step. -/
inductive Moves (s : Clocked) (q : TimerQueue) : Clocked → Prop where
  | quiet (harmed : q.armed = s.timerQueue_.armed) (hsame : s.timerQueue_.Same q) :
      Moves s q { s with timerQueue_ := q }
  | read {expired : List Entry} (hreadable : s.Readable) (harmed : q.armed = none)
      (hstarted : q.started = s.timerQueue_.started + 1)
      (hframe : q.frame = some ⟨s.clock, expired, 0⟩) :
      Moves s q
        { s with timerQueue_ := q, fires := none, wakeups := s.wakeups ++ [s.clock] }
  | set {a : Addr} {t : Timer} (ha : q.heap a = some t) (harmed : q.armed = some t.expiration_)
      (hsame : s.timerQueue_.Same q) :
      Moves s q ({ s with timerQueue_ := q }.resetTimerfd t.expiration_)

/-- The step of the queue that an event takes. -/
def inner (s : Clocked) : ClockedEvent → Option TimerQueue.Event
  | .tick _ => none
  | .addTimer a call others => some (.newTimer a (call.time s.clock) call.interval others)
  | .on e => some e

theorem onQueue_cases {s s' : Clocked} {e : TimerQueue.Event} (G : s.timerQueue_.Good)
    (hread : ∀ now, e = .handleReadBegin now → now = s.clock ∧ s.Readable)
    (h : s.onQueue e = some s') : ∃ q, s.timerQueue_.step e = some q ∧ Moves s q s' := by
  obtain ⟨q, hq, rfl⟩ := Option.map_eq_some_iff.1 h
  obtain ⟨acts, hext, htouches⟩ := G.touches hq
  have harmed := hext.armed_eq
  refine ⟨q, hq, ?_⟩
  simp only [hext.acts_eq]
  cases htouches with
  | nothing hacts hsame =>
      rw [hacts.foldl_onTimerfd]
      exact .quiet (harmed.trans (hacts.foldl_arms _)) hsame
  | @read now expired he hstarted hframe =>
      obtain ⟨rfl, hreadable⟩ := hread now he
      have hs' : List.foldl onTimerfd { s with timerQueue_ := q } [.readTimerfd s.clock] =
          { s with timerQueue_ := q, fires := none, wakeups := s.wakeups ++ [s.clock] } := by
        show Clocked.mk q s.clock (if s.Readable then none else s.fires) _ _ = _
        rw [if_pos hreadable]
      rw [hs']
      exact .read hreadable harmed hstarted hframe
  | @set acts a t hacts hsame ha =>
      rw [List.foldl_append, hacts.foldl_onTimerfd]
      rw [List.foldl_append, hacts.foldl_arms] at harmed
      exact .set ha harmed hsame

/-- **What one step does.** -/
theorem step_cases {s s' : Clocked} {e : ClockedEvent} (G : s.timerQueue_.Good)
    (h : step s e = some s') :
    (∃ d : ℕ, e = .tick d ∧ s' = { s with clock := s.clock + d }) ∨
      ∃ f q, s.inner e = some f ∧ s.timerQueue_.step f = some q ∧ Moves s q s' := by
  obtain ⟨he, hexec⟩ := Run.restrict_eq_some.1 h
  cases e with
  | tick d => exact .inl ⟨d, rfl, (Option.some.inj hexec).symm⟩
  | addTimer a call others =>
      obtain ⟨q, hq, hmoves⟩ := onQueue_cases G (fun now hnow => absurd hnow (by simp)) hexec
      exact .inr ⟨_, q, rfl, hq, hmoves⟩
  | on e =>
      have hread : ∀ now, e = .handleReadBegin now → now = s.clock ∧ s.Readable := by
        rintro now rfl
        exact he
      obtain ⟨q, hq, hmoves⟩ := onQueue_cases G hread hexec
      exact .inr ⟨e, q, rfl, hq, hmoves⟩

theorem Moves.timerQueue_eq {s s' : Clocked} {q : TimerQueue} (h : Moves s q s') :
    s'.timerQueue_ = q ∧ s'.clock = s.clock := by
  cases h with
  | quiet => exact ⟨rfl, rfl⟩
  | read => exact ⟨rfl, rfl⟩
  | set => exact ⟨rfl, rfl⟩

/-- The `handleRead` in progress after a step has read the clock now, or was in progress before. -/
theorem Moves.frame_cases {s s' : Clocked} {q : TimerQueue} (h : Moves s q s') {f : HandleRead}
    (hf : f ∈ q.frame) : f.now = s.clock ∨ ∃ f₀ ∈ s.timerQueue_.frame, f₀.now = f.now := by
  cases h with
  | quiet harmed hsame => exact .inr (hsame.frame f hf)
  | read hreadable harmed hstarted hframe =>
      rw [hframe, Option.mem_some_iff] at hf
      exact .inl (hf ▸ rfl)
  | set ha harmed hsame => exact .inr (hsame.frame f hf)

/-! ## How often `handleRead` runs -/

/-- The delay that is passed on is never below 100 microseconds, whatever the subtraction makes. -/
theorem fires_resetTimerfd (s : Clocked) (expiration : Timestamp) :
    (s.resetTimerfd expiration).fires =
      some (s.clock + max 100 (Int64.ofInt expiration - Int64.ofInt s.clock).toInt) := by
  have hnanos := (Timerfd.howMuchTimeFromNow_spec (Int64.ofInt expiration) (Int64.ofInt s.clock)).2
  have hzero := Timerfd.ne_zero_of_nanoseconds hnanos
  unfold resetTimerfd timerfd_settime Timerfd.resetTimerfd
  simp only [hnanos, if_neg hzero]
  rw [Int.mul_ediv_cancel_left _ (by decide)]

/-- The `handleRead`s so far are 100 microseconds apart, and so is the next one from them. -/
structure Paced (s : Clocked) : Prop where
  apart : s.wakeups.Pairwise fun v w => v + 100 ≤ w
  past : ∀ w ∈ s.wakeups, w ≤ s.clock
  next : ∀ m ∈ s.fires, ∀ w ∈ s.wakeups, w + 100 ≤ m

theorem paced_new (numCreated : ℤ) (clock : Timestamp) : Paced (new numCreated clock) where
  apart := List.Pairwise.nil
  past _ h := absurd h List.not_mem_nil
  next _ _ _ h := absurd h List.not_mem_nil

theorem Moves.paced {s s' : Clocked} {q : TimerQueue} (P : Paced s) (h : Moves s q s') :
    Paced s' := by
  cases h with
  | quiet => exact ⟨P.apart, P.past, P.next⟩
  | read hreadable =>
      obtain ⟨m, hm, hle⟩ := hreadable
      have hlast : ∀ w ∈ s.wakeups, w + 100 ≤ s.clock := fun w hw => (P.next m hm w hw).trans hle
      refine ⟨List.pairwise_append.2 ⟨P.apart, List.pairwise_singleton _ _, ?_⟩, ?_, ?_⟩
      · intro v hv w hw
        rw [List.mem_singleton.1 hw]
        exact hlast v hv
      · intro w hw
        rcases List.mem_append.1 hw with hw | hw
        · exact P.past w hw
        · exact (List.mem_singleton.1 hw).le
      · exact fun m hm => absurd hm (by simp)
  | @set a t =>
      refine ⟨P.apart, P.past, fun m hm w hw => ?_⟩
      rw [fires_resetTimerfd, Option.mem_some_iff] at hm
      have hpast : w ≤ s.clock := P.past w hw
      have hclock : ({ s with timerQueue_ := q } : Clocked).clock = s.clock := rfl
      have hmax := le_max_left 100 (Int64.ofInt t.expiration_ - Int64.ofInt s.clock).toInt
      rw [hclock] at hm
      rw [← hm]
      exact Int.add_le_add hpast hmax

theorem Paced.step {s s' : Clocked} {e : ClockedEvent} (G : s.timerQueue_.Good) (P : Paced s)
    (h : Clocked.step s e = some s') : Paced s' := by
  rcases step_cases G h with ⟨d, -, rfl⟩ | ⟨f, q, -, -, hmoves⟩
  · refine ⟨P.apart, fun w hw => ?_, P.next⟩
    exact (P.past w hw).trans (Int.le_add_of_nonneg_right (Int.natCast_nonneg d))
  · exact hmoves.paced P

/-! ## How late `handleRead` runs -/

/-- Some 146 thousand years after the epoch. -/
def horizon : ℤ := 2 ^ 62

/-- The timestamps that come in with an event are less than the horizon from the epoch. -/
def InRange (s : Clocked) : ClockedEvent → Prop
  | .tick microseconds => s.clock + microseconds < horizon
  | .addTimer _ call _ => -horizon ≤ call.time s.clock ∧ call.time s.clock < horizon ∧
    call.interval.micros ≤ horizon
  | .on _ => True

instance (s : Clocked) : (e : ClockedEvent) → Decidable (s.InRange e)
  | .tick _ => inferInstanceAs (Decidable (_ < horizon))
  | .addTimer .. => inferInstanceAs (Decidable (_ ∧ _ ∧ _))
  | .on _ => isTrue trivial

/-- Nothing that `resetTimerfd` is called with makes its subtraction overflow, and the timerfd is set
    when the queue thinks it is. -/
structure Punctual (s : Clocked) : Prop where
  good : s.timerQueue_.Good
  clock_pos : 0 < s.clock
  clock_lt : s.clock < horizon
  timers : ∀ a t, s.timerQueue_.heap a = some t → -horizon ≤ t.expiration_ ∧
    t.expiration_ < 2 * horizon ∧ t.interval_.micros ≤ horizon
  frame : ∀ f ∈ s.timerQueue_.frame, 0 < f.now ∧ f.now ≤ s.clock
  arming : s.timerQueue_.destroyed = false → s.timerQueue_.Arming
  set : s.fires = s.timerQueue_.armed.map (max (s.setAt + 100))

theorem punctual_new (numCreated : ℤ) {clock : Timestamp} (hpos : 0 < clock)
    (hlt : clock < horizon) : Punctual (new numCreated clock) where
  good := TimerQueue.good_new numCreated
  clock_pos := hpos
  clock_lt := hlt
  timers a t ha := absurd ha (by simp [new, TimerQueue.new])
  frame f hf := absurd hf (by simp [new, TimerQueue.new])
  arming _ := (TimerQueue.arming_of_idle rfl).2 fun x hx => absurd hx (OrderedSet.not_mem_empty x)
  set := rfl

theorem lt_two_horizon {x : ℤ} (h : x < horizon) : x < 2 * horizon := by
  unfold horizon at *
  omega

/-- The expiration of a timer that is put back. -/
theorem add_range {now micros : ℤ} (hpos : 0 < now) (hlt : now < horizon) (hnonneg : 0 ≤ micros)
    (hle : micros ≤ horizon) : -horizon ≤ now + micros ∧ now + micros < 2 * horizon := by
  unfold horizon at *
  omega

/-- Below the horizon the subtraction does not overflow. -/
theorem add_delay_of_range {clock expiration : ℤ} (hpos : 0 < clock) (hlt : clock < horizon)
    (hle : -horizon ≤ expiration) (hexp : expiration < 2 * horizon) :
    clock + max 100 (Int64.ofInt expiration - Int64.ofInt clock).toInt =
      max (clock + 100) expiration := by
  unfold horizon at hlt hle hexp
  have hclock : (Int64.ofInt clock).toInt = clock := Int64.toInt_ofInt_of_le (by omega) (by omega)
  have hexpiration : (Int64.ofInt expiration).toInt = expiration :=
    Int64.toInt_ofInt_of_le (by omega) (by omega)
  rcases Timerfd.toInt_sub_now (Int64.ofInt expiration) (by rw [hclock]; exact hpos) with
    ⟨h, -⟩ | ⟨-, h⟩
  · rw [h, hexpiration, hclock]
    omega
  · rw [hexpiration, hclock] at h
    omega

/-- Below the horizon the timerfd fires when it is meant to. -/
theorem fires_of_range {s : Clocked} {expiration : Timestamp} (hpos : 0 < s.clock)
    (hlt : s.clock < horizon) (hle : -horizon ≤ expiration) (hexp : expiration < 2 * horizon) :
    (s.resetTimerfd expiration).fires = some (max (s.clock + 100) expiration) := by
  rw [fires_resetTimerfd, add_delay_of_range hpos hlt hle hexp]

theorem Moves.set_eq {s s' : Clocked} {q : TimerQueue} (h : Moves s q s')
    (P : Punctual s) (hq : ∀ a t, q.heap a = some t → -horizon ≤ t.expiration_ ∧
      t.expiration_ < 2 * horizon ∧ t.interval_.micros ≤ horizon) :
    s'.fires = q.armed.map (max (s'.setAt + 100)) := by
  cases h with
  | quiet harmed =>
      rw [harmed]
      exact P.set
  | read hreadable harmed =>
      rw [harmed]
      rfl
  | @set a t ha harmed =>
      obtain ⟨hle, hlt, -⟩ := hq a t ha
      rw [harmed]
      exact fires_of_range P.clock_pos P.clock_lt hle hlt

/-- The timers that live after a step are below the horizon. -/
theorem Punctual.timers_step {s : Clocked} {e : ClockedEvent} {f : TimerQueue.Event} {q : TimerQueue}
    (P : Punctual s) (hrange : s.InRange e) (he : s.Enabled e) (hf : s.inner e = some f)
    (hq : s.timerQueue_.step f = some q) {a : Addr} {u : Timer} (hu : q.heap a = some u) :
    -horizon ≤ u.expiration_ ∧ u.expiration_ < 2 * horizon ∧ u.interval_.micros ≤ horizon := by
  cases P.good.origin hq hu with
  | kept ha => exact P.timers a u ha
  | @made when interval others ha hmade =>
      cases e with
      | tick d => exact absurd hf (by simp [inner])
      | addTimer b call others =>
          obtain ⟨rfl, rfl, rfl, rfl⟩ : b = a ∧ call.time s.clock = when ∧
              call.interval = interval ∧ others = _ := by
            simpa [inner] using hf
          obtain ⟨hle, hlt, hmicros⟩ := hrange
          rw [hmade]
          exact ⟨hle, lt_two_horizon hlt, hmicros⟩
      | on g =>
          obtain rfl : g = _ := Option.some.inj hf
          exact absurd he id
  | @restarted f t hframe hbatch ha hrepeat hrestart =>
      obtain ⟨hnow, hclock⟩ := P.frame f hframe
      obtain ⟨-, -, hmicros⟩ := P.timers a t ha
      have hlt : f.now < horizon := lt_of_le_of_lt hclock P.clock_lt
      obtain ⟨hle, hlt⟩ := add_range hnow hlt (Timer.micros_nonneg hrepeat) hmicros
      rw [hrestart]
      refine ⟨?_, ?_, hmicros⟩
      · rw [Timer.restart_expiration hrepeat]
        exact hle
      · rw [Timer.restart_expiration hrepeat]
        exact hlt

theorem Punctual.step {s s' : Clocked} {e : ClockedEvent} (P : Punctual s) (hrange : s.InRange e)
    (h : Clocked.step s e = some s') : Punctual s' := by
  have he := (Run.restrict_eq_some.1 h).1
  rcases step_cases P.good h with ⟨d, rfl, rfl⟩ | ⟨f, q, hf, hq, hmoves⟩
  · have hnonneg : (0 : ℤ) ≤ d := Int.natCast_nonneg d
    exact { P with
      clock_pos := Int.add_pos_of_pos_of_nonneg P.clock_pos hnonneg
      clock_lt := hrange
      frame := fun f hf => ⟨(P.frame f hf).1,
        (P.frame f hf).2.trans (Int.le_add_of_nonneg_right hnonneg)⟩ }
  · obtain ⟨hqueue, hclock⟩ := hmoves.timerQueue_eq
    have htimers := fun a u hu => P.timers_step hrange he hf hq (a := a) (u := u) hu
    have hbegin : ∀ now, f = .handleReadBegin now → now = s.clock := by
      rintro now rfl
      cases e with
      | tick d => exact absurd hf (by simp [inner])
      | addTimer b call others => exact absurd hf (by simp [inner])
      | on g =>
          obtain rfl : g = _ := Option.some.inj hf
          exact he.1
    have hframe : ∀ g ∈ q.frame, 0 < g.now ∧ g.now ≤ s.clock := by
      intro g hg
      rcases hmoves.frame_cases hg with hnow | ⟨g₀, hg₀, hnow⟩
      · rw [hnow]
        exact ⟨P.clock_pos, le_rfl⟩
      · rw [← hnow]
        exact P.frame g₀ hg₀
    refine ⟨?_, hclock ▸ P.clock_pos, hclock ▸ P.clock_lt, hqueue ▸ htimers, ?_, ?_, ?_⟩
    · rw [hqueue]
      exact P.good.step hq
    · rw [hqueue, hclock]
      exact hframe
    · rw [hqueue]
      intro hd'
      rcases P.good.step_cases hq with ⟨hd, -, hdoes⟩ | ⟨hd, a, when, interval, others, rfl⟩
      · refine hdoes.arming ?_ (P.arming hd) hd'
        cases f with
        | handleReadBegin now =>
            show 0 < now
            rw [hbegin now rfl]
            exact P.clock_pos
        | _ => trivial
      · exact absurd (hd.symm.trans hd') (by simp)
    · rw [hqueue]
      exact hmoves.set_eq P htimers

/-- A queued timer that is due goes into the batch of the `handleRead` that begins now. -/
theorem handleReadBegin_takes {s : Clocked} (G : s.timerQueue_.Good)
    (hframe : s.timerQueue_.frame = none) (hd : s.timerQueue_.destroyed = false)
    (hreadable : s.Readable) {a : Addr} {t : Timer} (hholds : s.timerQueue_.Holds a t)
    (hdue : t.expiration_ ≤ s.clock) :
    ∃ s', step s (.on (.handleReadBegin s.clock)) = some s' ∧
      s'.timerQueue_.InBatch (t.active a) := by
  have hEnabled : s.timerQueue_.Enabled (.handleReadBegin s.clock) := ⟨hframe, hd⟩
  obtain ⟨q, hexec, hdoes⟩ := G.does hd hEnabled
  have hq : s.timerQueue_.step (.handleReadBegin s.clock) = some q :=
    Run.restrict_eq_some.2 ⟨hEnabled, hexec⟩
  obtain ⟨s', hs'⟩ : ∃ s', s.onQueue (.handleReadBegin s.clock) = some s' := by
    unfold onQueue
    rw [hq]
    exact ⟨_, rfl⟩
  have hstep : step s (.on (.handleReadBegin s.clock)) = some s' :=
    Run.restrict_eq_some.2 ⟨⟨rfl, hreadable⟩, hs'⟩
  refine ⟨s', hstep, ?_⟩
  obtain ⟨q', hq', hmoves⟩ := onQueue_cases G (fun now hnow => by
    obtain rfl : s.clock = now := by simpa using hnow
    exact ⟨rfl, hreadable⟩) hs'
  obtain rfl : q = q' := Option.some.inj (hq.symm.trans hq')
  rw [hmoves.timerQueue_eq.1]
  cases hdoes with
  | @handleReadBegin now expired s₁ _ hE hL =>
      have hheap : s₁.heap = s.timerQueue_.heap := by rw [hE.rest]; rfl
      have hmem : t.entry a ∈ expired := by
        rw [hE.expired_eq, List.mem_filter]
        exact ⟨hholds.2, decide_eq_true hdue⟩
      refine ⟨a, List.mem_map_of_mem (f := fun x : Entry => (ofLex x).2) hmem, t, ?_, rfl⟩
      show s₁.heap a = some t
      rw [hheap]
      exact hholds.1

/-- **Punctuality.** As long as timestamps are less than the horizon from the epoch, in every state of a
    run, outside of `handleRead` and until the queue is destroyed: the timerfd fires for every queued timer, no later
    than the timer expires or 100 microseconds after the latest `timerfd_settime`; and if both have
    gone by, `handleRead` can run, and takes the timer into its batch. -/
theorem on_time (numCreated : ℤ) {clock : Timestamp} (hpos : 0 < clock) (hlt : clock < horizon)
    {es : List ClockedEvent} (hrange : Run.Meets step InRange (new numCreated clock) es) :
    Run.Along step (fun s => s.timerQueue_.frame = none → s.timerQueue_.destroyed = false →
      ∀ a t, s.timerQueue_.Holds a t →
        (∃ m ∈ s.fires, m ≤ max (s.setAt + 100) t.expiration_) ∧
        (t.expiration_ ≤ s.clock → s.setAt + 100 ≤ s.clock →
          ∃ s', step s (.on (.handleReadBegin s.clock)) = some s' ∧
            s'.timerQueue_.InBatch (t.active a))) (new numCreated clock) es := by
  refine Run.Along.of_meets (fun s e s' P hr h => Punctual.step P hr h) ?_
    (punctual_new numCreated hpos hlt) hrange
  intro s P hframe hd a t hholds
  have hcovered := (TimerQueue.arming_of_idle hframe).1 (P.arming hd)
  obtain ⟨e, he, hle⟩ := hcovered _ hholds.2
  have hfires : s.fires = some (max (s.setAt + 100) e) := by
    rw [P.set, Option.mem_def.1 he]
    rfl
  have hmax : max (s.setAt + 100) e ≤ max (s.setAt + 100) t.expiration_ := max_le_max le_rfl hle
  refine ⟨⟨_, hfires, hmax⟩, fun hdue hset => ?_⟩
  have hreadable : s.Readable := ⟨_, hfires, hmax.trans (max_le hset hdue)⟩
  exact handleReadBegin_takes P.good hframe hd hreadable hholds hdue

/-- A repeating timer, taken once and put back, and one for a time that has gone by. -/
theorem on_time_overdue :
    let es : List ClockedEvent := [.addTimer 4096 (.runEvery .second) 0,
      .on (.addTimerInLoop 4096), .tick 1000000, .on (.handleReadBegin 1001000), .on .runNext,
      .on .handleReadEnd, .addTimer 8192 (.runAt 7) 0, .on (.addTimerInLoop 8192), .tick 99]
    ∃ s, Run.run step (new 0 1000) es = some s ∧ s.fires = some 1001100 ∧
      Run.Along step (fun s => s.timerQueue_.frame = none → s.timerQueue_.destroyed = false →
        ∀ a t, s.timerQueue_.Holds a t →
          (∃ m ∈ s.fires, m ≤ max (s.setAt + 100) t.expiration_) ∧
          (t.expiration_ ≤ s.clock → s.setAt + 100 ≤ s.clock →
            ∃ s', step s (.on (.handleReadBegin s.clock)) = some s' ∧
              s'.timerQueue_.InBatch (t.active a))) (new 0 1000) es := by
  exact ⟨_, rfl, rfl, on_time 0 (by decide) (by decide) (by decide +kernel)⟩

end Clocked

end WwjMuduo
