import WwjMuduo.Lib.Run
import WwjMuduo.Timer

set_option autoImplicit false

/-! # TimerQueue

The queue keeps its timers twice: `timers_` in the order they expire, `activeTimers_` by the pair of
address and sequence number that names a timer. `handleRead` takes the expired ones out of both, runs
them, and `reset` puts the repeating ones back and deletes the others.

The callbacks may add and cancel timers, so `handleRead` is cut at the points where a callback may
act: `handleReadBegin` up to the loop, `runNext` for each call of `run`, `handleReadEnd` from the
loop on. What a callback does happens between its `runNext` and the next step.

Every function that follows a `Timer*` is `none` if no `Timer` lives at the address. -/

namespace WwjMuduo

/-- What the queue does, as seen from outside. -/
inductive Act where
  | added (a : Addr) (t : Timer)
  | cancelled (i : ActiveTimer)
  | readTimerfd (now : Timestamp)
  | called (now : Timestamp) (a : Addr) (t : Timer)
  | resetTimerfd (expiration : Timestamp)
  | deleted (a : Addr) (t : Timer)

/-- The local variables of a `handleRead` in progress, and how many callbacks it has called. -/
structure HandleRead where
  now : Timestamp
  expired : List Entry
  ran : ℕ

structure TimerQueue where
  callingExpiredTimers_ : Bool
  timers_ : OrderedSet Entry
  activeTimers_ : OrderedSet ActiveTimer
  cancelingTimers_ : OrderedSet ActiveTimer
  /-- The `Timer`s that live. -/
  heap : Addr → Option Timer
  s_numCreated_ : ℤ
  /-- The `Timer`s that `addTimer` has made and `addTimerInLoop` has not got. -/
  inFlight : List Addr
  /-- The `handleRead` in progress. -/
  frame : Option HandleRead
  destroyed : Bool
  /-- How many `handleRead`s have begun. -/
  started : ℕ
  /-- What has been done, oldest first, each with the number of `handleRead`s begun by then. -/
  log : List (ℕ × Act)

namespace TimerQueue

/-- The constructor, over the value of `s_numCreated_` it finds. -/
def new (numCreated : ℤ) : TimerQueue :=
  { callingExpiredTimers_ := false
    timers_ := ∅
    activeTimers_ := ∅
    cancelingTimers_ := ∅
    heap := fun _ => none
    s_numCreated_ := numCreated
    inFlight := []
    frame := none
    destroyed := false
    started := 0
    log := [] }

def emit (s : TimerQueue) (act : Act) : TimerQueue := { s with log := s.log ++ [(s.started, act)] }

/-- What a pointer points to is changed. -/
def store (s : TimerQueue) (a : Addr) (t : Timer) : TimerQueue :=
  { s with heap := Function.update s.heap a (some t) }

/-- `delete`. -/
def free (s : TimerQueue) (a : Addr) (t : Timer) : TimerQueue :=
  { s with heap := Function.update s.heap a none }.emit (.deleted a t)

def resetTimerfd (s : TimerQueue) (expiration : Timestamp) : TimerQueue :=
  s.emit (.resetTimerfd expiration)

/-! ## Adding -/

/-- `insert`, for the timer an address points to: whether it is the earliest now. -/
def insert (s : TimerQueue) (a : Addr) (timer : Timer) : Bool × TimerQueue :=
  let earliestChanged := match s.timers_.begin? with
    | none => true
    | some first => decide (timer.expiration_ < (ofLex first).1)
  (earliestChanged, { s with
    timers_ := s.timers_.insert (timer.entry a)
    activeTimers_ := s.activeTimers_.insert (timer.active a) })

/-- The part of `addTimer` on the calling thread: `new Timer`. The counter is shared by all queues:
    the others may have used `others` numbers since. -/
def newTimer (s : TimerQueue) (a : Addr) (when : Timestamp) (interval : Interval) (others : ℕ) :
    TimerQueue :=
  let sequence := s.s_numCreated_ + others + 1
  { s.store a (Timer.new when interval sequence) with
    s_numCreated_ := sequence
    inFlight := s.inFlight ++ [a] }

def addTimerInLoop (s : TimerQueue) (a : Addr) : Option TimerQueue :=
  (s.heap a).map fun timer =>
    let s := { s with inFlight := s.inFlight.erase a }.emit (.added a timer)
    let (earliestChanged, s) := s.insert a timer
    if earliestChanged then s.resetTimerfd timer.expiration_ else s

/-! ## Cancelling -/

def cancelInLoop (s : TimerQueue) (timerId : TimerId) : Option TimerQueue :=
  let timer := timerId.active
  let s := s.emit (.cancelled timer)
  if timer ∈ s.activeTimers_ then
    (s.heap timerId.timer_).map fun t =>
      { s with
        timers_ := s.timers_.erase (t.entry timerId.timer_)
        activeTimers_ := s.activeTimers_.erase timer }.free timerId.timer_ t
  else if s.callingExpiredTimers_ then
    some { s with cancelingTimers_ := s.cancelingTimers_.insert timer }
  else some s

/-! ## Expiring -/

/-- The pair that names the timer an entry points to. -/
def activeOf (s : TimerQueue) (entry : Entry) : Option ActiveTimer :=
  (s.heap (ofLex entry).2).map fun t => t.active (ofLex entry).2

/-- `getExpired`: the entries before `lower_bound(sentry)`. -/
def getExpired (s : TimerQueue) (now : Timestamp) : Option (List Entry × TimerQueue) :=
  let sentry : Entry := toLex (now, UINTPTR_MAX)
  let expired := s.timers_.below sentry
  (expired.mapM s.activeOf).map fun timers =>
    (expired, { s with
      timers_ := s.timers_.dropBelow sentry
      activeTimers_ := timers.foldl OrderedSet.erase s.activeTimers_ })

/-- One iteration of the loop in `reset`. -/
def resetTimer (now : Timestamp) (s : TimerQueue) (entry : Entry) : Option TimerQueue :=
  let a := (ofLex entry).2
  (s.heap a).map fun t : Timer =>
    if t.repeat_ = true ∧ t.active a ∉ s.cancelingTimers_ then
      ((s.store a (t.restart now)).insert a (t.restart now)).2
    else s.free a t

/-- The end of `reset`: the timerfd is set to the first expiration, if that is valid. -/
def rearm (s : TimerQueue) : Option TimerQueue :=
  match s.timers_.begin? with
  | none => some s
  | some first => (s.heap (ofLex first).2).map fun t =>
    if t.expiration_.valid then s.resetTimerfd t.expiration_ else s

def reset (s : TimerQueue) (expired : List Entry) (now : Timestamp) : Option TimerQueue :=
  (Run.run (resetTimer now) s expired).bind rearm

/-- `handleRead` up to its loop. -/
def handleReadBegin (s : TimerQueue) (now : Timestamp) : Option TimerQueue :=
  let s := { s with started := s.started + 1 }.emit (.readTimerfd now)
  (s.getExpired now).map fun (expired, s) =>
    { s with callingExpiredTimers_ := true, frame := some ⟨now, expired, 0⟩ }

/-- One iteration of the loop in `handleRead`. -/
def runNext (s : TimerQueue) : Option TimerQueue :=
  s.frame.bind fun f => f.expired[f.ran]?.bind fun entry =>
    (s.heap (ofLex entry).2).map fun t =>
      { s with frame := some { f with ran := f.ran + 1 } }.emit (.called f.now (ofLex entry).2 t)

/-- `handleRead` after its loop. -/
def handleReadEnd (s : TimerQueue) : Option TimerQueue :=
  s.frame.bind fun f =>
    ({ s with callingExpiredTimers_ := false, frame := none }).reset f.expired f.now

/-! ## The destructor -/

/-- One iteration of the loop in the destructor. -/
def deleteTimer (s : TimerQueue) (entry : Entry) : Option TimerQueue :=
  (s.heap (ofLex entry).2).map fun t => s.free (ofLex entry).2 t

def destroy (s : TimerQueue) : Option TimerQueue :=
  (Run.run deleteTimer s s.timers_.toList).map fun s => { s with destroyed := true }

/-! ## Runs -/

inductive Event where
  | newTimer (a : Addr) (when : Timestamp) (interval : Interval) (others : ℕ)
  | addTimerInLoop (a : Addr)
  | cancelInLoop (timerId : TimerId)
  | handleReadBegin (now : Timestamp)
  | runNext
  | handleReadEnd
  | destroy

/-- The loop thread runs other code than `handleRead`'s: nothing is in progress, or a callback is. -/
def Outside (s : TimerQueue) : Prop := ∀ f ∈ s.frame, 0 < f.ran

/-- What can happen next. `new` returns an address where nothing lives; the functor of an `addTimer`
    runs once; the two functors, `handleRead` and the destructor run on the loop thread, which is in
    one place at a time. -/
def Enabled (s : TimerQueue) : Event → Prop
  | .newTimer a _ _ _ => s.heap a = none ∧ a < UINTPTR_MAX
  | .addTimerInLoop a => a ∈ s.inFlight ∧ s.Outside ∧ s.destroyed = false
  | .cancelInLoop _ => s.Outside ∧ s.destroyed = false
  | .handleReadBegin _ => s.frame = none ∧ s.destroyed = false
  | .runNext => ∃ f ∈ s.frame, f.ran < f.expired.length
  | .handleReadEnd => ∃ f ∈ s.frame, f.ran = f.expired.length
  | .destroy => s.frame = none ∧ s.destroyed = false

/-- The effect of an event; `none` if it touches a `Timer` that does not live. -/
def exec (s : TimerQueue) : Event → Option TimerQueue
  | .newTimer a when interval others => some (s.newTimer a when interval others)
  | .addTimerInLoop a => s.addTimerInLoop a
  | .cancelInLoop timerId => s.cancelInLoop timerId
  | .handleReadBegin now => s.handleReadBegin now
  | .runNext => s.runNext
  | .handleReadEnd => s.handleReadEnd
  | .destroy => s.destroy

instance (s : TimerQueue) : Decidable s.Outside :=
  inferInstanceAs (Decidable (∀ f ∈ s.frame, 0 < f.ran))

instance (s : TimerQueue) : (e : Event) → Decidable (s.Enabled e)
  | .newTimer a _ _ _ => inferInstanceAs (Decidable (s.heap a = none ∧ a < UINTPTR_MAX))
  | .addTimerInLoop a => inferInstanceAs (Decidable (a ∈ s.inFlight ∧ s.Outside ∧ s.destroyed = false))
  | .cancelInLoop _ => inferInstanceAs (Decidable (s.Outside ∧ s.destroyed = false))
  | .handleReadBegin _ => inferInstanceAs (Decidable (s.frame = none ∧ s.destroyed = false))
  | .runNext => inferInstanceAs (Decidable (∃ f ∈ s.frame, f.ran < f.expired.length))
  | .handleReadEnd => inferInstanceAs (Decidable (∃ f ∈ s.frame, f.ran = f.expired.length))
  | .destroy => inferInstanceAs (Decidable (s.frame = none ∧ s.destroyed = false))

def step : TimerQueue → Event → Option TimerQueue := Run.restrict Enabled exec

/-! ## Sequence numbers

Only `new Timer` draws one. -/

section NumCreated

variable {s s' : TimerQueue}

theorem numCreated_addTimerInLoop {a : Addr} (h : s.addTimerInLoop a = some s') :
    s'.s_numCreated_ = s.s_numCreated_ := by
  obtain ⟨t, -, rfl⟩ := Option.map_eq_some_iff.1 h
  dsimp only
  split <;> rfl

theorem numCreated_cancelInLoop {timerId : TimerId} (h : s.cancelInLoop timerId = some s') :
    s'.s_numCreated_ = s.s_numCreated_ := by
  unfold cancelInLoop at h
  dsimp only at h
  split at h
  · obtain ⟨t, -, rfl⟩ := Option.map_eq_some_iff.1 h
    rfl
  · split at h
    · obtain rfl := Option.some.inj h
      rfl
    · obtain rfl := Option.some.inj h
      rfl

theorem numCreated_handleReadBegin {now : Timestamp} (h : s.handleReadBegin now = some s') :
    s'.s_numCreated_ = s.s_numCreated_ := by
  obtain ⟨⟨expired, s₁⟩, hexpired, rfl⟩ := Option.map_eq_some_iff.1 h
  obtain ⟨is, -, heq⟩ := Option.map_eq_some_iff.1 hexpired
  obtain ⟨-, rfl⟩ := Prod.mk.inj heq
  rfl

theorem numCreated_runNext (h : s.runNext = some s') : s'.s_numCreated_ = s.s_numCreated_ := by
  obtain ⟨f, -, h⟩ := Option.bind_eq_some_iff.1 h
  obtain ⟨entry, -, h⟩ := Option.bind_eq_some_iff.1 h
  obtain ⟨t, -, rfl⟩ := Option.map_eq_some_iff.1 h
  rfl

theorem numCreated_resetTimer {now : Timestamp} {entry : Entry}
    (h : resetTimer now s entry = some s') : s'.s_numCreated_ = s.s_numCreated_ := by
  obtain ⟨t, -, rfl⟩ := Option.map_eq_some_iff.1 h
  split <;> rfl

theorem numCreated_rearm (h : s.rearm = some s') : s'.s_numCreated_ = s.s_numCreated_ := by
  unfold rearm at h
  split at h
  · obtain rfl := Option.some.inj h
    rfl
  · obtain ⟨t, -, rfl⟩ := Option.map_eq_some_iff.1 h
    split <;> rfl

theorem numCreated_handleReadEnd (h : s.handleReadEnd = some s') :
    s'.s_numCreated_ = s.s_numCreated_ := by
  obtain ⟨f, -, h⟩ := Option.bind_eq_some_iff.1 h
  obtain ⟨s₁, hrun, hrearm⟩ := Option.bind_eq_some_iff.1 h
  rw [numCreated_rearm hrearm]
  exact Run.inv_run (I := fun u => u.s_numCreated_ = s.s_numCreated_)
    (fun _ _ _ hI h => (numCreated_resetTimer h).trans hI) rfl hrun

end NumCreated

end TimerQueue

end WwjMuduo
