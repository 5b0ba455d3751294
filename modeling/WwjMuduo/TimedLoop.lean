import WwjMuduo.EventLoop.Turns
import WwjMuduo.TimerQueue

set_option autoImplicit false

/-! # A loop and its timer queue

Any thread adds and cancels timers. `addTimer` makes the `Timer` on the calling thread, hands
`addTimerInLoop` to `runInLoop`, and reads the sequence number for the id it returns from the `Timer`
again; `cancel` hands over `cancelInLoop`. The functors are those of `EventLoop.lean`: they wait in
`pendingFunctors_`, or run at once if the caller is the loop thread. What they do to the queue is that
of `TimerQueue.lean`, and so are the steps of its `handleRead`, which the loop thread makes among its
handlers; the callbacks it runs are code of the loop thread that may add and cancel. -/

namespace WwjMuduo

/-- A functor: one that the timer queue binds, or another. -/
inductive TimerFunctor where
  | addTimerInLoop (timer : TimerId)
  | cancelInLoop (timerId : TimerId)
  | other
  deriving DecidableEq

/-- What the functor does to the queue. -/
def TimerFunctor.run (s : TimerQueue) : TimerFunctor → Option TimerQueue
  | .addTimerInLoop timer => s.addTimerInLoop timer.timer_
  | .cancelInLoop timerId => s.cancelInLoop timerId
  | .other => some s

/-- Where a thread is in `addTimer`. -/
inductive Adding where
  | no
  /-- behind `new Timer` -/
  | made (timer : TimerId)
  /-- in `runInLoop`, or behind it -/
  | submitted (timer : TimerId)
  deriving DecidableEq

structure TimedLoop (τ : Type*) where
  loop : Loop TimerFunctor τ
  timerQueue_ : TimerQueue
  adding : Option τ → Adding
  /-- The ids that `addTimer` has returned. -/
  returned : List TimerId

inductive TimedEvent (τ : Type*) where
  | newTimer (t : Option τ) (a : Addr) (when : Timestamp) (interval : Interval) (others : ℕ)
  | addTimer (t : Option τ)
  | returned (t : Option τ)
  | cancel (t : Option τ) (timerId : TimerId)
  | on (e : LoopEvent TimerFunctor τ)
  | handleReadBegin (now : Timestamp)
  | runNext
  | handleReadEnd

namespace TimedLoop

variable {τ : Type*}

def new (numCreated : ℤ) : TimedLoop τ :=
  { loop := .new
    timerQueue_ := .new numCreated
    adding := fun _ => .no
    returned := [] }

/-- The `Timer` of the id has not been deleted. -/
def Lives (s : TimedLoop τ) (timer : TimerId) : Prop :=
  ∃ t ∈ s.timerQueue_.heap timer.timer_, t.sequence_ = timer.sequence_

/-- The thread can make a call. On the loop thread a callback of the timer queue can, but not its
    `handleRead`. -/
def Free (s : TimedLoop τ) (t : Option τ) : Prop :=
  s.adding t = .no ∧ s.loop.Free t ∧ (t = none → s.timerQueue_.Outside)

/-- The loop thread is among the handlers, in the middle of none of its calls. -/
def Handling (s : TimedLoop τ) : Prop :=
  s.loop.place.inHandlers = true ∧ s.loop.task none = .idle ∧ s.adding none = .no

/-- The step of the loop is not one of the timer queue's calls, and not made in the middle of one. -/
def Admits (s : TimedLoop τ) : LoopEvent TimerFunctor τ → Prop
  | .queueInLoop t f => f = .other ∧ s.Free t
  | .runInLoop t f => f = .other ∧ s.Free t
  | .quit t => s.Free t
  | .finish _ => True
  | _ => s.adding none = .no ∧ s.timerQueue_.frame = none

instance (s : TimedLoop τ) (timer : TimerId) : Decidable (s.Lives timer) :=
  inferInstanceAs (Decidable (∃ t ∈ s.timerQueue_.heap timer.timer_, _))

instance (s : TimedLoop τ) : Decidable s.Handling :=
  inferInstanceAs (Decidable (_ ∧ _))

variable [DecidableEq τ]

instance (s : TimedLoop τ) (t : Option τ) : Decidable (s.Free t) :=
  inferInstanceAs (Decidable (_ ∧ _))

instance (s : TimedLoop τ) (e : LoopEvent TimerFunctor τ) : Decidable (s.Admits e) := by
  cases e <;> unfold Admits <;> infer_instance

/-- What can happen next. Only an id that has been returned is cancelled. -/
def Enabled (s : TimedLoop τ) : TimedEvent τ → Prop
  | .newTimer t a when interval others =>
    s.Free t ∧ s.timerQueue_.Enabled (.newTimer a when interval others)
  | .addTimer t => s.loop.Free t
  | .returned t => s.loop.task t = .idle
  | .cancel t timerId => s.Free t ∧ timerId ∈ s.returned
  | .on e => s.Admits e ∧ s.loop.Enabled e
  | .handleReadBegin now => s.Handling ∧ s.timerQueue_.Enabled (.handleReadBegin now)
  | .runNext => s.Handling ∧ s.timerQueue_.Enabled .runNext
  | .handleReadEnd => s.Handling ∧ s.timerQueue_.Enabled .handleReadEnd

instance (s : TimedLoop τ) (e : TimedEvent τ) : Decidable (s.Enabled e) := by
  cases e <;> unfold Enabled <;> infer_instance

def withQueue (s : TimedLoop τ) (timerQueue : TimerQueue) : TimedLoop τ :=
  { s with timerQueue_ := timerQueue }

def setAdding (s : TimedLoop τ) (t : Option τ) (adding : Adding) : TimedLoop τ :=
  { s with adding := Function.update s.adding t adding }

/-- `runInLoop` of a functor of the queue. -/
def runInLoop (s : TimedLoop τ) (t : Option τ) (f : TimerFunctor) : Option (TimedLoop τ) :=
  let s' := { s with loop := s.loop.exec (.runInLoop t f) }
  if t = none then (f.run s.timerQueue_).map s'.withQueue else some s'

/-- A step of the loop; a call runs its functor. -/
def onLoop (s : TimedLoop τ) (e : LoopEvent TimerFunctor τ) : Option (TimedLoop τ) :=
  let s' := { s with loop := s.loop.exec e }
  match e, s.loop.functors with
  | .call, f :: _ => (f.run s.timerQueue_).map s'.withQueue
  | _, _ => some s'

/-- The effect of an event; `none` if it touches a `Timer` that does not live. -/
def exec (s : TimedLoop τ) : TimedEvent τ → Option (TimedLoop τ)
  | .newTimer t a when interval others =>
    let timerQueue := s.timerQueue_.newTimer a when interval others
    some ((s.withQueue timerQueue).setAdding t (.made ⟨a, timerQueue.s_numCreated_⟩))
  | .addTimer t =>
    match s.adding t with
    | .made timer => (s.runInLoop t (.addTimerInLoop timer)).map fun s =>
      s.setAdding t (.submitted timer)
    | _ => none
  | .returned t =>
    match s.adding t with
    | .submitted timer =>
      if s.Lives timer then some { s.setAdding t .no with returned := s.returned ++ [timer] } else none
    | _ => none
  | .cancel t timerId => s.runInLoop t (.cancelInLoop timerId)
  | .on e => s.onLoop e
  | .handleReadBegin now => (s.timerQueue_.handleReadBegin now).map s.withQueue
  | .runNext => s.timerQueue_.runNext.map s.withQueue
  | .handleReadEnd => s.timerQueue_.handleReadEnd.map s.withQueue

def step : TimedLoop τ → TimedEvent τ → Option (TimedLoop τ) := Run.restrict Enabled exec

end TimedLoop

end WwjMuduo
