import Mathlib.Algebra.Group.Nat.Defs
import Mathlib.Data.List.Forall2
import Mathlib.Logic.Function.Basic
import Mathlib.Tactic.Common
import WwjMuduo.Lib.Run

set_option autoImplicit false

/-! # EventLoop

One `EventLoop` and all the threads that use it. The loop thread goes round in `loop()`; the others,
and on the loop thread the event handlers and the functors, call `queueInLoop`, `runInLoop` and
`quit()`. Each call is cut where another thread can get between: a push is one step, for it is made
under the mutex, and the write to the eventfd behind it is another; so are the two statements of
`quit()`.

A functor is a value of any type, and so is a thread other than the loop's. What has been pushed and
what has been executed is remembered, each with the number of batches taken by then. -/

namespace WwjMuduo

/-- Where the loop thread is. -/
inductive Place where
  /-- not in `loop()` -/
  | outside
  /-- before `quit_=false` -/
  | starting
  /-- before `while(!quit_)` -/
  | testing
  /-- in `::poll` -/
  | polling
  /-- among the handlers; whether `handleRead` of the wakeup channel is still to come -/
  | handling (wakeup : Bool)
  /-- before the swap -/
  | swapping
  /-- in the loop over `functors`; whether one has been called -/
  | calling (running : Bool)
  deriving DecidableEq

/-- What a thread is in the middle of. -/
inductive Task where
  | idle
  /-- in `queueInLoop`, behind the push -/
  | queueing
  /-- in `quit()`, behind `quit_=true` -/
  | quitting
  deriving DecidableEq

/-- An event loop. `none` stands for the loop thread, `some t` for another. -/
structure Loop (φ τ : Type*) where
  looping_ : Bool
  quit_ : Bool
  callingPendingFunctors_ : Bool
  pendingFunctors_ : List φ
  /-- The counter behind the descriptor. -/
  wakeupFd_ : ℕ
  /-- The vector of `doPendingFunctors`, from the next functor on. -/
  functors : List φ
  place : Place
  task : Option τ → Task
  /-- A `doPendingFunctors` has ended since `loop()` was called. -/
  swept : Bool
  /-- How many batches have been taken. -/
  batches : ℕ
  pushed : List (φ × ℕ)
  executed : List (φ × ℕ)
  /-- All functors run, queued or at once. -/
  ran : List φ

/-- A step of the loop thread or of a call. -/
inductive LoopEvent (φ τ : Type*) where
  | loop
  | clearQuit
  | test
  | poll (reported : Bool)
  | handleRead
  | doPendingFunctors
  | swap
  | call
  | endPending
  | queueInLoop (t : Option τ) (f : φ)
  | runInLoop (t : Option τ) (f : φ)
  | quit (t : Option τ)
  | finish (t : Option τ)

/-- The thread whose step it is. -/
def LoopEvent.thread {φ τ : Type*} : LoopEvent φ τ → Option τ
  | .queueInLoop t _ => t
  | .runInLoop t _ => t
  | .quit t => t
  | .finish t => t
  | _ => none

/-- The loop thread runs code that is not the loop's own. -/
def Place.user : Place → Bool
  | .outside | .handling _ | .calling true => true
  | _ => false

/-- The loop thread is among the handlers. -/
def Place.inHandlers : Place → Bool
  | .handling _ => true
  | _ => false

/-- The largest value of an eventfd counter. -/
def eventfdMax : ℕ := 2 ^ 64 - 2

namespace Loop

variable {φ τ : Type*}

/-- The constructor. -/
def new : Loop φ τ :=
  { looping_ := false
    quit_ := false
    callingPendingFunctors_ := false
    pendingFunctors_ := []
    wakeupFd_ := 0
    functors := []
    place := .outside
    task := fun _ => .idle
    swept := false
    batches := 0
    pushed := []
    executed := []
    ran := [] }

/-- The write to the descriptor, which does not block. -/
def wakeup (s : Loop φ τ) : Loop φ τ :=
  { s with wakeupFd_ := if s.wakeupFd_ < eventfdMax then s.wakeupFd_ + 1 else s.wakeupFd_ }

/-- The read, which takes all there is. -/
def handleRead (s : Loop φ τ) : Loop φ τ := { s with wakeupFd_ := 0, place := .handling false }

variable [DecidableEq τ]

def setTask (s : Loop φ τ) (t : Option τ) (task : Task) : Loop φ τ :=
  { s with task := Function.update s.task t task }

/-- `queueInLoop` up to the push. -/
def push (s : Loop φ τ) (t : Option τ) (f : φ) : Loop φ τ :=
  { s with pendingFunctors_ := s.pendingFunctors_ ++ [f]
           pushed := s.pushed ++ [(f, s.batches)] }.setTask t .queueing

def runInLoop (s : Loop φ τ) (t : Option τ) (f : φ) : Loop φ τ :=
  if t = none then { s with ran := s.ran ++ [f] } else s.push t f

/-- The rest of a call: `queueInLoop` from `isInLoopThread()` on, or `quit()`. -/
def finish (s : Loop φ τ) (t : Option τ) : Loop φ τ :=
  let s' := s.setTask t .idle
  match s.task t with
  | .idle => s
  | .queueing => if t ≠ none ∨ s.callingPendingFunctors_ then s'.wakeup else s'
  | .quitting => if t ≠ none then s'.wakeup else s'

/-- `functors[i]()`. -/
def call (s : Loop φ τ) : Loop φ τ :=
  match s.functors with
  | [] => s
  | f :: functors =>
    { s with functors := functors
             place := .calling true
             executed := s.executed ++ [(f, s.batches)]
             ran := s.ran ++ [f] }

/-- A thread can make a call. -/
def Free (s : Loop φ τ) (t : Option τ) : Prop :=
  s.task t = .idle ∧ (t = none → s.place.user = true)

/-- What can happen next. The loop thread goes on when it is not in the middle of a call. The wakeup
    channel is reported only if there is something to read. -/
def Enabled (s : Loop φ τ) : LoopEvent φ τ → Prop
  | .loop => s.place = .outside ∧ s.task none = .idle
  | .clearQuit => s.place = .starting
  | .test => s.place = .testing
  | .poll reported => s.place = .polling ∧ (reported = true → s.wakeupFd_ ≠ 0)
  | .handleRead => s.place = .handling true ∧ s.task none = .idle
  | .doPendingFunctors => s.place = .handling false ∧ s.task none = .idle
  | .swap => s.place = .swapping
  | .call => (∃ r, s.place = .calling r) ∧ s.task none = .idle ∧ s.functors ≠ []
  | .endPending => (∃ r, s.place = .calling r) ∧ s.task none = .idle ∧ s.functors = []
  | .queueInLoop t _ => s.Free t
  | .runInLoop t _ => s.Free t
  | .quit t => s.Free t
  | .finish t => s.task t ≠ .idle

/-- What an event does. -/
def exec (s : Loop φ τ) : LoopEvent φ τ → Loop φ τ
  | .loop => { s with looping_ := true, place := .starting, swept := false }
  | .clearQuit => { s with quit_ := false, place := .testing }
  | .test =>
    if s.quit_ then { s with looping_ := false, place := .outside } else { s with place := .polling }
  | .poll reported => { s with place := .handling reported }
  | .handleRead => s.handleRead
  | .doPendingFunctors => { s with callingPendingFunctors_ := true, place := .swapping }
  | .swap =>
    { s with functors := s.pendingFunctors_
             pendingFunctors_ := []
             place := .calling false
             batches := s.batches + 1 }
  | .call => s.call
  | .endPending => { s with callingPendingFunctors_ := false, place := .testing, swept := true }
  | .queueInLoop t f => s.push t f
  | .runInLoop t f => s.runInLoop t f
  | .quit t => { s with quit_ := true }.setTask t .quitting
  | .finish t => s.finish t

instance (s : Loop φ τ) (t : Option τ) : Decidable (s.Free t) :=
  inferInstanceAs (Decidable (_ ∧ _))

instance (p : Place) : Decidable (∃ r, p = .calling r) :=
  decidable_of_iff (p = .calling true ∨ p = .calling false) <| by
    constructor
    · rintro (h | h)
      · exact ⟨true, h⟩
      · exact ⟨false, h⟩
    · rintro ⟨r, h⟩
      cases r with
      | true => exact .inl h
      | false => exact .inr h

instance (s : Loop φ τ) (e : LoopEvent φ τ) : Decidable (s.Enabled e) := by
  cases e <;> unfold Enabled <;> infer_instance

def step (s : Loop φ τ) (e : LoopEvent φ τ) : Option (Loop φ τ) :=
  if s.Enabled e then some (s.exec e) else none

/-! ## What each function leaves alone -/

@[simp]
theorem setTask_self (s : Loop φ τ) (t : Option τ) (task : Task) : (s.setTask t task).task t = task :=
  Function.update_self ..

theorem setTask_of_ne (s : Loop φ τ) {t u : Option τ} (task : Task) (h : u ≠ t) :
    (s.setTask t task).task u = s.task u := Function.update_of_ne h ..

theorem eq_or_of_setTask {s : Loop φ τ} {t u : Option τ} {task task' : Task}
    (h : (s.setTask u task).task t = task') : (u = t ∧ task = task') ∨ s.task t = task' := by
  by_cases ht : t = u
  · subst ht
    rw [setTask_self] at h
    exact .inl ⟨rfl, h⟩
  · rw [setTask_of_ne s task ht] at h
    exact .inr h

omit [DecidableEq τ] in
theorem wakeup_ne_zero (s : Loop φ τ) : s.wakeup.wakeupFd_ ≠ 0 := by
  show (if s.wakeupFd_ < eventfdMax then s.wakeupFd_ + 1 else s.wakeupFd_) ≠ 0
  split
  · omega
  · next h =>
      unfold eventfdMax at h
      omega

/-- The rest of a call changes the counter and where the thread is. -/
theorem finish_rest (s : Loop φ τ) (t : Option τ) :
    s.finish t = { s with task := (s.finish t).task, wakeupFd_ := (s.finish t).wakeupFd_ } := by
  unfold finish
  cases s.task t with
  | idle => rfl
  | queueing =>
      dsimp only
      split <;> rfl
  | quitting =>
      dsimp only
      split <;> rfl

theorem finish_task (s : Loop φ τ) (t : Option τ) :
    (s.finish t).task = Function.update s.task t .idle := by
  unfold finish
  cases h : s.task t with
  | idle =>
      have hidle : Function.update s.task t .idle = s.task := by rw [← h, Function.update_eq_self]
      exact hidle.symm
  | queueing =>
      dsimp only
      split <;> rfl
  | quitting =>
      dsimp only
      split <;> rfl

section Finish

variable (s : Loop φ τ) (t : Option τ)

@[simp]
theorem finish_place : (s.finish t).place = s.place := by rw [finish_rest]

@[simp]
theorem finish_swept : (s.finish t).swept = s.swept := by rw [finish_rest]

@[simp]
theorem finish_callingPendingFunctors :
    (s.finish t).callingPendingFunctors_ = s.callingPendingFunctors_ := by rw [finish_rest]

end Finish

omit [DecidableEq τ] in
theorem call_of_cons {s : Loop φ τ} {f : φ} {functors : List φ} (h : s.functors = f :: functors) :
    s.call = { s with functors := functors
                      place := .calling true
                      executed := s.executed ++ [(f, s.batches)]
                      ran := s.ran ++ [f] } := by
  rw [call, h]

theorem step_eq_some {s s' : Loop φ τ} {e : LoopEvent φ τ} :
    s.step e = some s' ↔ s.Enabled e ∧ s.exec e = s' := by
  rw [step]
  split
  · next h => simp [h]
  · next h => simp [h]

/-! ## What each event can do -/

theorem runInLoop_place (s : Loop φ τ) (t : Option τ) (f : φ) : (s.runInLoop t f).place = s.place := by
  unfold runInLoop
  split <;> rfl

theorem runInLoop_quit (s : Loop φ τ) (t : Option τ) (f : φ) : (s.runInLoop t f).quit_ = s.quit_ := by
  unfold runInLoop
  split <;> rfl

omit [DecidableEq τ] in
theorem call_rest (s : Loop φ τ) :
    s.call = { s with functors := s.call.functors, place := s.call.place, executed := s.call.executed,
                      ran := s.call.ran } := by
  unfold call
  split <;> rfl

/-- No other thread moves the loop thread. -/
theorem exec_place_of_thread {s : Loop φ τ} {e : LoopEvent φ τ} (he : e.thread ≠ none) :
    (s.exec e).place = s.place := by
  cases e with
  | queueInLoop t f => rfl
  | runInLoop t f => exact runInLoop_place s t f
  | quit t => rfl
  | finish t => exact finish_place s t
  | _ => exact absurd rfl he

theorem exec_test {s : Loop φ τ} (h : s.quit_ = false) :
    s.exec .test = { s with place := .polling } := by
  simp [exec, h]

/-- Only `quit_=false` clears the flag. -/
theorem quit_exec {s : Loop φ τ} {e : LoopEvent φ τ} (h : s.quit_ = true) (he : e ≠ .clearQuit) :
    (s.exec e).quit_ = true := by
  cases e with
  | clearQuit => exact absurd rfl he
  | test =>
      simp only [exec]
      split <;> exact h
  | call =>
      rw [exec, call_rest]
      exact h
  | runInLoop t f =>
      rw [exec, runInLoop_quit]
      exact h
  | quit t => rfl
  | finish t =>
      rw [exec, finish_rest]
      exact h
  | _ => exact h

/-- A step changes nothing in what the other threads are in the middle of. -/
theorem exec_task_of_ne {s : Loop φ τ} {e : LoopEvent φ τ} {t : Option τ} (ht : t ≠ e.thread) :
    (s.exec e).task t = s.task t := by
  cases e with
  | test =>
      simp only [exec]
      split <;> rfl
  | call =>
      rw [exec, call_rest]
  | queueInLoop u f => exact setTask_of_ne _ _ ht
  | runInLoop u f =>
      simp only [exec, runInLoop]
      split
      · rfl
      · exact setTask_of_ne _ _ ht
  | quit u => exact setTask_of_ne _ _ ht
  | finish u =>
      rw [exec, finish_task]
      exact Function.update_of_ne ht ..
  | _ => rfl

/-- A thread behind `quit_=true` came there by a `quit()`. -/
theorem quitting_of_exec {s : Loop φ τ} {e : LoopEvent φ τ} {t : Option τ}
    (h : (s.exec e).task t = .quitting) : e = .quit t ∨ s.task t = .quitting := by
  cases e with
  | test =>
      simp only [exec] at h
      split at h <;> exact .inr h
  | call =>
      rw [exec, call_rest] at h
      exact .inr h
  | queueInLoop u f => exact .inr ((eq_or_of_setTask h).resolve_left (by simp))
  | runInLoop u f =>
      simp only [exec, runInLoop] at h
      split at h
      · exact .inr h
      · exact .inr ((eq_or_of_setTask h).resolve_left (by simp))
  | quit u =>
      rcases eq_or_of_setTask h with ⟨rfl, -⟩ | h
      · exact .inl rfl
      · exact .inr h
  | finish u =>
      rw [exec, finish_task] at h
      have h : (s.setTask u .idle).task t = .quitting := h
      exact .inr ((eq_or_of_setTask h).resolve_left (by simp))
  | _ => exact .inr h

/-- `loop()` is entered by its call only. -/
theorem starting_of_exec {s : Loop φ τ} {e : LoopEvent φ τ} (h : (s.exec e).place = .starting) :
    e = .loop ∨ s.place = .starting := by
  cases e with
  | loop => exact .inl rfl
  | test =>
      simp only [exec] at h
      split at h <;> exact absurd h (by simp)
  | call =>
      simp only [exec, call] at h
      split at h
      · exact .inr h
      · exact absurd h (by simp)
  | runInLoop t f =>
      rw [exec, runInLoop_place] at h
      exact .inr h
  | finish t =>
      rw [exec, finish_place] at h
      exact .inr h
  | queueInLoop t f => exact .inr h
  | quit t => exact .inr h
  | _ => exact absurd h (by simp [exec, handleRead])

/-- It is left only where `while(!quit_)` finds the flag set. -/
theorem outside_of_exec {s : Loop φ τ} {e : LoopEvent φ τ} (h : (s.exec e).place = .outside) :
    (e = .test ∧ s.quit_ = true) ∨ s.place = .outside := by
  cases e with
  | test =>
      simp only [exec] at h
      split at h
      · next hq => exact .inl ⟨rfl, hq⟩
      · exact absurd h (by simp)
  | call =>
      simp only [exec, call] at h
      split at h
      · exact .inr h
      · exact absurd h (by simp)
  | runInLoop t f =>
      rw [exec, runInLoop_place] at h
      exact .inr h
  | finish t =>
      rw [exec, finish_place] at h
      exact .inr h
  | queueInLoop t f => exact .inr h
  | quit t => exact .inr h
  | _ => exact absurd h (by simp [exec, handleRead])

end Loop

end WwjMuduo
