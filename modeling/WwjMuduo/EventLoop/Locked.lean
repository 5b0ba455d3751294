import WwjMuduo.EventLoop
import WwjMuduo.Lib.Critical

set_option autoImplicit false

/-! # The mutex of the pending functors

`EventLoop.lean` makes a push and the swap one step each. The code makes them in critical sections of
`mutex_`: `pendingFunctors_.push_back(cb)` reads the vector and writes it back longer, and
`functors.swap(pendingFunctors_)` reads it and writes an empty one. `Lib/Critical.lean` says when that
comes to the same; here it is instantiated. -/

namespace WwjMuduo

namespace Loop

variable {φ τ : Type*} [DecidableEq τ]

/-- The event has a `MutexLockGuard`: a push, or the swap. -/
def guarded : LoopEvent φ τ → Bool
  | .queueInLoop _ _ => true
  | .runInLoop t _ => t.isSome
  | .swap => true
  | _ => false

variable {s : Loop φ τ} {e f : LoopEvent φ τ}

theorem pendingFunctors_exec (he : guarded e = false) :
    (s.exec e).pendingFunctors_ = s.pendingFunctors_ := by
  cases e with
  | queueInLoop t f => exact absurd he (by simp [guarded])
  | swap => exact absurd he (by simp [guarded])
  | runInLoop t f =>
      obtain rfl : t = none := by simpa [guarded] using he
      rfl
  | test =>
      simp only [exec]
      split <;> rfl
  | call => rw [exec, call_rest]
  | finish t => rw [exec, finish_rest]
  | _ => rfl

/-- The loop thread's vector is its own. -/
theorem functors_exec_of_thread (hf : f.thread ≠ none) : (s.exec f).functors = s.functors := by
  cases f with
  | queueInLoop t f => rfl
  | runInLoop t f =>
      simp only [exec, runInLoop]
      split <;> rfl
  | quit t => rfl
  | finish t => rw [exec, finish_rest]
  | _ => exact absurd rfl hf

/-- Only the loop thread empties the counter. -/
theorem wakeupFd_exec_of_thread (hf : f.thread ≠ none) (h : s.wakeupFd_ ≠ 0) :
    (s.exec f).wakeupFd_ ≠ 0 := by
  cases f with
  | queueInLoop t f => exact h
  | runInLoop t f =>
      simp only [exec, runInLoop]
      split <;> exact h
  | quit t => exact h
  | finish t =>
      simp only [exec, finish]
      cases s.task t with
      | idle => exact h
      | queueing =>
          dsimp only
          split
          · exact wakeup_ne_zero _
          · exact h
      | quitting =>
          dsimp only
          split
          · exact wakeup_ne_zero _
          · exact h
  | _ => exact absurd rfl hf

/-- What a thread can do, it can still do after a step of another one. -/
theorem enabled_exec_of_ne (h : f.thread ≠ e.thread) (he : s.Enabled e) : (s.exec f).Enabled e := by
  have htask := exec_task_of_ne (s := s) (Ne.symm h)
  have hfree (t : Option τ) (ht : e.thread = t) (hfree : s.Free t) : (s.exec f).Free t := by
    subst ht
    refine ⟨htask.trans hfree.1, fun hnone => ?_⟩
    rw [hnone] at h
    rw [exec_place_of_thread h]
    exact hfree.2 hnone
  have hloop (hnone : e.thread = none) : (s.exec f).place = s.place ∧
      (s.exec f).task none = s.task none ∧ (s.exec f).functors = s.functors := by
    rw [hnone] at h htask
    exact ⟨exec_place_of_thread h, htask, functors_exec_of_thread h⟩
  cases e with
  | queueInLoop t g => exact hfree t rfl he
  | runInLoop t g => exact hfree t rfl he
  | quit t => exact hfree t rfl he
  | finish t => exact fun hidle => he (htask.symm.trans hidle)
  | poll reported =>
      obtain ⟨hplace, -, -⟩ := hloop rfl
      exact ⟨hplace.trans he.1, fun hr => wakeupFd_exec_of_thread h (he.2 hr)⟩
  | _ =>
      obtain ⟨hplace, hidle, hfunctors⟩ := hloop rfl
      simp only [Enabled, hplace, hidle, hfunctors]
      exact he

/-- The loop, its threads, and `pendingFunctors_` under its mutex. -/
def shared : Critical.Shared (Loop φ τ) (LoopEvent φ τ) (Option τ) (List φ) where
  step := step
  thread := LoopEvent.thread
  guarded := guarded
  get := pendingFunctors_
  put s functors := { s with pendingFunctors_ := functors }
  put_get _ := rfl
  get_step _ _ _ h hguarded := by
    obtain ⟨-, rfl⟩ := step_eq_some.1 h
    exact pendingFunctors_exec hguarded
  stays _ _ _ _ h hthread he := by
    obtain ⟨-, rfl⟩ := step_eq_some.1 h
    obtain ⟨s', he⟩ := Option.isSome_iff_exists.1 he
    exact Option.isSome_iff_exists.2
      ⟨_, step_eq_some.2 ⟨enabled_exec_of_ne hthread (step_eq_some.1 he).1, rfl⟩⟩

/-- **Pushes and the swap are atomic.** However the threads run between the statements of the critical
    sections, the loop is in the state that `EventLoop.lean` leads to when each push and each swap is
    made where the vector is written back; at most one thread is in a critical section; and while one
    is in it or waits for it, one can go on in it. -/
theorem locked_refines (events : List (Critical.Event (LoopEvent φ τ) (Option τ))) :
    (∀ s, Run.run (Critical.step shared) (Critical.start (new : Loop φ τ)) events = some s →
      Run.run step new
        (Run.image (Critical.step shared) Critical.atomically (Critical.start new) events) =
          some s.state) ∧
    Run.Along (Critical.step shared) (fun s =>
      (∀ t u, (s.phase t).holds = true → (s.phase u).holds = true → t = u) ∧
      ∀ t, s.phase t ≠ .outside → ∃ e : Critical.Event (LoopEvent φ τ) (Option τ),
        e.within = true ∧ (Critical.step shared s e).isSome)
      (Critical.start (new : Loop φ τ)) events := by
  refine ⟨fun s hrun => Critical.run_state hrun, ?_⟩
  exact Run.Along.of_inv (fun _ _ _ (I : Critical.Inv shared _) h => I.step h)
    (fun _ I => ⟨fun _ _ => I.exclusive, fun _ => I.proceeds⟩) (Critical.inv_start new) events

/-- One thread pushes; then the loop thread and another one want the mutex, and the other is first. -/
theorem locked_refines_contended :
    let events : List (Critical.Event (LoopEvent ℕ Bool) (Option Bool)) :=
      [.plain .loop, .plain .clearQuit, .plain .test, .request (.queueInLoop (some true) 7),
        .lock (some true), .load (some true), .store (some true), .unlock (some true),
        .plain (.finish (some true)), .plain (.poll true), .plain .handleRead,
        .plain .doPendingFunctors, .request .swap, .request (.queueInLoop (some false) 8),
        .lock (some false), .load (some false), .store (some false), .unlock (some false),
        .lock none, .load none, .store none, .unlock none]
    ∃ s, Run.run (Critical.step shared) (Critical.start (new : Loop ℕ Bool)) events = some s ∧
      s.state.functors = [7, 8] ∧ s.state.pendingFunctors_ = [] ∧
      Run.run step new
        (Run.image (Critical.step shared) Critical.atomically (Critical.start new) events) =
          some s.state := by
  intro events
  exact ⟨_, rfl, rfl, rfl, (locked_refines events).1 _ rfl⟩

end Loop

end WwjMuduo
