import WwjMuduo.EventLoop

set_option autoImplicit false

/-! # No lost wakeup

A functor pushed while the loop thread is on its way to `::poll` would wait there until something else
happens. What is pushed before the swap is taken by it. After the swap the pushes of the other threads
are followed by a write, and those of the loop thread too, as long as `callingPendingFunctors_` is set;
and the counter is not read again before the next swap. -/

namespace WwjMuduo

namespace Loop

variable {φ τ : Type*} [DecidableEq τ]

/-- Nothing is pending, or something will end the next `::poll`. -/
def Covered (s : Loop φ τ) : Prop :=
  s.pendingFunctors_ = [] ∨ s.wakeupFd_ ≠ 0 ∨ ∃ t, s.task t = .queueing

/-- The loop thread has left the swap behind and not yet come back to the handlers. -/
def Place.swept : Place → Bool → Bool
  | .calling _, _ => true
  | .testing, swept => swept
  | .polling, swept => swept
  | _, _ => false

structure WakeupInv (s : Loop φ τ) : Prop where
  calling : s.callingPendingFunctors_ = true ↔ s.place = .swapping ∨ ∃ r, s.place = .calling r
  self : s.task none ≠ .idle → s.place.user = true
  fresh : s.place = .starting → s.swept = false
  covered : Place.swept s.place s.swept = true → s.Covered

/-- The loop thread waits in `::poll`, after a `doPendingFunctors`, only if nothing is pending or it
    will be woken. -/
def Woken (s : Loop φ τ) : Prop :=
  s.place = .polling → s.swept = true → s.pendingFunctors_ ≠ [] →
    s.wakeupFd_ ≠ 0 ∨ ∃ t : τ, s.task (some t) = .queueing

variable {s s' : Loop φ τ}

omit [DecidableEq τ] in
/-- Where the loop thread does not run code of others, it is not in the middle of a call. -/
theorem WakeupInv.idle (I : WakeupInv s) (h : s.place.user = false) : s.task none = .idle := by
  by_contra hne
  rw [I.self hne] at h
  exact absurd h (by simp)

theorem covered_setTask (s : Loop φ τ) (t : Option τ) : (s.setTask t .queueing).Covered :=
  .inr (.inr ⟨t, setTask_self ..⟩)

/-- A thread that was not behind a push covered nothing. -/
theorem Covered.setTask (h : s.Covered) {t : Option τ} (ht : s.task t ≠ .queueing) (task : Task) :
    (s.setTask t task).Covered := by
  rcases h with h | h | ⟨u, hu⟩
  · exact .inl h
  · exact .inr (.inl h)
  · have hut : u ≠ t := by
      rintro rfl
      exact ht hu
    exact .inr (.inr ⟨u, by rw [setTask_of_ne s task hut, hu]⟩)

/-- The end of a call of another thread, or of a `queueInLoop` while functors are called, writes. -/
theorem covered_finish (s : Loop φ τ) {t : Option τ} (ht : s.task t ≠ .idle)
    (h : t ≠ none ∨ (s.task t = .queueing ∧ s.callingPendingFunctors_ = true)) :
    (s.finish t).Covered := by
  refine .inr (.inl ?_)
  unfold finish
  cases htask : s.task t with
  | idle => exact absurd htask ht
  | queueing =>
      have hcond : t ≠ none ∨ s.callingPendingFunctors_ = true := h.imp_right And.right
      simp only [if_pos hcond]
      exact wakeup_ne_zero _
  | quitting =>
      have hcond : t ≠ none := h.resolve_right fun h => by simp [htask] at h
      simp only [if_pos hcond]
      exact wakeup_ne_zero _

omit [DecidableEq τ] in
/-- A call changes neither where the loop thread is nor what `callingPendingFunctors_` says of it. -/
theorem WakeupInv.of_call (I : WakeupInv s) {t : Option τ} (hfree : s.Free t)
    (hplace : s'.place = s.place) (hcalling : s'.callingPendingFunctors_ = s.callingPendingFunctors_)
    (hswept : s'.swept = s.swept) (htask : ∀ u, u ≠ t → s'.task u = s.task u)
    (hcovered : s.Covered → s'.Covered) : WakeupInv s' := by
  refine ⟨?_, fun h => ?_, ?_, ?_⟩
  · rw [hcalling, hplace]
    exact I.calling
  · rw [hplace]
    by_cases ht : t = none
    · exact hfree.2 ht
    · rw [htask none (Ne.symm ht)] at h
      exact I.self h
  · rw [hplace, hswept]
    exact I.fresh
  · rw [hplace, hswept]
    exact fun h => hcovered (I.covered h)

theorem WakeupInv.finish (I : WakeupInv s) {t : Option τ} (ht : s.task t ≠ .idle) :
    WakeupInv (s.finish t) := by
  refine ⟨by simpa using I.calling, fun h => ?_, by simpa using I.fresh, fun h => ?_⟩
  · rw [finish_place]
    refine I.self fun hidle => h ?_
    rw [finish_task]
    by_cases hn : none = t
    · rw [← hn, Function.update_self]
    · rw [Function.update_of_ne hn, hidle]
  · rw [finish_place, finish_swept] at h
    by_cases hn : t = none
    · subst hn
      cases htask : s.task none with
      | idle => exact absurd htask ht
      | quitting =>
          have hsame : s.finish none = s.setTask none .idle := by
            simp [Loop.finish, htask]
          rw [hsame]
          exact (I.covered h).setTask (by simp [htask]) .idle
      | queueing =>
          -- the loop thread is in user code behind the swap, so in a functor
          have huser := I.self ht
          have hcalling : s.callingPendingFunctors_ = true := by
            rw [I.calling]
            cases hplace : s.place with
            | calling r => exact .inr ⟨r, rfl⟩
            | _ => simp [hplace, Place.swept, Place.user] at h huser
          exact covered_finish s ht (.inr ⟨htask, hcalling⟩)
    · exact covered_finish s ht (.inl hn)

/-- **One step keeps the invariant.** -/
theorem WakeupInv.step (I : WakeupInv s) {e : LoopEvent φ τ} (h : s.step e = some s') :
    WakeupInv s' := by
  obtain ⟨he, rfl⟩ := step_eq_some.1 h
  have hcalling := I.calling
  cases e with
  | loop =>
      rw [he.1] at hcalling
      exact ⟨by simpa [exec] using hcalling, fun h => absurd he.2 h, fun _ => rfl,
        fun h => by simp [exec, Place.swept] at h⟩
  | clearQuit =>
      have hplace : s.place = .starting := he
      have hidle := I.idle (by rw [hplace]; rfl)
      have hfresh := I.fresh hplace
      rw [hplace] at hcalling
      exact ⟨by simpa [exec] using hcalling, fun h => absurd hidle h, fun h => by simp [exec] at h,
        fun h => by simp [exec, Place.swept, hfresh] at h⟩
  | test =>
      have hplace : s.place = .testing := he
      have hidle := I.idle (by rw [hplace]; rfl)
      have hcovered := I.covered
      rw [hplace] at hcalling hcovered
      simp only [exec]
      split
      · exact ⟨by simpa using hcalling, fun h => absurd hidle h, fun h => by simp at h,
          fun h => by simp [Place.swept] at h⟩
      · exact ⟨by simpa using hcalling, fun h => absurd hidle h, fun h => by simp at h, hcovered⟩
  | poll reported =>
      have hidle := I.idle (by rw [he.1]; rfl)
      rw [he.1] at hcalling
      exact ⟨by simpa [exec] using hcalling, fun h => absurd hidle h, fun h => by simp [exec] at h,
        fun h => by simp [exec, Place.swept] at h⟩
  | handleRead =>
      rw [he.1] at hcalling
      exact ⟨by simpa [exec, handleRead] using hcalling, fun h => absurd he.2 h,
        fun h => by simp [exec, handleRead] at h,
        fun h => by simp [exec, handleRead, Place.swept] at h⟩
  | doPendingFunctors =>
      exact ⟨by simp [exec], fun h => absurd he.2 h, fun h => by simp [exec] at h,
        fun h => by simp [exec, Place.swept] at h⟩
  | swap =>
      have hplace : s.place = .swapping := he
      have hidle := I.idle (by rw [hplace]; rfl)
      rw [hplace] at hcalling
      exact ⟨by simpa [exec] using hcalling, fun h => absurd hidle h, fun h => by simp [exec] at h,
        fun _ => .inl rfl⟩
  | call =>
      obtain ⟨⟨r, hplace⟩, hidle, hne⟩ := he
      obtain ⟨f, functors, hf⟩ := List.exists_cons_of_ne_nil hne
      have hcovered := I.covered
      rw [hplace] at hcalling hcovered
      rw [exec, call_of_cons hf]
      exact ⟨by simpa using hcalling, fun h => absurd hidle h, fun h => by simp at h,
        fun _ => hcovered rfl⟩
  | endPending =>
      obtain ⟨⟨r, hplace⟩, hidle, -⟩ := he
      have hcovered := I.covered
      rw [hplace] at hcovered
      exact ⟨by simp [exec], fun h => absurd hidle h, fun h => by simp [exec] at h,
        fun _ => hcovered rfl⟩
  | queueInLoop t f =>
      exact I.of_call he rfl rfl rfl (fun u hu => setTask_of_ne _ _ hu)
        fun _ => covered_setTask _ t
  | runInLoop t f =>
      simp only [exec, runInLoop]
      split
      · exact I.of_call he rfl rfl rfl (fun u _ => rfl) fun h => h
      · exact I.of_call he rfl rfl rfl (fun u hu => setTask_of_ne _ _ hu)
          fun _ => covered_setTask _ t
  | quit t =>
      exact I.of_call he rfl rfl rfl (fun u hu => setTask_of_ne _ _ hu)
        fun h => Covered.setTask (s := { s with quit_ := true }) h (by simp [he.1]) .quitting
  | finish t => exact I.finish he

omit [DecidableEq τ] in
theorem wakeupInv_new : WakeupInv (new : Loop φ τ) where
  calling := by simp [new]
  self h := absurd rfl h
  fresh h := by simp [new] at h
  covered h := by simp [new, Place.swept] at h

/-- **No lost wakeup.** In every state of every run in which the loop thread waits in `::poll` after a
    `doPendingFunctors`, either nothing is pending, or the counter of the eventfd is not zero, or
    another thread is between its push and its write. -/
theorem no_lost_wakeup (events : List (LoopEvent φ τ)) :
    Run.Along step Woken (new : Loop φ τ) events := by
  refine Run.Along.of_inv (I := WakeupInv) (fun _ _ _ I h => I.step h) (fun s I => ?_) wakeupInv_new
    events
  intro hplace hswept hpending
  have hidle := I.idle (by rw [hplace]; rfl)
  rcases I.covered (by rw [hplace]; exact hswept) with h | h | ⟨t, ht⟩
  · exact absurd h hpending
  · exact .inl h
  · cases t with
    | none =>
        rw [hidle] at ht
        exact absurd ht (by simp)
    | some t => exact .inr ⟨t, ht⟩

end Loop

end WwjMuduo
