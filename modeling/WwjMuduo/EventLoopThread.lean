import WwjMuduo.EventLoop.Wakeup

set_option autoImplicit false

/-! # EventLoopThread

`threadFunc` has an `EventLoop` on its stack and leaves its address in `loop_`. The owner of the
object waits for it in `startLoop`, and in the destructor calls `quit()` through it. That call is three
steps here: the store to `quit_`, the test of the thread, the write to the eventfd. Between its
construction and the end of its scope the loop is that of `EventLoop.lean`, with every step it takes
there: its owner and other threads use it, and so do its own handlers and functors. -/

namespace WwjMuduo

/-- A thread other than the loop's: the owner, or one that got the pointer from it. -/
inductive Caller (τ : Type*) where
  | owner
  | other (t : τ)
  deriving DecidableEq

/-- Where `threadFunc` is. -/
inductive ThreadPlace where
  /-- not started -/
  | created
  /-- before `EventLoop loop` -/
  | constructing
  /-- before `loop_ = &loop` -/
  | publishing
  /-- before `loop.loop()` -/
  | ready
  /-- in `loop.loop()`, or just back from it -/
  | looping
  /-- behind the scope of `loop` -/
  | gone
  deriving DecidableEq

/-- Where the owner is. -/
inductive OwnerPlace where
  /-- before `startLoop` -/
  | created
  /-- in `startLoop`, behind `thread_.start()` -/
  | starting
  | started
  /-- in the destructor, before `quit_=true` -/
  | storing
  /-- before `isInLoopThread()` -/
  | testing
  /-- before `wakeup()` -/
  | waking
  /-- before `thread_.join()` -/
  | joining
  | destroyed
  deriving DecidableEq

structure EventLoopThread (φ τ : Type*) where
  /-- `loop_ != NULL` -/
  loop_ : Bool
  /-- The local variable of `threadFunc`. -/
  loop : Loop φ (Caller τ)
  thread : ThreadPlace
  owner : OwnerPlace
  /-- A `quit()` made by a thread other than the loop's has returned. -/
  stopped : Bool
  /-- A step of the destructor's `quit()` had no loop to work on. -/
  dangling : Bool

inductive ThreadEvent (φ τ : Type*) where
  | startLoop
  | construct
  | publish
  | returned
  | loop
  | on (e : LoopEvent φ (Caller τ))
  | leave
  | destroy
  | storeQuit
  | isInLoopThread
  | wakeup
  | join

/-- The event ends a `quit()` of a thread other than the loop's. -/
def Loop.completes {φ τ : Type*} (s : Loop φ τ) : LoopEvent φ τ → Bool
  | .finish (some t) => s.task (some t) = .quitting
  | _ => false

/-- What the owner is in the middle of on the loop, where its place says so. -/
def OwnerPlace.task : OwnerPlace → Option Task
  | .started => none
  | .testing => some .quitting
  | .waking => some .quitting
  | _ => some .idle

namespace EventLoopThread

variable {φ τ : Type*}

/-- The constructor. -/
def new : EventLoopThread φ τ :=
  { loop_ := false
    loop := .new
    thread := .created
    owner := .created
    stopped := false
    dangling := false }

/-- The pointer can be followed. -/
def Valid (s : EventLoopThread φ τ) : Prop := s.loop_ = true ∧ s.thread ≠ .gone

instance (s : EventLoopThread φ τ) : Decidable s.Valid :=
  inferInstanceAs (Decidable (_ ∧ _))

/-- A step of `loop_->quit()` that leads to `s'`. -/
def through (s s' : EventLoopThread φ τ) : EventLoopThread φ τ :=
  if s.Valid then s' else { s with dangling := true }

theorem through_of_valid {s : EventLoopThread φ τ} (h : s.Valid) (s' : EventLoopThread φ τ) :
    s.through s' = s' := if_pos h

theorem through_of_not_valid {s : EventLoopThread φ τ} (h : ¬s.Valid) (s' : EventLoopThread φ τ) :
    s.through s' = { s with dangling := true } := if_neg h

/-- Where the pointer leads decides between the two outcomes. -/
theorem through_ind {P : EventLoopThread φ τ → Prop} {s s' : EventLoopThread φ τ}
    (hdangling : P { s with dangling := true }) (h : s.Valid → P s') : P (s.through s') := by
  by_cases hvalid : s.Valid
  · rw [through_of_valid hvalid]
    exact h hvalid
  · rw [through_of_not_valid hvalid]
    exact hdangling

/-- The thread can begin a call on the loop. `threadFunc` itself calls `loop()` only. -/
def Knows (s : EventLoopThread φ τ) : Option (Caller τ) → Prop
  | none => s.loop.place ≠ .outside
  | some .owner => s.owner = .started
  | some (.other _) => s.owner ≠ .created ∧ s.owner ≠ .starting

/-- The step of the loop is not one that `threadFunc` or the destructor makes. -/
def Allowed (s : EventLoopThread φ τ) : LoopEvent φ (Caller τ) → Prop
  | .loop => False
  | .queueInLoop t _ => s.Knows t
  | .runInLoop t _ => s.Knows t
  | .quit t => s.Knows t
  | .finish t => t = some .owner → s.owner = .started
  | _ => True

variable [DecidableEq τ]

/-- What can happen next. The owner destroys the object only between two calls. -/
def Enabled (s : EventLoopThread φ τ) : ThreadEvent φ τ → Prop
  | .startLoop => s.owner = .created
  | .construct => s.thread = .constructing
  | .publish => s.thread = .publishing
  | .returned => s.owner = .starting ∧ s.loop_ = true
  | .loop => s.thread = .ready ∧ s.loop.Enabled .loop
  | .on e => (s.thread = .ready ∨ s.thread = .looping) ∧ s.Allowed e ∧ s.loop.Enabled e
  | .leave => s.thread = .looping ∧ s.loop.place = .outside
  | .destroy => s.owner = .created ∨ (s.owner = .started ∧ s.loop.task (some .owner) = .idle)
  | .storeQuit => s.owner = .storing
  | .isInLoopThread => s.owner = .testing
  | .wakeup => s.owner = .waking
  | .join => s.owner = .joining ∧ s.thread = .gone

/-- A step of the loop. -/
def onLoop (s : EventLoopThread φ τ) (e : LoopEvent φ (Caller τ)) : EventLoopThread φ τ :=
  { s with loop := s.loop.exec e, stopped := s.stopped || s.loop.completes e }

/-- What an event does. The destructor does not run on the loop thread, so `isInLoopThread()` is
    false. -/
def exec (s : EventLoopThread φ τ) : ThreadEvent φ τ → EventLoopThread φ τ
  | .startLoop => { s with owner := .starting, thread := .constructing }
  | .construct => { s with loop := .new, thread := .publishing }
  | .publish => { s with loop_ := true, thread := .ready }
  | .returned => { s with owner := .started }
  | .loop => { s.onLoop .loop with thread := .looping }
  | .on e => s.onLoop e
  | .leave => { s with thread := .gone }
  | .destroy => { s with owner := .storing }
  | .storeQuit => s.through { s.onLoop (.quit (some .owner)) with owner := .testing }
  | .isInLoopThread => s.through { s with owner := .waking }
  | .wakeup => s.through { s.onLoop (.finish (some .owner)) with owner := .joining }
  | .join => { s with owner := .destroyed }

instance (s : EventLoopThread φ τ) (t : Option (Caller τ)) : Decidable (s.Knows t) := by
  rcases t with _ | _ | _ <;> unfold Knows <;> infer_instance

instance (s : EventLoopThread φ τ) (e : LoopEvent φ (Caller τ)) : Decidable (s.Allowed e) := by
  cases e <;> unfold Allowed <;> infer_instance

instance (s : EventLoopThread φ τ) (e : ThreadEvent φ τ) : Decidable (s.Enabled e) := by
  cases e <;> unfold Enabled <;> infer_instance

/-- Behind a step through a pointer that led nowhere, nothing is said. -/
def step (s : EventLoopThread φ τ) (e : ThreadEvent φ τ) : Option (EventLoopThread φ τ) :=
  if s.dangling = false ∧ s.Enabled e then some (s.exec e) else none

theorem step_eq_some {s s' : EventLoopThread φ τ} {e : ThreadEvent φ τ} :
    s.step e = some s' ↔ (s.dangling = false ∧ s.Enabled e) ∧ s.exec e = s' := by
  rw [step]
  split
  · next h => simp [h]
  · next h => simp [h]

/-! ## What the two threads know of each other -/

structure Sound (s : EventLoopThread φ τ) : Prop where
  wake : s.loop.WakeupInv
  pointer : s.loop_ = true ↔ s.thread = .ready ∨ s.thread = .looping ∨ s.thread = .gone
  created : s.owner = .created → s.thread = .created
  waiting : s.thread = .constructing ∨ s.thread = .publishing → s.owner = .starting
  outside : s.thread ≠ .looping → s.loop.place = .outside
  idle : s.loop.place = .outside → s.loop.task none = .idle
  task : ∀ task ∈ s.owner.task, s.loop.task (some .owner) = task

variable {s s' : EventLoopThread φ τ}

omit [DecidableEq τ] in
/-- While the loop thread is not in `loop()`, the loop's steps are those of other threads. -/
theorem Sound.thread_ne_none (I : Sound s) {e : LoopEvent φ (Caller τ)} (hallowed : s.Allowed e)
    (he : s.loop.Enabled e) (hplace : s.loop.place = .outside) : e.thread ≠ none := by
  intro hnone
  cases e with
  | loop => exact hallowed
  | queueInLoop t f =>
      obtain rfl : t = none := hnone
      exact hallowed hplace
  | runInLoop t f =>
      obtain rfl : t = none := hnone
      exact hallowed hplace
  | quit t =>
      obtain rfl : t = none := hnone
      exact hallowed hplace
  | finish t =>
      obtain rfl : t = none := hnone
      exact he (I.idle hplace)
  | _ => simp [Loop.Enabled, hplace] at he

/-- A step of the loop keeps what concerns the loop alone. -/
theorem Sound.exec_loop (I : Sound s) {e : LoopEvent φ (Caller τ)} (he : s.loop.Enabled e)
    (hthread : s.loop.place = .outside → e.thread ≠ none) :
    (s.loop.exec e).WakeupInv ∧
    (s.loop.place = .outside → (s.loop.exec e).place = .outside) ∧
    ((s.loop.exec e).place = .outside → (s.loop.exec e).task none = .idle) := by
  refine ⟨I.wake.step (Loop.step_eq_some.2 ⟨he, rfl⟩), fun hplace => ?_, fun hplace => ?_⟩
  · rw [Loop.exec_place_of_thread (hthread hplace), hplace]
  · rcases Loop.outside_of_exec hplace with ⟨rfl, hquit⟩ | hout
    · have htesting : s.loop.place = .testing := he
      have hidle := I.wake.idle (by rw [htesting]; rfl)
      simpa [Loop.exec, hquit] using hidle
    · rw [Loop.exec_task_of_ne (hthread hout).symm]
      exact I.idle hout

/-- A call of another thread on a loop that can be followed. -/
theorem Sound.call (I : Sound s) (hvalid : s.Valid) {e : LoopEvent φ (Caller τ)}
    (he : s.loop.Enabled e) (hthread : e.thread = some .owner) {owner : OwnerPlace}
    (howner : owner ≠ .created ∧ owner ≠ .starting)
    (htask : ∀ task ∈ owner.task, (s.loop.exec e).task (some .owner) = task) :
    Sound { s.onLoop e with owner := owner } := by
  obtain ⟨hwake, hout, hidle⟩ := I.exec_loop he fun _ => by simp [hthread]
  have hpublished := I.pointer.1 hvalid.1
  refine ⟨hwake, I.pointer, fun h => absurd h howner.1, fun h => ?_, fun h => hout (I.outside h),
    hidle, htask⟩
  have h : s.thread = .constructing ∨ s.thread = .publishing := h
  rcases hpublished with hp | hp | hp <;> simp [hp] at h

omit [DecidableEq τ] in
theorem Sound.enabled_quit (I : Sound s) (howner : s.owner = .storing) :
    s.loop.Enabled (.quit (some .owner)) :=
  ⟨I.task .idle (by rw [howner]; rfl), fun h => absurd h (by simp)⟩

omit [DecidableEq τ] in
theorem Sound.enabled_finish (I : Sound s) (howner : s.owner = .waking) :
    s.loop.Enabled (.finish (some .owner)) := by
  have hquitting := I.task .quitting (by rw [howner]; rfl)
  simp [Loop.Enabled, hquitting]

omit [DecidableEq τ] in
/-- The owner goes on, with the loop thread past the construction or not begun. -/
theorem Sound.moveOwner (I : Sound s) {owner : OwnerPlace} (howner : owner ≠ .created)
    (hpast : ¬(s.thread = .constructing ∨ s.thread = .publishing))
    (htask : ∀ task ∈ owner.task, s.loop.task (some .owner) = task) : Sound { s with owner := owner } :=
  ⟨I.wake, I.pointer, fun h => absurd h howner, fun h => absurd h hpast, I.outside, I.idle, htask⟩

omit [DecidableEq τ] in
theorem Sound.past (I : Sound s) (h : s.owner ≠ .starting) :
    ¬(s.thread = .constructing ∨ s.thread = .publishing) := fun hthread => h (I.waiting hthread)

omit [DecidableEq τ] in
/-- A step of the destructor's `quit()`, followed only if it can be. -/
theorem Sound.through (I : Sound s) (h : s.Valid → Sound s') : Sound (s.through s') :=
  through_ind ⟨I.wake, I.pointer, I.created, I.waiting, I.outside, I.idle, I.task⟩ h

/-- **One step keeps what the threads know.** -/
theorem Sound.step (I : Sound s) {e : ThreadEvent φ τ} (h : s.step e = some s') : Sound s' := by
  obtain ⟨⟨-, he⟩, rfl⟩ := step_eq_some.1 h
  cases e with
  | startLoop =>
      have hcreated := I.created he
      refine ⟨I.wake, ?_, fun h => by simp [exec] at h, fun _ => rfl,
        fun _ => I.outside (by simp [hcreated]), I.idle, ?_⟩
      · simpa [hcreated, exec] using I.pointer
      · have howner : s.owner = .created := he
        have htask := I.task
        rw [howner] at htask
        exact htask
  | construct =>
      have hthread : s.thread = .constructing := he
      have howner := I.waiting (.inl hthread)
      refine ⟨Loop.wakeupInv_new, ?_, fun h => ?_, fun _ => howner, fun _ => rfl, fun _ => rfl, ?_⟩
      · simpa [hthread, exec] using I.pointer
      · simp [exec, howner] at h
      · simp [exec, howner, OwnerPlace.task, Loop.new]
  | publish =>
      have hthread : s.thread = .publishing := he
      have howner := I.waiting (.inr hthread)
      exact ⟨I.wake, by simp [exec], fun h => by simp [exec, howner] at h, fun h => by simp [exec] at h,
        fun _ => I.outside (by simp [hthread]), I.idle, I.task⟩
  | returned =>
      have hpublished := I.pointer.1 he.2
      refine I.moveOwner (by simp) (fun h => ?_) (by simp [OwnerPlace.task])
      rcases hpublished with hp | hp | hp <;> simp [hp] at h
  | loop =>
      have hthread : s.thread = .ready := he.1
      have hpublished := I.pointer.2 (.inl hthread)
      have hwake := I.wake.step (Loop.step_eq_some.2 ⟨he.2, rfl⟩)
      refine ⟨hwake, by simpa [exec, onLoop] using hpublished, fun h => ?_, fun h => by simp [exec] at h,
        fun h => by simp [exec] at h, fun h => by simp [exec, onLoop, Loop.exec] at h, I.task⟩
      rw [I.created h] at hthread
      exact absurd hthread (by simp)
  | on e =>
      obtain ⟨hthread, hallowed, he⟩ := he
      obtain ⟨hwake, hout, hidle⟩ := I.exec_loop he (I.thread_ne_none hallowed he)
      refine ⟨hwake, I.pointer, I.created, I.waiting, fun h => hout (I.outside h), hidle, ?_⟩
      intro task htask
      by_cases howner : some .owner = e.thread
      · -- the owner itself makes calls only where its place says nothing
        have hstarted : s.owner = .started := by
          cases e with
          | queueInLoop t f =>
              obtain rfl : some .owner = t := howner
              exact hallowed
          | runInLoop t f =>
              obtain rfl : some .owner = t := howner
              exact hallowed
          | quit t =>
              obtain rfl : some .owner = t := howner
              exact hallowed
          | finish t => exact hallowed howner.symm
          | _ => exact absurd howner (by simp [LoopEvent.thread])
        have hnone : s.owner.task = none := by rw [hstarted]; rfl
        exact absurd (hnone ▸ htask : task ∈ (none : Option Task)) (by simp)
      · have hsame : (s.loop.exec e).task (some .owner) = s.loop.task (some .owner) :=
          Loop.exec_task_of_ne howner
        exact hsame.trans (I.task task htask)
  | leave =>
      have hpublished := I.pointer.2 (.inr (.inl he.1))
      refine ⟨I.wake, by simpa [exec] using hpublished, fun h => ?_, fun h => by simp [exec] at h,
        fun _ => he.2, I.idle, I.task⟩
      have hthread := he.1
      rw [I.created h] at hthread
      exact absurd hthread (by simp)
  | destroy =>
      have hstarting : s.owner ≠ .starting := by
        rcases he with he | he
        · simp [he]
        · simp [he.1]
      refine I.moveOwner (by simp) (I.past hstarting) ?_
      rcases he with he | he
      · have htask := I.task
        rw [he] at htask
        exact htask
      · simpa [OwnerPlace.task] using he.2
  | storeQuit =>
      refine I.through fun hvalid => I.call hvalid (I.enabled_quit he) rfl (by simp) ?_
      simp [OwnerPlace.task, Loop.exec]
  | isInLoopThread =>
      have howner : s.owner = .testing := he
      have htask := I.task
      rw [howner] at htask
      exact I.through fun _ => I.moveOwner (by simp) (I.past (by simp [howner])) htask
  | wakeup =>
      refine I.through fun hvalid => I.call hvalid (I.enabled_finish he) rfl (by simp) ?_
      simp [OwnerPlace.task, Loop.exec, Loop.finish_task]
  | join =>
      have htask := I.task
      rw [he.1] at htask
      exact I.moveOwner (by simp) (I.past (by simp [he.1])) htask

omit [DecidableEq τ] in
theorem sound_new : Sound (new : EventLoopThread φ τ) where
  wake := Loop.wakeupInv_new
  pointer := by simp [new]
  created _ := rfl
  waiting h := by simp [new] at h
  outside _ := rfl
  idle _ := rfl
  task := by simp [new, OwnerPlace.task, Loop.new]

end EventLoopThread

end WwjMuduo
