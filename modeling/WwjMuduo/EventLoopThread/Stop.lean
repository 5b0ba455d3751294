import WwjMuduo.EventLoopThread

set_option autoImplicit false

/-! # A stop from outside

`loop()` begins with `quit_=false`, and the pointer is published before `loop()` is called. A `quit()`
that stores its flag in between is forgotten. Its wakeup may be drained by the first round of the loop,
and then `::poll` waits and `join()` with it. After `quit_=false` nothing clears the flag again. -/

namespace WwjMuduo

namespace EventLoopThread

variable {φ τ : Type*} [DecidableEq τ]

/-- `loop_` is published, and `quit_=false` still to come. -/
def Starting (s : EventLoopThread φ τ) : Prop := s.thread = .ready ∨ s.loop.place = .starting

/-- The loop thread waits, with nothing to wake it and nothing to stop it, though a `quit()` of another
    thread has returned. -/
def Hangs (s : EventLoopThread φ τ) : Prop :=
  s.stopped = true ∧ s.loop.place = .polling ∧ s.loop.wakeupFd_ = 0 ∧ s.loop.quit_ = false

/-- The step is a `quit_=true` of a thread other than the loop's. -/
def stores : ThreadEvent φ τ → Bool
  | .storeQuit => true
  | .on (.quit (some _)) => true
  | _ => false

/-- No other thread executes `quit_=true` before `quit_=false`. -/
def InTime (s : EventLoopThread φ τ) (e : ThreadEvent φ τ) : Prop := stores e = true → ¬s.Starting

instance (s : EventLoopThread φ τ) : Decidable s.Starting :=
  inferInstanceAs (Decidable (_ ∨ _))

instance (s : EventLoopThread φ τ) (e : ThreadEvent φ τ) : Decidable (s.InTime e) :=
  inferInstanceAs (Decidable (_ → _))

/-- A `quit()` of another thread has executed `quit_=true`. -/
def Stopping (s : EventLoopThread φ τ) : Prop :=
  s.stopped = true ∨ ∃ t, s.loop.task (some t) = .quitting

/-- `quit_=false` has been executed. -/
def Cleared (s : EventLoopThread φ τ) : Prop :=
  (s.thread = .looping ∨ s.thread = .gone) ∧ s.loop.place ≠ .starting

structure StopInv (s : EventLoopThread φ τ) : Prop where
  sound : Sound s
  held : s.Stopping → s.Cleared ∧ s.loop.quit_ = true

variable {s s' : EventLoopThread φ τ}

/-- A stop under way after a step of the loop was so before, or the step has begun it. -/
theorem stopping_of_onLoop {e : LoopEvent φ (Caller τ)} (h : (s.onLoop e).Stopping) :
    (∃ t, e = .quit (some t)) ∨ s.Stopping := by
  rcases h with h | ⟨t, ht⟩
  · have h : (s.stopped || s.loop.completes e) = true := h
    rw [Bool.or_eq_true] at h
    rcases h with h | h
    · exact .inr (.inl h)
    · cases e with
      | finish t =>
          cases t with
          | none => exact absurd h (by simp [Loop.completes])
          | some t => exact .inr (.inr ⟨t, of_decide_eq_true h⟩)
      | _ => exact absurd h (by simp [Loop.completes])
  · rcases Loop.quitting_of_exec ht with rfl | ht
    · exact .inl ⟨t, rfl⟩
    · exact .inr (.inr ⟨t, ht⟩)

/-- A step of the loop keeps the flag of a stop. -/
theorem StopInv.onLoop (I : StopInv s) {e : LoopEvent φ (Caller τ)} (he : s.loop.Enabled e)
    (hloop : e ≠ .loop) (hquit : ∀ t, e = .quit (some t) → s.Cleared) (h : (s.onLoop e).Stopping) :
    (s.onLoop e).Cleared ∧ (s.onLoop e).loop.quit_ = true := by
  rcases stopping_of_onLoop h with ⟨t, rfl⟩ | h
  · exact ⟨hquit t rfl, rfl⟩
  · obtain ⟨⟨hthread, hplace⟩, hheld⟩ := I.held h
    have hclear : e ≠ .clearQuit := by
      rintro rfl
      exact hplace he
    exact ⟨⟨hthread, fun hs => (Loop.starting_of_exec hs).elim hloop hplace⟩,
      Loop.quit_exec hheld hclear⟩

omit [DecidableEq τ] in
/-- A thread that follows the pointer finds the loop at its start, or behind `quit_=false`. -/
theorem Sound.cleared (I : Sound s) (hvalid : s.Valid) (h : ¬s.Starting) : s.Cleared := by
  refine ⟨?_, fun hplace => h (.inr hplace)⟩
  rcases I.pointer.1 hvalid.1 with hready | hlooping | hgone
  · exact absurd (.inl hready) h
  · exact .inl hlooping
  · exact absurd hgone hvalid.2

/-- **One step in time keeps the invariant.** -/
theorem StopInv.step (I : StopInv s) {e : ThreadEvent φ τ} (hC : s.InTime e)
    (h : s.step e = some s') : StopInv s' := by
  refine ⟨I.sound.step h, ?_⟩
  obtain ⟨⟨-, he⟩, rfl⟩ := step_eq_some.1 h
  have S := I.sound
  cases e with
  | startLoop =>
      intro hs
      have hcreated := S.created he
      have hthread := (I.held hs).1.1
      rcases hthread with hthread | hthread <;> simp [hcreated] at hthread
  | construct =>
      intro hs
      have hconstructing : s.thread = .constructing := he
      rcases hs with hs | ⟨t, ht⟩
      · have hthread := (I.held (.inl hs)).1.1
        rcases hthread with hthread | hthread <;> simp [hconstructing] at hthread
      · exact absurd ht (by simp [exec, Loop.new])
  | publish =>
      intro hs
      have hpublishing : s.thread = .publishing := he
      have hthread := (I.held hs).1.1
      rcases hthread with hthread | hthread <;> simp [hpublishing] at hthread
  | returned => exact I.held
  | loop =>
      intro hs
      have hready : s.thread = .ready := he.1
      rcases stopping_of_onLoop (s := s) hs with ⟨t, ht⟩ | hs
      · exact absurd ht (by simp)
      · have hthread := (I.held hs).1.1
        rcases hthread with hthread | hthread <;> simp [hready] at hthread
  | on e =>
      refine I.onLoop he.2.2 ?_ ?_
      · rintro rfl
        exact he.2.1
      · rintro t rfl
        rcases he.1 with hthread | hthread
        · exact absurd (.inl hthread) (hC rfl)
        · exact ⟨.inl hthread, fun hplace => hC rfl (.inr hplace)⟩
  | leave =>
      intro hs
      obtain ⟨⟨-, hplace⟩, hquit⟩ := I.held hs
      exact ⟨⟨.inr rfl, hplace⟩, hquit⟩
  | destroy => exact I.held
  | storeQuit =>
      refine through_ind (P := fun s => s.Stopping → s.Cleared ∧ s.loop.quit_ = true) I.held
        fun hvalid => ?_
      exact I.onLoop (S.enabled_quit he) (by simp) fun _ _ => S.cleared hvalid (hC rfl)
  | isInLoopThread =>
      exact through_ind (P := fun s => s.Stopping → s.Cleared ∧ s.loop.quit_ = true) I.held
        fun _ => I.held
  | wakeup =>
      refine through_ind (P := fun s => s.Stopping → s.Cleared ∧ s.loop.quit_ = true) I.held
        fun hvalid => ?_
      exact I.onLoop (S.enabled_finish he) (by simp) fun t ht => absurd ht (by simp)
  | join => exact I.held

omit [DecidableEq τ] in
theorem stopInv_new : StopInv (new : EventLoopThread φ τ) where
  sound := sound_new
  held h := by
    rcases h with h | ⟨t, ht⟩
    · exact absurd h (by simp [new])
    · exact absurd ht (by simp [new, Loop.new])

omit [DecidableEq τ] in
theorem StopInv.not_hangs (I : StopInv s) : ¬s.Hangs := by
  rintro ⟨hstopped, -, -, hquit⟩
  rw [(I.held (.inl hstopped)).2] at hquit
  exact absurd hquit (by simp)

/-! ## A stop before `quit_=false` is forgotten -/

/-- The state of a forgotten stop. -/
structure Forgotten (s : EventLoopThread φ τ) : Prop where
  following : s.dangling = false
  thread : s.thread = .looping
  stopped : s.stopped = true
  quit : s.loop.quit_ = false
  idle : s.loop.task none = .idle

theorem step_on (hdangling : s.dangling = false) (hthread : s.thread = .looping)
    {e : LoopEvent φ (Caller τ)} (hallowed : s.Allowed e) (he : s.loop.Enabled e) :
    s.step (.on e) = some (s.onLoop e) :=
  step_eq_some.2 ⟨⟨hdangling, .inr hthread, hallowed, he⟩, rfl⟩

theorem step_isInLoopThread (hdangling : s.dangling = false) (howner : s.owner = .testing)
    (hvalid : s.Valid) : s.step .isInLoopThread = some { s with owner := .waking } :=
  step_eq_some.2 ⟨⟨hdangling, howner⟩, through_of_valid hvalid _⟩

theorem step_wakeup (hdangling : s.dangling = false) (howner : s.owner = .waking)
    (hvalid : s.Valid) :
    s.step .wakeup = some { s.onLoop (.finish (some .owner)) with owner := .joining } :=
  step_eq_some.2 ⟨⟨hdangling, howner⟩, through_of_valid hvalid _⟩

/-- The loop's own steps leave the stop forgotten. -/
theorem Forgotten.onLoop (F : Forgotten s) {e : LoopEvent φ (Caller τ)}
    (hquit : (s.loop.exec e).quit_ = s.loop.quit_)
    (htask : (s.loop.exec e).task none = s.loop.task none) : Forgotten (s.onLoop e) where
  following := F.following
  thread := F.thread
  stopped := by
    show (s.stopped || s.loop.completes e) = true
    rw [F.stopped, Bool.true_or]
  quit := hquit.trans F.quit
  idle := htask.trans F.idle

/-- Before `while(!quit_)`, with nothing to wake the loop. -/
theorem Forgotten.hangs_of_testing (F : Forgotten s) (hplace : s.loop.place = .testing)
    (hfd : s.loop.wakeupFd_ = 0) : Run.CanReach step Hangs s := by
  refine .cons (step_on F.following F.thread (e := .test) trivial hplace) (.of_self ?_)
  have hstopped : (s.stopped || false) = true := by rw [F.stopped, Bool.true_or]
  simpa [Hangs, EventLoopThread.onLoop, Loop.exec, F.quit, hfd, Loop.completes] using hstopped

/-- In the loop over `functors`: they need not make a call. -/
theorem Forgotten.hangs_of_calling (F : Forgotten s) {r : Bool} (hplace : s.loop.place = .calling r)
    (hfd : s.loop.wakeupFd_ = 0) : Run.CanReach step Hangs s := by
  induction hf : s.loop.functors generalizing s r with
  | nil =>
      refine .cons (step_on F.following F.thread (e := .endPending) trivial ⟨⟨r, hplace⟩, F.idle, hf⟩) ?_
      exact (F.onLoop (e := .endPending) rfl rfl).hangs_of_testing rfl hfd
  | cons f functors ih =>
      have hne : s.loop.functors ≠ [] := by simp [hf]
      refine .cons (step_on F.following F.thread (e := .call) trivial ⟨⟨r, hplace⟩, F.idle, hne⟩) ?_
      have hcall : s.loop.exec .call = { s.loop with functors := functors
                                                     place := .calling true
                                                     executed := s.loop.executed ++ [(f, s.loop.batches)]
                                                     ran := s.loop.ran ++ [f] } := Loop.call_of_cons hf
      have F' : Forgotten (s.onLoop .call) := F.onLoop (by rw [hcall]) (by rw [hcall])
      refine ih F' (r := true) ?_ ?_ ?_
      · show (s.loop.exec .call).place = .calling true
        rw [hcall]
      · show (s.loop.exec .call).wakeupFd_ = 0
        rw [hcall, ← hfd]
      · show (s.loop.exec .call).functors = functors
        rw [hcall]

/-- In `::poll`: one round drains the descriptor. -/
theorem Forgotten.hangs_of_polling (F : Forgotten s) (hplace : s.loop.place = .polling) :
    Run.CanReach step Hangs s := by
  by_cases hfd : s.loop.wakeupFd_ = 0
  · exact .of_self ⟨F.stopped, hplace, hfd, F.quit⟩
  · have F₁ := F.onLoop (e := .poll true) rfl rfl
    have F₂ := F₁.onLoop (e := .handleRead) rfl rfl
    have F₃ := F₂.onLoop (e := .doPendingFunctors) rfl rfl
    have F₄ := F₃.onLoop (e := .swap) rfl rfl
    refine .cons (step_on F.following F.thread (e := .poll true) trivial ⟨hplace, fun _ => hfd⟩) ?_
    refine .cons (step_on F₁.following F₁.thread (e := .handleRead) trivial ⟨rfl, F.idle⟩) ?_
    refine .cons (step_on F₂.following F₂.thread (e := .doPendingFunctors) trivial ⟨rfl, F.idle⟩) ?_
    refine .cons (step_on F₃.following F₃.thread (e := .swap) trivial rfl) ?_
    exact F₄.hangs_of_calling rfl rfl

/-- Before `quit_=false`, once the call that stops the loop has returned. -/
theorem hangs_of_starting (I : Sound s) (hdangling : s.dangling = false) (hstarting : s.Starting)
    (hstopped : s.stopped = true) : Run.CanReach step Hangs s := by
  -- first in `loop()`
  have hclear : ∀ s : EventLoopThread φ τ, Sound s → s.dangling = false → s.thread = .looping →
      s.loop.place = .starting → s.stopped = true → Run.CanReach step Hangs s := by
    intro s I hdangling hthread hplace hstopped
    have hidle := I.wake.idle (by rw [hplace]; rfl)
    have F : Forgotten (s.onLoop .clearQuit) :=
      { following := hdangling, thread := hthread, quit := rfl, idle := hidle
        stopped := by
          show (s.stopped || false) = true
          rw [hstopped, Bool.true_or] }
    have htest := Loop.exec_test F.quit
    refine .cons (step_on hdangling hthread (e := .clearQuit) trivial hplace) ?_
    refine .cons (step_on F.following F.thread (e := .test) trivial rfl) ?_
    refine (F.onLoop (e := .test) (by rw [htest]) (by rw [htest])).hangs_of_polling ?_
    show ((s.onLoop .clearQuit).loop.exec .test).place = .polling
    rw [htest]
  by_cases hlooping : s.thread = .looping
  · have hplace : s.loop.place = .starting := hstarting.resolve_left (by simp [hlooping])
    exact hclear s I hdangling hlooping hplace hstopped
  · have hout := I.outside hlooping
    have hready : s.thread = .ready := hstarting.resolve_right (by simp [hout])
    have hloop : s.step .loop = some (s.exec .loop) :=
      step_eq_some.2 ⟨⟨hdangling, hready, hout, I.idle hout⟩, rfl⟩
    refine .cons hloop (hclear _ (I.step hloop) hdangling rfl rfl ?_)
    show (s.stopped || false) = true
    rw [hstopped, Bool.true_or]

omit [DecidableEq τ] in
theorem Sound.valid_of_starting (I : Sound s) (hstarting : s.Starting) : s.Valid := by
  rcases hstarting with hready | hplace
  · exact ⟨I.pointer.2 (.inl hready), by simp [hready]⟩
  · have hlooping : s.thread = .looping := by
      by_contra hne
      simp [I.outside hne] at hplace
    exact ⟨I.pointer.2 (.inr (.inl hlooping)), by simp [hlooping]⟩

/-- A stop that is not in time can be lost. -/
theorem hangs_of_not_inTime (I : Sound s) {e : ThreadEvent φ τ} (h : s.step e = some s')
    (hC : ¬s.InTime e) : Run.CanReach step Hangs s' := by
  have I' := I.step h
  obtain ⟨⟨hdangling, he⟩, rfl⟩ := step_eq_some.1 h
  obtain ⟨hstores, hstarting⟩ : stores e = true ∧ s.Starting := by
    simpa [InTime] using hC
  cases e with
  | storeQuit =>
      have hvalid := I.valid_of_starting hstarting
      rw [exec, through_of_valid hvalid] at I' ⊢
      -- the destructor goes on to the end of `quit()`
      have h₁ := step_isInLoopThread (s := { s.onLoop (.quit (some .owner)) with owner := .testing })
        hdangling rfl hvalid
      have h₂ := step_wakeup (s := { s.onLoop (.quit (some .owner)) with owner := .waking })
        hdangling rfl hvalid
      refine .cons h₁ (.cons h₂ (hangs_of_starting ((I'.step h₁).step h₂) hdangling ?_ ?_))
      · rcases hstarting with hready | hplace
        · exact .inl hready
        · exact .inr ((Loop.finish_place ..).trans hplace)
      · simp [EventLoopThread.onLoop, Loop.completes, Loop.exec]
  | on e =>
      cases e with
      | quit t =>
          cases t with
          | none => exact absurd hstores (by simp [stores])
          | some t =>
              have hallowed : (s.onLoop (.quit (some t))).Allowed (.finish (some t)) := by
                intro ht
                obtain rfl : t = .owner := Option.some.inj ht
                exact he.2.1
              have hbusy : (s.onLoop (.quit (some t))).loop.Enabled (.finish (some t)) := by
                simp [EventLoopThread.onLoop, Loop.Enabled, Loop.exec]
              have h₁ : step (s.onLoop (.quit (some t))) (.on (.finish (some t))) =
                  some ((s.onLoop (.quit (some t))).onLoop (.finish (some t))) :=
                step_eq_some.2 ⟨⟨hdangling, he.1, hallowed, hbusy⟩, rfl⟩
              refine .cons h₁ (hangs_of_starting (I'.step h₁) hdangling ?_ ?_)
              · rcases hstarting with hready | hplace
                · exact .inl hready
                · exact .inr ((Loop.finish_place ..).trans hplace)
              · simp [EventLoopThread.onLoop, Loop.completes, Loop.exec]
      | _ => exact absurd hstores (by simp [stores])
  | _ => exact absurd hstores (by simp [stores])

/-- **A stop from outside is kept if it is in time, and can be lost if not.** A run in which every other
    thread executes `quit_=true` after the `quit_=false` of `loop()` comes to no state in which a `quit()`
    has returned and the loop waits for nothing. From any reached state in which another thread executes
    it before, the threads can come to such a state. -/
theorem stop_kept_in_time (events : List (ThreadEvent φ τ)) :
    (Run.Meets step InTime (new : EventLoopThread φ τ) events →
      Run.Along step (fun s => ¬s.Hangs) new events) ∧
    ∀ s e s', Run.run step (new : EventLoopThread φ τ) events = some s → s.step e = some s' →
      ¬s.InTime e → Run.CanReach step Hangs s' := by
  constructor
  · intro hmeets
    exact .of_meets (I := StopInv) (fun _ _ _ I hC h => I.step hC h) (fun _ I => I.not_hangs)
      stopInv_new hmeets
  · intro s e s' hrun hstep hC
    have hsound : Sound s := Run.inv_run (fun _ _ _ I h => I.step h) sound_new hrun
    exact hangs_of_not_inTime hsound hstep hC

/-- The destructor stops a loop that runs. -/
theorem stop_kept_in_destructor :
    Run.Along step (fun s => ¬s.Hangs) (new : EventLoopThread Unit Empty)
      [.startLoop, .construct, .publish, .returned, .loop, .on .clearQuit, .on .test, .destroy,
        .storeQuit, .isInLoopThread, .wakeup, .on (.poll true), .on .handleRead,
        .on .doPendingFunctors, .on .swap, .on .endPending, .on .test, .leave, .join] :=
  (stop_kept_in_time _).1 (by decide)

/-- The destructor's `quit()` between `loop_ = &loop` and `quit_=false`: `join()` does not return. -/
theorem stop_lost_before_loop :
    ¬Run.Along step (fun s => ¬s.Hangs) (new : EventLoopThread Unit Empty)
      [.startLoop, .construct, .publish, .returned, .destroy, .storeQuit, .isInLoopThread, .wakeup,
        .loop, .on .clearQuit, .on .test, .on (.poll true), .on .handleRead, .on .doPendingFunctors,
        .on .swap, .on .endPending, .on .test] := by
  intro h
  have hlast := Run.along_iff_prefix.1 h _ _ (List.prefix_refl _) rfl
  exact hlast ⟨rfl, rfl, rfl, rfl⟩

end EventLoopThread

end WwjMuduo
