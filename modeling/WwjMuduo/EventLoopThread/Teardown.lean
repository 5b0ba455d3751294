import WwjMuduo.EventLoopThread

set_option autoImplicit false

/-! # The destructor and the scope of the loop

`loop_` is set once and not reset, so what it points to has to outlive the last step of the destructor's
`quit()`. The loop thread is let out of `loop()` by `quit_` alone: it must not find it set before that
step, neither by a `quit()` of its own nor by the destructor's, whose first step sets it. And without
`startLoop` there is no loop at all. -/

namespace WwjMuduo

namespace EventLoopThread

variable {φ τ : Type*}

/-- The destructor's `quit()` has returned. -/
def HasQuit (s : EventLoopThread φ τ) : Prop := s.owner = .joining ∨ s.owner = .destroyed

instance (s : EventLoopThread φ τ) : Decidable s.HasQuit :=
  inferInstanceAs (Decidable (_ ∨ _))

/-- The object is destroyed only behind `startLoop`, and `while(!quit_)` finds the flag set only behind
    the destructor's `quit()`. -/
def InTurn (s : EventLoopThread φ τ) : ThreadEvent φ τ → Prop
  | .destroy => s.owner = .started
  | .on .test => s.loop.quit_ = true → s.HasQuit
  | _ => True

instance (s : EventLoopThread φ τ) (e : ThreadEvent φ τ) : Decidable (s.InTurn e) :=
  match e with
  | .destroy => inferInstanceAs (Decidable (s.owner = .started))
  | .on .test => inferInstanceAs (Decidable (s.loop.quit_ = true → s.HasQuit))
  | .on .loop | .on .clearQuit | .on (.poll _) | .on .handleRead | .on .doPendingFunctors
  | .on .swap | .on .call | .on .endPending | .on (.queueInLoop _ _) | .on (.runInLoop _ _)
  | .on (.quit _) | .on (.finish _) => instDecidableTrue
  | .startLoop | .construct | .publish | .returned | .loop | .leave | .storeQuit
  | .isInLoopThread | .wakeup | .join => instDecidableTrue

/-- Where the destructor's `quit()` has a step to go, the loop is there and not on its way out. -/
structure TeardownInv (s : EventLoopThread φ τ) : Prop where
  sound : Sound s
  following : s.dangling = false
  alive : ¬s.HasQuit → s.thread ≠ .gone ∧ (s.thread = .looping → s.loop.place ≠ .outside)
  started : s.owner ≠ .created → s.owner ≠ .starting → s.loop_ = true

variable {s s' : EventLoopThread φ τ}

theorem TeardownInv.valid (I : TeardownInv s) (hcreated : s.owner ≠ .created)
    (hstarting : s.owner ≠ .starting) (hquits : ¬s.HasQuit) : s.Valid :=
  ⟨I.started hcreated hstarting, (I.alive hquits).1⟩

variable [DecidableEq τ]

/-- **One step in turn keeps the invariant.** -/
theorem TeardownInv.step (I : TeardownInv s) {e : ThreadEvent φ τ} (hC : s.InTurn e)
    (h : s.step e = some s') : TeardownInv s' := by
  have S' := I.sound.step h
  obtain ⟨⟨-, he⟩, rfl⟩ := step_eq_some.1 h
  have S := I.sound
  cases e with
  | startLoop =>
      exact ⟨S', I.following, fun _ => ⟨by simp [exec], fun h => by simp [exec] at h⟩,
        fun _ h => absurd rfl h⟩
  | construct =>
      have hthread : s.thread = .constructing := he
      have howner := S.waiting (.inl hthread)
      exact ⟨S', I.following, fun _ => ⟨by simp [exec], fun h => by simp [exec] at h⟩,
        fun _ h => absurd howner h⟩
  | publish =>
      exact ⟨S', I.following, fun _ => ⟨by simp [exec], fun h => by simp [exec] at h⟩, fun _ _ => rfl⟩
  | returned =>
      have hquits : ¬s.HasQuit := by simp [HasQuit, he.1]
      exact ⟨S', I.following, fun _ => I.alive hquits, fun _ _ => he.2⟩
  | loop =>
      exact ⟨S', I.following, fun _ => ⟨by simp [exec], fun _ => by simp [exec, onLoop, Loop.exec]⟩,
        I.started⟩
  | on e =>
      refine ⟨S', I.following, fun hquits => ⟨(I.alive hquits).1, fun hlooping hout => ?_⟩,
        I.started⟩
      rcases Loop.outside_of_exec hout with ⟨rfl, hquit⟩ | hout
      · exact hquits (hC hquit)
      · exact (I.alive hquits).2 hlooping hout
  | leave =>
      refine ⟨S', I.following, fun hquits => ?_, I.started⟩
      exact absurd he.2 ((I.alive hquits).2 he.1)
  | destroy =>
      have howner : s.owner = .started := hC
      have hquits : ¬s.HasQuit := by simp [HasQuit, howner]
      exact ⟨S', I.following, fun _ => I.alive hquits, fun _ _ => I.started (by simp [howner])
        (by simp [howner])⟩
  | storeQuit =>
      have howner : s.owner = .storing := he
      have hquits : ¬s.HasQuit := by simp [HasQuit, howner]
      have hvalid := I.valid (by simp [howner]) (by simp [howner]) hquits
      rw [exec, through_of_valid hvalid] at S' ⊢
      exact ⟨S', I.following, fun _ => I.alive hquits, fun _ _ => hvalid.1⟩
  | isInLoopThread =>
      have howner : s.owner = .testing := he
      have hquits : ¬s.HasQuit := by simp [HasQuit, howner]
      have hvalid := I.valid (by simp [howner]) (by simp [howner]) hquits
      rw [exec, through_of_valid hvalid] at S' ⊢
      exact ⟨S', I.following, fun _ => I.alive hquits, fun _ _ => hvalid.1⟩
  | wakeup =>
      have howner : s.owner = .waking := he
      have hquits : ¬s.HasQuit := by simp [HasQuit, howner]
      have hvalid := I.valid (by simp [howner]) (by simp [howner]) hquits
      rw [exec, through_of_valid hvalid] at S' ⊢
      exact ⟨S', I.following, fun h => absurd (.inl rfl) h, fun _ _ => hvalid.1⟩
  | join =>
      exact ⟨S', I.following, fun h => absurd (.inr rfl) h, fun _ _ => I.started (by simp [he.1])
        (by simp [he.1])⟩

omit [DecidableEq τ] in
theorem teardownInv_new : TeardownInv (new : EventLoopThread φ τ) where
  sound := sound_new
  following := rfl
  alive _ := ⟨by simp [new], fun h => by simp [new] at h⟩
  started h := absurd rfl h

/-! ## A loop that leaves too early is used behind its scope -/

/-- The next step of a `quit()` through a pointer that leads nowhere. -/
theorem dangles_of_not_valid (hdangling : s.dangling = false) (hvalid : ¬s.Valid)
    (howner : s.owner = .storing ∨ s.owner = .testing ∨ s.owner = .waking) :
    Run.CanReach step (fun s => s.dangling = true) s := by
  obtain ⟨e, he⟩ : ∃ e, s.step e = some { s with dangling := true } := by
    rcases howner with howner | howner | howner
    · exact ⟨.storeQuit, step_eq_some.2 ⟨⟨hdangling, howner⟩, through_of_not_valid hvalid _⟩⟩
    · exact ⟨.isInLoopThread, step_eq_some.2 ⟨⟨hdangling, howner⟩, through_of_not_valid hvalid _⟩⟩
    · exact ⟨.wakeup, step_eq_some.2 ⟨⟨hdangling, howner⟩, through_of_not_valid hvalid _⟩⟩
  exact .cons he (.of_self rfl)

/-- With the destructor in its `quit()`. -/
theorem dangles_of_quitting (hdangling : s.dangling = false) (hthread : s.thread = .looping)
    (hplace : s.loop.place = .outside)
    (howner : s.owner = .storing ∨ s.owner = .testing ∨ s.owner = .waking) :
    Run.CanReach step (fun s => s.dangling = true) s := by
  have hleave : s.step .leave = some { s with thread := .gone } :=
    step_eq_some.2 ⟨⟨hdangling, hthread, hplace⟩, rfl⟩
  exact .cons hleave (dangles_of_not_valid hdangling (fun hvalid => hvalid.2 rfl) howner)

/-- With the owner behind `startLoop`, between two calls. -/
theorem dangles_of_idle (hdangling : s.dangling = false) (hthread : s.thread = .looping)
    (hplace : s.loop.place = .outside) (howner : s.owner = .started)
    (hidle : s.loop.task (some .owner) = .idle) :
    Run.CanReach step (fun s => s.dangling = true) s := by
  have hdestroy : s.step .destroy = some { s with owner := .storing } :=
    step_eq_some.2 ⟨⟨hdangling, .inr ⟨howner, hidle⟩⟩, rfl⟩
  exact .cons hdestroy (dangles_of_quitting hdangling hthread hplace (.inl rfl))

/-- With the owner behind `startLoop`. -/
theorem dangles_of_started (hdangling : s.dangling = false) (hthread : s.thread = .looping)
    (hplace : s.loop.place = .outside) (howner : s.owner = .started) :
    Run.CanReach step (fun s => s.dangling = true) s := by
  by_cases hidle : s.loop.task (some .owner) = .idle
  · exact dangles_of_idle hdangling hthread hplace howner hidle
  · have hfinish : s.step (.on (.finish (some .owner))) = some (s.onLoop (.finish (some .owner))) :=
      step_eq_some.2 ⟨⟨hdangling, .inr hthread, fun _ => howner, hidle⟩, rfl⟩
    refine .cons hfinish (dangles_of_idle hdangling hthread ?_ howner ?_)
    · exact (Loop.finish_place ..).trans hplace
    · show (s.loop.finish (some .owner)).task (some .owner) = .idle
      rw [Loop.finish_task, Function.update_self]

/-- Wherever the owner is, its `quit()` not yet over. -/
theorem dangles_of_outside (I : Sound s) (hdangling : s.dangling = false)
    (hthread : s.thread = .looping) (hplace : s.loop.place = .outside) (hquits : ¬s.HasQuit) :
    Run.CanReach step (fun s => s.dangling = true) s := by
  cases howner : s.owner with
  | created =>
      rw [I.created howner] at hthread
      exact absurd hthread (by simp)
  | starting =>
      have hpointer := I.pointer.2 (.inr (.inl hthread))
      have hreturned : s.step .returned = some { s with owner := .started } :=
        step_eq_some.2 ⟨⟨hdangling, howner, hpointer⟩, rfl⟩
      exact .cons hreturned (dangles_of_started hdangling hthread hplace rfl)
  | started => exact dangles_of_started hdangling hthread hplace howner
  | storing => exact dangles_of_quitting hdangling hthread hplace (.inl howner)
  | testing => exact dangles_of_quitting hdangling hthread hplace (.inr (.inl howner))
  | waking => exact dangles_of_quitting hdangling hthread hplace (.inr (.inr howner))
  | joining => exact absurd (.inl howner) hquits
  | destroyed => exact absurd (.inr howner) hquits

/-- A step out of turn leads to the use of a loop that is not there. -/
theorem dangles_of_not_inTurn (I : Sound s) {e : ThreadEvent φ τ} (h : s.step e = some s')
    (hC : ¬s.InTurn e) : Run.CanReach step (fun s => s.dangling = true) s' := by
  have I' := I.step h
  obtain ⟨⟨hdangling, he⟩, rfl⟩ := step_eq_some.1 h
  cases e with
  | destroy =>
      have howner : s.owner = .created := he.resolve_right fun h => hC h.1
      have hthread := I.created howner
      have hvalid : ¬s.Valid := by
        intro h
        have hpublished := I.pointer.1 h.1
        simp [hthread] at hpublished
      exact dangles_of_not_valid hdangling hvalid (.inl rfl)
  | on e =>
      cases e with
      | test =>
          obtain ⟨hquit, hquits⟩ : s.loop.quit_ = true ∧ ¬s.HasQuit := Classical.not_imp.1 hC
          have htesting : s.loop.place = .testing := he.2.2
          have hthread : s.thread = .looping := by
            by_contra hne
            simp [I.outside hne] at htesting
          refine dangles_of_outside I' hdangling hthread ?_ hquits
          simp [exec, onLoop, Loop.exec, hquit]
      | _ => exact absurd trivial hC
  | _ => exact absurd trivial hC

/-- **The loop outlives the destructor's `quit()` if the steps are in turn, and need not if they are
    not.** A run in which the object is destroyed only behind `startLoop`, and `while(!quit_)` finds the
    flag set only behind the destructor's `quit()`, takes no step of that `quit()` without a loop. From
    any reached state in which a step is taken out of turn the threads can come to do so. -/
theorem loop_outlives_quit (events : List (ThreadEvent φ τ)) :
    (Run.Meets step InTurn (new : EventLoopThread φ τ) events →
      Run.Along step (fun s => s.dangling = false) new events) ∧
    ∀ s e s', Run.run step (new : EventLoopThread φ τ) events = some s → s.step e = some s' →
      ¬s.InTurn e → Run.CanReach step (fun s => s.dangling = true) s' := by
  constructor
  · intro hmeets
    exact .of_meets (I := TeardownInv) (fun _ _ _ I hC h => I.step hC h) (fun _ I => I.following)
      teardownInv_new hmeets
  · intro s e s' hrun hstep hC
    have hsound : Sound s := Run.inv_run (fun _ _ _ I h => I.step h) sound_new hrun
    exact dangles_of_not_inTurn hsound hstep hC

/-- The loop is stopped by the destructor, and waits for its wakeup in `::poll`. -/
theorem loop_outlives_quit_in_poll :
    Run.Along step (fun s => s.dangling = false) (new : EventLoopThread Unit Empty)
      [.startLoop, .construct, .publish, .returned, .loop, .on .clearQuit, .on .test, .destroy,
        .storeQuit, .isInLoopThread, .wakeup, .on (.poll true), .on .handleRead,
        .on .doPendingFunctors, .on .swap, .on .endPending, .on .test, .leave, .join] :=
  (loop_outlives_quit _).1 (by decide)

/-- The loop sees the flag between the destructor's first step and its second, and is gone. -/
theorem loop_gone_in_quit :
    ¬Run.Along step (fun s => s.dangling = false) (new : EventLoopThread Unit Empty)
      [.startLoop, .construct, .publish, .returned, .loop, .on .clearQuit, .destroy, .storeQuit,
        .on .test, .leave, .isInLoopThread] := by
  intro h
  have hlast := Run.along_iff_prefix.1 h _ _ (List.prefix_refl _) rfl
  exact absurd hlast (by decide)

end EventLoopThread

end WwjMuduo
