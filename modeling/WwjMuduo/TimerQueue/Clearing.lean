import WwjMuduo.TimerQueue.Cancel

set_option autoImplicit false

/-! # Dropping the clear

An earlier version of the queue, kept in the repository, emptied `cancelingTimers_` in `handleRead`
before it ran the batch. The present version does not, and the names of timers that are long gone pile
up there. Nobody can tell: `reset` looks up timers of its own batch, which are alive, and a name that
only the present version still has is that of a deleted timer, or of one that was never added and,
if no cancel overtakes its add, never will be. -/

namespace WwjMuduo

/-- The timer an act cancels. -/
def Act.cancelled? : Act → Option ActiveTimer
  | .cancelled i => some i
  | _ => none

namespace TimerQueue

variable {s s' : TimerQueue} {i : ActiveTimer} {e : Event}

/-! ## The earlier version -/

namespace Earlier

/-- `handleRead` up to its loop. -/
def handleReadBegin (s : TimerQueue) (now : Timestamp) : Option TimerQueue :=
  let s := { s with started := s.started + 1 }.emit (.readTimerfd now)
  (s.getExpired now).map fun (expired, s) =>
    { s with callingExpiredTimers_ := true, cancelingTimers_ := ∅, frame := some ⟨now, expired, 0⟩ }

/-- The other functions are the same. -/
def exec (s : TimerQueue) : Event → Option TimerQueue
  | .handleReadBegin now => handleReadBegin s now
  | e => s.exec e

def step : TimerQueue → Event → Option TimerQueue := Run.restrict Enabled exec

end Earlier

/-! ## What an event logs -/

/-- Acts that neither add nor cancel a timer. -/
def Quiet (more : List (ℕ × Act)) : Prop :=
  ∀ x ∈ more, x.2.added? = none ∧ ∀ i, x.2 ≠ .cancelled i

/-- An event adds to the log: only `addTimerInLoop` an add, and only `cancelInLoop` a cancel. -/
structure Logs (s : TimerQueue) (e : Event) (s' : TimerQueue) (more : List (ℕ × Act)) : Prop where
  log : s'.log = s.log ++ more
  adds : ∀ i ∈ more.filterMap fun x => x.2.added?, ∃ a t, e = .addTimerInLoop a ∧
    s.heap a = some t ∧ t.active a = i
  cancels : ∀ i, CancelledIn more i → ∃ timerId : TimerId, e = .cancelInLoop timerId ∧
    timerId.active = i

theorem quiet_append {more more' : List (ℕ × Act)} (h : Quiet more) (h' : Quiet more') :
    Quiet (more ++ more') := by
  intro x hx
  rcases List.mem_append.1 hx with hx | hx
  · exact h x hx
  · exact h' x hx

theorem quiet_singleton {x : ℕ × Act} (ha : x.2.added? = none) (hc : ∀ i, x.2 ≠ .cancelled i) :
    Quiet [x] := by
  intro y hy
  rw [List.mem_singleton.1 hy]
  exact ⟨ha, hc⟩

theorem Logs.of_quiet {more : List (ℕ × Act)} (h : s'.log = s.log ++ more) (hq : Quiet more) :
    Logs s e s' more := by
  refine ⟨h, fun i hi => ?_, fun i ⟨k, hk⟩ => absurd rfl ((hq _ hk).2 i)⟩
  obtain ⟨x, hx, hxi⟩ := List.mem_filterMap.1 hi
  rw [(hq x hx).1] at hxi
  exact absurd hxi (by simp)

/-- A loop whose rounds log nothing but deletions. -/
theorem quiet_run {f : TimerQueue → Entry → Option TimerQueue}
    (hf : ∀ u x u', f u x = some u' → ∃ more, u'.log = u.log ++ more ∧ Quiet more)
    {l : List Entry} (h : Run.run f s l = some s') :
    ∃ more, s'.log = s.log ++ more ∧ Quiet more := by
  refine Run.inv_run (I := fun u => ∃ more, u.log = s.log ++ more ∧ Quiet more) ?_
    ⟨[], (List.append_nil _).symm, by simp [Quiet]⟩ h
  rintro u x u' ⟨more, hmore, hq⟩ hu'
  obtain ⟨more', hmore', hq'⟩ := hf u x u' hu'
  exact ⟨more ++ more', by rw [hmore', hmore, List.append_assoc], quiet_append hq hq'⟩

theorem quiet_resetTimer {now : Timestamp} {u u' : TimerQueue} {x : Entry}
    (h : resetTimer now u x = some u') : ∃ more, u'.log = u.log ++ more ∧ Quiet more := by
  obtain ⟨t, ht, -⟩ := Option.map_eq_some_iff.1 h
  rw [resetTimer_eq ht, Option.some.injEq] at h
  subst h
  split
  · exact ⟨[], (List.append_nil _).symm, by simp [Quiet]⟩
  · exact ⟨[(u.started, .deleted (ofLex x).2 t)], rfl, quiet_singleton rfl (by simp)⟩

theorem quiet_deleteTimer {u u' : TimerQueue} {x : Entry} (h : deleteTimer u x = some u') :
    ∃ more, u'.log = u.log ++ more ∧ Quiet more := by
  obtain ⟨t, -, rfl⟩ := Option.map_eq_some_iff.1 h
  exact ⟨[(u.started, .deleted (ofLex x).2 t)], rfl, quiet_singleton rfl (by simp)⟩

theorem Does.logs (h : Does s e s') : ∃ more, Logs s e s' more := by
  cases h with
  | newTimer when interval others ha hmax =>
      exact ⟨[], .of_quiet (List.append_nil _).symm (by simp [Quiet])⟩
  | @addFirst a t hout hmem ha hfirst =>
      refine ⟨[(s.started, .added a t), (s.started, .resetTimerfd t.expiration_)],
        List.append_assoc .., fun i hi => ⟨a, t, rfl, ha, ?_⟩, fun i hi => ?_⟩
      · simpa [Act.added?, eq_comm] using hi
      · obtain ⟨k, hk⟩ := hi
        simp at hk
  | @add a t hout hmem ha hfirst =>
      refine ⟨[(s.started, .added a t)], rfl, fun i hi => ⟨a, t, rfl, ha, ?_⟩, fun i hi => ?_⟩
      · simpa [Act.added?, eq_comm] using hi
      · obtain ⟨k, hk⟩ := hi
        simp at hk
  | @erase a t hout ha hi =>
      refine ⟨[(s.started, .cancelled (t.active a)), (s.started, .deleted a t)],
        List.append_assoc .., fun i hi => ?_, fun i hi => ⟨⟨a, t.sequence_⟩, rfl, ?_⟩⟩
      · simp [Act.added?] at hi
      · obtain ⟨k, hk⟩ := hi
        simp only [List.mem_cons, Prod.mk.injEq, Act.cancelled.injEq, reduceCtorEq, and_false,
          List.not_mem_nil, or_false] at hk
        exact hk.2.symm
  | @note timerId hout hi =>
      refine ⟨[(s.started, .cancelled timerId.active)], rfl, fun i hi => ?_,
        fun i hi => ⟨timerId, rfl, ?_⟩⟩
      · simp [Act.added?] at hi
      · obtain ⟨k, hk⟩ := hi
        simp only [List.mem_singleton, Prod.mk.injEq, Act.cancelled.injEq] at hk
        exact hk.2.symm
  | @handleReadBegin now expired s₁ hframe hE hL =>
      refine ⟨[(s.started + 1, .readTimerfd now)], .of_quiet ?_ (quiet_singleton rfl (by simp))⟩
      rw [hE.rest]
      rfl
  | @runNext f x t hframe hx ha =>
      exact ⟨[(s.started, .called f.now (ofLex x).2 t)],
        .of_quiet rfl (quiet_singleton rfl (by simp))⟩
  | @handleReadEnd f s₁ hframe hran hrun hL =>
      obtain ⟨more, hmore, hq⟩ := quiet_run (fun _ _ _ => quiet_resetTimer) hrun
      rcases rearmed_cases s₁ with h | ⟨first, h⟩
      · rw [h]
        exact ⟨more, .of_quiet hmore hq⟩
      · rw [h]
        refine ⟨more ++ [(s₁.started, .resetTimerfd first)], .of_quiet ?_
          (quiet_append hq (quiet_singleton rfl (by simp)))⟩
        show s₁.log ++ _ = _
        rw [hmore, List.append_assoc]
        rfl
  | @destroy s₁ hframe hrun hL hs₁ =>
      obtain ⟨more, hmore, hq⟩ := quiet_run (fun _ _ _ => quiet_deleteTimer) hrun
      exact ⟨more, .of_quiet hmore hq⟩

theorem Good.logs (G : Good s) (h : TimerQueue.step s e = some s') : ∃ more, Logs s e s' more := by
  rcases G.step_cases h with ⟨-, -, hdoes⟩ | ⟨-, a, when, interval, others, rfl⟩
  · exact hdoes.logs
  · exact ⟨[], .of_quiet (List.append_nil _).symm (by simp [Quiet])⟩

/-! ## Cancels that come after their adds -/

/-- What is added has not been cancelled before. -/
def InOrder (s : TimerQueue) : Event → Prop
  | .addTimerInLoop a => ∀ t, s.heap a = some t → ¬ CancelledIn s.log (t.active a)
  | _ => True

instance (acts : List (ℕ × Act)) (i : ActiveTimer) : Decidable (CancelledIn acts i) :=
  decidable_of_iff (i ∈ acts.filterMap fun x => x.2.cancelled?) <| by
    rw [List.mem_filterMap]
    constructor
    · rintro ⟨⟨k, act⟩, hmem, hact⟩
      cases act with
      | cancelled j =>
          obtain rfl : j = i := Option.some.inj hact
          exact ⟨k, hmem⟩
      | _ => simp [Act.cancelled?] at hact
    · rintro ⟨k, hk⟩
      exact ⟨(k, .cancelled i), hk, rfl⟩

instance (s : TimerQueue) : (e : Event) → Decidable (s.InOrder e)
  | .addTimerInLoop a =>
    inferInstanceAs (Decidable (∀ t ∈ s.heap a, ¬ CancelledIn s.log (t.active a)))
  | .newTimer .. | .cancelInLoop _ | .handleReadBegin _ | .runNext | .handleReadEnd | .destroy =>
    isTrue trivial

theorem mem_added_of_log {more : List (ℕ × Act)} (h : s'.log = s.log ++ more) :
    i ∈ s'.added ↔ i ∈ s.added ∨ i ∈ more.filterMap fun x => x.2.added? := by
  unfold added
  rw [h, List.filterMap_append, List.mem_append]

/-- A name that no timer will have again: deleted, or cancelled without ever having been added. -/
def Stale (s : TimerQueue) (i : ActiveTimer) : Prop :=
  i ∈ s.deleted ∨ (i ∉ s.added ∧ CancelledIn s.log i)

/-- An add in its order does not revive a name. -/
theorem Stale.step {more : List (ℕ × Act)} (hlogs : Logs s e s' more) (hC : InOrder s e)
    (h : Stale s i) : Stale s' i := by
  rcases h with hdel | ⟨hadded, hcancelled⟩
  · exact .inl (deleted_of_log hlogs.log hdel)
  · refine .inr ⟨fun hi => ?_, by rw [hlogs.log, cancelledIn_append]; exact .inl hcancelled⟩
    rcases (mem_added_of_log hlogs.log).1 hi with hi | hi
    · exact hadded hi
    · obtain ⟨a, t, rfl, ha, rfl⟩ := hlogs.adds i hi
      exact hC t ha hcancelled

/-- A timer in hand is not stale. -/
theorem Ledger.not_stale {held : List Addr} (L : Ledger s held) {a : Addr} {t : Timer}
    (hheld : a ∈ held) (ht : s.heap a = some t) : ¬ Stale s (t.active a) := by
  obtain ⟨u, hu, -, hadded⟩ := L.held_live a hheld
  obtain rfl : t = u := Option.some.inj (ht.symm.trans hu)
  rintro (hdel | ⟨hnot, -⟩)
  · exact (L.deleted_dead _ hdel).2 a t ht rfl
  · exact hnot hadded

/-- Every cancel of an added timer has worked. -/
def Obeyed (s : TimerQueue) : Prop :=
  ∀ i, CancelledIn s.log i → i ∈ s.added → ∃ K, Doomed s i K

theorem Obeyed.step (T : Told s) (h : Obeyed s) (hC : InOrder s e)
    (hstep : TimerQueue.step s e = some s') : Obeyed s' := by
  obtain ⟨more, hlogs⟩ := T.good.logs hstep
  intro i hcancelled hadded
  have hold : i ∈ s.added → CancelledIn s.log i → ∃ K, Doomed s' i K := by
    intro hi hc
    obtain ⟨K, D⟩ := h i hc hi
    exact ⟨K, (D.run T.good (Run.run_singleton.trans hstep)).2⟩
  rw [hlogs.log, cancelledIn_append] at hcancelled
  rcases hcancelled with hc | hc
  · rcases (mem_added_of_log hlogs.log).1 hadded with hi | hi
    · exact hold hi hc
    · obtain ⟨a, t, rfl, ha, rfl⟩ := hlogs.adds i hi
      exact absurd hc (hC t ha)
  · -- this event is the cancel, so the timer was added before it
    obtain ⟨timerId, rfl, hname⟩ := hlogs.cancels i hc
    have hi : i ∈ s.added := by
      refine ((mem_added_of_log hlogs.log).1 hadded).resolve_right fun hi => ?_
      obtain ⟨a, t, hadd, -⟩ := hlogs.adds i hi
      exact absurd hadd (by simp)
    obtain ⟨k, a, t, hlog, rfl⟩ := mem_added.1 hi
    obtain ⟨ha, hseq⟩ : timerId.timer_ = a ∧ timerId.sequence_ = t.sequence_ := by
      simpa [TimerId.active, Timer.active] using hname
    obtain rfl : timerId = ⟨a, t.sequence_⟩ := by
      cases timerId
      simp_all
    exact ⟨s.started, T.doomed hlog hstep⟩

/-- Between two `handleRead`s, all names in `cancelingTimers_` are stale. -/
theorem Obeyed.stale (h : Obeyed s) (C : Cancelling s) (hd : s.destroyed = false)
    (hframe : s.frame = none) (hi : i ∈ s.cancelingTimers_) : Stale s i := by
  have L := C.told.good.ledger hd
  rw [batch_of_idle hframe] at L
  have hcancelled := (C.kept hd).noted i hi
  by_cases hadded : i ∈ s.added
  · obtain ⟨K, D⟩ := h i hcancelled hadded
    rcases L.added_owned i hadded with hact | hdel | ⟨b, hb, -⟩
    · exact absurd hact D.not_active
    · exact .inl hdel
    · exact absurd hb List.not_mem_nil
  · exact .inr ⟨hadded, hcancelled⟩

/-! ## The functions and `cancelingTimers_` -/

/-- The queue with other names in `cancelingTimers_`. -/
def withCanceling (s : TimerQueue) (C : OrderedSet ActiveTimer) : TimerQueue :=
  { s with cancelingTimers_ := C }

/-- What an event makes of the names in the set. -/
def cancelingAfter (s : TimerQueue) (C : OrderedSet ActiveTimer) : Event → OrderedSet ActiveTimer
  | .cancelInLoop timerId =>
    if timerId.active ∉ s.activeTimers_ ∧ s.callingExpiredTimers_ = true then
      C.insert timerId.active
    else C
  | _ => C

variable {C : OrderedSet ActiveTimer}

theorem addTimerInLoop_eq {a : Addr} {t : Timer} (h : s.heap a = some t) {earliest : Bool}
    (hearliest : (({ s with inFlight := s.inFlight.erase a }.emit (.added a t)).insert a t).1 =
      earliest) :
    s.addTimerInLoop a = some (if earliest then (s.inserted a t).resetTimerfd t.expiration_
      else s.inserted a t) := by
  subst hearliest
  simp only [addTimerInLoop, h, Option.map_some]
  rfl

theorem run_deleteTimer_withCanceling (l : List Entry) :
    Run.run deleteTimer (s.withCanceling C) l =
      (Run.run deleteTimer s l).map (·.withCanceling C) := by
  induction l generalizing s with
  | nil => rfl
  | cons x l ih =>
      cases h : s.heap (ofLex x).2 with
      | none => simp [Run.run_cons, deleteTimer, withCanceling, h]
      | some t =>
          have hs : deleteTimer s x = some (s.free (ofLex x).2 t) := by simp [deleteTimer, h]
          have hC : deleteTimer (s.withCanceling C) x =
              some ((s.free (ofLex x).2 t).withCanceling C) := by
            simp only [deleteTimer, withCanceling, h, Option.map_some]
            rfl
          rw [Run.run_cons, Run.run_cons, hs, hC, Option.bind_some, Option.bind_some]
          exact ih

/-- The earlier version clears the set where the present one leaves it. -/
theorem Earlier.handleReadBegin_withCanceling (now : Timestamp) :
    Earlier.handleReadBegin (s.withCanceling C) now =
      (s.handleReadBegin now).map (·.withCanceling ∅) := by
  simp only [Earlier.handleReadBegin, TimerQueue.handleReadBegin, getExpired, Option.map_map]
  rfl

/-- The loop of `reset` asks the set about the timers of its batch only. -/
theorem run_resetTimer_withCanceling {now : Timestamp} {l : List Entry}
    (hnodup : (addresses l).Nodup) (hagree : ∀ a ∈ addresses l, ∀ t, s.heap a = some t →
      (t.active a ∈ C ↔ t.active a ∈ s.cancelingTimers_)) :
    Run.run (resetTimer now) (s.withCanceling C) l =
      (Run.run (resetTimer now) s l).map (·.withCanceling C) := by
  induction l generalizing s with
  | nil => rfl
  | cons x l ih =>
      let a := (ofLex x).2
      obtain ⟨hx, hnodup⟩ := List.nodup_cons.1 hnodup
      cases ht : s.heap a with
      | none => simp [Run.run_cons, resetTimer, withCanceling, a, ht]
      | some t =>
          -- one round does the same, and leaves the set and the rest of the batch alone
          have hround : ∃ s₁, resetTimer now s x = some s₁ ∧
              resetTimer now (s.withCanceling C) x = some (s₁.withCanceling C) ∧
              s₁.cancelingTimers_ = s.cancelingTimers_ ∧ ∀ b, b ≠ a → s₁.heap b = s.heap b := by
            have hiff := hagree a List.mem_cons_self t ht
            have hC : (s.withCanceling C).heap a = some t := ht
            rw [resetTimer_eq ht, resetTimer_eq hC]
            by_cases hback : t.repeat_ = true ∧ t.active a ∉ s.cancelingTimers_
            · refine ⟨_, congrArg some (if_pos hback), congrArg some (if_pos ⟨hback.1, ?_⟩), rfl,
                fun b hb => Function.update_of_ne hb ..⟩
              exact fun h => hback.2 (hiff.1 h)
            · refine ⟨_, congrArg some (if_neg hback), congrArg some (if_neg fun h => hback ⟨h.1, ?_⟩),
                rfl, fun b hb => Function.update_of_ne hb ..⟩
              exact fun h' => h.2 (hiff.2 h')
          obtain ⟨s₁, hs₁, hC₁, hset, hheap⟩ := hround
          rw [Run.run_cons, Run.run_cons, hs₁, hC₁, Option.bind_some, Option.bind_some]
          refine ih hnodup fun b hb u hu => ?_
          have hba : b ≠ a := by
            rintro rfl
            exact hx hb
          rw [hset]
          exact hagree b (List.mem_cons_of_mem _ hb) u (hheap b hba ▸ hu)

theorem rearm_withCanceling : rearm (s.withCanceling C) = (rearm s).map (·.withCanceling C) := by
  unfold rearm
  have htimers : (s.withCanceling C).timers_ = s.timers_ := rfl
  rw [htimers]
  cases s.timers_.begin? with
  | none => rfl
  | some first =>
      show (s.heap (ofLex first).2).map _ = ((s.heap (ofLex first).2).map _).map _
      rw [Option.map_map]
      congr 1
      funext t
      by_cases hvalid : t.expiration_.valid = true
      · simp only [Function.comp_apply, if_pos hvalid]
        rfl
      · simp only [Function.comp_apply, if_neg hvalid]

theorem handleReadEnd_withCanceling
    (hagree : ∀ a ∈ s.batch, ∀ t, s.heap a = some t →
      (t.active a ∈ C ↔ t.active a ∈ s.cancelingTimers_)) (hnodup : s.batch.Nodup) :
    (s.withCanceling C).handleReadEnd = (s.handleReadEnd).map (·.withCanceling C) := by
  cases hframe : s.frame with
  | none => simp [handleReadEnd, withCanceling, hframe]
  | some f =>
      rw [batch_of_frame hframe] at hagree hnodup
      have hrun : Run.run (resetTimer f.now) (s.closed.withCanceling C) f.expired =
          (Run.run (resetTimer f.now) s.closed f.expired).map (·.withCanceling C) :=
        run_resetTimer_withCanceling hnodup hagree
      have hs : s.handleReadEnd = (Run.run (resetTimer f.now) s.closed f.expired).bind rearm := by
        simp only [handleReadEnd, hframe, Option.bind_some]
        rfl
      have hC : (s.withCanceling C).handleReadEnd =
          (Run.run (resetTimer f.now) (s.closed.withCanceling C) f.expired).bind rearm := by
        simp only [handleReadEnd, withCanceling, hframe, Option.bind_some]
        rfl
      rw [hs, hC, hrun]
      cases Run.run (resetTimer f.now) s.closed f.expired with
      | none => rfl
      | some u =>
          show rearm (u.withCanceling C) = (rearm u).map _
          exact rearm_withCanceling

theorem cancelInLoop_withCanceling (timerId : TimerId) :
    (s.withCanceling C).cancelInLoop timerId =
      (s.cancelInLoop timerId).map (·.withCanceling (s.cancelingAfter C (.cancelInLoop timerId))) := by
  unfold cancelInLoop cancelingAfter
  by_cases hact : timerId.active ∈ s.activeTimers_
  · have hactC : timerId.active ∈ ((s.withCanceling C).emit (.cancelled timerId.active)).activeTimers_ :=
      hact
    have hact' : timerId.active ∈ (s.emit (.cancelled timerId.active)).activeTimers_ := hact
    simp only [if_pos hact', if_pos hactC, hact, not_true_eq_false, false_and, if_false, Option.map_map]
    rfl
  · have hactC : timerId.active ∉ ((s.withCanceling C).emit (.cancelled timerId.active)).activeTimers_ :=
      hact
    have hact' : timerId.active ∉ (s.emit (.cancelled timerId.active)).activeTimers_ := hact
    simp only [if_neg hact', if_neg hactC, hact, not_false_eq_true, true_and]
    cases hcalling : s.callingExpiredTimers_ with
    | false => simp [emit, withCanceling, hcalling]
    | true => simp [emit, withCanceling, hcalling]

/-- **The set is seen by no event**, but for the timers of the batch at its end. -/
theorem exec_withCanceling (hagree : ∀ a ∈ s.batch, ∀ t, s.heap a = some t →
      (t.active a ∈ C ↔ t.active a ∈ s.cancelingTimers_)) (hnodup : s.batch.Nodup) (e : Event) :
    (s.withCanceling C).exec e = (s.exec e).map (·.withCanceling (s.cancelingAfter C e)) := by
  cases e with
  | newTimer a when interval others => rfl
  | addTimerInLoop a =>
      cases h : s.heap a with
      | none => simp [exec, addTimerInLoop, withCanceling, h]
      | some t =>
          obtain ⟨b, hb⟩ : ∃ b,
              (({ s with inFlight := s.inFlight.erase a }.emit (.added a t)).insert a t).1 = b :=
            ⟨_, rfl⟩
          have hbC : (({ s.withCanceling C with inFlight := s.inFlight.erase a }.emit
              (.added a t)).insert a t).1 = b := hb
          rw [exec, exec, addTimerInLoop_eq h hb, addTimerInLoop_eq (s := s.withCanceling C) h hbC]
          cases b <;> rfl
  | cancelInLoop timerId => exact cancelInLoop_withCanceling timerId
  | handleReadBegin now =>
      simp only [exec, TimerQueue.handleReadBegin, getExpired, Option.map_map]
      rfl
  | runNext =>
      cases hf : s.frame with
      | none => simp [exec, runNext, withCanceling, hf]
      | some f =>
          cases hx : f.expired[f.ran]? with
          | none => simp [exec, runNext, withCanceling, hf, hx]
          | some x =>
              cases ht : s.heap (ofLex x).2 with
              | none => simp [exec, runNext, withCanceling, hf, hx, ht]
              | some t => simp [exec, runNext, withCanceling, cancelingAfter, hf, hx, ht, emit]
  | handleReadEnd => exact handleReadEnd_withCanceling hagree hnodup
  | destroy =>
      show (Run.run deleteTimer (s.withCanceling C) s.timers_.toList).map _ =
        ((Run.run deleteTimer s s.timers_.toList).map _).map _
      rw [run_deleteTimer_withCanceling, Option.map_map, Option.map_map]
      rfl

/-! ## The two versions side by side -/

/-- Two queues that differ in `cancelingTimers_` only. -/
def SameButCanceling (s s' : TimerQueue) : Prop := s' = s.withCanceling s'.cancelingTimers_

/-- The present version in `s` and the earlier one in `s'`: what the earlier one has forgotten is
    stale. -/
structure Alike (s s' : TimerQueue) : Prop where
  cancelling : Cancelling s
  obeyed : Obeyed s
  same : SameButCanceling s s'
  sub : ∀ i ∈ s'.cancelingTimers_, i ∈ s.cancelingTimers_
  stale : ∀ i ∈ s.cancelingTimers_, i ∉ s'.cancelingTimers_ → Stale s i

theorem alike_new (numCreated : ℤ) : Alike (new numCreated) (new numCreated) where
  cancelling := cancelling_new numCreated
  obeyed i h := absurd h (by simp [CancelledIn, new])
  same := rfl
  sub _ h := h
  stale _ h hnot := absurd h hnot

theorem Good.batch_nodup (G : Good s) : s.batch.Nodup := by
  cases hd : s.destroyed with
  | false => exact (G.ledger hd).held_nodup
  | true =>
      rw [batch_of_idle (G.gone hd).1]
      exact List.nodup_nil

/-- Both versions say the same of the timers in the batch. -/
theorem Alike.agree (A : Alike s s') : ∀ a ∈ s.batch, ∀ t, s.heap a = some t →
    (t.active a ∈ s'.cancelingTimers_ ↔ t.active a ∈ s.cancelingTimers_) := by
  intro a ha t ht
  cases hd : s.destroyed with
  | true =>
      rw [batch_of_idle (A.cancelling.told.good.gone hd).1] at ha
      exact absurd ha List.not_mem_nil
  | false =>
      refine ⟨A.sub _, fun h => ?_⟩
      by_contra hnot
      exact (A.cancelling.told.good.ledger hd).not_stale ha ht (A.stale _ h hnot)

theorem cancelingTimers_exec (G : Good s) (h : s.exec e = some s') :
    s'.cancelingTimers_ = s.cancelingAfter s.cancelingTimers_ e := by
  have hself := exec_withCanceling (C := s.cancelingTimers_) (fun _ _ _ _ => Iff.rfl) G.batch_nodup e
  have hs : s.withCanceling s.cancelingTimers_ = s := rfl
  rw [hs, h, Option.map_some, Option.some.injEq] at hself
  exact congrArg cancelingTimers_ hself

theorem mem_cancelingAfter : i ∈ s.cancelingAfter C e ↔
    i ∈ C ∨ ∃ timerId : TimerId, e = .cancelInLoop timerId ∧ timerId.active = i ∧
      timerId.active ∉ s.activeTimers_ ∧ s.callingExpiredTimers_ = true := by
  cases e with
  | cancelInLoop timerId =>
      rw [cancelingAfter]
      split
      · next h =>
          rw [OrderedSet.mem_insert]
          constructor
          · rintro (rfl | hi)
            · exact .inr ⟨timerId, rfl, rfl, h⟩
            · exact .inl hi
          · rintro (hi | ⟨_, heq, rfl, -⟩)
            · exact .inr hi
            · rw [Event.cancelInLoop.inj heq]
              exact .inl rfl
      · next h =>
          refine ⟨.inl, ?_⟩
          rintro (hi | ⟨_, heq, rfl, hcond⟩)
          · exact hi
          · rw [← Event.cancelInLoop.inj heq] at hcond
            exact absurd hcond h
  | _ => simp [cancelingAfter]

/-- Where the earlier version ends: where the present one does, with some of the names; the others are
    stale. -/
theorem Alike.exec (A : Alike s s') (he : s.Enabled e) :
    ∃ C', Earlier.exec s' e = (s.exec e).map (·.withCanceling C') ∧
      (∀ i ∈ C', i ∈ s.cancelingAfter s.cancelingTimers_ e) ∧
      ∀ i ∈ s.cancelingAfter s.cancelingTimers_ e, i ∉ C' → Stale s i := by
  by_cases hbegin : ∃ now, e = .handleReadBegin now
  · obtain ⟨now, rfl⟩ := hbegin
    obtain ⟨hframe, hd⟩ := he
    refine ⟨∅, ?_, fun i hi => absurd hi (OrderedSet.not_mem_empty i), fun i hi _ => ?_⟩
    · rw [A.same]
      exact Earlier.handleReadBegin_withCanceling now
    · exact A.obeyed.stale A.cancelling hd hframe hi
  · have hexec : Earlier.exec s' e = s'.exec e := by
      cases e with
      | handleReadBegin now => exact absurd ⟨now, rfl⟩ hbegin
      | _ => rfl
    refine ⟨s.cancelingAfter s'.cancelingTimers_ e, ?_, fun i hi => ?_, fun i hi hnot => ?_⟩
    · rw [hexec, A.same]
      exact exec_withCanceling A.agree A.cancelling.told.good.batch_nodup e
    · rw [mem_cancelingAfter] at hi ⊢
      exact hi.imp_left (A.sub i)
    · rw [mem_cancelingAfter] at hi hnot
      rcases hi with hi | hi
      · exact A.stale i hi fun h => hnot (.inl h)
      · exact absurd (.inr hi) hnot

/-- One step of both versions. -/
theorem Alike.step (A : Alike s s') (hC : ∀ t, TimerQueue.step s e = some t → InOrder s e) :
    Option.Rel Alike (TimerQueue.step s e) (Earlier.step s' e) := by
  have G := A.cancelling.told.good
  have henabled : s'.Enabled e ↔ s.Enabled e := by
    rw [A.same]
    cases e <;> rfl
  by_cases he : s.Enabled e
  · have hs : TimerQueue.step s e = s.exec e := if_pos he
    have hs' : Earlier.step s' e = Earlier.exec s' e := if_pos (henabled.2 he)
    rw [hs, hs']
    obtain ⟨C', hexec, hsub, hstale⟩ := A.exec he
    rw [hexec]
    cases ht : s.exec e with
    | none => exact .none
    | some t =>
        have hstep : TimerQueue.step s e = some t := hs.trans ht
        have hset := cancelingTimers_exec G ht
        obtain ⟨more, hlogs⟩ := G.logs hstep
        refine .some ⟨A.cancelling.step hstep, A.obeyed.step A.cancelling.told (hC t hstep) hstep, rfl,
          fun i hi => hset ▸ hsub i hi, fun i hi hnot => ?_⟩
        exact (hstale i (hset ▸ hi) hnot).step hlogs (hC t hstep)
  · have hs : TimerQueue.step s e = none := if_neg he
    have hs' : Earlier.step s' e = none := if_neg fun h => he (henabled.1 h)
    rw [hs, hs']
    exact .none

/-- **Dropping the clear is unobservable.** In every run in which no cancel of a timer comes before its
    add, the two versions can take the same steps, and after each of them they differ in
    `cancelingTimers_` only: they have the same sets, and the same log of callbacks in their batches
    and of settings of the timerfd. -/
theorem clear_unobservable {numCreated : ℤ} {es pre : List Event}
    (horder : Run.Meets TimerQueue.step InOrder (new numCreated) es) (hpre : pre <+: es) :
    Option.Rel SameButCanceling (Run.run TimerQueue.step (new numCreated) pre)
      (Run.run Earlier.step (new numCreated) pre) := by
  have hstep : ∀ s s' e, Alike s s' → (∀ t, TimerQueue.step s e = some t → InOrder s e) →
      Option.Rel Alike (TimerQueue.step s e) (Earlier.step s' e) := fun _ _ _ A hC => A.step hC
  have h := Run.rel_run hstep (alike_new numCreated) (horder.of_prefix hpre)
  generalize Run.run TimerQueue.step (new numCreated) pre = now at h ⊢
  generalize Run.run Earlier.step (new numCreated) pre = earlier at h ⊢
  cases h with
  | none => exact .none
  | some A => exact .some A.same

/-- A repeating timer cancels itself in its callback, and another timer gets its address and runs. The
    name of the first is then in one set and not in the other, and nothing else differs. -/
theorem clear_unobservable_at_reuse :
    Option.Rel SameButCanceling
      (Run.run TimerQueue.step (new 0) [.newTimer 4096 10 .second 0, .addTimerInLoop 4096,
        .handleReadBegin 10, .runNext, .cancelInLoop ⟨4096, 1⟩, .handleReadEnd,
        .newTimer 4096 20 .second 0, .addTimerInLoop 4096, .handleReadBegin 20, .runNext,
        .handleReadEnd])
      (Run.run Earlier.step (new 0) [.newTimer 4096 10 .second 0, .addTimerInLoop 4096,
        .handleReadBegin 10, .runNext, .cancelInLoop ⟨4096, 1⟩, .handleReadEnd,
        .newTimer 4096 20 .second 0, .addTimerInLoop 4096, .handleReadBegin 20, .runNext,
        .handleReadEnd]) := by
  exact clear_unobservable (by decide) (List.prefix_refl _)

end TimerQueue

end WwjMuduo
