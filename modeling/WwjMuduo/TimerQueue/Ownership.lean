import Mathlib.Data.List.Nodup
import WwjMuduo.TimerQueue.Ledger

set_option autoImplicit false

/-! # The books of a whole run

Each function of the queue keeps the ledger, whatever the callbacks do in between, and so never
follows a pointer to a deleted timer. What the ledger says between the steps is `Consistent`: the two
sets describe the same timers, and each timer that was added is queued, in the batch being run, or
deleted. -/

namespace WwjMuduo

namespace TimerQueue

/-! ## What the functions do -/

theorem lt_sentry {e now : Timestamp} {a : Addr} (ha : a < UINTPTR_MAX) :
    (toLex (e, a) : Entry) < toLex (now, UINTPTR_MAX) ↔ e ≤ now := by
  rw [Prod.Lex.toLex_lt_toLex]
  constructor
  · rintro (h | ⟨h, -⟩)
    · exact h.le
    · exact h.le
  · intro h
    rcases h.lt_or_eq with h | h
    · exact .inl h
    · exact .inr ⟨h, ha⟩

theorem mapM_activeOf {s : TimerQueue} {l : List Entry}
    (h : ∀ x ∈ l, ∃ t, s.heap (ofLex x).2 = some t) :
    ∃ is, l.mapM s.activeOf = some is ∧ ∀ i, i ∈ is ↔ ∃ x ∈ l, s.activeOf x = some i := by
  induction l with
  | nil => exact ⟨[], rfl, by simp⟩
  | cons x l ih =>
      obtain ⟨t, ht⟩ := h x List.mem_cons_self
      have hx : s.activeOf x = some (t.active (ofLex x).2) := by
        unfold activeOf
        rw [ht]
        rfl
      obtain ⟨is, his, hmem⟩ := ih fun y hy => h y (List.mem_cons_of_mem x hy)
      refine ⟨t.active (ofLex x).2 :: is, ?_, fun i => ?_⟩
      · rw [List.mapM_cons, hx, his]
        rfl
      · rw [List.mem_cons, hmem]
        simp only [List.mem_cons, exists_eq_or_imp, hx, Option.some.injEq]
        exact or_congr_left eq_comm

/-- What `getExpired` does: it takes out the timers that are due. -/
structure Expires (s : TimerQueue) (now : Timestamp) (expired : List Entry) (s' : TimerQueue) :
    Prop where
  expired_eq : expired = s.timers_.toList.filter fun x => (ofLex x).1 ≤ now
  rest : s' = { s with timers_ := s'.timers_, activeTimers_ := s'.activeTimers_ }
  timers_iff : ∀ x, x ∈ s'.timers_ ↔ x ∈ s.timers_ ∧ now < (ofLex x).1
  active_iff : ∀ a t, s.heap a = some t →
    (t.active a ∈ s'.activeTimers_ ↔ t.active a ∈ s.activeTimers_ ∧ now < t.expiration_)
  active_sub : ∀ i ∈ s'.activeTimers_, i ∈ s.activeTimers_

theorem Ledger.getExpired {s : TimerQueue} (L : Ledger s []) (now : Timestamp) :
    ∃ expired s', s.getExpired now = some (expired, s') ∧ Expires s now expired s' ∧
      Ledger s' (addresses expired) := by
  -- No timer is at `UINTPTR_MAX`, so what is below the sentry is what is due.
  let sentry : Entry := toLex (now, UINTPTR_MAX)
  have hlt {a : Addr} {t : Timer} (ha : s.heap a = some t) :
      t.entry a < sentry ↔ t.expiration_ ≤ now := lt_sentry (L.bounds a t ha).1
  have hexpired {x : Entry} : x ∈ s.timers_.below sentry ↔
      ∃ a t, s.heap a = some t ∧ x = t.entry a ∧ t.active a ∈ s.activeTimers_ ∧
        t.expiration_ ≤ now := by
    rw [OrderedSet.mem_below]
    constructor
    · rintro ⟨hx, hxlt⟩
      obtain ⟨a, t, ha, rfl, hi⟩ := L.entries x hx
      exact ⟨a, t, ha, rfl, hi, (hlt ha).1 hxlt⟩
    · rintro ⟨a, t, ha, rfl, hi, hle⟩
      exact ⟨(L.entry_mem_iff ha).2 hi, (hlt ha).2 hle⟩
  obtain ⟨is, his, hmem⟩ := mapM_activeOf (s := s) (l := s.timers_.below sentry) (by
    intro x hx
    obtain ⟨a, t, ha, rfl, -⟩ := hexpired.1 hx
    exact ⟨t, ha⟩)
  -- Two entries of one address are one: the heap has one timer there.
  have htaken {a : Addr} {t : Timer} (ha : s.heap a = some t) :
      t.active a ∈ is ↔ t.active a ∈ s.activeTimers_ ∧ t.expiration_ ≤ now := by
    rw [hmem]
    constructor
    · rintro ⟨x, hx, hi⟩
      obtain ⟨b, u, hb, rfl, hbi, hle⟩ := hexpired.1 hx
      obtain ⟨u', hu', heq⟩ := Option.map_eq_some_iff.1 hi
      obtain rfl : b = a := (Timer.active_inj.1 heq).1
      rw [ha, Option.some.injEq] at hb
      subst hb
      exact ⟨hbi, hle⟩
    · rintro ⟨hi, hle⟩
      refine ⟨t.entry a, hexpired.2 ⟨a, t, ha, rfl, hi, hle⟩, ?_⟩
      show (s.heap a).map _ = _
      rw [ha]
      rfl
  let s' : TimerQueue := { s with
    timers_ := s.timers_.dropBelow sentry
    activeTimers_ := is.foldl OrderedSet.erase s.activeTimers_ }
  have hactive {i : ActiveTimer} : i ∈ s'.activeTimers_ ↔ i ∉ is ∧ i ∈ s.activeTimers_ :=
    OrderedSet.mem_foldl_erase
  have hE : Expires s now (s.timers_.below sentry) s' := by
    refine ⟨?_, rfl, fun x => ?_, fun a t ha => ?_, fun i hi => (hactive.1 hi).2⟩
    · rw [OrderedSet.below_eq_filter]
      refine List.filter_congr fun x hx => ?_
      obtain ⟨a, t, ha, rfl, -⟩ := L.entries x hx
      rw [decide_eq_decide]
      exact hlt ha
    · rw [show s'.timers_ = s.timers_.dropBelow sentry from rfl, OrderedSet.mem_dropBelow]
      refine and_congr_right fun hx => ?_
      obtain ⟨a, t, ha, rfl, -⟩ := L.entries x hx
      rw [← not_lt, hlt ha, not_le]
      exact Iff.rfl
    · rw [hactive, htaken ha, not_and, not_le]
      exact ⟨fun h => ⟨h.2, h.1 h.2⟩, fun h => ⟨fun _ => h.2, h.1⟩⟩
  refine ⟨s.timers_.below sentry, s', ?_, hE, ?_⟩
  · show (List.mapM s.activeOf (s.timers_.below sentry)).map _ = _
    rw [his]
    rfl
  have hbelow {a : Addr} {t : Timer} (ha : s.heap a = some t) (hi : t.active a ∈ s.activeTimers_) :
      t.entry a ∉ s.timers_.below sentry ↔ now < t.expiration_ := by
    rw [OrderedSet.mem_below, hlt ha, not_and, not_le]
    exact ⟨fun h => h ((L.entry_mem_iff ha).2 hi), fun h _ => h⟩
  have hwith := L.withdraw (s.timers_.below sentry) s'.timers_ s'.activeTimers_
    (s.timers_.nodup.sublist (List.takeWhile_sublist _))
    (fun x hx => (OrderedSet.mem_below.1 hx).1) ?_ hE.active_sub ?_
  · rw [List.append_nil] at hwith
    exact hwith
  · intro x
    rw [hE.timers_iff]
    refine and_congr_right fun hx => ?_
    obtain ⟨a, t, ha, rfl, hi⟩ := L.entries x hx
    exact (hbelow ha hi).symm
  · intro a t ha
    rw [hE.active_iff a t ha]
    exact and_congr_right fun hi => (hbelow ha hi).symm

theorem resetTimer_eq {s : TimerQueue} {now : Timestamp} {x : Entry} {t : Timer}
    (ht : s.heap (ofLex x).2 = some t) :
    resetTimer now s x = some (if t.repeat_ = true ∧ t.active (ofLex x).2 ∉ s.cancelingTimers_ then
      ((s.store (ofLex x).2 (t.restart now)).insert (ofLex x).2 (t.restart now)).2
    else s.free (ofLex x).2 t) := by
  unfold resetTimer
  simp only [ht, Option.map_some]

/-- `reset` puts a timer in hand back, restarted. -/
theorem Ledger.putBack {s : TimerQueue} {a : Addr} {t : Timer} {held : List Addr} (now : Timestamp)
    (L : Ledger s (a :: held)) (ht : s.heap a = some t) :
    Ledger ((s.store a (t.restart now)).insert a (t.restart now)).2 held :=
  (L.store ht (t.restart now) rfl).insert (Function.update_self ..)

/-- **Rule for the loop of `reset`.** The loop is defined and keeps the books; and what holds with the
    whole batch in hand, and is kept when one timer is put back or deleted, holds with nothing in hand
    after it. -/
theorem run_resetTimer {I : TimerQueue → List Addr → Prop} {now : Timestamp}
    (hback : ∀ s a t held, Ledger s (a :: held) → I s (a :: held) → s.heap a = some t →
      t.repeat_ = true → t.active a ∉ s.cancelingTimers_ →
      I ((s.store a (t.restart now)).insert a (t.restart now)).2 held)
    (hfree : ∀ s a t held, Ledger s (a :: held) → I s (a :: held) → s.heap a = some t →
      (t.repeat_ = true → t.active a ∈ s.cancelingTimers_) → I (s.free a t) held)
    {s : TimerQueue} {expired : List Entry} (L : Ledger s (addresses expired))
    (h : I s (addresses expired)) :
    ∃ s', Run.run (resetTimer now) s expired = some s' ∧ Ledger s' [] ∧ I s' [] := by
  induction expired generalizing s with
  | nil => exact ⟨s, rfl, L, h⟩
  | cons x expired ih =>
      -- The ledger says that the timer at the head of the batch is alive, so the loop can read it.
      obtain ⟨t, ht, -⟩ := L.held_live (ofLex x).2 List.mem_cons_self
      have hstep : ∃ s₁, resetTimer now s x = some s₁ ∧ Ledger s₁ (addresses expired) ∧
          I s₁ (addresses expired) := by
        rw [resetTimer_eq ht]
        by_cases hrepeat : t.repeat_ = true ∧ t.active (ofLex x).2 ∉ s.cancelingTimers_
        · exact ⟨_, congrArg some (if_pos hrepeat), L.putBack now ht,
            hback s _ t _ L h ht hrepeat.1 hrepeat.2⟩
        · refine ⟨_, congrArg some (if_neg hrepeat), L.free ht, hfree s _ t _ L h ht fun hr => ?_⟩
          exact not_not.1 fun hnot => hrepeat ⟨hr, hnot⟩
      obtain ⟨s₁, hs₁, L₁, h₁⟩ := hstep
      obtain ⟨s', hrun, h'⟩ := ih L₁ h₁
      exact ⟨s', Run.run_cons_eq_some.2 ⟨s₁, hs₁, hrun⟩, h'⟩

/-- The rule, for a loop that has run. -/
theorem inv_run_resetTimer {I : TimerQueue → List Addr → Prop} {now : Timestamp}
    (hback : ∀ s a t held, Ledger s (a :: held) → I s (a :: held) → s.heap a = some t →
      t.repeat_ = true → t.active a ∉ s.cancelingTimers_ →
      I ((s.store a (t.restart now)).insert a (t.restart now)).2 held)
    (hfree : ∀ s a t held, Ledger s (a :: held) → I s (a :: held) → s.heap a = some t →
      (t.repeat_ = true → t.active a ∈ s.cancelingTimers_) → I (s.free a t) held)
    {s s' : TimerQueue} {expired : List Entry} (L : Ledger s (addresses expired))
    (h : I s (addresses expired)) (hrun : Run.run (resetTimer now) s expired = some s') :
    I s' [] := by
  obtain ⟨u, hu, -, hI⟩ := run_resetTimer hback hfree L h
  rw [hrun, Option.some.injEq] at hu
  exact hu ▸ hI

theorem Ledger.run_resetTimer {s : TimerQueue} {expired : List Entry} (now : Timestamp)
    (L : Ledger s (addresses expired)) :
    ∃ s', Run.run (resetTimer now) s expired = some s' ∧ Ledger s' [] := by
  obtain ⟨s', hrun, L', -⟩ : ∃ s', Run.run (resetTimer now) s expired = some s' ∧
      Ledger s' [] ∧ True :=
    TimerQueue.run_resetTimer (I := fun _ _ => True) (fun _ _ _ _ _ _ _ _ _ => trivial)
      (fun _ _ _ _ _ _ _ _ => trivial) L trivial
  exact ⟨s', hrun, L'⟩

/-- What the end of `reset` does. -/
def rearmed (s : TimerQueue) : TimerQueue :=
  match s.timers_.begin? with
  | none => s
  | some first => if Timestamp.valid (ofLex first).1 then s.resetTimerfd (ofLex first).1 else s

theorem Ledger.rearm {s : TimerQueue} {held : List Addr} (L : Ledger s held) :
    s.rearm = some s.rearmed := by
  unfold TimerQueue.rearm rearmed
  cases h : s.timers_.begin? with
  | none => rfl
  | some first =>
      obtain ⟨a, t, ha, rfl, -⟩ := L.entries first (OrderedSet.begin?_eq_some h).1
      show (s.heap a).map _ = _
      rw [ha]
      rfl

/-- The end of `reset` only logs. -/
theorem rearmed_cases (s : TimerQueue) :
    s.rearmed = s ∨ ∃ e, s.rearmed = s.resetTimerfd e := by
  unfold rearmed
  cases s.timers_.begin? with
  | none => exact .inl rfl
  | some first =>
      simp only
      split_ifs
      · exact .inr ⟨_, rfl⟩
      · exact .inl rfl

theorem Ledger.rearmed {s : TimerQueue} {held : List Addr} (L : Ledger s held) :
    Ledger s.rearmed held := by
  rcases rearmed_cases s with h | ⟨e, h⟩
  · rw [h]
    exact L
  · rw [h]
    exact L.emit rfl rfl

/-- The queue as its destructor sees it: the timers in the sets are in hand. -/
def emptied (s : TimerQueue) : TimerQueue := { s with timers_ := ∅, activeTimers_ := ∅ }

theorem Ledger.emptied {s : TimerQueue} (L : Ledger s []) :
    Ledger s.emptied (addresses s.timers_.toList) := by
  have hwith := L.withdraw s.timers_.toList ∅ ∅ s.timers_.nodup
    (fun x hx => hx) ?_ (fun i hi => absurd hi (OrderedSet.not_mem_empty i)) ?_
  · rw [List.append_nil] at hwith
    exact hwith
  · intro x
    exact ⟨fun hx => absurd hx (OrderedSet.not_mem_empty x), fun hx => absurd hx.1 hx.2⟩
  · intro a t ha
    refine ⟨fun hi => absurd hi (OrderedSet.not_mem_empty _), fun hi => ?_⟩
    exact absurd ((L.entry_mem_iff ha).2 hi.1) hi.2

/-- The destructor deletes the timers in hand. -/
theorem Ledger.run_deleteTimer {s : TimerQueue} {l : List Entry}
    (L : Ledger s.emptied (addresses l)) :
    ∃ s', Run.run deleteTimer s l = some s' ∧ Ledger s'.emptied [] ∧
      s' = { s with heap := s'.heap, log := s'.log } := by
  induction l generalizing s with
  | nil => exact ⟨s, rfl, L, rfl⟩
  | cons x l ih =>
      obtain ⟨t, ht, -⟩ : ∃ t, s.heap (ofLex x).2 = some t ∧ _ :=
        L.held_live _ List.mem_cons_self
      have hstep : deleteTimer s x = some (s.free (ofLex x).2 t) := by
        unfold deleteTimer
        rw [ht]
        rfl
      have L₁ : Ledger (s.free (ofLex x).2 t).emptied (addresses l) := L.free ht
      obtain ⟨s', hrun, L', hs'⟩ := ih L₁
      exact ⟨s', Run.run_cons_eq_some.2 ⟨_, hstep, hrun⟩, L', hs'⟩

/-! ## What each event does -/

/-- The queue after the timer of a functor has been inserted. -/
def inserted (s : TimerQueue) (a : Addr) (t : Timer) : TimerQueue :=
  (({ s with inFlight := s.inFlight.erase a }.emit (.added a t)).insert a t).2

/-- Whether a timer would be the earliest. -/
def Earliest (s : TimerQueue) (t : Timer) : Prop :=
  ∀ first ∈ s.timers_.begin?, t.expiration_ < (ofLex first).1

/-- The queue after a queued timer has been cancelled. -/
def erased (s : TimerQueue) (a : Addr) (t : Timer) : TimerQueue :=
  { s.emit (.cancelled (t.active a)) with
    timers_ := s.timers_.erase (t.entry a)
    activeTimers_ := s.activeTimers_.erase (t.active a) }.free a t

/-- The queue after a timer that is not queued has been cancelled. -/
def noted (s : TimerQueue) (i : ActiveTimer) : TimerQueue :=
  { s.emit (.cancelled i) with
    cancelingTimers_ := if s.callingExpiredTimers_ then s.cancelingTimers_.insert i
      else s.cancelingTimers_ }

/-- The queue when a `handleRead` begins. -/
def begun (s : TimerQueue) (now : Timestamp) : TimerQueue :=
  { s with started := s.started + 1 }.emit (.readTimerfd now)

/-- The queue between the callbacks and `reset`. -/
def closed (s : TimerQueue) : TimerQueue := { s with callingExpiredTimers_ := false, frame := none }

/-- All that an event can do to a queue that has not been destroyed. -/
inductive Does (s : TimerQueue) : Event → TimerQueue → Prop where
  | newTimer {a : Addr} (when : Timestamp) (interval : Interval) (others : ℕ) (ha : s.heap a = none)
      (hmax : a < UINTPTR_MAX) :
      Does s (.newTimer a when interval others) (s.newTimer a when interval others)
  | addFirst {a : Addr} {t : Timer} (hout : s.Outside) (hmem : a ∈ s.inFlight)
      (ha : s.heap a = some t) (hfirst : s.Earliest t) :
      Does s (.addTimerInLoop a) ((s.inserted a t).resetTimerfd t.expiration_)
  | add {a : Addr} {t : Timer} (hout : s.Outside) (hmem : a ∈ s.inFlight) (ha : s.heap a = some t)
      (hfirst : ¬ s.Earliest t) : Does s (.addTimerInLoop a) (s.inserted a t)
  | erase {a : Addr} {t : Timer} (hout : s.Outside) (ha : s.heap a = some t)
      (hi : t.active a ∈ s.activeTimers_) : Does s (.cancelInLoop ⟨a, t.sequence_⟩) (s.erased a t)
  | note {timerId : TimerId} (hout : s.Outside) (hi : timerId.active ∉ s.activeTimers_) :
      Does s (.cancelInLoop timerId) (s.noted timerId.active)
  | handleReadBegin {now : Timestamp} {expired : List Entry} {s' : TimerQueue}
      (hframe : s.frame = none) (hE : Expires (s.begun now) now expired s')
      (hL : Ledger s' (addresses expired)) :
      Does s (.handleReadBegin now)
        { s' with callingExpiredTimers_ := true, frame := some ⟨now, expired, 0⟩ }
  | runNext {f : HandleRead} {x : Entry} {t : Timer} (hframe : s.frame = some f)
      (hx : f.expired[f.ran]? = some x) (ha : s.heap (ofLex x).2 = some t) :
      Does s .runNext
        ({ s with frame := some { f with ran := f.ran + 1 } }.emit (.called f.now (ofLex x).2 t))
  | handleReadEnd {f : HandleRead} {s' : TimerQueue} (hframe : s.frame = some f)
      (hran : f.ran = f.expired.length)
      (hrun : Run.run (resetTimer f.now) s.closed f.expired = some s') (hL : Ledger s' []) :
      Does s .handleReadEnd s'.rearmed
  | destroy {s' : TimerQueue} (hframe : s.frame = none)
      (hrun : Run.run deleteTimer s s.timers_.toList = some s')
      (hL : Ledger s'.emptied [])
      (hs' : s' = { s with heap := s'.heap, log := s'.log }) :
      Does s .destroy { s' with destroyed := true }

theorem insert_fst (s : TimerQueue) (a : Addr) (t : Timer) :
    (s.insert a t).1 = true ↔ s.Earliest t := by
  unfold insert Earliest
  cases s.timers_.begin? with
  | none => simp
  | some first => simp

/-- The books between the steps. -/
structure Good (s : TimerQueue) : Prop where
  ledger : s.destroyed = false → Ledger s s.batch
  calling : s.callingExpiredTimers_ = s.frame.isSome
  gone : s.destroyed = true → s.frame = none ∧ s.deleted.Nodup ∧ ∀ i ∈ s.added, i ∈ s.deleted

theorem good_new (numCreated : ℤ) : Good (new numCreated) where
  ledger _ := ledger_new numCreated
  calling := rfl
  gone h := absurd h (by simp [new])

theorem batch_of_frame {s : TimerQueue} {f : HandleRead} (h : s.frame = some f) :
    s.batch = addresses f.expired := by
  unfold batch
  rw [h]

theorem batch_of_idle {s : TimerQueue} (h : s.frame = none) : s.batch = [] := by
  unfold batch
  rw [h]

/-- **Progress and inversion.** An event that may happen never touches a deleted timer, and does one
    of the things listed. -/
theorem Good.does {s : TimerQueue} {e : Event} (G : Good s) (hd : s.destroyed = false)
    (he : s.Enabled e) : ∃ s', s.exec e = some s' ∧ Does s e s' := by
  have L := G.ledger hd
  cases e with
  | newTimer a when interval others => exact ⟨_, rfl, .newTimer when interval others he.1 he.2⟩
  | addTimerInLoop a =>
      obtain ⟨hmem, hout, -⟩ := he
      -- The timer of a functor on its way is alive.
      obtain ⟨-, t, ht, -⟩ := L.flying a hmem
      let s₁ : TimerQueue := { s with inFlight := s.inFlight.erase a }.emit (.added a t)
      have hexec : s.exec (.addTimerInLoop a) = some (if (s₁.insert a t).1 then
          (s.inserted a t).resetTimerfd t.expiration_ else s.inserted a t) := by
        show s.addTimerInLoop a = _
        unfold addTimerInLoop
        rw [ht]
        rfl
      have hfirst : (s₁.insert a t).1 = true ↔ s.Earliest t := insert_fst s₁ a t
      by_cases h : s.Earliest t
      · exact ⟨_, hexec.trans (congrArg some (if_pos (hfirst.2 h))), .addFirst hout hmem ht h⟩
      · exact ⟨_, hexec.trans (congrArg some (if_neg fun hc => h (hfirst.1 hc))),
          .add hout hmem ht h⟩
  | cancelInLoop timerId =>
      obtain ⟨hout, -⟩ := he
      by_cases hi : timerId.active ∈ s.activeTimers_
      · -- What is found in `activeTimers_` is alive, and the address in the id is its own.
        obtain ⟨a, t, ha, heq, -⟩ := L.actives _ hi
        obtain rfl : timerId = ⟨a, t.sequence_⟩ := by
          cases timerId
          simpa [TimerId.active, Timer.active] using heq
        refine ⟨s.erased a t, ?_, .erase hout ha hi⟩
        show s.cancelInLoop _ = _
        unfold cancelInLoop
        refine (if_pos hi).trans ?_
        show (s.heap a).map _ = _
        rw [ha]
        rfl
      · refine ⟨s.noted timerId.active, ?_, .note hout hi⟩
        show s.cancelInLoop timerId = _
        unfold cancelInLoop
        refine (if_neg hi).trans ?_
        unfold noted
        cases hcalling : s.callingExpiredTimers_ with
        | false =>
            refine (if_neg ?_).trans rfl
            show ¬ s.callingExpiredTimers_ = true
            simp [hcalling]
        | true => exact (if_pos hcalling).trans rfl
  | handleReadBegin now =>
      obtain ⟨hframe, -⟩ := he
      have L₁ : Ledger (s.begun now) [] := by
        rw [batch_of_idle hframe] at L
        exact Ledger.emit (s := { s with started := s.started + 1 }) { L with } rfl rfl
      obtain ⟨expired, s', hget, hE, hL⟩ := L₁.getExpired now
      refine ⟨_, ?_, .handleReadBegin hframe hE hL⟩
      show s.handleReadBegin now = _
      unfold handleReadBegin
      show ((s.begun now).getExpired now).map _ = _
      rw [hget]
      rfl
  | runNext =>
      obtain ⟨f, hframe, hlt⟩ := he
      have hx : f.expired[f.ran]? = some f.expired[f.ran] := List.getElem?_eq_getElem hlt
      have hmem : (ofLex f.expired[f.ran]).2 ∈ addresses f.expired :=
        List.mem_map_of_mem (List.getElem_mem hlt)
      rw [batch_of_frame hframe] at L
      -- The callbacks before this one can have deleted queued timers only.
      obtain ⟨t, ht, -⟩ := L.held_live _ hmem
      refine ⟨_, ?_, .runNext hframe hx ht⟩
      show s.runNext = _
      unfold runNext
      rw [hframe, Option.bind_some, hx, Option.bind_some, ht]
      rfl
  | handleReadEnd =>
      obtain ⟨f, hframe, hran⟩ := he
      rw [batch_of_frame hframe] at L
      have L₁ : Ledger s.closed (addresses f.expired) := { L with }
      obtain ⟨s', hrun, hL⟩ := L₁.run_resetTimer f.now
      refine ⟨_, ?_, .handleReadEnd hframe hran hrun hL⟩
      show s.handleReadEnd = _
      unfold handleReadEnd
      rw [hframe, Option.bind_some]
      show s.closed.reset f.expired f.now = _
      unfold reset
      rw [hrun, Option.bind_some, hL.rearm]
  | destroy =>
      obtain ⟨hframe, -⟩ := he
      rw [batch_of_idle hframe] at L
      obtain ⟨s', hrun, hL, hs'⟩ := L.emptied.run_deleteTimer
      refine ⟨_, ?_, .destroy hframe hrun hL hs'⟩
      show s.destroy = _
      unfold destroy
      rw [hrun]
      rfl

/-- The loop of `reset` changes neither where the loop thread is nor the number of the batch. -/
theorem run_resetTimer_rest {s s' : TimerQueue} {now : Timestamp} {expired : List Entry}
    (h : Run.run (resetTimer now) s expired = some s') :
    s'.callingExpiredTimers_ = s.callingExpiredTimers_ ∧ s'.frame = s.frame ∧
      s'.destroyed = s.destroyed ∧ s'.started = s.started ∧
      s'.cancelingTimers_ = s.cancelingTimers_ ∧ s'.inFlight = s.inFlight := by
  refine Run.inv_run (I := fun u => u.callingExpiredTimers_ = s.callingExpiredTimers_ ∧
    u.frame = s.frame ∧ u.destroyed = s.destroyed ∧ u.started = s.started ∧
    u.cancelingTimers_ = s.cancelingTimers_ ∧ u.inFlight = s.inFlight) ?_
    ⟨rfl, rfl, rfl, rfl, rfl, rfl⟩ h
  intro u x u' hu hstep
  obtain ⟨t, ht, -⟩ := Option.map_eq_some_iff.1 hstep
  rw [resetTimer_eq ht, Option.some.injEq] at hstep
  rw [← hstep]
  split_ifs
  · exact hu
  · exact hu

theorem rearmed_rest (s : TimerQueue) : s.rearmed = { s with log := s.rearmed.log } := by
  rcases rearmed_cases s with h | ⟨e, h⟩
  · rw [h]
  · rw [h]
    rfl

theorem Does.good {s s' : TimerQueue} {e : Event} (G : Good s) (hd : s.destroyed = false)
    (h : Does s e s') : Good s' := by
  have L := G.ledger hd
  have habsurd {u : TimerQueue} {p : Prop} (hu : u.destroyed = s.destroyed)
      (h : u.destroyed = true) : p := by
    rw [hu, hd] at h
    exact absurd h (by simp)
  cases h with
  | newTimer when interval others ha hmax =>
      exact ⟨fun _ => L.newTimer ha hmax when interval others, G.calling, habsurd rfl⟩
  | addFirst hout hmem ha hfirst =>
      exact ⟨fun _ => ((L.take hmem ha).insert ha).emit rfl rfl, G.calling, habsurd rfl⟩
  | add hout hmem ha hfirst => exact ⟨fun _ => (L.take hmem ha).insert ha, G.calling, habsurd rfl⟩
  | @erase a t hout ha hi =>
      refine ⟨fun _ => ?_, G.calling, habsurd rfl⟩
      have L₁ : Ledger (s.emit (.cancelled (t.active a))) s.batch := L.emit rfl rfl
      exact (L₁.erase ha hi).free ha
  | @note timerId hout hi =>
      refine ⟨fun _ => ?_, G.calling, habsurd rfl⟩
      have L₁ : Ledger (s.emit (.cancelled timerId.active)) s.batch := L.emit rfl rfl
      exact { L₁ with }
  | @handleReadBegin now expired s₁ hframe hE hL =>
      refine ⟨fun _ => { hL with }, rfl, habsurd ?_⟩
      show s₁.destroyed = _
      rw [hE.rest]
      rfl
  | @runNext f x t hframe hx ha =>
      refine ⟨fun _ => ?_, ?_, habsurd rfl⟩
      · rw [batch_of_frame hframe] at L
        exact Ledger.emit (s := { s with frame := some { f with ran := f.ran + 1 } }) { L with }
          rfl rfl
      · show s.callingExpiredTimers_ = true
        rw [G.calling, hframe]
        rfl
  | @handleReadEnd f s₁ hframe hran hrun hL =>
      obtain ⟨hcalling, hframe₁, hdestroyed, -⟩ := run_resetTimer_rest hrun
      refine ⟨fun _ => ?_, ?_, habsurd ?_⟩
      · rw [batch_of_idle (by rw [rearmed_rest]; exact hframe₁)]
        exact hL.rearmed
      · rw [rearmed_rest]
        show s₁.callingExpiredTimers_ = s₁.frame.isSome
        rw [hcalling, hframe₁]
        rfl
      · rw [rearmed_rest]
        exact hdestroyed
  | @destroy s₁ hframe hrun hL hs₁ =>
      have hframe₁ : s₁.frame = none := by
        rw [hs₁]
        exact hframe
      refine ⟨fun h => absurd h (by simp), ?_, fun _ => ⟨hframe₁, hL.deleted_nodup, fun i hi => ?_⟩⟩
      · show s₁.callingExpiredTimers_ = s₁.frame.isSome
        rw [hs₁]
        exact G.calling
      · rcases hL.added_owned i hi with h | h | ⟨b, hb, -⟩
        · exact absurd h (OrderedSet.not_mem_empty i)
        · exact h
        · exact absurd hb List.not_mem_nil

theorem not_destroyed_of_enabled {s : TimerQueue} {e : Event} (G : Good s) (he : s.Enabled e) :
    s.destroyed = false ∨
      ∃ a when interval others, e = .newTimer a when interval others := by
  rw [← Bool.not_eq_true]
  by_cases hd : s.destroyed = true
  · right
    obtain ⟨hframe, -⟩ := G.gone hd
    cases e with
    | newTimer a when interval others => exact ⟨a, when, interval, others, rfl⟩
    | addTimerInLoop a => exact absurd (he.2.2.symm.trans hd) (by simp)
    | cancelInLoop timerId => exact absurd (he.2.symm.trans hd) (by simp)
    | handleReadBegin now => exact absurd (he.2.symm.trans hd) (by simp)
    | runNext =>
        obtain ⟨f, hf, -⟩ := he
        rw [hframe] at hf
        exact absurd hf (by simp)
    | handleReadEnd =>
        obtain ⟨f, hf, -⟩ := he
        rw [hframe] at hf
        exact absurd hf (by simp)
    | destroy => exact absurd (he.2.symm.trans hd) (by simp)
  · exact .inl hd

/-- **What one step does.** Either the queue has been destroyed, and a `Timer` is made that nobody will
    queue, or one of the things listed happens. -/
theorem Good.step_cases {s s' : TimerQueue} {e : Event} (G : Good s) (h : step s e = some s') :
    (s.destroyed = false ∧ s.Enabled e ∧ Does s e s') ∨
      (s.destroyed = true ∧ ∃ a when interval others, s' = s.newTimer a when interval others) := by
  obtain ⟨he, hexec⟩ := Run.restrict_eq_some.1 h
  rcases Bool.eq_false_or_eq_true s.destroyed with hd | hd
  · rcases not_destroyed_of_enabled G he with hd' | ⟨a, when, interval, others, rfl⟩
    · exact absurd (hd'.symm.trans hd) (by simp)
    · exact .inr ⟨hd, a, when, interval, others, (Option.some.inj hexec).symm⟩
  · obtain ⟨s₁, hs₁, hdoes⟩ := G.does hd he
    rw [hexec, Option.some.injEq] at hs₁
    exact .inl ⟨hd, he, hs₁ ▸ hdoes⟩

theorem Good.step {s s' : TimerQueue} {e : Event} (G : Good s)
    (h : TimerQueue.step s e = some s') : Good s' := by
  rcases G.step_cases h with ⟨hd, -, hdoes⟩ | ⟨hd, a, when, interval, others, rfl⟩
  · exact hdoes.good G hd
  · exact ⟨fun h => absurd (hd.symm.trans h) (by simp), G.calling, fun _ => G.gone hd⟩

theorem Good.run {s s' : TimerQueue} {es : List Event} (G : Good s)
    (h : Run.run TimerQueue.step s es = some s') : Good s' :=
  Run.inv_run (fun _ _ _ G h => Good.step G h) G h

/-! ## Every state of a run -/

/-- A timer is queued, under its expiration. -/
def Queued (s : TimerQueue) (i : ActiveTimer) : Prop :=
  ∃ a t, s.heap a = some t ∧ t.active a = i ∧ t.entry a ∈ s.timers_

/-- A timer is in the batch being run. -/
def InBatch (s : TimerQueue) (i : ActiveTimer) : Prop :=
  ∃ a ∈ s.batch, ∃ t, s.heap a = some t ∧ t.active a = i

/-- A timer has been deleted. -/
def Deleted (s : TimerQueue) (i : ActiveTimer) : Prop := i ∈ s.deleted

/-- The two sets describe the same living timers, and each timer handed to `addTimerInLoop` is in one
    place. -/
structure Consistent (s : TimerQueue) : Prop where
  one_to_one : ∀ e a, (toLex (e, a) : Entry) ∈ s.timers_ ↔
    ∃ t, s.heap a = some t ∧ t.active a ∈ s.activeTimers_ ∧ e = t.expiration_
  active_live : ∀ i ∈ s.activeTimers_, ∃ a t, s.heap a = some t ∧ t.active a = i
  batch_disjoint : ∀ a ∈ s.batch, ∃ t, s.heap a = some t ∧ t.active a ∉ s.activeTimers_ ∧
    ∀ e, (toLex (e, a) : Entry) ∉ s.timers_
  exactly_one : ∀ i ∈ s.added, (s.Queued i ∧ ¬ s.InBatch i ∧ ¬ s.Deleted i) ∨
    (¬ s.Queued i ∧ s.InBatch i ∧ ¬ s.Deleted i) ∨ (¬ s.Queued i ∧ ¬ s.InBatch i ∧ s.Deleted i)
  deleted_once : s.deleted.Nodup

theorem Ledger.consistent {s : TimerQueue} (L : Ledger s s.batch) : Consistent s := by
  have hqueued {i : ActiveTimer} : s.Queued i ↔ i ∈ s.activeTimers_ := by
    constructor
    · rintro ⟨a, t, ha, rfl, hx⟩
      exact (L.entry_mem_iff ha).1 hx
    · intro hi
      obtain ⟨a, t, ha, rfl, hx⟩ := L.actives i hi
      exact ⟨a, t, ha, rfl, hx⟩
  have hbatch {i : ActiveTimer} (hi : s.InBatch i) : i ∉ s.activeTimers_ ∧ i ∉ s.deleted := by
    obtain ⟨a, ha, t, ht, rfl⟩ := hi
    exact ⟨fun h => L.not_mem_held ht h ha, fun h => (L.deleted_dead _ h).2 a t ht rfl⟩
  have hactive {i : ActiveTimer} (hi : i ∈ s.activeTimers_) : i ∉ s.deleted := by
    obtain ⟨a, t, ha, rfl, -⟩ := L.actives i hi
    exact fun h => (L.deleted_dead _ h).2 a t ha rfl
  refine ⟨fun e a => ?_, fun i hi => ?_, fun a ha => ?_, fun i hi => ?_, L.deleted_nodup⟩
  · constructor
    · intro hx
      obtain ⟨b, t, hb, heq, hi⟩ := L.entries _ hx
      rw [Timer.entry, toLex_inj, Prod.mk.injEq] at heq
      obtain ⟨rfl, rfl⟩ := heq
      exact ⟨t, hb, hi, rfl⟩
    · rintro ⟨t, ht, hi, rfl⟩
      exact (L.entry_mem_iff ht).2 hi
  · obtain ⟨a, t, ha, rfl, -⟩ := L.actives i hi
    exact ⟨a, t, ha, rfl⟩
  · obtain ⟨t, ht, hnot, -⟩ := L.held_live a ha
    refine ⟨t, ht, hnot, fun e hx => ?_⟩
    obtain ⟨b, u, hb, heq, hi⟩ := L.entries _ hx
    rw [Timer.entry, toLex_inj, Prod.mk.injEq] at heq
    obtain ⟨-, rfl⟩ := heq
    exact L.not_mem_held hb hi ha
  · rw [hqueued]
    unfold Deleted
    rcases L.added_owned i hi with h | h | ⟨a, ha, t, ht, rfl⟩
    · exact .inl ⟨h, fun hb => (hbatch hb).1 h, hactive h⟩
    · exact .inr (.inr ⟨fun ha => hactive ha h, fun hb => (hbatch hb).2 h, h⟩)
    · have hb : s.InBatch (t.active a) := ⟨a, ha, t, ht, rfl⟩
      exact .inr (.inl ⟨(hbatch hb).1, hb, (hbatch hb).2⟩)

/-- **Representation and ownership.** In every state of every run, until the destructor has run, the
    two sets describe the same timers, disjoint from the batch, and each timer added is in one of
    `timers_`, the batch and the deleted; no event that may happen touches a deleted timer; and when
    the destructor has run, each timer added has been deleted once. -/
theorem consistent_along (numCreated : ℤ) (es : List Event) :
    Run.Along TimerQueue.step (fun s => (s.destroyed = false → Consistent s) ∧
      (∀ e, s.Enabled e → (s.exec e).isSome) ∧
      (s.destroyed = true → ∀ i ∈ s.added, s.deleted.count i = 1)) (new numCreated) es := by
  refine Run.Along.of_inv (fun _ _ _ G h => Good.step G h) ?_ (good_new numCreated) es
  intro s G
  refine ⟨fun hd => (G.ledger hd).consistent, fun e he => ?_, fun hd i hi => ?_⟩
  · rcases not_destroyed_of_enabled G he with hd | ⟨a, when, interval, others, rfl⟩
    · obtain ⟨s', hs', -⟩ := G.does hd he
      rw [hs']
      rfl
    · rfl
  · obtain ⟨-, hnodup, hall⟩ := G.gone hd
    exact List.count_eq_one_of_mem hnodup (hall i hi)

end TimerQueue

end WwjMuduo
