import WwjMuduo.TimerQueue.Ownership

set_option autoImplicit false

/-! # The timerfd

The timerfd fires once, and then has to be set again. `addTimerInLoop` sets it when the new timer is
the earliest, and `reset` when the first expiration is valid. Between the two there is a gap: while
the callbacks run, the timerfd may be unset although timers are queued. But then these all expire
after the clock reading of the batch, which is positive, so `reset` sees a valid expiration; and if
it does not, a callback has added a timer in the past and has set the timerfd to it. -/

namespace WwjMuduo

namespace Act

/-- What the timerfd is set to after an act. -/
def arms (armed : Option Timestamp) : Act → Option Timestamp
  | .resetTimerfd expiration => some expiration
  | .readTimerfd _ => none
  | _ => armed

end Act

namespace TimerQueue

/-- The expiration of the latest `resetTimerfd`, if there was one since the latest `readTimerfd`. -/
def armed (s : TimerQueue) : Option Timestamp := s.log.foldl (fun o x => x.2.arms o) none

theorem armed_emit (s : TimerQueue) (act : Act) : (s.emit act).armed = act.arms s.armed := by
  unfold armed emit
  rw [List.foldl_append]
  rfl

/-- Every queued timer expires no earlier than the timerfd. -/
def Covered (s : TimerQueue) : Prop := ∀ x ∈ s.timers_, ∃ e ∈ s.armed, e ≤ (ofLex x).1

/-- Every queued timer has a valid expiration. -/
def Valid (s : TimerQueue) : Prop := ∀ x ∈ s.timers_, 0 < (ofLex x).1

/-- The timerfd between the steps. -/
def Arming (s : TimerQueue) : Prop :=
  match s.frame with
  | none => s.Covered
  | some f => 0 < f.now ∧ (s.Covered ∨ s.Valid)

theorem arming_of_idle {s : TimerQueue} (h : s.frame = none) : s.Arming ↔ s.Covered := by
  unfold Arming
  rw [h]

theorem arming_of_frame {s : TimerQueue} {f : HandleRead} (h : s.frame = some f) :
    s.Arming ↔ 0 < f.now ∧ (s.Covered ∨ s.Valid) := by
  unfold Arming
  rw [h]

theorem Arming.congr {s s' : TimerQueue} (A : s.Arming) (hframe : s'.frame = s.frame)
    (hcovered : s.Covered → s'.Covered) (hvalid : s.Valid → s'.Covered ∨ s'.Valid) : s'.Arming := by
  cases h : s.frame with
  | none => exact (arming_of_idle (hframe.trans h)).2 (hcovered ((arming_of_idle h).1 A))
  | some f =>
      obtain ⟨hnow, hor⟩ := (arming_of_frame h).1 A
      refine (arming_of_frame (hframe.trans h)).2 ⟨hnow, ?_⟩
      rcases hor with hc | hv
      · exact .inl (hcovered hc)
      · exact hvalid hv

/-- The first entry of a set expires first. -/
theorem first_le {s : TimerQueue} {first x : Entry} (h : s.timers_.begin? = some first)
    (hx : x ∈ s.timers_) : (ofLex first).1 ≤ (ofLex x).1 := by
  have hle := (OrderedSet.begin?_eq_some h).2 x hx
  rcases Prod.Lex.le_iff.1 hle with hlt | heq
  · exact hlt.le
  · exact heq.1.le

/-- A new timer that is the earliest sets the timerfd below all. -/
theorem covered_addFirst {s : TimerQueue} {a : Addr} {t : Timer} (hfirst : s.Earliest t) :
    Covered ((s.inserted a t).resetTimerfd t.expiration_) := by
  intro x hx
  refine ⟨t.expiration_, armed_emit .., ?_⟩
  rcases OrderedSet.mem_insert.1 hx with rfl | hx
  · exact le_rfl
  · cases h : s.timers_.begin? with
    | none => exact absurd hx (OrderedSet.begin?_eq_none.1 h x)
    | some first => exact (hfirst first h).le.trans (first_le h hx)

/-- A new timer that is not the earliest expires after one that was there. -/
theorem exists_le_of_not_earliest {s : TimerQueue} {t : Timer} (h : ¬ s.Earliest t) :
    ∃ x ∈ s.timers_, (ofLex x).1 ≤ t.expiration_ := by
  unfold Earliest at h
  push Not at h
  obtain ⟨first, hfirst, hle⟩ := h
  exact ⟨first, (OrderedSet.begin?_eq_some hfirst).1, hle⟩

/-- The timers `reset` puts back have valid expirations. -/
theorem run_resetTimer_valid {s s' : TimerQueue} {now : Timestamp} {expired : List Entry}
    (hnow : 0 < now) (hrun : Run.run (resetTimer now) s expired = some s') :
    s'.armed = s.armed ∧ ∀ x ∈ s'.timers_, x ∈ s.timers_ ∨ 0 < (ofLex x).1 := by
  refine Run.inv_run (I := fun u => u.armed = s.armed ∧
    ∀ x ∈ u.timers_, x ∈ s.timers_ ∨ 0 < (ofLex x).1) ?_ ⟨rfl, fun x hx => .inl hx⟩ hrun
  intro u x u' hu hstep
  obtain ⟨t, ht, -⟩ := Option.map_eq_some_iff.1 hstep
  rw [resetTimer_eq ht, Option.some.injEq] at hstep
  rw [← hstep]
  split_ifs with h
  · refine ⟨hu.1, fun y hy => ?_⟩
    rcases OrderedSet.mem_insert.1 hy with rfl | hy
    · right
      show 0 < (t.restart now).expiration_
      rw [Timer.restart_expiration h.1]
      exact Int.add_pos_of_pos_of_nonneg hnow (Timer.micros_nonneg h.1)
    · exact hu.2 y hy
  · exact ⟨(armed_emit ..).trans hu.1, hu.2⟩

/-- The end of `reset` covers every timer. -/
theorem covered_rearmed {s : TimerQueue}
    (h : ∀ x ∈ s.timers_, (ofLex x).1 ≤ 0 → ∃ e ∈ s.armed, e ≤ (ofLex x).1) :
    s.rearmed.Covered := by
  unfold rearmed
  cases hfirst : s.timers_.begin? with
  | none => exact fun x hx => absurd hx (OrderedSet.begin?_eq_none.1 hfirst x)
  | some first =>
      by_cases hvalid : Timestamp.valid (ofLex first).1 = true
      · simp only [if_pos hvalid]
        exact fun x hx => ⟨(ofLex first).1, armed_emit .., first_le hfirst hx⟩
      · simp only [if_neg hvalid]
        have hle : (ofLex first).1 ≤ 0 := not_lt.1 fun hlt => hvalid (decide_eq_true hlt)
        obtain ⟨e, he, hefirst⟩ := h first (OrderedSet.begin?_eq_some hfirst).1 hle
        exact fun x hx => ⟨e, he, hefirst.trans (first_le hfirst hx)⟩

/-- The clock readings are positive. -/
def PositiveClock : Event → Prop
  | .handleReadBegin now => 0 < now
  | _ => True

theorem Does.arming {s s' : TimerQueue} {e : Event} (hclock : PositiveClock e) (A : s.Arming)
    (h : Does s e s') (hd' : s'.destroyed = false) : s'.Arming := by
  cases h with
  | newTimer => exact A.congr rfl (fun h => h) .inr
  | addFirst hout hmem ha hfirst =>
      exact A.congr rfl (fun _ => covered_addFirst hfirst) fun _ => .inl (covered_addFirst hfirst)
  | @add a t hout hmem ha hfirst =>
      obtain ⟨first, hin, hle⟩ := exists_le_of_not_earliest hfirst
      have harmed : (s.inserted a t).armed = s.armed := armed_emit ..
      refine A.congr rfl (fun hc x hx => ?_) fun hv => .inr fun x hx => ?_
      · rw [harmed]
        rcases OrderedSet.mem_insert.1 hx with rfl | hx
        · obtain ⟨e, he, hefirst⟩ := hc first hin
          exact ⟨e, he, hefirst.trans hle⟩
        · exact hc x hx
      · rcases OrderedSet.mem_insert.1 hx with rfl | hx
        · exact (hv first hin).trans_le hle
        · exact hv x hx
  | @erase a t hout ha hi =>
      have harmed : (s.erased a t).armed = s.armed := (armed_emit ..).trans (armed_emit ..)
      refine A.congr rfl (fun hc x hx => ?_) fun hv => .inr fun x hx => ?_
      · rw [harmed]
        exact hc x (OrderedSet.mem_erase.1 hx).2
      · exact hv x (OrderedSet.mem_erase.1 hx).2
  | @note timerId hout hi =>
      have harmed : (s.noted timerId.active).armed = s.armed := armed_emit ..
      refine A.congr rfl (fun hc x hx => ?_) .inr
      rw [harmed]
      exact hc x hx
  | @handleReadBegin now expired s₁ hframe hE hL =>
      refine (arming_of_frame (f := ⟨now, expired, 0⟩) rfl).2 ⟨hclock, .inr fun x hx => ?_⟩
      exact lt_trans hclock ((hE.timers_iff x).1 hx).2
  | @runNext f x t hframe hx ha =>
      obtain ⟨hnow, hor⟩ := (arming_of_frame hframe).1 A
      refine (arming_of_frame (f := { f with ran := f.ran + 1 }) rfl).2 ⟨hnow, ?_⟩
      refine hor.imp_left fun hc y hy => ?_
      rw [armed_emit]
      exact hc y hy
  | @handleReadEnd f s₁ hframe hran hrun hL =>
      obtain ⟨hnow, hor⟩ := (arming_of_frame hframe).1 A
      have hidle : s₁.rearmed.frame = none := by
        rw [rearmed_rest]
        exact (run_resetTimer_rest hrun).2.1
      obtain ⟨harmed, hback⟩ := run_resetTimer_valid hnow hrun
      refine (arming_of_idle hidle).2 (covered_rearmed fun x hx hle => ?_)
      rw [harmed]
      rcases hback x hx with hx | hpos
      · rcases hor with hc | hv
        · exact hc x hx
        · exact absurd (hv x hx) (not_lt.2 hle)
      · exact absurd hpos (not_lt.2 hle)
  | destroy => exact absurd hd' (by simp)

/-- **Arming.** In every run whose clock readings are positive, outside of `handleRead` and as long as
    the queue exists: if timers are queued, the timerfd has been set since it was last read, and
    to no later than the smallest expiration. -/
theorem armed_along (numCreated : ℤ) {es : List Event} (hclock : ∀ e ∈ es, PositiveClock e) :
    Run.Along step (fun s => s.frame = none → s.destroyed = false → s.timers_.toList ≠ [] →
      ∃ e, s.armed = some e ∧ ∀ x ∈ s.timers_, e ≤ (ofLex x).1) (new numCreated) es := by
  rw [Run.along_iff_prefix]
  intro pre s hpre hrun hframe hd hne
  have hstart : (new numCreated).Arming :=
    (arming_of_idle rfl).2 fun x hx => absurd hx (OrderedSet.not_mem_empty x)
  have hinv : Good s ∧ (s.destroyed = false → s.Arming) := by
    refine Run.inv_run_of (I := fun u => Good u ∧ (u.destroyed = false → u.Arming)) ?_
      (fun e he => hclock e (hpre.subset he)) ⟨good_new numCreated, fun _ => hstart⟩ hrun
    intro u e u' he ⟨G, A⟩ hu
    refine ⟨G.step hu, fun hd' => ?_⟩
    rcases G.step_cases hu with ⟨hd₀, -, hdoes⟩ | ⟨hd₀, a, when, interval, others, rfl⟩
    · exact hdoes.arming he (A hd₀) hd'
    · exact absurd (hd₀.symm.trans hd') (by simp)
  have A := hinv.2 hd
  have hcovered := (arming_of_idle hframe).1 A
  obtain ⟨x, hx⟩ := List.exists_mem_of_ne_nil _ hne
  obtain ⟨e, he, -⟩ := hcovered x hx
  refine ⟨e, he, fun y hy => ?_⟩
  obtain ⟨e', he', hle⟩ := hcovered y hy
  rw [Option.mem_def] at he he'
  obtain rfl : e = e' := Option.some.inj (he.symm.trans he')
  exact hle

/-- A callback adds a timer for a time before the epoch. -/
theorem armed_along_past : ∃ s, Run.run step (new 0) [.newTimer 4096 10 .zero 0, .addTimerInLoop 4096,
      .handleReadBegin 10, .runNext, .newTimer 8192 (-5) .zero 0, .addTimerInLoop 8192,
      .handleReadEnd] = some s ∧ s.armed = some (-5) ∧
    Run.Along step (fun s => s.frame = none → s.destroyed = false → s.timers_.toList ≠ [] →
      ∃ e, s.armed = some e ∧ ∀ x ∈ s.timers_, e ≤ (ofLex x).1) (new 0)
      [.newTimer 4096 10 .zero 0, .addTimerInLoop 4096, .handleReadBegin 10, .runNext,
        .newTimer 8192 (-5) .zero 0, .addTimerInLoop 8192, .handleReadEnd] := by
  refine ⟨_, rfl, rfl, armed_along 0 fun e he => ?_⟩
  simp only [List.mem_cons, List.not_mem_nil, or_false] at he
  rcases he with rfl | rfl | rfl | rfl | rfl | rfl | rfl
  all_goals simp [PositiveClock]

end TimerQueue

end WwjMuduo
