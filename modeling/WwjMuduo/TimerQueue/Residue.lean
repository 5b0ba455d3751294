import WwjMuduo.TimerQueue.Ownership

set_option autoImplicit false

/-! # What stays in the cancel set

A cancel that executes while callbacks run, of a timer that is not queued, goes into
`cancelingTimers_`, for the `reset` of the batch to see. Nothing takes it out again: the earlier
version emptied the set before each batch, this one never does. So the set is empty when a batch
begins only if no such cancel has ever executed, and its size grows with the run. -/

namespace WwjMuduo

/-- Whether an act is a call of a callback. -/
def Act.isCalled : Act → Bool
  | .called .. => true
  | _ => false

namespace TimerQueue

variable {s s' : TimerQueue} {e : Event}

/-! ## Batches -/

/-- The number of the last batch that called a callback. -/
def lastCalled (s : TimerQueue) : ℕ :=
  s.log.foldl (fun k x => if x.2.isCalled then x.1 else k) 0

/-- The number of the current batch, or of the most recent one. A `handleRead` that finds no expired
    timer has no batch. -/
def batchNumber (s : TimerQueue) : ℕ :=
  match s.frame with
  | none => s.lastCalled
  | some f => if f.expired = [] then s.lastCalled else s.started

/-- The cancels that executed during the current or most recent batch, or since. -/
def recentCancels (s : TimerQueue) : List ActiveTimer :=
  s.log.filterMap fun x => match x.2 with
    | .cancelled i => if x.1 = s.batchNumber then some i else none
    | _ => none

/-- A cancel that goes into the set. -/
def Notes (s : TimerQueue) : Event → Prop
  | .cancelInLoop timerId => s.callingExpiredTimers_ = true ∧ timerId.active ∉ s.activeTimers_
  | _ => False

/-- A `handleRead` that finds an expired timer. -/
def BeginsBatch (s : TimerQueue) : Event → Prop
  | .handleReadBegin now => ∃ x ∈ s.timers_, (ofLex x).1 ≤ now
  | _ => False

/-- The set is empty before the first callback of a batch; it holds only what has been cancelled since
    the batch began, and has no more elements than there were such cancels. -/
structure Bounded (s : TimerQueue) : Prop where
  first : ∀ f ∈ s.frame, f.ran = 0 → f.expired ≠ [] → s.cancelingTimers_ = ∅
  recent : ∀ i ∈ s.cancelingTimers_, (s.batchNumber, Act.cancelled i) ∈ s.log
  size : s.cancelingTimers_.toList.length ≤ s.recentCancels.length

theorem mem_recentCancels {i : ActiveTimer} :
    i ∈ s.recentCancels ↔ (s.batchNumber, Act.cancelled i) ∈ s.log := by
  unfold recentCancels
  rw [List.mem_filterMap]
  constructor
  · rintro ⟨⟨k, act⟩, hmem, hact⟩
    cases act with
    | cancelled j =>
        simp only [Option.ite_none_right_eq_some, Option.some.injEq] at hact
        obtain ⟨rfl, rfl⟩ := hact
        exact hmem
    | _ => exact absurd hact (by simp)
  · intro h
    exact ⟨_, h, by simp⟩

/-- The size is a matter of the names, of which the set has none twice. -/
theorem Bounded.of_recent (first : ∀ f ∈ s.frame, f.ran = 0 → f.expired ≠ [] → s.cancelingTimers_ = ∅)
    (recent : ∀ i ∈ s.cancelingTimers_, (s.batchNumber, Act.cancelled i) ∈ s.log) : s.Bounded := by
  refine ⟨first, recent, ?_⟩
  have hsub : s.cancelingTimers_.toList ⊆ s.recentCancels :=
    fun i hi => mem_recentCancels.2 (recent i hi)
  exact List.Nodup.length_le_of_subset s.cancelingTimers_.nodup hsub

/-! ## What an event does to the set -/

/-- An event does one of three things: it leaves set and batch number alone and begins no batch, or
    it puts the name of a cancelled timer into the set during a batch, or it begins a batch. -/
inductive Sees (s s' : TimerQueue) : Event → Prop where
  | quiet {e : Event} (hnot : ¬ s.Notes e) (hbegin : ¬ s.BeginsBatch e)
      (hset : s'.cancelingTimers_ = s.cancelingTimers_) (hbatch : s'.batchNumber = s.batchNumber)
      (hfirst : ∀ f ∈ s'.frame, f.ran = 0 → f.expired ≠ [] → s.frame = some f)
      (hlog : ∀ x ∈ s.log, x ∈ s'.log) : Sees s s' e
  | note {timerId : TimerId} (hnotes : s.Notes (.cancelInLoop timerId))
      (hset : s'.cancelingTimers_ = s.cancelingTimers_.insert timerId.active)
      (hbatch : s'.batchNumber = s.batchNumber) (hfirst : ∀ f ∈ s'.frame, 0 < f.ran)
      (hlog : ∀ x ∈ s.log, x ∈ s'.log)
      (hcancel : (s.batchNumber, Act.cancelled timerId.active) ∈ s'.log) :
      Sees s s' (.cancelInLoop timerId)
  | begin {now : Timestamp} (hbegin : s.BeginsBatch (.handleReadBegin now))
      (hset : s'.cancelingTimers_ = s.cancelingTimers_)
      (hframe : ∃ f, s'.frame = some f ∧ f.ran = 0 ∧ f.expired ≠ []) :
      Sees s s' (.handleReadBegin now)

/-- Between the steps: once a batch has called a callback, it is the last that did. -/
structure Seen (s : TimerQueue) : Prop where
  good : Good s
  ran : ∀ f ∈ s.frame, 0 < f.ran → f.expired ≠ [] ∧ s.lastCalled = s.started

theorem seen_new (numCreated : ℤ) : Seen (new numCreated) :=
  ⟨good_new numCreated, fun f hf => absurd hf (by simp [new])⟩

theorem lastCalled_emit (s : TimerQueue) {act : Act} (h : act.isCalled = false) :
    (s.emit act).lastCalled = s.lastCalled := by
  unfold lastCalled emit
  rw [List.foldl_append]
  simp [h]

theorem mem_log_of_append {more : List (ℕ × Act)} (h : s'.log = s.log ++ more) :
    ∀ x ∈ s.log, x ∈ s'.log := by
  intro x hx
  rw [h]
  exact List.mem_append_left _ hx

/-- In a callback the batch number is the number of the `handleRead`. -/
theorem batchNumber_of_frame {f : HandleRead} (hframe : s.frame = some f) (h : f.expired ≠ []) :
    s.batchNumber = s.started := by
  unfold batchNumber
  rw [hframe]
  exact if_neg h

theorem batchNumber_of_empty {f : HandleRead} (hframe : s.frame = some f) (h : f.expired = []) :
    s.batchNumber = s.lastCalled := by
  unfold batchNumber
  rw [hframe]
  exact if_pos h

theorem batchNumber_of_idle (hframe : s.frame = none) : s.batchNumber = s.lastCalled := by
  unfold batchNumber
  rw [hframe]

theorem batchNumber_congr (hframe : s'.frame = s.frame) (hstarted : s'.started = s.started)
    (hlast : s'.lastCalled = s.lastCalled) : s'.batchNumber = s.batchNumber := by
  unfold batchNumber
  rw [hframe, hstarted, hlast]

/-- The loops of `reset` and of the destructor call nothing and keep the log. -/
theorem run_lastCalled {f : TimerQueue → Entry → Option TimerQueue}
    (hf : ∀ u x u', f u x = some u' → u'.log = u.log ∨ ∃ act : Act, act.isCalled = false ∧
      u'.log = (u.emit act).log) {l : List Entry} (h : Run.run f s l = some s') :
    s'.lastCalled = s.lastCalled ∧ ∀ x ∈ s.log, x ∈ s'.log := by
  refine Run.inv_run (I := fun u => u.lastCalled = s.lastCalled ∧ ∀ x ∈ s.log, x ∈ u.log) ?_
    ⟨rfl, fun x hx => hx⟩ h
  rintro u x u' ⟨hlast, hlog⟩ hu'
  rcases hf u x u' hu' with hsame | ⟨act, hact, hemit⟩
  · refine ⟨?_, fun y hy => by rw [hsame]; exact hlog y hy⟩
    rw [← hlast, lastCalled, lastCalled, hsame]
  · refine ⟨?_, fun y hy => by rw [hemit]; exact List.mem_append_left _ (hlog y hy)⟩
    rw [← hlast, ← lastCalled_emit u hact, lastCalled, lastCalled, hemit]

theorem resetTimer_log {now : Timestamp} {u u' : TimerQueue} {x : Entry}
    (h : resetTimer now u x = some u') : u'.log = u.log ∨ ∃ act : Act, act.isCalled = false ∧
      u'.log = (u.emit act).log := by
  obtain ⟨t, ht, -⟩ := Option.map_eq_some_iff.1 h
  rw [resetTimer_eq ht, Option.some.injEq] at h
  subst h
  split_ifs
  · exact .inl rfl
  · exact .inr ⟨.deleted (ofLex x).2 t, rfl, rfl⟩

theorem deleteTimer_log {u u' : TimerQueue} {x : Entry} (h : deleteTimer u x = some u') :
    u'.log = u.log ∨ ∃ act : Act, act.isCalled = false ∧ u'.log = (u.emit act).log := by
  obtain ⟨t, -, rfl⟩ := Option.map_eq_some_iff.1 h
  exact .inr ⟨.deleted (ofLex x).2 t, rfl, rfl⟩

theorem rearmed_lastCalled (s : TimerQueue) :
    s.rearmed.lastCalled = s.lastCalled ∧ ∀ x ∈ s.log, x ∈ s.rearmed.log := by
  rcases rearmed_cases s with h | ⟨e, h⟩
  · rw [h]
    exact ⟨rfl, fun x hx => hx⟩
  · rw [h]
    exact ⟨lastCalled_emit s rfl, fun x hx => List.mem_append_left _ hx⟩

/-- An event that leaves set, frame and number alone, and calls nothing. -/
theorem Seen.still (S : Seen s) (G' : Good s') (hnot : ¬ s.Notes e) (hbegin : ¬ s.BeginsBatch e)
    (hset : s'.cancelingTimers_ = s.cancelingTimers_) (hframe : s'.frame = s.frame)
    (hstarted : s'.started = s.started) (hlast : s'.lastCalled = s.lastCalled)
    (hlog : ∀ x ∈ s.log, x ∈ s'.log) : Sees s s' e ∧ Seen s' := by
  refine ⟨.quiet hnot hbegin hset (batchNumber_congr hframe hstarted hlast) ?_ hlog, G', ?_⟩
  · intro f hf _ _
    rw [← hframe]
    exact hf
  · intro f hf hran
    rw [hframe] at hf
    rw [hlast, hstarted]
    exact S.ran f hf hran

/-- A cancel of a timer that is not queued goes into the set while a callback is running. -/
theorem Seen.noted (S : Seen s) {timerId : TimerId} (G' : Good (s.noted timerId.active))
    (hout : s.Outside) (hi : timerId.active ∉ s.activeTimers_) :
    Sees s (s.noted timerId.active) (.cancelInLoop timerId) ∧ Seen (s.noted timerId.active) := by
  have hlast : (s.noted timerId.active).lastCalled = s.lastCalled := lastCalled_emit s rfl
  have hlog : ∀ x ∈ s.log, x ∈ (s.noted timerId.active).log :=
    fun x hx => List.mem_append_left _ hx
  cases hcalling : s.callingExpiredTimers_ with
  | false =>
      refine S.still G' (fun hn => absurd (hn.1.symm.trans hcalling) (by simp)) id ?_ rfl rfl
        hlast hlog
      show (if _ then _ else _) = _
      rw [hcalling]
      rfl
  | true =>
      -- a callback is running, so the batch has a number, and the cancel is logged under it
      obtain ⟨f, hf⟩ := Option.isSome_iff_exists.1 (S.good.calling.symm.trans hcalling)
      obtain ⟨hne, -⟩ := S.ran f hf (hout f hf)
      have hnumber := batchNumber_of_frame hf hne
      refine ⟨.note ⟨hcalling, hi⟩ ?_ (batchNumber_congr rfl rfl hlast) hout hlog ?_, G', ?_⟩
      · show (if _ then _ else _) = _
        rw [hcalling]
        rfl
      · rw [hnumber]
        exact List.mem_append_right _ (List.mem_singleton_self _)
      · intro g hg hran
        rw [hlast]
        exact S.ran g hg hran

/-- A `handleRead` begins a batch if it finds an expired timer, and nothing otherwise. -/
theorem seen_begun {now : Timestamp} {expired : List Entry} {s₁ : TimerQueue}
    (hframe : s.frame = none) (hE : Expires (s.begun now) now expired s₁)
    (G' : Good { s₁ with callingExpiredTimers_ := true, frame := some ⟨now, expired, 0⟩ }) :
    Sees s { s₁ with callingExpiredTimers_ := true, frame := some ⟨now, expired, 0⟩ }
        (.handleReadBegin now) ∧
      Seen { s₁ with callingExpiredTimers_ := true, frame := some ⟨now, expired, 0⟩ } := by
  have hlog₁ : s₁.log = s.log ++ [(s.started + 1, .readTimerfd now)] := by
    rw [hE.rest]
    rfl
  have hset₁ : s₁.cancelingTimers_ = s.cancelingTimers_ := by
    rw [hE.rest]
    rfl
  have hmem : ∀ x, x ∈ expired ↔ x ∈ s.timers_ ∧ (ofLex x).1 ≤ now := by
    intro x
    rw [hE.expired_eq, List.mem_filter, decide_eq_true_eq]
    rfl
  refine ⟨?_, G', fun f hf hran => ?_⟩
  · by_cases hnil : expired = []
    · refine .quiet id ?_ hset₁ ?_ ?_ (mem_log_of_append hlog₁)
      · rintro ⟨x, hx, hdue⟩
        have hx' := (hmem x).2 ⟨hx, hdue⟩
        rw [hnil] at hx'
        exact absurd hx' List.not_mem_nil
      · rw [batchNumber_of_idle hframe]
        refine (batchNumber_of_empty rfl hnil).trans ?_
        show List.foldl _ _ s₁.log = _
        rw [hlog₁, List.foldl_append]
        rfl
      · intro f hf _ hne
        obtain rfl := Option.some.inj hf
        exact absurd hnil hne
    · obtain ⟨x, hx⟩ := List.exists_mem_of_ne_nil expired hnil
      exact .begin ⟨x, (hmem x).1 hx⟩ hset₁ ⟨_, rfl, rfl, hnil⟩
  · obtain rfl := Option.some.inj hf
    exact absurd hran (lt_irrefl 0)

/-- The next callback of a batch makes it the last that called one. -/
theorem seen_called {f : HandleRead} {x : Entry} {t : Timer} (hframe : s.frame = some f)
    (hx : f.expired[f.ran]? = some x)
    (G' : Good (({ s with frame := some { f with ran := f.ran + 1 } } : TimerQueue).emit
      (.called f.now (ofLex x).2 t))) :
    Sees s (({ s with frame := some { f with ran := f.ran + 1 } } : TimerQueue).emit
        (.called f.now (ofLex x).2 t)) .runNext ∧
      Seen (({ s with frame := some { f with ran := f.ran + 1 } } : TimerQueue).emit
        (.called f.now (ofLex x).2 t)) := by
  have hne : f.expired ≠ [] := List.ne_nil_of_mem (List.mem_of_getElem? hx)
  have hlast : (({ s with frame := some { f with ran := f.ran + 1 } } : TimerQueue).emit
      (.called f.now (ofLex x).2 t)).lastCalled = s.started := by
    unfold lastCalled emit
    rw [List.foldl_append]
    rfl
  refine ⟨.quiet id id rfl ?_ ?_ fun y hy => List.mem_append_left _ hy, G', ?_⟩
  · rw [batchNumber_of_frame hframe hne]
    exact batchNumber_of_frame (f := { f with ran := f.ran + 1 }) rfl hne
  · intro g hg hran
    obtain rfl := Option.some.inj hg
    exact absurd hran (Nat.succ_ne_zero _)
  · intro g hg hran
    obtain rfl := Option.some.inj hg
    exact ⟨hne, hlast⟩

/-- The end of a `handleRead` leaves the set as it is and the number to the batch. -/
theorem Seen.ended (S : Seen s) {f : HandleRead} {s₁ : TimerQueue} (hframe : s.frame = some f)
    (hran : f.ran = f.expired.length)
    (hrun : Run.run (resetTimer f.now) s.closed f.expired = some s₁) (G' : Good s₁.rearmed) :
    Sees s s₁.rearmed .handleReadEnd ∧ Seen s₁.rearmed := by
  obtain ⟨-, hframe₁, -, -, hset₁, -⟩ := run_resetTimer_rest hrun
  obtain ⟨hlast₁, hlog₁⟩ := run_lastCalled (fun _ _ _ => resetTimer_log) hrun
  obtain ⟨hlast₂, hlog₂⟩ := rearmed_lastCalled s₁
  have hrest := rearmed_rest s₁
  have hframe₂ : s₁.rearmed.frame = none := by
    rw [hrest]
    exact hframe₁
  refine ⟨.quiet id id ?_ ?_ ?_ fun x hx => hlog₂ x (hlog₁ x hx), G', ?_⟩
  · rw [hrest]
    exact hset₁
  · rw [batchNumber_of_idle hframe₂, hlast₂, hlast₁]
    show s.lastCalled = _
    by_cases hnil : f.expired = []
    · exact (batchNumber_of_empty hframe hnil).symm
    · have hpos : 0 < f.ran := by
        rw [hran]
        exact List.length_pos_iff.2 hnil
      rw [(S.ran f hframe hpos).2]
      exact (batchNumber_of_frame hframe hnil).symm
  · intro g hg
    rw [hframe₂] at hg
    exact absurd hg (by simp)
  · intro g hg
    rw [hframe₂] at hg
    exact absurd hg (by simp)

/-- **One step.** What an event does to the set is one of the three things. -/
theorem Does.sees (S : Seen s) (hd : s.destroyed = false) (h : Does s e s') :
    Sees s s' e ∧ Seen s' := by
  have G' := h.good S.good hd
  cases h with
  | newTimer when interval others ha hmax =>
      exact S.still G' id id rfl rfl rfl rfl fun x hx => hx
  | @addFirst a t hout hmem ha hfirst =>
      refine S.still G' id id rfl rfl rfl ?_ fun x hx =>
        List.mem_append_left _ (List.mem_append_left _ hx)
      have h₁ : (s.emit (.added a t)).lastCalled = s.lastCalled := lastCalled_emit s rfl
      rw [← h₁]
      exact lastCalled_emit (s.inserted a t) rfl
  | @add a t hout hmem ha hfirst =>
      exact S.still G' id id rfl rfl rfl (lastCalled_emit s rfl) fun x hx =>
        List.mem_append_left _ hx
  | @erase a t hout ha hi =>
      have hnot : ¬ s.Notes (.cancelInLoop ⟨a, t.sequence_⟩) := fun hn => hn.2 hi
      refine S.still G' hnot id rfl rfl rfl ?_ fun x hx =>
        List.mem_append_left _ (List.mem_append_left _ hx)
      have h₁ : (s.emit (.cancelled (t.active a))).lastCalled = s.lastCalled := lastCalled_emit s rfl
      rw [← h₁]
      exact lastCalled_emit _ rfl
  | note hout hi => exact S.noted G' hout hi
  | handleReadBegin hframe hE hL => exact seen_begun hframe hE G'
  | runNext hframe hx ha => exact seen_called hframe hx G'
  | handleReadEnd hframe hran hrun hL => exact S.ended hframe hran hrun G'
  | @destroy s₁ hframe hrun hL hs₁ =>
      obtain ⟨hlast₁, hlog₁⟩ := run_lastCalled (fun _ _ _ => deleteTimer_log) hrun
      refine S.still G' id id ?_ ?_ ?_ hlast₁ hlog₁
      · show s₁.cancelingTimers_ = _
        rw [hs₁]
      · show s₁.frame = _
        rw [hs₁]
      · show s₁.started = _
        rw [hs₁]

theorem Seen.step (S : Seen s) (h : TimerQueue.step s e = some s') : Sees s s' e ∧ Seen s' := by
  rcases S.good.step_cases h with ⟨hd, -, hdoes⟩ | ⟨hd, a, when, interval, others, rfl⟩
  · exact hdoes.sees S hd
  · rcases not_destroyed_of_enabled S.good (Run.restrict_eq_some.1 h).1 with hd' | ⟨b, w, v, o, rfl⟩
    · exact absurd (hd'.symm.trans hd) (by simp)
    · exact S.still (S.good.step h) id id rfl rfl rfl rfl fun x hx => hx

/-! ## The set over a run -/

/-- A step leaves the set empty exactly if it was empty and no cancel is noted. -/
theorem Sees.empty_iff (h : Sees s s' e) :
    s'.cancelingTimers_ = ∅ ↔ s.cancelingTimers_ = ∅ ∧ ¬ s.Notes e := by
  cases h with
  | quiet hnot hbegin hset hbatch hfirst hlog =>
      rw [hset]
      exact ⟨fun h => ⟨h, hnot⟩, fun h => h.1⟩
  | @note timerId hnotes hset hbatch hfirst hlog hcancel =>
      have hmem : timerId.active ∈ s'.cancelingTimers_ := by
        rw [hset]
        exact OrderedSet.mem_insert.2 (.inl rfl)
      constructor
      · intro hempty
        rw [hempty] at hmem
        exact absurd hmem (OrderedSet.not_mem_empty _)
      · rintro ⟨-, hnot⟩
        exact absurd hnotes hnot
  | begin hbegin hset hframe =>
      rw [hset]
      exact ⟨fun h => ⟨h, id⟩, fun h => h.1⟩

/-- A step keeps the set bounded exactly if it does not begin a batch with names in the set. -/
theorem Sees.bounded_iff (h : Sees s s' e) (B : s.Bounded) :
    s'.Bounded ↔ (s.BeginsBatch e → s.cancelingTimers_ = ∅) := by
  cases h with
  | quiet hnot hbegin hset hbatch hfirst hlog =>
      refine ⟨fun _ hb => absurd hb hbegin, fun _ => .of_recent ?_ ?_⟩
      · intro f hf hran hne
        rw [hset]
        exact B.first f (hfirst f hf hran hne) hran hne
      · intro i hi
        rw [hset] at hi
        rw [hbatch]
        exact hlog _ (B.recent i hi)
  | note hnotes hset hbatch hfirst hlog hcancel =>
      refine ⟨fun _ hb => hb.elim, fun _ => .of_recent ?_ ?_⟩
      · intro f hf hran
        exact absurd (hfirst f hf) (by omega)
      · intro i hi
        rw [hset, OrderedSet.mem_insert] at hi
        rw [hbatch]
        rcases hi with rfl | hi
        · exact hcancel
        · exact hlog _ (B.recent i hi)
  | begin hbegin hset hframe =>
      obtain ⟨f, hf, hran, hne⟩ := hframe
      constructor
      · intro B' _
        rw [← hset]
        exact B'.first f hf hran hne
      · intro hempty
        have hempty' := hset.trans (hempty hbegin)
        refine .of_recent (fun _ _ _ _ => hempty') fun i hi => ?_
        rw [hempty'] at hi
        exact absurd hi (OrderedSet.not_mem_empty i)

theorem bounded_new (numCreated : ℤ) : Bounded (new numCreated) :=
  .of_recent (fun _ _ _ _ => rfl) fun i hi => absurd hi (OrderedSet.not_mem_empty i)

/-- The set is empty at the end of a run exactly if the run has noted no cancel. -/
theorem empty_iff_meets {numCreated : ℤ} {es : List Event}
    (hrun : Run.run TimerQueue.step (new numCreated) es = some s) :
    s.cancelingTimers_ = ∅ ↔
      Run.Meets TimerQueue.step (fun u d => ¬ u.Notes d) (new numCreated) es := by
  have h := Run.run_iff_meets (I := Seen) (P := fun u => u.cancelingTimers_ = ∅)
    (C := fun u d => ¬ u.Notes d) (fun _ _ _ S hstep => (S.step hstep).2)
    (fun _ _ _ S hstep => (S.step hstep).1.empty_iff) (seen_new numCreated) hrun
  rw [h]
  exact and_iff_right rfl

/-- **When the cancel set stays bounded.** A run keeps it so exactly if every batch of the run begins
    before any cancel has been noted. -/
theorem bounded_along_iff (numCreated : ℤ) (es : List Event) :
    Run.Along TimerQueue.step Bounded (new numCreated) es ↔
      ∀ pre e s s', pre ++ [e] <+: es → Run.run TimerQueue.step (new numCreated) pre = some s →
        TimerQueue.step s e = some s' → s.BeginsBatch e →
        Run.Meets TimerQueue.step (fun u d => ¬ u.Notes d) (new numCreated) pre := by
  rw [Run.along_iff_meets (I := Seen) (C := fun u d => u.BeginsBatch d → u.cancelingTimers_ = ∅)
    (fun _ _ _ S _ hstep _ => (S.step hstep).2)
    (fun _ _ _ S B hstep => (S.step hstep).1.bounded_iff B) (seen_new numCreated),
    and_iff_right (bounded_new numCreated), Run.meets_iff_prefix]
  constructor
  · intro h pre e s s' hpre hrun hstep hbegin
    exact (empty_iff_meets hrun).1 (h pre e s s' hpre hrun hstep hbegin)
  · intro h pre e s s' hpre hrun hstep hbegin
    exact (empty_iff_meets hrun).2 (h pre e s s' hpre hrun hstep hbegin)

/-- A repeating timer cancels itself in its callback. When the next batch is about to call its first
    callback, the name is still there, of a timer deleted in the batch before. -/
theorem name_of_oneself_stays : ∃ s f,
    Run.run TimerQueue.step (new 0) [.newTimer 4096 10 .second 0, .addTimerInLoop 4096,
      .handleReadBegin 10, .runNext, .cancelInLoop ⟨4096, 1⟩, .handleReadEnd,
      .newTimer 4096 20 .zero 0, .addTimerInLoop 4096, .handleReadBegin 20] = some s ∧
    s.frame = some f ∧ f.ran = 0 ∧ f.expired = [toLex (20, 4096)] ∧
    s.cancelingTimers_.toList = [toLex (4096, 1)] ∧ s.recentCancels = [] ∧ ¬ s.Bounded := by
  refine ⟨_, _, rfl, rfl, rfl, rfl, rfl, rfl, fun B => ?_⟩
  exact absurd B.size (by decide)

end TimerQueue

end WwjMuduo
