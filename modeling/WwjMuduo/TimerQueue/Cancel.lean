import WwjMuduo.TimerQueue.Firing

set_option autoImplicit false

/-! # Cancellation

A cancel finds its timer in one of three places. A queued one is deleted on the spot. One in the batch
being run is noted in `cancelingTimers_`, and `reset` deletes it. One that has been deleted is past
harm, and a timer that now lives at its address has another number. Either way the timer is `Doomed`:
it never comes back into the sets, and no later batch calls it.

The other direction: a timer that no cancel has named is lost to nobody. -/

namespace WwjMuduo

namespace TimerQueue

variable {s s' : TimerQueue} {i : ActiveTimer} {K : ℕ}

/-! ## A cancelled timer -/

/-- An added timer is out of the sets for good. If it lives, it is in the batch being run, which is not
    later than `K`, and `reset` is going to delete it. -/
structure Doomed (s : TimerQueue) (i : ActiveTimer) (K : ℕ) : Prop where
  added : i ∈ s.added
  known : (ofLex i).2 ≤ s.s_numCreated_
  calls : ∀ c ∈ s.calls i, c.1 ≤ K
  not_active : i ∉ s.activeTimers_
  place : ∀ a t, s.heap a = some t → t.active a = i → s.destroyed = false ∧ s.frame.isSome ∧
    a ∈ s.batch ∧ i ∈ s.cancelingTimers_ ∧ s.started ≤ K

/-- A step that neither calls the timer nor gives it back keeps it doomed. -/
theorem Doomed.congr (D : Doomed s i K) (hadded : ∀ j ∈ s.added, j ∈ s'.added)
    (hknown : s.s_numCreated_ ≤ s'.s_numCreated_) (hcalls : s'.calls i = s.calls i)
    (hactive : i ∉ s'.activeTimers_)
    (hheap : ∀ a t, s'.heap a = some t → t.active a = i → s.heap a = some t)
    (hplace : s.frame.isSome → s'.destroyed = s.destroyed ∧ s'.frame = s.frame ∧
      (∀ j ∈ s.cancelingTimers_, j ∈ s'.cancelingTimers_) ∧ s'.started = s.started) :
    Doomed s' i K := by
  refine ⟨hadded i D.added, D.known.trans hknown, hcalls ▸ D.calls, hactive, fun a t ht hi => ?_⟩
  obtain ⟨hd, hsome, hbatch, hcancel, hstarted⟩ := D.place a t (hheap a t ht hi) hi
  obtain ⟨hd', hframe', hcancel', hstarted'⟩ := hplace hsome
  refine ⟨hd'.trans hd, hframe' ▸ hsome, ?_, hcancel' i hcancel, hstarted' ▸ hstarted⟩
  unfold batch at hbatch ⊢
  rw [hframe']
  exact hbatch

theorem calls_emit_of_none {act : Act} (h : ∀ j, act.ranAt? j = none) :
    (s.emit act).calls i = s.calls i := by
  rw [calls_emit, h]
  exact List.append_nil _

theorem mem_added_emit {act : Act} {j : ActiveTimer} (h : j ∈ s.added) : j ∈ (s.emit act).added := by
  rw [added_emit]
  exact List.mem_append.2 (.inl h)

theorem heap_free {a b : Addr} {t u : Timer} (h : (s.free b t).heap a = some u) :
    a ≠ b ∧ s.heap a = some u := by
  have hab : a ≠ b := by
    rintro rfl
    have hself : (s.free a t).heap a = none := Function.update_self ..
    rw [hself] at h
    exact absurd h (by simp)
  exact ⟨hab, (Function.update_of_ne hab ..).symm.trans h⟩

theorem Doomed.newTimer (D : Doomed s i K) {b : Addr} (when : Timestamp) (interval : Interval)
    (others : ℕ) : Doomed (s.newTimer b when interval others) i K := by
  refine D.congr (fun _ h => h) ?_ rfl D.not_active (fun a t ht hi => ?_)
    (fun _ => ⟨rfl, rfl, fun _ h => h, rfl⟩)
  · show s.s_numCreated_ ≤ s.s_numCreated_ + others + 1
    omega
  · by_cases hab : a = b
    · subst hab
      -- The new timer has a number that nobody had.
      have hself : (s.newTimer a when interval others).heap a =
          some (Timer.new when interval (s.s_numCreated_ + others + 1)) := Function.update_self ..
      obtain rfl := Option.some.inj (hself.symm.trans ht)
      have hle := D.known
      rw [← hi] at hle
      have hle' : s.s_numCreated_ + others + 1 ≤ s.s_numCreated_ := hle
      omega
    · exact (Function.update_of_ne hab ..).symm.trans ht

/-- What `reset` makes of a doomed timer: it is not put back, and not alive afterwards. -/
structure Dropped (s₀ : TimerQueue) (i : ActiveTimer) (s : TimerQueue) (held : List Addr) : Prop where
  ledger : Ledger s held
  added : i ∈ s.added
  counter : s.s_numCreated_ = s₀.s_numCreated_
  calls : s.calls i = s₀.calls i
  not_active : i ∉ s.activeTimers_
  place : ∀ a t, s.heap a = some t → t.active a = i → a ∈ held ∧ i ∈ s.cancelingTimers_

theorem Dropped.run_resetTimer {s₀ : TimerQueue} {now : Timestamp} {expired : List Entry}
    (D : Dropped s₀ i s (addresses expired)) (hrun : Run.run (resetTimer now) s expired = some s') :
    Dropped s₀ i s' [] := by
  refine inv_run_resetTimer (I := fun u held => Dropped s₀ i u held) ?_ ?_ D.ledger D hrun
  · intro u b t held L D ht hrepeat hnot
    -- What is put back is not in `cancelingTimers_`, so it is not the doomed timer.
    have hne : t.active b ≠ i := fun hi => hnot (hi ▸ (D.place b t ht hi).2)
    have hself : (u.store b (t.restart now)).heap b = some (t.restart now) :=
      Function.update_self ..
    refine ⟨L.putBack now ht, D.added, D.counter, D.calls, fun hi => ?_, fun a v hv hi => ?_⟩
    · rcases OrderedSet.mem_insert.1 hi with hi | hi
      · exact hne hi.symm
      · exact D.not_active hi
    · by_cases hab : a = b
      · subst hab
        obtain rfl := Option.some.inj (hself.symm.trans hv)
        exact absurd hi hne
      · obtain ⟨hheld, hcancel⟩ := D.place a v ((Function.update_of_ne hab ..).symm.trans hv) hi
        exact ⟨(List.mem_cons.1 hheld).resolve_left hab, hcancel⟩
  · intro u b t held L D ht _
    refine ⟨L.free ht, mem_added_emit D.added, D.counter,
      (calls_emit_of_none fun _ => rfl).trans D.calls, D.not_active, fun a v hv hi => ?_⟩
    obtain ⟨hab, hv⟩ := heap_free hv
    obtain ⟨hheld, hcancel⟩ := D.place a v hv hi
    exact ⟨(List.mem_cons.1 hheld).resolve_left hab, hcancel⟩

/-- A doomed timer is called in its last batch at most. -/
theorem Doomed.called (D : Doomed s i K) (hd : s.destroyed = false) {f : HandleRead} {a : Addr}
    {t : Timer} (hframe : s.frame = some f) (ha : s.heap a = some t) :
    Doomed ({ s with frame := some { f with ran := f.ran + 1 } }.emit (.called f.now a t)) i K := by
  have hplace : ∀ b u, s.heap b = some u → u.active b = i → s.destroyed = false ∧
      b ∈ addresses f.expired ∧ i ∈ s.cancelingTimers_ ∧ s.started ≤ K := by
    intro b u hu hi
    obtain ⟨-, -, hbatch, hcancel, hstarted⟩ := D.place b u hu hi
    rw [batch_of_frame hframe] at hbatch
    exact ⟨hd, hbatch, hcancel, hstarted⟩
  refine ⟨mem_added_emit D.added, D.known, fun c hc => ?_, D.not_active, fun b u hu hi => ?_⟩
  · rw [calls_emit] at hc
    rcases List.mem_append.1 hc with hc | hc
    · exact D.calls c hc
    · by_cases hi : t.active a = i
      · rw [Act.ranAt?, if_pos hi] at hc
        rw [List.mem_singleton.1 hc]
        exact (hplace a t ha hi).2.2.2
      · rw [Act.ranAt?, if_neg hi] at hc
        exact absurd hc List.not_mem_nil
  · obtain ⟨hd, hbatch, hcancel, hstarted⟩ := hplace b u hu hi
    exact ⟨hd, rfl, hbatch, hcancel, hstarted⟩

/-- The destructor deletes timers and calls none. -/
theorem Doomed.destroyed (D : Doomed s i K) (hframe : s.frame = none)
    (hrun : Run.run deleteTimer s s.timers_.toList = some s')
    (hs' : s' = { s with heap := s'.heap, log := s'.log }) :
    Doomed { s' with destroyed := true } i K := by
  have hkept : i ∈ s'.added ∧ s'.calls i = s.calls i ∧
      ∀ a t, s'.heap a = some t → s.heap a = some t := by
    refine Run.inv_run (I := fun u => i ∈ u.added ∧ u.calls i = s.calls i ∧
      ∀ a t, u.heap a = some t → s.heap a = some t) ?_ ⟨D.added, rfl, fun _ _ h => h⟩ hrun
    intro u x u' hu hstep
    obtain ⟨t, -, rfl⟩ := Option.map_eq_some_iff.1 hstep
    exact ⟨mem_added_emit hu.1, (calls_emit_of_none fun _ => rfl).trans hu.2.1,
      fun a v hv => hu.2.2 a v (heap_free hv).2⟩
  have hcounter : s'.s_numCreated_ = s.s_numCreated_ := by rw [hs']
  have hactive : s'.activeTimers_ = s.activeTimers_ := by rw [hs']
  refine ⟨hkept.1, hcounter ▸ D.known, hkept.2.1 ▸ D.calls, hactive ▸ D.not_active,
    fun a t ht hi => ?_⟩
  -- between two `handleRead` no doomed timer is alive
  obtain ⟨-, hsome, -⟩ := D.place a t (hkept.2.2 a t ht) hi
  rw [hframe] at hsome
  exact absurd hsome (by simp)

/-- No step brings a doomed timer back. -/
theorem Does.doomed {e : Event} (G : Good s) (hd : s.destroyed = false) (D : Doomed s i K)
    (h : Does s e s') : Doomed s' i K := by
  have L := G.ledger hd
  -- A timer that is queued for the first time has not been added before; the doomed one has.
  have hinserted {a : Addr} {t : Timer} (hmem : a ∈ s.inFlight) (ha : s.heap a = some t) :
      i ∉ (s.inserted a t).activeTimers_ := by
    intro hi
    rcases OrderedSet.mem_insert.1 hi with rfl | hi
    · obtain ⟨-, u, hu, hnew⟩ := L.flying a hmem
      obtain rfl : t = u := Option.some.inj (ha.symm.trans hu)
      exact hnew D.added
    · exact D.not_active hi
  cases h with
  | newTimer when interval others ha hmax => exact D.newTimer when interval others
  | addFirst hout hmem ha hfirst =>
      refine D.congr (fun j hj => mem_added_emit (mem_added_emit hj)) le_rfl ?_ (hinserted hmem ha)
        (fun _ _ h _ => h) (fun _ => ⟨rfl, rfl, fun _ h => h, rfl⟩)
      exact (calls_emit_of_none fun _ => rfl).trans (calls_emit_of_none fun _ => rfl)
  | add hout hmem ha hfirst =>
      exact D.congr (fun j hj => mem_added_emit hj) le_rfl (calls_emit_of_none fun _ => rfl)
        (hinserted hmem ha) (fun _ _ h _ => h) (fun _ => ⟨rfl, rfl, fun _ h => h, rfl⟩)
  | erase hout ha hi =>
      refine D.congr (fun j hj => mem_added_emit (mem_added_emit hj)) le_rfl ?_
        (fun h => D.not_active (OrderedSet.mem_erase.1 h).2) (fun b u hu _ => (heap_free hu).2)
        (fun _ => ⟨rfl, rfl, fun _ h => h, rfl⟩)
      exact (calls_emit_of_none fun _ => rfl).trans (calls_emit_of_none fun _ => rfl)
  | @note timerId hout hi =>
      refine D.congr (fun j hj => mem_added_emit hj) le_rfl (calls_emit_of_none fun _ => rfl)
        D.not_active (fun _ _ h _ => h) (fun _ => ⟨rfl, rfl, fun j hj => ?_, rfl⟩)
      unfold noted
      cases s.callingExpiredTimers_ with
      | false => exact hj
      | true => exact OrderedSet.mem_insert.2 (.inr hj)
  | @handleReadBegin now expired s₁ hframe hE hL =>
      have hcalls : s₁.calls i = s.calls i := by
        rw [hE.rest]
        exact calls_emit_of_none (s := { s with started := s.started + 1 }) fun _ => rfl
      have hadded : ∀ j ∈ s.added, j ∈ s₁.added := by
        rw [hE.rest]
        exact fun j hj => mem_added_emit (s := { s with started := s.started + 1 }) hj
      have hheap : s₁.heap = s.heap := by rw [hE.rest]; rfl
      have hcounter : s₁.s_numCreated_ = s.s_numCreated_ := by rw [hE.rest]; rfl
      refine D.congr hadded hcounter.ge hcalls (fun h => D.not_active (hE.active_sub i h))
        (fun a t ht _ => hheap ▸ ht) (fun hsome => ?_)
      rw [hframe] at hsome
      exact absurd hsome (by simp)
  | runNext hframe hx ha => exact D.called hd hframe ha
  | @handleReadEnd f s₁ hframe hran hrun hL =>
      rw [batch_of_frame hframe] at L
      have hdropped : Dropped s i s.closed (addresses f.expired) := by
        refine ⟨{ L with }, D.added, rfl, rfl, D.not_active, fun a t ht hi => ?_⟩
        obtain ⟨-, -, hbatch, hcancel, -⟩ := D.place a t ht hi
        rw [batch_of_frame hframe] at hbatch
        exact ⟨hbatch, hcancel⟩
      have D₁ := hdropped.run_resetTimer hrun
      have D₂ : Doomed s₁ i K := ⟨D₁.added, D₁.counter ▸ D.known, D₁.calls ▸ D.calls, D₁.not_active,
        fun a t ht hi => absurd (D₁.place a t ht hi).1 List.not_mem_nil⟩
      rcases rearmed_cases s₁ with h | ⟨e, h⟩
      · rw [h]
        exact D₂
      · rw [h]
        exact D₂.congr (fun j hj => mem_added_emit hj) le_rfl (calls_emit_of_none fun _ => rfl)
          D₂.not_active (fun _ _ h _ => h) (fun _ => ⟨rfl, rfl, fun _ h => h, rfl⟩)
  | destroy hframe hrun hL hs' => exact D.destroyed hframe hrun hs'

theorem Doomed.run (G : Good s) (D : Doomed s i K) {es : List Event}
    (h : Run.run TimerQueue.step s es = some s') : Good s' ∧ Doomed s' i K := by
  refine Run.inv_run (I := fun u => Good u ∧ Doomed u i K) ?_ ⟨G, D⟩ h
  intro u e u' ⟨Gu, Du⟩ hstep
  refine ⟨Gu.step hstep, ?_⟩
  rcases Gu.step_cases hstep with ⟨hd, -, hdoes⟩ | ⟨-, a, when, interval, others, rfl⟩
  · exact hdoes.doomed Gu hd Du
  · exact Du.newTimer when interval others

/-- A cancel dooms the timer it names. -/
theorem Told.doomed (T : Told s) {k : ℕ} {a : Addr} {t : Timer}
    (hadded : (k, Act.added a t) ∈ s.log)
    (hcancel : TimerQueue.step s (.cancelInLoop ⟨a, t.sequence_⟩) = some s') :
    Doomed s' (t.active a) s.started := by
  have hin : t.active a ∈ s.added := mem_added.2 ⟨k, a, t, hadded, rfl⟩
  rcases T.good.step_cases hcancel with ⟨hd, -, hdoes⟩ | ⟨hd, b, when, interval, others, h⟩
  · have L := T.good.ledger hd
    obtain ⟨now, ran, waiting, -, -, hpast⟩ := exists_past s
    have H := (hpast s rfl).1 (T.past hd)
    have hcalls : ∀ c ∈ s.calls (t.active a), c.1 ≤ s.started := fun c hc => H.call_stamp hc
    generalize hid : (⟨a, t.sequence_⟩ : TimerId) = timerId at hdoes
    have hname : timerId.active = t.active a := by
      rw [← hid]
      rfl
    cases hdoes with
    | @erase b u hout hb hi =>
        have hname' : u.active b = t.active a := hname
        obtain ⟨rfl, -⟩ := Timer.active_inj.1 hname'
        refine ⟨mem_added_emit (mem_added_emit hin), L.known _ hin, ?_, ?_, fun c v hv hi' => ?_⟩
        · rw [show (s.erased b u).calls (t.active b) = s.calls (t.active b) from
            (calls_emit_of_none fun _ => rfl).trans (calls_emit_of_none fun _ => rfl)]
          exact hcalls
        · exact fun h => (OrderedSet.mem_erase.1 h).1 hname'.symm
        · exact absurd (Timer.active_inj.1 hi').1 (heap_free hv).1
    | note hout hi =>
        rw [hname] at hi ⊢
        refine ⟨mem_added_emit hin, L.known _ hin, ?_, hi, fun b u hu hiu => ?_⟩
        · rw [show (s.noted (t.active a)).calls (t.active a) = s.calls (t.active a) from
            calls_emit_of_none fun _ => rfl]
          exact hcalls
        · rcases L.added_owned _ hin with h | h | ⟨c, hc, v, hv, heq⟩
          · exact absurd h hi
          · exact absurd hiu ((L.deleted_dead _ h).2 b u hu)
          · rw [← hiu] at heq
            obtain ⟨rfl, -⟩ := Timer.active_inj.1 heq
            -- Added, neither queued nor deleted: the timer is in a batch, so the cancel is noted.
            have hsome : s.frame.isSome := by
              by_contra hnone
              rw [Option.not_isSome_iff_eq_none] at hnone
              rw [batch_of_idle hnone] at hc
              exact absurd hc List.not_mem_nil
            refine ⟨hd, hsome, hc, ?_, le_rfl⟩
            have hcalling : s.callingExpiredTimers_ = true := T.good.calling.trans hsome
            unfold noted
            simp only [hcalling, if_true]
            exact OrderedSet.mem_insert.2 (.inl rfl)
  · have he := (Run.restrict_eq_some.1 hcancel).1.2
    exact absurd (he.symm.trans hd) (by simp)

/-! ## The timers nobody has cancelled -/

/-- A timer is queued or in hand. -/
def Owned (s : TimerQueue) (held : List Addr) (i : ActiveTimer) : Prop :=
  i ∈ s.activeTimers_ ∨ ∃ b ∈ held, ∃ u, s.heap b = some u ∧ u.active b = i

/-- A timer that was added and that no cancel has named is queued, in hand, or a one-shot that has been
    called. -/
structure Kept (s : TimerQueue) (held : List Addr) : Prop where
  noted : ∀ j ∈ s.cancelingTimers_, CancelledIn s.log j
  owned : ∀ k a t, (k, Act.added a t) ∈ s.log → ¬ CancelledIn s.log (t.active a) →
    s.Owned held (t.active a) ∨ (t.repeat_ = false ∧ s.calls (t.active a) ≠ [])

theorem calls_ne_nil_of_log {more : List (ℕ × Act)} (h : s'.log = s.log ++ more)
    (hi : s.calls i ≠ []) : s'.calls i ≠ [] := by
  unfold calls at hi ⊢
  rw [h, List.filterMap_append]
  exact List.append_ne_nil_of_left_ne_nil hi _

theorem Kept.congr {held held' : List Addr} (N : Kept s held) (more : List (ℕ × Act))
    (hlog : s'.log = s.log ++ more)
    (hnoted : ∀ j ∈ s'.cancelingTimers_, j ∈ s.cancelingTimers_ ∨ CancelledIn more j)
    (hadds : ∀ k a t, (k, Act.added a t) ∈ more → t.active a ∈ s'.activeTimers_)
    (howned : ∀ k a t, (k, Act.added a t) ∈ s.log → s.Owned held (t.active a) →
      ¬ CancelledIn s'.log (t.active a) → s'.Owned held' (t.active a) ∨
        (t.repeat_ = false ∧ s'.calls (t.active a) ≠ [])) : Kept s' held' := by
  refine ⟨fun j hj => ?_, fun k a t hx hnot => ?_⟩
  · rw [hlog, cancelledIn_append]
    exact (hnoted j hj).imp_left (N.noted j)
  · have hx' := hx
    rw [hlog] at hx'
    rcases List.mem_append.1 hx' with hx' | hx'
    · have hnot' : ¬ CancelledIn s.log (t.active a) := by
        rw [hlog, cancelledIn_append] at hnot
        exact fun h => hnot (.inl h)
      rcases N.owned k a t hx' hnot' with h | ⟨hone, hcalls⟩
      · exact howned k a t hx' h hnot
      · exact .inr ⟨hone, calls_ne_nil_of_log hlog hcalls⟩
    · exact .inl (.inl (hadds k a t hx'))

/-- `reset` deletes only timers that were cancelled and one-shots that have been called. -/
theorem Kept.run_resetTimer {now : Timestamp} {expired : List Entry}
    (N : Kept s (addresses expired)) (L : Ledger s (addresses expired))
    (H : History s now (addresses expired) [])
    (hrun : Run.run (resetTimer now) s expired = some s') : Kept s' [] := by
  have hkept : History s' now [] [] ∧ Kept s' [] := by
    refine inv_run_resetTimer (I := fun u held => History u now held [] ∧ Kept u held) ?_ ?_ L
      ⟨H, N⟩ hrun
    · intro u b t held _ ⟨Hu, Nu⟩ ht hrepeat _
      refine ⟨Hu.putBack List.not_mem_nil ht hrepeat, ?_⟩
      refine Nu.congr [] (List.append_nil _).symm (fun j hj => .inl hj) (by simp) ?_
      intro k c v hx hown _
      rcases hown with h | ⟨d, hd, w, hw, hname⟩
      · exact .inl (.inl (OrderedSet.mem_insert.2 (.inr h)))
      · by_cases hdb : d = b
        · subst hdb
          obtain rfl : t = w := Option.some.inj (ht.symm.trans hw)
          exact .inl (.inl (OrderedSet.mem_insert.2 (.inl hname.symm)))
        · refine .inl (.inr ⟨d, (List.mem_cons.1 hd).resolve_left hdb, w, ?_, hname⟩)
          exact (Function.update_of_ne hdb ..).trans hw
    · intro u b t held _ ⟨Hu, Nu⟩ ht hdrop
      have hran := Hu.ran_calls b List.mem_cons_self t ht
      refine ⟨Hu.dropRan.free, ?_⟩
      refine Nu.congr [(u.started, .deleted b t)] rfl (fun j hj => .inl hj) (by simp) ?_
      intro k c v hx hown hnot
      rcases hown with h | ⟨d, hd, w, hw, hname⟩
      · exact .inl (.inl h)
      · by_cases hdb : d = b
        · subst hdb
          obtain rfl : t = w := Option.some.inj (ht.symm.trans hw)
          -- A repeating timer is deleted only if it was noted, and then a cancel has named it.
          have hnotnoted : ¬ t.repeat_ = true := by
            intro hrepeat
            obtain ⟨l, hl⟩ := Nu.noted _ (hdrop hrepeat)
            exact hnot ⟨l, hname ▸ List.mem_append.2 (.inl hl)⟩
          have hcd : c = d := (Timer.active_inj.1 hname).1.symm
          have hsame := (Hu.same k c v t hx (hcd ▸ ht) (hcd ▸ hname)).2
          refine .inr ⟨?_, calls_ne_nil_of_log (s := u) rfl (hname ▸ hran.1)⟩
          rw [← hsame, ← Bool.not_eq_true]
          exact hnotnoted
        · refine .inl (.inr ⟨d, (List.mem_cons.1 hd).resolve_left hdb, w, ?_, hname⟩)
          exact (Function.update_of_ne hdb ..).trans hw
  exact hkept.2

/-- No step loses a timer that was not cancelled. -/
theorem Does.kept {e : Event} (T : Told s) (hd : s.destroyed = false) (N : Kept s s.batch)
    (h : Does s e s') (hd' : s'.destroyed = false) : Kept s' s'.batch := by
  have L := T.good.ledger hd
  cases h with
  | @newTimer a when interval others ha hmax =>
      refine N.congr [] (List.append_nil _).symm (fun j hj => .inl hj) (by simp) ?_
      intro k c v hx hown _
      rcases hown with h | ⟨b, hb, u, hu, hname⟩
      · exact .inl (.inl h)
      · have hba : b ≠ a := by
          rintro rfl
          rw [ha] at hu
          exact absurd hu (by simp)
        exact .inl (.inr ⟨b, hb, u, (Function.update_of_ne hba ..).trans hu, hname⟩)
  | @addFirst a t hout hmem ha hfirst =>
      refine N.congr [(s.started, .added a t), (s.started, .resetTimerfd t.expiration_)]
        (List.append_assoc ..) (fun j hj => .inl hj) (fun k b v hx => ?_) ?_
      · simp only [List.mem_cons, Prod.mk.injEq, Act.added.injEq, reduceCtorEq, and_false,
          List.not_mem_nil, or_false] at hx
        obtain ⟨-, rfl, rfl⟩ := hx
        exact OrderedSet.mem_insert.2 (.inl rfl)
      · intro k c v hx hown _
        exact .inl (hown.imp_left fun h => OrderedSet.mem_insert.2 (.inr h))
  | @add a t hout hmem ha hfirst =>
      refine N.congr [(s.started, .added a t)] rfl (fun j hj => .inl hj)
        (fun k b v hx => ?_) ?_
      · rw [List.mem_singleton, Prod.mk.injEq, Act.added.injEq] at hx
        obtain ⟨-, rfl, rfl⟩ := hx
        exact OrderedSet.mem_insert.2 (.inl rfl)
      · intro k c v hx hown _
        exact .inl (hown.imp_left fun h => OrderedSet.mem_insert.2 (.inr h))
  | @erase a t hout ha hi =>
      refine N.congr [(s.started, .cancelled (t.active a)), (s.started, .deleted a t)]
        (List.append_assoc ..) (fun j hj => .inl hj) (by simp) ?_
      intro k c v hx hown hnot
      rcases hown with h | ⟨b, hb, u, hu, hname⟩
      · refine .inl (.inl (OrderedSet.mem_erase.2 ⟨fun heq => hnot ⟨s.started, ?_⟩, h⟩))
        rw [heq]
        exact List.mem_append.2 (.inl (List.mem_append.2 (.inr List.mem_cons_self)))
      · have hba : b ≠ a := by
          rintro rfl
          exact L.not_mem_held ha hi hb
        exact .inl (.inr ⟨b, hb, u, (Function.update_of_ne hba ..).trans hu, hname⟩)
  | @note timerId hout hi =>
      refine N.congr [(s.started, .cancelled timerId.active)] rfl (fun j hj => ?_)
        (by simp) fun k c v hx hown _ => .inl hown
      unfold noted at hj
      cases hcalling : s.callingExpiredTimers_ with
      | false =>
          simp only [hcalling, Bool.false_eq_true, if_false] at hj
          exact .inl hj
      | true =>
          simp only [hcalling, if_true] at hj
          rcases OrderedSet.mem_insert.1 hj with rfl | hj
          · exact .inr ⟨s.started, List.mem_cons_self⟩
          · exact .inl hj
  | @handleReadBegin now expired s₁ hframe hE hL =>
      rw [batch_of_idle hframe] at N L
      have hheap : s₁.heap = s.heap := by rw [hE.rest]; rfl
      refine N.congr [(s.started + 1, .readTimerfd now)] (by rw [hE.rest]; rfl)
        (fun j hj => ?_) (by simp) ?_
      · have hcanceling : s₁.cancelingTimers_ = s.cancelingTimers_ := by rw [hE.rest]; rfl
        exact .inl (hcanceling ▸ hj)
      · intro k c v hx hown _
        rcases hown with h | ⟨b, hb, -⟩
        · obtain ⟨a, t, ha, heq, hxa⟩ := L.actives _ h
          rcases lt_or_ge now t.expiration_ with hnow | hnow
          · exact .inl (.inl (heq ▸ (hE.active_iff a t ha).2 ⟨heq ▸ h, hnow⟩))
          · refine .inl (.inr ⟨a, ?_, t, (congrFun hheap a).trans ha, heq.symm⟩)
            show a ∈ addresses expired
            rw [hE.expired_eq]
            exact List.mem_map.2 ⟨t.entry a, List.mem_filter.2 ⟨hxa, decide_eq_true hnow⟩, rfl⟩
        · exact absurd hb List.not_mem_nil
  | @runNext f x t hframe hx ha =>
      have hbatch : s.batch = addresses f.expired := batch_of_frame hframe
      rw [hbatch] at N
      exact N.congr [(s.started, .called f.now (ofLex x).2 t)] rfl
        (fun j hj => .inl hj) (by simp) fun k c v hx hown _ => .inl hown
  | @handleReadEnd f s₁ hframe hran hrun hL =>
      have H := (past_of_frame hframe).1 (T.past hd)
      rw [hran, List.take_length, List.drop_length] at H
      rw [batch_of_frame hframe] at N L
      have H₁ : History s.closed f.now (addresses f.expired) [] := H.mono (fun _ _ h => h)
        (fun _ h => h) rfl (fun _ => rfl) H.stamps fun _ _ _ => Iff.rfl
      have N₁ : Kept s.closed (addresses f.expired) := ⟨N.noted, N.owned⟩
      have N₂ := N₁.run_resetTimer { L with } H₁ hrun
      have hidle : s₁.rearmed.frame = none := by
        rw [rearmed_rest]
        exact (run_resetTimer_rest hrun).2.1
      rw [batch_of_idle hidle]
      rcases rearmed_cases s₁ with h | ⟨e, h⟩
      · rw [h]
        exact N₂
      · rw [h]
        exact N₂.congr [(s₁.started, .resetTimerfd e)] rfl (fun j hj => .inl hj) (by simp)
          fun k c v hx hown _ => .inl hown
  | destroy => exact absurd hd' (by simp)

/-- Everything a run keeps that cancelling is about. -/
structure Cancelling (s : TimerQueue) : Prop where
  told : Told s
  kept : s.destroyed = false → Kept s s.batch

theorem Cancelling.step {e : Event} (C : Cancelling s) (h : TimerQueue.step s e = some s') :
    Cancelling s' := by
  refine ⟨C.told.step h, fun hd' => ?_⟩
  rcases C.told.good.step_cases h with ⟨hd, -, hdoes⟩ | ⟨hd, a, when, interval, others, rfl⟩
  · exact hdoes.kept C.told hd (C.kept hd) hd'
  · exact absurd (hd.symm.trans hd') (by simp)

theorem cancelling_new (numCreated : ℤ) : Cancelling (new numCreated) where
  told := told_new numCreated
  kept _ := ⟨fun j hj => absurd hj (OrderedSet.not_mem_empty j),
    fun _ _ _ hx => absurd hx List.not_mem_nil⟩

/-- **Cancellation.** In every run, when a cancel of a timer executes after it was added, the timer is
    called in no batch that begins after the cancel and is in neither set from then on. And until
    the queue is destroyed, a timer that was added and that no cancel has named by its address and
    number is queued, in the batch being run, or a one-shot that has been called. -/
theorem cancellation {numCreated : ℤ} {es : List Event} {s : TimerQueue}
    (hrun : Run.run TimerQueue.step (new numCreated) es = some s) :
    (∀ k a t s₁ later s₂, (k, Act.added a t) ∈ s.log →
      TimerQueue.step s (.cancelInLoop ⟨a, t.sequence_⟩) = some s₁ →
      Run.run TimerQueue.step s₁ later = some s₂ →
      (∀ c ∈ s₂.calls (t.active a), c.1 ≤ s.started) ∧ ¬ s₂.Queued (t.active a) ∧
        t.active a ∉ s₂.activeTimers_) ∧
    (s.destroyed = false → ∀ k a t, (k, Act.added a t) ∈ s.log →
      ¬ CancelledIn s.log (t.active a) → s.Queued (t.active a) ∨ s.InBatch (t.active a) ∨
        (t.repeat_ = false ∧ s.calls (t.active a) ≠ [])) := by
  have C : Cancelling s := Run.inv_run (fun _ _ _ C h => Cancelling.step C h)
    (cancelling_new numCreated) hrun
  refine ⟨fun k a t s₁ later s₂ hadded hcancel hlater => ?_, fun hd k a t hadded hnot => ?_⟩
  · obtain ⟨G₂, D₂⟩ := (C.told.doomed hadded hcancel).run (C.told.good.step hcancel) hlater
    refine ⟨D₂.calls, ?_, D₂.not_active⟩
    rintro ⟨b, u, hu, hname, hx⟩
    obtain ⟨hd₂, -⟩ := D₂.place b u hu hname
    exact D₂.not_active (hname ▸ ((G₂.ledger hd₂).entry_mem_iff hu).1 hx)
  · have L := C.told.good.ledger hd
    rcases (C.kept hd).owned k a t hadded hnot with (h | ⟨b, hb, u, hu, hname⟩) | h
    · obtain ⟨b, u, hu, heq, hx⟩ := L.actives _ h
      exact .inl ⟨b, u, hu, heq.symm, hx⟩
    · exact .inr (.inl ⟨b, hb, u, hu, hname⟩)
    · exact .inr (.inr h)

/-- A repeating timer cancels itself in its callback, and another timer then gets its address: the
    first is gone, and the second is queued. -/
theorem cancellation_of_oneself : ∃ s s₁ s₂,
    Run.run TimerQueue.step (new 0) [.newTimer 4096 10 .second 0, .addTimerInLoop 4096,
      .handleReadBegin 10, .runNext] = some s ∧
    TimerQueue.step s (.cancelInLoop ⟨4096, 1⟩) = some s₁ ∧
    Run.run TimerQueue.step s₁ [.handleReadEnd, .newTimer 4096 20 .zero 0, .addTimerInLoop 4096] =
      some s₂ ∧
    ¬ s₂.Queued (toLex (4096, 1)) ∧ s₂.timers_.toList = [toLex (20, 4096)] := by
  refine ⟨_, _, _, rfl, rfl, rfl, ?_, rfl⟩
  exact ((@cancellation 0 [.newTimer 4096 10 .second 0, .addTimerInLoop 4096, .handleReadBegin 10,
    .runNext] _ rfl).1 0 4096 (Timer.new 10 .second 1) _
      [.handleReadEnd, .newTimer 4096 20 .zero 0, .addTimerInLoop 4096] _
      List.mem_cons_self rfl rfl).2.1

end TimerQueue

end WwjMuduo
