import WwjMuduo.TimerQueue.Clock

set_option autoImplicit false

/-! # The schedule of a timer

From the moment a timer is made, whatever else the program does: its expiration only grows, the
`handleRead` that takes it reads no earlier time, and `reset` puts it back an interval after that
reading. So the calls of a timer come no earlier than its first expiration and the intervals since
allow, and no two of them in one `handleRead`. -/

namespace WwjMuduo

namespace TimerQueue

variable {s s' : TimerQueue} {a : Addr} {t : Timer}

/-! ## The batch is due -/

/-- The timers in the batch are those of the entries, and due. -/
def Due (s : TimerQueue) : Prop := ∀ f ∈ s.frame, ∀ x ∈ f.expired, (ofLex x).1 ≤ f.now ∧
  ∃ u, s.heap (ofLex x).2 = some u ∧ u.expiration_ = (ofLex x).1

theorem due_new (numCreated : ℤ) : Due (new numCreated) := fun f hf => absurd hf (by simp [new])

/-- What leaves the batch and its timers alone leaves it due. -/
theorem Due.congr (D : Due s)
    (hframe : ∀ f ∈ s'.frame, ∃ f₀ ∈ s.frame, f₀.now = f.now ∧ f₀.expired = f.expired)
    (hheap : ∀ b ∈ s.batch, s'.heap b = s.heap b) : Due s' := by
  intro f hf x hx
  obtain ⟨f₀, hf₀, hnow, hexpired⟩ := hframe f hf
  rw [← hnow]
  rw [← hexpired] at hx
  obtain ⟨hle, u, hu, hexp⟩ := D f₀ hf₀ x hx
  have hbatch : (ofLex x).2 ∈ s.batch := by
    rw [batch_of_frame hf₀]
    exact List.mem_map_of_mem hx
  exact ⟨hle, u, (hheap _ hbatch).trans hu, hexp⟩

theorem Does.due {e : Event} (G : Good s) (hd : s.destroyed = false) (D : Due s)
    (h : Does s e s') : Due s' := by
  have L := G.ledger hd
  have hframe : ∀ f ∈ s.frame, ∃ f₀ ∈ s.frame, f₀.now = f.now ∧ f₀.expired = f.expired :=
    fun f hf => ⟨f, hf, rfl, rfl⟩
  have hidle {u : TimerQueue} (hu : u.frame = none) : Due u :=
    fun f hf => absurd hf (by simp [hu])
  cases h with
  | @newTimer b when interval others hb hmax =>
      refine D.congr hframe fun c hc => Function.update_of_ne ?_ ..
      rintro rfl
      obtain ⟨u, hu, -⟩ := L.held_live c hc
      exact absurd (hb.symm.trans hu) (by simp)
  | addFirst => exact D.congr hframe fun _ _ => rfl
  | add => exact D.congr hframe fun _ _ => rfl
  | @erase b u hout hb hi =>
      refine D.congr hframe fun c hc => Function.update_of_ne ?_ ..
      rintro rfl
      exact L.not_mem_held hb hi hc
  | note => exact D.congr hframe fun _ _ => rfl
  | @handleReadBegin now expired s₁ hidle hE hL =>
      have hheap : s₁.heap = s.heap := by rw [hE.rest]; rfl
      intro f hf x hx
      obtain rfl : (⟨now, expired, 0⟩ : HandleRead) = f := Option.some.inj hf
      have hx' : x ∈ s.timers_.toList ∧ decide ((ofLex x).1 ≤ now) = true := by
        rw [hE.expired_eq] at hx
        exact List.mem_filter.1 hx
      obtain ⟨b, u, hb, rfl, -⟩ := L.entries x hx'.1
      refine ⟨of_decide_eq_true hx'.2, u, ?_, rfl⟩
      show s₁.heap b = some u
      rw [hheap]
      exact hb
  | @runNext f x u hf hx hu =>
      refine D.congr (fun g hg => ⟨f, hf, ?_⟩) fun _ _ => rfl
      rw [← Option.some.inj hg]
      exact ⟨rfl, rfl⟩
  | @handleReadEnd f s₁ hf hran hrun hL =>
      refine hidle ?_
      rw [rearmed_rest]
      exact (run_resetTimer_rest hrun).2.1
  | @destroy s₁ hf hrun hL hs₁ =>
      refine hidle ?_
      rw [hs₁]
      exact hf

theorem Due.step {e : Event} (G : Good s) (D : Due s) (h : TimerQueue.step s e = some s') :
    Due s' := by
  rcases G.step_cases h with ⟨hd, -, hdoes⟩ | ⟨hd, a, when, interval, others, rfl⟩
  · exact hdoes.due G hd D
  · intro f hf
    have hframe : s.frame = some f := hf
    exact absurd ((G.gone hd).1.symm.trans hframe) (by simp)

/-! ## Numbers

`new Timer` alone draws them, and the log knows no other. -/

/-- `new Timer` alone draws numbers. -/
theorem numCreated_le {e : Event} (h : TimerQueue.step s e = some s') :
    s.s_numCreated_ ≤ s'.s_numCreated_ := by
  have hexec := (Run.restrict_eq_some.1 h).2
  cases e with
  | newTimer a when interval others =>
      rw [← Option.some.inj hexec]
      show s.s_numCreated_ ≤ s.s_numCreated_ + others + 1
      omega
  | addTimerInLoop a => exact (numCreated_addTimerInLoop hexec).ge
  | cancelInLoop timerId => exact (numCreated_cancelInLoop hexec).ge
  | handleReadBegin now => exact (numCreated_handleReadBegin hexec).ge
  | runNext => exact (numCreated_runNext hexec).ge
  | handleReadEnd => exact (numCreated_handleReadEnd hexec).ge
  | destroy =>
      obtain ⟨s₁, hrun, rfl⟩ := Option.map_eq_some_iff.1 hexec
      refine Run.inv_run (I := fun u => s.s_numCreated_ ≤ u.s_numCreated_) ?_ le_rfl hrun
      intro u x u' hu hstep
      obtain ⟨t, ht, rfl⟩ := Option.map_eq_some_iff.1 hstep
      exact hu

/-- The timers of the heap and of the log have numbers that were drawn, and only what was added is
    called. -/
structure Drawn (s : TimerQueue) : Prop where
  heap : ∀ a u, s.heap a = some u → u.sequence_ ≤ s.s_numCreated_
  added : ∀ k a u, (k, Act.added a u) ∈ s.log → u.sequence_ ≤ s.s_numCreated_
  called : ∀ k now a u, (k, Act.called now a u) ∈ s.log → u.active a ∈ s.added

theorem drawn_new (numCreated : ℤ) : Drawn (new numCreated) where
  heap a u ha := absurd ha (by simp [new])
  added k a u hx := absurd hx List.not_mem_nil
  called k now a u hx := absurd hx List.not_mem_nil

theorem Extends.added_mem {acts : List Act} (h : Extends s s' acts) {i : ActiveTimer}
    (hi : i ∈ s.added) : i ∈ s'.added := by
  obtain ⟨more, hlog, -⟩ := h
  unfold TimerQueue.added
  rw [hlog, List.filterMap_append]
  exact List.mem_append_left _ hi

theorem Drawn.step {e : Event} (G : Good s) (N : Drawn s) (h : TimerQueue.step s e = some s') :
    Drawn s' := by
  have hrecorded := G.recorded h
  have hle := numCreated_le h
  obtain ⟨acts, hext, -⟩ := G.touches h
  refine ⟨fun a u hu => ?_, fun k a u hx => ?_, fun k now a u hx => ?_⟩
  · have horigin := G.origin h hu
    cases horigin with
    | kept ha => exact (N.heap a u ha).trans hle
    | @made when interval others ha hmade =>
        have hexec := (Run.restrict_eq_some.1 h).2
        rw [← Option.some.inj hexec, hmade]
        exact le_rfl
    | @restarted f w hframe hbatch ha hrepeat hrestart =>
        rw [hrestart]
        exact (N.heap a w ha).trans hle
  · rcases hrecorded _ hx with hx | hu
    · exact (N.added k a u hx).trans hle
    · exact (N.heap a u hu).trans hle
  · refine hext.added_mem ?_
    rcases hrecorded _ hx with hx | ⟨-, hu, f, hframe, -, hbatch⟩
    · exact N.called k now a u hx
    · have hd : s.destroyed = false := by
        rw [← Bool.not_eq_true]
        intro hd
        exact absurd ((G.gone hd).1.symm.trans hframe) (by simp)
      have L := G.ledger hd
      rw [batch_of_frame hframe] at L
      obtain ⟨w, hw, -, hadded⟩ := L.held_live a hbatch
      obtain rfl : u = w := Option.some.inj (hu.symm.trans hw)
      exact hadded

/-! ## Since a timer was made -/

/-- What is true of the timer that was made as `t` at an address: it keeps its interval, its
    expiration only grows, and no call is earlier than the first. -/
structure Since (s : TimerQueue) (a : Addr) (t : Timer) : Prop where
  drawn : t.sequence_ ≤ s.s_numCreated_
  heap : ∀ u, s.heap a = some u → u.active a = t.active a →
    t.expiration_ ≤ u.expiration_ ∧ u.interval_ = t.interval_
  added : ∀ k u, (k, Act.added a u) ∈ s.log → u.active a = t.active a → u.interval_ = t.interval_
  calls : ∀ c ∈ s.calls (t.active a), t.expiration_ ≤ c.2

theorem mem_calls {i : ActiveTimer} {c : ℕ × Timestamp} :
    c ∈ s.calls i ↔ ∃ b u, (c.1, Act.called c.2 b u) ∈ s.log ∧ u.active b = i := by
  unfold calls
  rw [List.mem_filterMap]
  constructor
  · rintro ⟨⟨k, act⟩, hx, hact⟩
    obtain ⟨now, hnow, rfl⟩ := Option.map_eq_some_iff.1 hact
    cases act with
    | called now' b u =>
        by_cases hi : u.active b = i
        · obtain rfl : now' = now := by simpa [Act.ranAt?, hi] using hnow
          exact ⟨b, u, hx, hi⟩
        · exact absurd hnow (by simp [Act.ranAt?, hi])
    | _ => exact absurd hnow (by simp [Act.ranAt?])
  · rintro ⟨b, u, hx, hi⟩
    exact ⟨_, hx, by simp [Act.ranAt?, hi]⟩

/-- **Step lemma.** -/
theorem Since.step {e : Event} (G : Good s) (D : Due s) (S : Since s a t)
    (h : TimerQueue.step s e = some s') : Since s' a t := by
  have hrecorded := G.recorded h
  refine ⟨S.drawn.trans (numCreated_le h), fun u hu heq => ?_, fun k u hx heq => ?_, fun c hc => ?_⟩
  · cases G.origin h hu with
    | kept ha => exact S.heap u ha heq
    | @made when interval others ha hmade =>
        -- The new one has a later number.
        have hdrawn := S.drawn
        have hseq : u.sequence_ = t.sequence_ := (Timer.active_inj.1 heq).2
        have hnew : u.sequence_ = s.s_numCreated_ + others + 1 := by rw [hmade]; rfl
        omega
    | @restarted f w hframe hbatch ha hrepeat hrestart =>
        have hactive : w.active a = t.active a := by
          rw [← heq, hrestart]
          rfl
        obtain ⟨hle, hinterval⟩ := S.heap w ha hactive
        obtain ⟨x, hx, rfl⟩ := List.mem_map.1 hbatch
        obtain ⟨hdue, w', hw', hexp⟩ := D f hframe x hx
        obtain rfl : w = w' := Option.some.inj (ha.symm.trans hw')
        rw [hrestart, Timer.restart_expiration hrepeat]
        refine ⟨?_, hinterval⟩
        have hnow : t.expiration_ ≤ f.now := hle.trans (hexp ▸ hdue)
        exact hnow.trans (Int.le_add_of_nonneg_right (Timer.micros_nonneg hrepeat))
  · rcases hrecorded _ hx with hx | hu
    · exact S.added k u hx heq
    · exact (S.heap u hu heq).2
  · obtain ⟨b, u, hx, heq⟩ := mem_calls.1 hc
    obtain ⟨rfl, -⟩ := Timer.active_inj.1 heq
    rcases hrecorded _ hx with hx | ⟨-, hu, f, hframe, hnow, hbatch⟩
    · exact S.calls c (mem_calls.2 ⟨b, u, hx, heq⟩)
    · obtain ⟨x, hxf, rfl⟩ := List.mem_map.1 hbatch
      obtain ⟨hdue, u', hu', hexp⟩ := D f hframe x hxf
      obtain rfl : u = u' := Option.some.inj (hu.symm.trans hu')
      rw [hnow]
      exact (S.heap u hu heq).1.trans (hexp ▸ hdue)

end TimerQueue

namespace Clocked

/-- The calls bear the clock readings of their `handleRead`s. -/
structure Stamped (s : Clocked) : Prop where
  count : s.wakeups.length = s.timerQueue_.started
  frame : ∀ f ∈ s.timerQueue_.frame, s.wakeups[s.timerQueue_.started - 1]? = some f.now
  calls : ∀ k now b u, (k, Act.called now b u) ∈ s.timerQueue_.log →
    1 ≤ k ∧ s.wakeups[k - 1]? = some now

theorem Stamped.started_pos {s : Clocked} (S : Stamped s) {f : HandleRead}
    (hf : f ∈ s.timerQueue_.frame) : 1 ≤ s.timerQueue_.started := by
  have hcount := S.count
  obtain ⟨hlt, -⟩ := List.getElem?_eq_some_iff.1 (S.frame f hf)
  omega

theorem Stamped.step {s s' : Clocked} {e : ClockedEvent} (G : s.timerQueue_.Good) (S : Stamped s)
    (h : Clocked.step s e = some s') : Stamped s' := by
  rcases step_cases G h with ⟨d, -, rfl⟩ | ⟨f, q, -, hq, hmoves⟩
  · exact ⟨S.count, S.frame, S.calls⟩
  · have hcalls : ∀ k now b u, (k, Act.called now b u) ∈ q.log →
        1 ≤ k ∧ s.wakeups[k - 1]? = some now := by
      intro k now b u hx
      rcases G.recorded hq _ hx with hx | ⟨rfl, -, g, hg, rfl, -⟩
      · exact S.calls k now b u hx
      · exact ⟨S.started_pos hg, S.frame g hg⟩
    have hframe (hsame : s.timerQueue_.Same q) :
        ∀ g ∈ q.frame, s.wakeups[q.started - 1]? = some g.now := by
      intro g hg
      obtain ⟨g₀, hg₀, hnow⟩ := hsame.frame g hg
      rw [hsame.started, ← hnow]
      exact S.frame g₀ hg₀
    cases hmoves with
    | quiet harmed hsame => exact ⟨S.count.trans hsame.started.symm, hframe hsame, hcalls⟩
    | @read expired hreadable harmed hstarted hq' =>
        refine ⟨?_, fun g hg => ?_, fun k now b u hx => ?_⟩
        · show (s.wakeups ++ [s.clock]).length = q.started
          rw [List.length_append, S.count, hstarted]
          rfl
        · rw [hq', Option.mem_some_iff] at hg
          rw [← hg]
          show (s.wakeups ++ [s.clock])[q.started - 1]? = some s.clock
          rw [hstarted, Nat.add_sub_cancel, ← S.count]
          exact List.getElem?_concat_length
        · obtain ⟨hpos, hget⟩ := hcalls k now b u hx
          refine ⟨hpos, ?_⟩
          show (s.wakeups ++ [s.clock])[k - 1]? = some now
          rw [List.getElem?_append_left (List.getElem?_eq_some_iff.1 hget).1]
          exact hget
    | set ha harmed hsame => exact ⟨S.count.trans hsame.started.symm, hframe hsame, hcalls⟩

/-! ## Whole runs -/

/-- All that is kept of a queue and its clock. -/
structure Kept (s : Clocked) : Prop where
  told : s.timerQueue_.Told
  due : s.timerQueue_.Due
  drawn : s.timerQueue_.Drawn
  paced : Paced s
  stamped : Stamped s

theorem kept_new (numCreated : ℤ) (clock : Timestamp) : Kept (new numCreated clock) where
  told := TimerQueue.told_new numCreated
  due := TimerQueue.due_new numCreated
  drawn := TimerQueue.drawn_new numCreated
  paced := paced_new numCreated clock
  stamped :=
    { count := rfl
      frame := fun f hf => absurd hf (by simp [new, TimerQueue.new])
      calls := fun k now b u hx => absurd hx List.not_mem_nil }

theorem Kept.step {s s' : Clocked} {e : ClockedEvent} (K : Kept s) (h : Clocked.step s e = some s') :
    Kept s' := by
  have G := K.told.good
  have hpaced := K.paced.step G h
  have hstamped := K.stamped.step G h
  rcases step_cases G h with ⟨d, -, rfl⟩ | ⟨f, q, -, hq, hmoves⟩
  · exact ⟨K.told, K.due, K.drawn, hpaced, hstamped⟩
  · have hqueue := hmoves.timerQueue_eq.1
    exact ⟨hqueue ▸ K.told.step hq, hqueue ▸ K.due.step G hq, hqueue ▸ K.drawn.step G hq, hpaced,
      hstamped⟩

theorem Kept.run {s s' : Clocked} {es : List ClockedEvent} (K : Kept s)
    (h : Run.run Clocked.step s es = some s') : Kept s' :=
  Run.inv_run (fun _ _ _ K h => Kept.step K h) K h

theorem Kept.since {s s' : Clocked} {es : List ClockedEvent} {a : Addr} {t : Timer} (K : Kept s)
    (S : s.timerQueue_.Since a t) (h : Run.run Clocked.step s es = some s') :
    s'.timerQueue_.Since a t := by
  refine (Run.inv_run (I := fun u => Kept u ∧ u.timerQueue_.Since a t) ?_ ⟨K, S⟩ h).2
  rintro u e u' ⟨Ku, Su⟩ hstep
  refine ⟨Ku.step hstep, ?_⟩
  rcases step_cases Ku.told.good hstep with ⟨d, -, rfl⟩ | ⟨f, q, -, hq, hmoves⟩
  · exact Su
  · rw [hmoves.timerQueue_eq.1]
    exact Su.step Ku.told.good Ku.due hq

/-- A timer that has just been made has had no call. -/
theorem Kept.since_addTimer {s s' : Clocked} {a : Addr} {call : TimerCall} {others : ℕ} (K : Kept s)
    (h : Clocked.step s (.addTimer a call others) = some s') :
    s'.timerQueue_.Since a
      (Timer.new (call.time s.clock) call.interval s'.timerQueue_.s_numCreated_) := by
  have G := K.told.good
  rcases step_cases G h with ⟨d, he, -⟩ | ⟨f, q, hf, hq, hmoves⟩
  · exact absurd he (by simp)
  · obtain rfl : .newTimer a (call.time s.clock) call.interval others = f := Option.some.inj hf
    have hexec := Option.some.inj (Run.restrict_eq_some.1 hq).2
    rw [hmoves.timerQueue_eq.1, ← hexec]
    let t := Timer.new (call.time s.clock) call.interval (s.timerQueue_.s_numCreated_ + others + 1)
    have hlater {u : Timer} (hu : u.sequence_ ≤ s.timerQueue_.s_numCreated_) :
        u.active a ≠ t.active a := by
      intro heq
      have hseq : u.sequence_ = s.timerQueue_.s_numCreated_ + others + 1 :=
        (Timer.active_inj.1 heq).2
      omega
    refine ⟨le_rfl, fun u hu _ => ?_, fun k u hx heq => ?_, fun c hc => ?_⟩
    · have hself : (s.timerQueue_.newTimer a (call.time s.clock) call.interval others).heap a =
          some t := Function.update_self ..
      obtain rfl : t = u := Option.some.inj (hself.symm.trans hu)
      exact ⟨le_rfl, rfl⟩
    · exact absurd heq (hlater (K.drawn.added k a u hx))
    · obtain ⟨b, u, hx, heq⟩ := TimerQueue.mem_calls.1 hc
      obtain ⟨rfl, -⟩ := Timer.active_inj.1 heq
      obtain ⟨k, b', v, hv, hvu⟩ := TimerQueue.mem_added.1 (K.drawn.called _ _ _ _ hx)
      obtain ⟨rfl, hseq⟩ := Timer.active_inj.1 hvu
      exact absurd heq (hlater (hseq ▸ K.drawn.added k b v hv))

/-- The laws of the calls of a timer, for the timer as it was made. -/
theorem Kept.lawful {s : Clocked} {a : Addr} {t : Timer} (K : Kept s)
    (S : s.timerQueue_.Since a t) :
    (t.repeat_ = false → (s.timerQueue_.calls (t.active a)).length ≤ 1) ∧
      (s.timerQueue_.calls (t.active a)).Pairwise fun c d =>
        c.1 < d.1 ∧ c.2 + t.interval_.micros ≤ d.2 := by
  cases hcalls : s.timerQueue_.calls (t.active a) with
  | nil => exact ⟨fun _ => Nat.zero_le 1, List.Pairwise.nil⟩
  | cons c l =>
      obtain ⟨b, u, hx, heq⟩ := TimerQueue.mem_calls.1 (hcalls ▸ List.mem_cons_self)
      obtain ⟨rfl, -⟩ := Timer.active_inj.1 heq
      obtain ⟨k, b', v, hv, hvu⟩ := TimerQueue.mem_added.1 (K.drawn.called _ _ _ _ hx)
      obtain ⟨rfl, -⟩ := Timer.active_inj.1 hvu
      have hactive : v.active b = t.active b := hvu.symm.trans heq
      have hinterval := S.added k v hv hactive
      have hlaw := K.told.laws k b v hv
      rw [hactive, hcalls] at hlaw
      refine ⟨fun hrepeat => hlaw.one_shot ?_, hinterval ▸ hlaw.spaced⟩
      rw [v.repeat_eq, hinterval, ← t.repeat_eq]
      exact hrepeat

/-- Two calls in different `handleRead`s are 100 microseconds apart. -/
theorem Kept.apart {s : Clocked} (K : Kept s) {i : ActiveTimer} {c d : ℕ × Timestamp}
    (hc : c ∈ s.timerQueue_.calls i) (hd : d ∈ s.timerQueue_.calls i) (hlt : c.1 < d.1) :
    c.2 + 100 ≤ d.2 := by
  obtain ⟨b, u, hx, -⟩ := TimerQueue.mem_calls.1 hc
  obtain ⟨b', u', hx', -⟩ := TimerQueue.mem_calls.1 hd
  obtain ⟨hpos, hget⟩ := K.stamped.calls _ _ _ _ hx
  obtain ⟨-, hget'⟩ := K.stamped.calls _ _ _ _ hx'
  obtain ⟨hlen, hget⟩ := List.getElem?_eq_some_iff.1 hget
  obtain ⟨hlen', hget'⟩ := List.getElem?_eq_some_iff.1 hget'
  have hidx : c.1 - 1 < d.1 - 1 := by omega
  have happart := List.pairwise_iff_getElem.1 K.paced.apart _ _ hlen hlen' hidx
  rw [hget, hget'] at happart
  exact happart

/-- Times that begin at `e` and are `m` apart. -/
theorem le_getElem_of_spaced {l : List (ℕ × Timestamp)} {e m : ℤ} (hfirst : ∀ c ∈ l, e ≤ c.2)
    (hspaced : l.Pairwise fun c d => c.1 < d.1 ∧ c.2 + m ≤ d.2) {k : ℕ} {c : ℕ × Timestamp}
    (hc : l[k]? = some c) : e + k * m ≤ c.2 := by
  induction l generalizing e k with
  | nil => exact absurd hc (by simp)
  | cons d l ih =>
      obtain ⟨hd, hl⟩ := List.pairwise_cons.1 hspaced
      cases k with
      | zero =>
          obtain rfl : d = c := by simpa using hc
          simpa using hfirst d List.mem_cons_self
      | succ k =>
          have hnext : ∀ c ∈ l, e + m ≤ c.2 := fun c hc =>
            (Int.add_le_add_right (hfirst d List.mem_cons_self) m).trans (hd c hc).2
          have hle := ih hnext hl (by simpa using hc)
          rw [Nat.cast_succ, Int.add_mul, Int.one_mul]
          omega

/-- **The schedule.** Whatever a run does before and after: a timer that `runAt`, `runAfter` or
    `runEvery` has made is called in different `handleRead`s, its interval and at least 100
    microseconds apart, the `k`-th time no earlier than the first expiration and `k` intervals allow
    and not after the present; and one without an interval is called once at most. -/
theorem schedule {numCreated : ℤ} {clock : Timestamp} {es es' : List ClockedEvent}
    {s₁ s₂ s : Clocked} {a : Addr} {call : TimerCall} {others : ℕ}
    (hrun : Run.run step (new numCreated clock) es = some s₁)
    (hmade : step s₁ (.addTimer a call others) = some s₂) (hrest : Run.run step s₂ es' = some s) :
    let calls := s.timerQueue_.calls (TimerId.active ⟨a, s₂.timerQueue_.s_numCreated_⟩)
    (∀ (k : ℕ) (c : ℕ × Timestamp), calls[k]? = some c →
      call.time s₁.clock + k * call.interval.micros ≤ c.2 ∧ c.2 ≤ s.clock) ∧
    (calls.Pairwise fun c d =>
      c.1 < d.1 ∧ c.2 + call.interval.micros ≤ d.2 ∧ c.2 + 100 ≤ d.2) ∧
    (call.interval.seconds ≤ 0 → calls.length ≤ 1) := by
  intro calls
  have K₁ := (kept_new numCreated clock).run hrun
  have K₂ := K₁.step hmade
  have K := K₂.run hrest
  have S := K₂.since (K₁.since_addTimer hmade) hrest
  obtain ⟨hone, hspaced⟩ := K.lawful S
  refine ⟨fun k c hc => ⟨le_getElem_of_spaced S.calls hspaced hc, ?_⟩, ?_, fun hzero => hone ?_⟩
  · obtain ⟨b, u, hx, -⟩ := TimerQueue.mem_calls.1 (List.mem_of_getElem? hc)
    exact K.paced.past _ (List.mem_of_getElem? (K.stamped.calls _ _ _ _ hx).2)
  · exact List.Pairwise.imp_of_mem (fun hc hd h => ⟨h.1, h.2, K.apart hc hd h.1⟩) hspaced
  · exact decide_eq_false (not_lt.2 hzero)

/-- A timer of one second that misses a deadline: the next is a second after the late call. -/
theorem schedule_of_late_call : ∃ s₁ s₂ s,
    Run.run step (new 0 1000) [] = some s₁ ∧
    step s₁ (.addTimer 4096 (.runEvery .second) 0) = some s₂ ∧
    Run.run step s₂ [.on (.addTimerInLoop 4096), .tick 1700000, .on (.handleReadBegin 1701000),
      .on .runNext, .on .handleReadEnd, .tick 1000000, .on (.handleReadBegin 2701000),
      .on .runNext] = some s ∧
    s.timerQueue_.calls (TimerId.active ⟨4096, 1⟩) = [(1, 1701000), (2, 2701000)] ∧
    (let calls := s.timerQueue_.calls (TimerId.active ⟨4096, s₂.timerQueue_.s_numCreated_⟩)
    (∀ (k : ℕ) (c : ℕ × Timestamp), calls[k]? = some c →
      (TimerCall.runEvery .second).time s₁.clock +
        k * (TimerCall.runEvery .second).interval.micros ≤ c.2 ∧ c.2 ≤ s.clock) ∧
    (calls.Pairwise fun c d =>
      c.1 < d.1 ∧ c.2 + (TimerCall.runEvery .second).interval.micros ≤ d.2 ∧ c.2 + 100 ≤ d.2) ∧
    ((TimerCall.runEvery .second).interval.seconds ≤ 0 → calls.length ≤ 1)) := by
  let later : List ClockedEvent := [.on (.addTimerInLoop 4096), .tick 1700000,
    .on (.handleReadBegin 1701000), .on .runNext, .on .handleReadEnd, .tick 1000000,
    .on (.handleReadBegin 2701000), .on .runNext]
  exact ⟨_, _, _, rfl, rfl, rfl, rfl,
    @schedule 0 1000 [] later _ _ _ 4096 (.runEvery .second) 0 rfl rfl rfl⟩

end Clocked

end WwjMuduo
