import WwjMuduo.TimerQueue.Ownership

set_option autoImplicit false

/-! # When a timer is called

`History` ties the calls a timer has had to where the timer is now: a queued timer expires no earlier
than its calls allow, and one that waits in the batch has not been called by this `handleRead`. From
it follow the laws for the calls of one timer: none in the batch during which it was added, one at
most for a one-shot timer, and an interval between any two of a repeating one. -/

namespace WwjMuduo

namespace Act

/-- The clock of the batch, if the act calls a given timer. -/
def ranAt? (i : ActiveTimer) : Act → Option Timestamp
  | .called now a t => if t.active a = i then some now else none
  | _ => none

end Act

namespace TimerQueue

/-- The calls of a timer, each with the number of its batch and the clock reading of that batch. -/
def calls (s : TimerQueue) (i : ActiveTimer) : List (ℕ × Timestamp) :=
  s.log.filterMap fun x => (x.2.ranAt? i).map fun now => (x.1, now)

theorem calls_emit (s : TimerQueue) (act : Act) (i : ActiveTimer) :
    (s.emit act).calls i = s.calls i ++ ((act.ranAt? i).map fun now => (s.started, now)).toList := by
  unfold calls emit
  rw [List.filterMap_append]
  cases h : act.ranAt? i <;> simp [h]

theorem mem_log_emit {s : TimerQueue} {act : Act} {x : ℕ × Act} :
    x ∈ (s.emit act).log ↔ x ∈ s.log ∨ x = (s.started, act) := by
  unfold emit
  rw [List.mem_append, List.mem_singleton]

theorem mem_added {s : TimerQueue} {i : ActiveTimer} :
    i ∈ s.added ↔ ∃ k a t, (k, Act.added a t) ∈ s.log ∧ i = t.active a := by
  unfold added
  rw [List.mem_filterMap]
  constructor
  · rintro ⟨⟨k, act⟩, hx, hact⟩
    cases act with
    | added a t => exact ⟨k, a, t, hx, (Option.some.inj hact).symm⟩
    | _ => exact absurd hact (by simp [Act.added?])
  · rintro ⟨k, a, t, hx, rfl⟩
    exact ⟨_, hx, rfl⟩

/-- The laws for the calls of a timer that was added when `k` batches had begun. -/
structure Lawful (calls : List (ℕ × Timestamp)) (k : ℕ) (t : Timer) : Prop where
  not_same_batch : ∀ c ∈ calls, k < c.1
  one_shot : t.repeat_ = false → calls.length ≤ 1
  spaced : calls.Pairwise fun c d => c.1 < d.1 ∧ c.2 + t.interval_.micros ≤ d.2

theorem lawful_nil (k : ℕ) (t : Timer) : Lawful [] k t where
  not_same_batch _ hc := absurd hc List.not_mem_nil
  one_shot _ := Nat.zero_le 1
  spaced := List.Pairwise.nil

/-- What the calls so far mean for the timers. Those in `ran` have been called by the `handleRead` that
    read `now`, and those in `waiting` have not. -/
structure History (s : TimerQueue) (now : Timestamp) (ran waiting : List Addr) : Prop where
  stamps : ∀ x ∈ s.log, x.1 ≤ s.started
  same : ∀ k a t u, (k, Act.added a t) ∈ s.log → s.heap a = some u → u.active a = t.active a →
    u.interval_ = t.interval_ ∧ u.repeat_ = t.repeat_
  called_added : ∀ i, i ∉ s.added → s.calls i = []
  queued : ∀ a t, s.heap a = some t → t.active a ∈ s.activeTimers_ → ∀ c ∈ s.calls (t.active a),
    t.repeat_ = true ∧ c.2 + t.interval_.micros ≤ t.expiration_
  waiting_calls : ∀ a ∈ waiting, ∀ t, s.heap a = some t → ∀ c ∈ s.calls (t.active a),
    t.repeat_ = true ∧ c.2 + t.interval_.micros ≤ now ∧ c.1 < s.started
  waiting_added : ∀ a ∈ waiting, ∀ t k u, s.heap a = some t → (k, Act.added a u) ∈ s.log →
    u.active a = t.active a → k < s.started
  ran_calls : ∀ a ∈ ran, ∀ t, s.heap a = some t → s.calls (t.active a) ≠ [] ∧
    ∀ c ∈ s.calls (t.active a), c.2 ≤ now
  laws : ∀ k a t, (k, Act.added a t) ∈ s.log → Lawful (s.calls (t.active a)) k t

namespace History

variable {s s' : TimerQueue} {now : Timestamp} {ran waiting : List Addr} {a : Addr} {t : Timer}

/-- The stamp of a call is the number of a batch that has begun. -/
theorem call_stamp (H : History s now ran waiting) {i : ActiveTimer} {c : ℕ × Timestamp}
    (hc : c ∈ s.calls i) : c.1 ≤ s.started := by
  unfold calls at hc
  obtain ⟨x, hx, hxc⟩ := List.mem_filterMap.1 hc
  obtain ⟨now', -, rfl⟩ := Option.map_eq_some_iff.1 hxc
  exact H.stamps x hx

/-- The history does not notice that timers go, nor acts that neither add nor call one. -/
theorem mono (H : History s now ran waiting)
    (hheap : ∀ a t, s'.heap a = some t → s.heap a = some t)
    (hactive : ∀ i ∈ s'.activeTimers_, i ∈ s.activeTimers_) (hstarted : s'.started = s.started)
    (hcalls : ∀ i, s'.calls i = s.calls i) (hstamps : ∀ x ∈ s'.log, x.1 ≤ s'.started)
    (hadds : ∀ k a t, (k, Act.added a t) ∈ s'.log ↔ (k, Act.added a t) ∈ s.log) :
    History s' now ran waiting := by
  refine
    { stamps := hstamps, same := ?_, called_added := ?_, queued := ?_, waiting_calls := ?_
      waiting_added := ?_, ran_calls := ?_, laws := ?_ }
  · exact fun k a t u hx hu => H.same k a t u ((hadds k a t).1 hx) (hheap a u hu)
  · intro i hi
    rw [hcalls]
    refine H.called_added i fun h => hi ?_
    obtain ⟨k, a, t, hx, heq⟩ := mem_added.1 h
    exact mem_added.2 ⟨k, a, t, (hadds k a t).2 hx, heq⟩
  · intro a t ha hi
    rw [hcalls]
    exact H.queued a t (hheap a t ha) (hactive _ hi)
  · intro a hmem t ha
    rw [hcalls, hstarted]
    exact H.waiting_calls a hmem t (hheap a t ha)
  · intro a hmem t k u ha hx
    rw [hstarted]
    exact H.waiting_added a hmem t k u (hheap a t ha) ((hadds k a u).1 hx)
  · intro a hmem t ha
    rw [hcalls]
    exact H.ran_calls a hmem t (hheap a t ha)
  · intro k a t hx
    rw [hcalls]
    exact H.laws k a t ((hadds k a t).1 hx)

theorem emit (H : History s now ran waiting) {act : Act} (ha : act.added? = none)
    (hc : ∀ i, act.ranAt? i = none) : History (s.emit act) now ran waiting := by
  refine H.mono (fun _ _ h => h) (fun _ h => h) rfl (fun i => ?_) (fun x hx => ?_) fun k b u => ?_
  · rw [calls_emit, hc]
    exact List.append_nil _
  · rcases mem_log_emit.1 hx with hx | rfl
    · exact H.stamps x hx
    · exact le_rfl
  · rw [mem_log_emit, or_iff_left]
    intro heq
    rw [← (Prod.mk.inj heq).2] at ha
    exact absurd ha (by simp [Act.added?])

theorem free (H : History s now ran waiting) : History (s.free a t) now ran waiting := by
  refine History.emit (s := { s with heap := Function.update s.heap a none }) ?_ rfl fun _ => rfl
  refine H.mono (fun b u hb => ?_) (fun _ h => h) rfl (fun _ => rfl) H.stamps fun _ _ _ => Iff.rfl
  by_cases hba : b = a
  · subst hba
    exact absurd ((Function.update_self ..).symm.trans hb) (by simp)
  · exact (Function.update_of_ne hba ..).symm.trans hb

/-- A `Timer` nobody has queued yet has no history. -/
theorem newTimer (H : History s now ran waiting) {held : List Addr} (L : Ledger s held)
    (hran : ∀ b ∈ ran, b ∈ held) (hwaiting : ∀ b ∈ waiting, b ∈ held) (ha : s.heap a = none)
    (when : Timestamp) (interval : Interval) (others : ℕ) :
    History (s.newTimer a when interval others) now ran waiting := by
  let timer := Timer.new when interval (s.s_numCreated_ + others + 1)
  have hfresh : timer.active a ∉ s.added := by
    intro hmem
    have hle : s.s_numCreated_ + others + 1 ≤ s.s_numCreated_ := L.known _ hmem
    omega
  have hback {b : Addr} {u : Timer} (hb : (s.newTimer a when interval others).heap b = some u) :
      u.active b ∉ s.added ∨ s.heap b = some u := by
    by_cases hba : b = a
    · subst hba
      rw [show (s.newTimer b when interval others).heap b = some timer from Function.update_self ..,
        Option.some.injEq] at hb
      exact .inl (hb ▸ hfresh)
    · exact .inr ((Function.update_of_ne hba ..).symm.trans hb)
  have hheld {b : Addr} {u : Timer} (hmem : b ∈ held)
      (hb : (s.newTimer a when interval others).heap b = some u) : s.heap b = some u := by
    obtain ⟨v, hv, -⟩ := L.held_live b hmem
    refine (Function.update_of_ne ?_ ..).symm.trans hb
    rintro rfl
    rw [ha] at hv
    exact absurd hv (by simp)
  refine
    { stamps := H.stamps, same := ?_, called_added := H.called_added, queued := ?_
      waiting_calls := ?_, waiting_added := ?_, ran_calls := ?_, laws := H.laws }
  · intro k b t u hx hu heq
    rcases hback hu with hnot | hu
    · exact absurd (mem_added.2 ⟨k, b, t, hx, heq⟩) hnot
    · exact H.same k b t u hx hu heq
  · intro b u hb hi
    rcases hback hb with hnot | hb
    · exact absurd (L.active_added _ hi) hnot
    · exact H.queued b u hb hi
  · exact fun b hb u hu => H.waiting_calls b hb u (hheld (hwaiting b hb) hu)
  · exact fun b hb u k v hu => H.waiting_added b hb u k v (hheld (hwaiting b hb) hu)
  · exact fun b hb u hu => H.ran_calls b hb u (hheld (hran b hb) hu)

/-- A timer is queued for the first time. -/
theorem inserted (H : History s now ran waiting) {held : List Addr} (L : Ledger s held)
    (hwaiting : ∀ b ∈ waiting, b ∈ held) (hmem : a ∈ s.inFlight) (ha : s.heap a = some t) :
    History (s.inserted a t) now ran waiting := by
  obtain ⟨hheld, u, hu, hnew⟩ := L.flying a hmem
  rw [ha, Option.some.injEq] at hu
  subst hu
  have hcalls (i : ActiveTimer) : (s.inserted a t).calls i = s.calls i :=
    (calls_emit s (.added a t) i).trans (List.append_nil _)
  have hnone : s.calls (t.active a) = [] := H.called_added _ hnew
  have hlog {x : ℕ × Act} : x ∈ (s.inserted a t).log ↔ x ∈ s.log ∨ x = (s.started, .added a t) :=
    mem_log_emit
  have hadds {k : ℕ} {b : Addr} {v : Timer} (hx : (k, Act.added b v) ∈ (s.inserted a t).log) :
      (k, Act.added b v) ∈ s.log ∨ (k = s.started ∧ b = a ∧ v = t) := by
    rcases hlog.1 hx with hx | heq
    · exact .inl hx
    · rw [Prod.mk.injEq, Act.added.injEq] at heq
      exact .inr heq
  refine
    { stamps := ?_, same := ?_, called_added := ?_, queued := ?_, waiting_calls := ?_
      waiting_added := ?_, ran_calls := ?_, laws := ?_ }
  · intro x hx
    rcases hlog.1 hx with hx | rfl
    · exact H.stamps x hx
    · exact le_rfl
  · intro k b v u hx hu heq
    rcases hadds hx with hx | ⟨-, rfl, rfl⟩
    · exact H.same k b v u hx hu heq
    · obtain rfl : u = v := Option.some.inj (hu.symm.trans ha)
      exact ⟨rfl, rfl⟩
  · intro i hi
    rw [hcalls]
    refine H.called_added i fun h => hi ?_
    obtain ⟨k, b, v, hx, heq⟩ := mem_added.1 h
    exact mem_added.2 ⟨k, b, v, hlog.2 (.inl hx), heq⟩
  · intro b u hb hi
    rw [hcalls]
    rcases OrderedSet.mem_insert.1 hi with heq | hi
    · rw [heq, hnone]
      exact fun c hc => absurd hc List.not_mem_nil
    · exact H.queued b u hb hi
  · intro b hb u hu
    rw [hcalls]
    exact H.waiting_calls b hb u hu
  · intro b hb u k v hu hx heq
    rcases hadds hx with hx | ⟨-, rfl, rfl⟩
    · exact H.waiting_added b hb u k v hu hx heq
    · exact absurd (hwaiting b hb) hheld
  · intro b hb u hu
    rw [hcalls]
    exact H.ran_calls b hb u hu
  · intro k b v hx
    rcases hadds hx with hx | ⟨-, rfl, rfl⟩
    · rw [hcalls]
      exact H.laws k b v hx
    · rw [hcalls, hnone]
      exact lawful_nil k v

/-- A timer that waited in the batch is called. -/
theorem called (H : History s now ran (a :: waiting)) (ha : s.heap a = some t)
    (hin : t.active a ∈ s.added) (hactive : t.active a ∉ s.activeTimers_) (hwaiting : a ∉ waiting) :
    History (s.emit (.called now a t)) now (ran ++ [a]) waiting := by
  have hself : (s.emit (.called now a t)).calls (t.active a) =
      s.calls (t.active a) ++ [(s.started, now)] := by
    rw [calls_emit]
    simp [Act.ranAt?]
  have hother {i : ActiveTimer} (hi : i ≠ t.active a) :
      (s.emit (.called now a t)).calls i = s.calls i := by
    rw [calls_emit]
    simp [Act.ranAt?, hi.symm]
  have hbefore := H.waiting_calls a List.mem_cons_self t ha
  have hadds {k : ℕ} {b : Addr} {v : Timer}
      (hx : (k, Act.added b v) ∈ (s.emit (.called now a t)).log) : (k, Act.added b v) ∈ s.log := by
    rcases mem_log_emit.1 hx with hx | heq
    · exact hx
    · exact absurd heq (by simp)
  refine
    { stamps := ?_, same := ?_, called_added := ?_, queued := ?_, waiting_calls := ?_
      waiting_added := ?_, ran_calls := ?_, laws := ?_ }
  · intro x hx
    rcases mem_log_emit.1 hx with hx | rfl
    · exact H.stamps x hx
    · exact le_rfl
  · exact fun k b v u hx => H.same k b v u (hadds hx)
  · intro i hi
    have hi' : i ∉ s.added := by
      rw [added_emit] at hi
      exact fun h => hi (List.mem_append.2 (.inl h))
    have hne : i ≠ t.active a := by
      rintro rfl
      exact hi' hin
    rw [hother hne]
    exact H.called_added i hi'
  · intro b u hb hi
    rw [hother (fun h => hactive (h ▸ hi))]
    exact H.queued b u hb hi
  · intro b hb u hu
    have hne : u.active b ≠ t.active a := by
      intro heq
      exact hwaiting ((Timer.active_inj.1 heq).1 ▸ hb)
    rw [hother hne]
    exact H.waiting_calls b (List.mem_cons_of_mem a hb) u hu
  · exact fun b hb u k v hu hx => H.waiting_added b (List.mem_cons_of_mem a hb) u k v hu (hadds hx)
  · intro b hb u hu
    by_cases hba : b = a
    · subst hba
      obtain rfl : t = u := Option.some.inj (ha.symm.trans hu)
      rw [hself]
      refine ⟨List.append_ne_nil_of_right_ne_nil _ (List.cons_ne_nil _ _), fun c hc => ?_⟩
      rcases List.mem_append.1 hc with hc | hc
      · obtain ⟨hrepeat, hle, -⟩ := hbefore c hc
        exact (Int.le_add_of_nonneg_right (Timer.micros_nonneg hrepeat)).trans hle
      · rw [List.mem_singleton.1 hc]
    · have hne : u.active b ≠ t.active a := fun heq => hba (Timer.active_inj.1 heq).1
      rw [hother hne]
      rcases List.mem_append.1 hb with hb | hb
      · exact H.ran_calls b hb u hu
      · exact absurd (List.mem_singleton.1 hb) hba
  · intro k b v hx
    have hlaw := H.laws k b v (hadds hx)
    by_cases heq : v.active b = t.active a
    · have hab : b = a := (Timer.active_inj.1 heq).1
      subst hab
      -- The timer may have been restarted since it was added; its interval is the same.
      obtain ⟨hinterval, hrepeat⟩ := H.same k b v t (hadds hx) ha heq.symm
      have hstart := H.waiting_added b List.mem_cons_self t k v ha (hadds hx) heq
      rw [← heq] at hself hbefore
      rw [hself]
      refine ⟨?_, ?_, ?_⟩
      · intro c hc
        rcases List.mem_append.1 hc with hc | hc
        · exact hlaw.not_same_batch c hc
        · rw [List.mem_singleton.1 hc]
          exact hstart
      · intro hone
        -- A one-shot timer that waits has never been called.
        have hnone : s.calls (v.active b) = [] := by
          rw [List.eq_nil_iff_forall_not_mem]
          intro c hc
          have hrep := (hbefore c hc).1
          rw [hrepeat, hone] at hrep
          exact absurd hrep (by simp)
        rw [hnone]
        exact le_rfl
      · refine List.pairwise_append.2 ⟨hlaw.spaced, List.pairwise_singleton _ _, ?_⟩
        intro c hc d hd
        rw [List.mem_singleton.1 hd, ← hinterval]
        exact ⟨(hbefore c hc).2.2, (hbefore c hc).2.1⟩
    · rw [hother heq]
      exact hlaw

/-- What is remembered of a timer that was called can be forgotten. -/
theorem dropRan (H : History s now (a :: ran) waiting) : History s now ran waiting :=
  { H with ran_calls := fun b hb => H.ran_calls b (List.mem_cons_of_mem a hb) }

/-- A repeating timer that has been called is put back. -/
theorem putBack (H : History s now (a :: ran) waiting) (hwaiting : a ∉ waiting)
    (ha : s.heap a = some t) (hrepeat : t.repeat_ = true) :
    History ((s.store a (t.restart now)).insert a (t.restart now)).2 now ran waiting := by
  let s' := ((s.store a (t.restart now)).insert a (t.restart now)).2
  have hself : s'.heap a = some (t.restart now) := Function.update_self ..
  have hother {b : Addr} (hba : b ≠ a) : s'.heap b = s.heap b := Function.update_of_ne hba ..
  refine
    { stamps := H.stamps, same := ?_, called_added := H.called_added, queued := ?_
      waiting_calls := ?_, waiting_added := ?_, ran_calls := ?_, laws := H.laws }
  · intro k b v u hx hu heq
    by_cases hba : b = a
    · subst hba
      obtain rfl : t.restart now = u := Option.some.inj (hself.symm.trans hu)
      exact H.same k b v t hx ha heq
    · exact H.same k b v u hx ((hother hba).symm.trans hu) heq
  · intro b u hb hi c hc
    by_cases hba : b = a
    · subst hba
      obtain rfl : t.restart now = u := Option.some.inj (hself.symm.trans hb)
      have hle := (H.ran_calls b List.mem_cons_self t ha).2 c hc
      -- The new expiration counts from the reading of this batch, and no call is later than that.
      rw [Timer.restart_expiration hrepeat]
      exact ⟨hrepeat, Int.add_le_add_right hle _⟩
    · rcases OrderedSet.mem_insert.1 hi with heq | hi
      · exact absurd (Timer.active_inj.1 heq).1 hba
      · exact H.queued b u ((hother hba).symm.trans hb) hi c hc
  · intro b hb u hu
    have hba : b ≠ a := fun h => hwaiting (h ▸ hb)
    exact H.waiting_calls b hb u ((hother hba).symm.trans hu)
  · intro b hb u k v hu
    have hba : b ≠ a := fun h => hwaiting (h ▸ hb)
    exact H.waiting_added b hb u k v ((hother hba).symm.trans hu)
  · intro b hb u hu
    by_cases hba : b = a
    · subst hba
      obtain rfl : t.restart now = u := Option.some.inj (hself.symm.trans hu)
      exact H.ran_calls b List.mem_cons_self t ha
    · exact H.ran_calls b (List.mem_cons_of_mem a hb) u ((hother hba).symm.trans hu)

/-- A `handleRead` takes the expired timers out: none of them has been called by it, and no earlier
    call is less than an interval ago. -/
theorem begun (H : History s now ran waiting) (L : Ledger s []) {now' : Timestamp}
    {expired : List Entry} (hE : Expires (s.begun now') now' expired s') :
    History s' now' [] (addresses expired) := by
  have hheap : s'.heap = s.heap := by rw [hE.rest]; rfl
  have hlog : s'.log = s.log ++ [(s.started + 1, .readTimerfd now')] := by rw [hE.rest]; rfl
  have hstarted : s'.started = s.started + 1 := by rw [hE.rest]; rfl
  have hcalls (i : ActiveTimer) : s'.calls i = s.calls i := by
    unfold calls
    rw [hlog, List.filterMap_append]
    exact List.append_nil _
  have hadded : s'.added = s.added := by
    unfold added
    rw [hlog, List.filterMap_append]
    exact List.append_nil _
  have hadds {k : ℕ} {b : Addr} {v : Timer} (hx : (k, Act.added b v) ∈ s'.log) :
      (k, Act.added b v) ∈ s.log := by
    rw [hlog] at hx
    rcases List.mem_append.1 hx with hx | hx
    · exact hx
    · exact absurd (List.mem_singleton.1 hx) (by simp)
  have hexpired {b : Addr} (hb : b ∈ addresses expired) :
      ∃ u, s.heap b = some u ∧ u.active b ∈ s.activeTimers_ ∧ u.expiration_ ≤ now' := by
    obtain ⟨x, hx, rfl⟩ := List.mem_map.1 hb
    rw [hE.expired_eq, List.mem_filter] at hx
    obtain ⟨hx, hle⟩ := hx
    obtain ⟨b, u, hu, rfl, hi⟩ := L.entries x hx
    exact ⟨u, hu, hi, of_decide_eq_true hle⟩
  refine
    { stamps := ?_, same := ?_, called_added := ?_, queued := ?_, waiting_calls := ?_
      waiting_added := ?_, ran_calls := fun b hb => absurd hb List.not_mem_nil, laws := ?_ }
  · intro x hx
    rw [hlog] at hx
    rw [hstarted]
    rcases List.mem_append.1 hx with hx | hx
    · exact Nat.le_succ_of_le (H.stamps x hx)
    · rw [List.mem_singleton.1 hx]
  · intro k b v u hx hu
    exact H.same k b v u (hadds hx) (hheap ▸ hu)
  · intro i hi
    rw [hcalls]
    exact H.called_added i (hadded ▸ hi)
  · intro b u hb hi
    rw [hcalls]
    exact H.queued b u (hheap ▸ hb) (hE.active_sub _ hi)
  · intro b hb u hu c hc
    obtain ⟨v, hv, hi, hle⟩ := hexpired hb
    rw [hheap, hv, Option.some.injEq] at hu
    subst hu
    rw [hcalls] at hc
    rw [hstarted]
    obtain ⟨hrepeat, hspace⟩ := H.queued b v hv hi c hc
    exact ⟨hrepeat, hspace.trans hle, Nat.lt_succ_of_le (H.call_stamp hc)⟩
  · intro b hb u k v hu hx heq
    rw [hstarted]
    exact Nat.lt_succ_of_le (H.stamps _ (hadds hx))
  · intro k b v hx
    rw [hcalls]
    exact H.laws k b v (hadds hx)

/-- Without a batch no clock matters. -/
theorem idle (H : History s now [] []) (now' : Timestamp) : History s now' [] [] :=
  { H with
    waiting_calls := fun _ hb => absurd hb List.not_mem_nil
    ran_calls := fun _ hb => absurd hb List.not_mem_nil }

/-- The whole batch has been called; `reset` puts back or deletes all of it. -/
theorem run_resetTimer {expired : List Entry} (H : History s now (addresses expired) [])
    (L : Ledger s (addresses expired)) (hrun : Run.run (resetTimer now) s expired = some s') :
    History s' now [] [] := by
  refine inv_run_resetTimer (I := fun u held => History u now held []) ?_ ?_ L H hrun
  · intro u a t held _ Hu ht hrepeat _
    exact Hu.putBack List.not_mem_nil ht hrepeat
  · intro u a t held _ Hu ht _
    exact Hu.dropRan.free

end History

/-! ## Whole runs -/

/-- The history, read at the place where the loop thread is. -/
def Past (s : TimerQueue) : Prop :=
  match s.frame with
  | none => History s 0 [] []
  | some f => History s f.now (addresses (f.expired.take f.ran)) (addresses (f.expired.drop f.ran))

theorem past_of_idle {s : TimerQueue} (h : s.frame = none) : Past s ↔ History s 0 [] [] := by
  unfold Past
  rw [h]

theorem past_of_frame {s : TimerQueue} {f : HandleRead} (h : s.frame = some f) :
    Past s ↔ History s f.now (addresses (f.expired.take f.ran))
      (addresses (f.expired.drop f.ran)) := by
  unfold Past
  rw [h]

/-- While the loop thread stays where it is, the history is read in the same way. -/
theorem exists_past (s : TimerQueue) : ∃ now ran waiting, (∀ b ∈ ran, b ∈ s.batch) ∧
    (∀ b ∈ waiting, b ∈ s.batch) ∧
    ∀ u : TimerQueue, u.frame = s.frame → (Past u ↔ History u now ran waiting) := by
  cases h : s.frame with
  | none =>
      refine ⟨0, [], [], fun b hb => absurd hb List.not_mem_nil,
        fun b hb => absurd hb List.not_mem_nil, fun u hu => past_of_idle hu⟩
  | some f =>
      have hsub {l : List Entry} (hl : ∀ x ∈ l, x ∈ f.expired) : ∀ b ∈ addresses l, b ∈ s.batch := by
        intro b hb
        obtain ⟨x, hx, rfl⟩ := List.mem_map.1 hb
        rw [batch_of_frame h]
        exact List.mem_map_of_mem (hl x hx)
      exact ⟨_, _, _, hsub fun x hx => List.mem_of_mem_take hx,
        hsub fun x hx => List.mem_of_mem_drop hx, fun u hu => past_of_frame hu⟩

/-- The laws for every timer added so far. -/
def Laws (s : TimerQueue) : Prop :=
  ∀ k a t, (k, Act.added a t) ∈ s.log → Lawful (s.calls (t.active a)) k t

theorem Past.laws {s : TimerQueue} (h : Past s) : Laws s := by
  obtain ⟨now, ran, waiting, -, -, hpast⟩ := exists_past s
  exact ((hpast s rfl).1 h).laws

theorem Does.past {s s' : TimerQueue} {e : Event} (G : Good s) (hd : s.destroyed = false)
    (P : Past s) (h : Does s e s') : Past s' := by
  have L := G.ledger hd
  obtain ⟨now, ran, waiting, hran, hwaiting, hpast⟩ := exists_past s
  have H := (hpast s rfl).1 P
  have hkeep {u : TimerQueue} (hu : u.frame = s.frame) (Hu : History u now ran waiting) : Past u :=
    (hpast u hu).2 Hu
  cases h with
  | newTimer when interval others ha hmax =>
      exact hkeep rfl (H.newTimer L hran hwaiting ha when interval others)
  | addFirst hout hmem ha hfirst =>
      exact hkeep rfl ((H.inserted L hwaiting hmem ha).emit rfl fun _ => rfl)
  | add hout hmem ha hfirst => exact hkeep rfl (H.inserted L hwaiting hmem ha)
  | @erase a t hout ha hi =>
      have H₁ : History (s.emit (.cancelled (t.active a))) now ran waiting := H.emit rfl fun _ => rfl
      refine hkeep rfl (History.free ?_)
      exact H₁.mono (fun _ _ h => h) (fun _ h => (OrderedSet.mem_erase.1 h).2) rfl (fun _ => rfl)
        H₁.stamps fun _ _ _ => Iff.rfl
  | @note timerId hout hi =>
      have H₁ : History (s.emit (.cancelled timerId.active)) now ran waiting :=
        H.emit rfl fun _ => rfl
      exact hkeep rfl (H₁.mono (fun _ _ h => h) (fun _ h => h) rfl (fun _ => rfl) H₁.stamps
        fun _ _ _ => Iff.rfl)
  | @handleReadBegin now' expired s₁ hframe hE hL =>
      rw [batch_of_idle hframe] at L
      have H₁ := H.begun L hE
      refine (past_of_frame (f := ⟨now', expired, 0⟩) rfl).2 ?_
      exact H₁.mono (fun _ _ h => h) (fun _ h => h) rfl (fun _ => rfl) H₁.stamps
        fun _ _ _ => Iff.rfl
  | @runNext f x t hframe hx ha =>
      obtain ⟨hlt, hget⟩ := List.getElem?_eq_some_iff.1 hx
      have H₁ := (past_of_frame hframe).1 P
      rw [batch_of_frame hframe] at L
      have hdrop : f.expired.drop f.ran = x :: f.expired.drop (f.ran + 1) := by
        rw [← hget]
        exact List.drop_eq_getElem_cons hlt
      have htake : f.expired.take (f.ran + 1) = f.expired.take f.ran ++ [x] := by
        rw [← hget]
        exact (List.take_append_getElem hlt).symm
      have hmem : (ofLex x).2 ∈ addresses f.expired :=
        List.mem_map_of_mem (hget ▸ List.getElem_mem hlt)
      obtain ⟨u, hu, hnot, hin⟩ := L.held_live _ hmem
      rw [ha, Option.some.injEq] at hu
      subst hu
      have hnodup : (addresses (f.expired.drop f.ran)).Nodup :=
        L.held_nodup.sublist ((List.drop_sublist _ _).map _)
      rw [hdrop] at H₁ hnodup
      have H₂ := History.called H₁ ha hin hnot (List.nodup_cons.1 hnodup).1
      refine (past_of_frame rfl).2 ?_
      show History _ f.now (addresses (f.expired.take (f.ran + 1))) _
      rw [htake, addresses, List.map_append]
      exact H₂.mono (fun _ _ h => h) (fun _ h => h) rfl (fun _ => rfl) H₂.stamps
        fun _ _ _ => Iff.rfl
  | @handleReadEnd f s₁ hframe hran' hrun hL =>
      have H₁ := (past_of_frame hframe).1 P
      rw [batch_of_frame hframe] at L
      rw [hran', List.take_length, List.drop_length] at H₁
      have H₂ : History s.closed f.now (addresses f.expired) [] := H₁.mono (fun _ _ h => h)
        (fun _ h => h) rfl (fun _ => rfl) H₁.stamps fun _ _ _ => Iff.rfl
      have H₃ := (H₂.run_resetTimer { L with } hrun).idle 0
      have hframe₁ : s₁.rearmed.frame = none := by
        rw [rearmed_rest]
        exact (run_resetTimer_rest hrun).2.1
      rw [past_of_idle hframe₁]
      rcases rearmed_cases s₁ with h | ⟨e, h⟩
      · rw [h]
        exact H₃
      · rw [h]
        exact H₃.emit rfl fun _ => rfl
  | @destroy s₁ hframe hrun hL hs₁ =>
      have H₁ : History s₁ now ran waiting := by
        refine Run.inv_run (I := fun u => History u now ran waiting) ?_ H hrun
        intro u x u' hu hstep
        obtain ⟨t, ht, rfl⟩ := Option.map_eq_some_iff.1 hstep
        exact hu.free
      refine hkeep (by rw [hs₁]) ?_
      exact H₁.mono (fun _ _ h => h) (fun _ h => h) rfl (fun _ => rfl) H₁.stamps
        fun _ _ _ => Iff.rfl

/-- The books and the history, until the queue is destroyed; the laws always. -/
structure Told (s : TimerQueue) : Prop where
  good : Good s
  past : s.destroyed = false → Past s
  laws : Laws s

theorem told_new (numCreated : ℤ) : Told (new numCreated) where
  good := good_new numCreated
  past _ :=
    { stamps := fun x hx => absurd hx List.not_mem_nil
      same := fun k a t u hx => absurd hx List.not_mem_nil
      called_added := fun i _ => rfl
      queued := fun a t ha => absurd ha (by simp [new])
      waiting_calls := fun a ha => absurd ha List.not_mem_nil
      waiting_added := fun a ha => absurd ha List.not_mem_nil
      ran_calls := fun a ha => absurd ha List.not_mem_nil
      laws := fun k a t hx => absurd hx List.not_mem_nil }
  laws k a t hx := absurd hx List.not_mem_nil

theorem Told.step {s s' : TimerQueue} {e : Event} (T : Told s)
    (h : TimerQueue.step s e = some s') : Told s' := by
  have G' := T.good.step h
  rcases T.good.step_cases h with ⟨hd, -, hdoes⟩ | ⟨hd, a, when, interval, others, rfl⟩
  · have P' := hdoes.past T.good hd (T.past hd)
    exact ⟨G', fun _ => P', P'.laws⟩
  · exact ⟨G', fun h => absurd (hd.symm.trans h) (by simp), T.laws⟩

theorem Told.run {s s' : TimerQueue} {es : List Event} (T : Told s)
    (h : Run.run TimerQueue.step s es = some s') : Told s' :=
  Run.inv_run (fun _ _ _ T h => Told.step T h) T h

end TimerQueue

end WwjMuduo
