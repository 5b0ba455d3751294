import WwjMuduo.TimerQueue.History

set_option autoImplicit false

/-! # The firing law

One `handleRead` from its first line to its last: whatever its callbacks add and cancel, it calls the
timers that were due when it began, in the order of the set, and the others stay queued unless a
callback cancels them. Together with the laws of the history this says which timers run, and when. -/

namespace WwjMuduo

namespace Act

/-- The call an act makes: the clock of the batch, the address and the timer. -/
def called? : Act → Option (Timestamp × Addr × Timer)
  | .called now a t => some (now, a, t)
  | _ => none

end Act

namespace TimerQueue

/-- The calls so far. -/
def runs (s : TimerQueue) : List (Timestamp × Addr × Timer) := s.log.filterMap fun x => x.2.called?

theorem runs_emit (s : TimerQueue) (act : Act) :
    (s.emit act).runs = s.runs ++ act.called?.toList := by
  unfold runs emit
  rw [List.filterMap_append]
  cases h : act.called? <;> simp [h]

/-- The entries that are due. -/
def due (s : TimerQueue) (now : Timestamp) : List Entry :=
  s.timers_.toList.filter fun x => (ofLex x).1 ≤ now

/-- A timer is among those the acts cancel. -/
def CancelledIn (acts : List (ℕ × Act)) (i : ActiveTimer) : Prop := ∃ k, (k, Act.cancelled i) ∈ acts

/-- A timer is queued, unchanged. -/
def Holds (s : TimerQueue) (a : Addr) (t : Timer) : Prop :=
  s.heap a = some t ∧ t.entry a ∈ s.timers_

/-- What a whole `handleRead` that reads `now` does. -/
structure Fires (s : TimerQueue) (now : Timestamp) (s' : TimerQueue)
    (calls : List (Timestamp × Addr × Timer)) (acts : List (ℕ × Act)) : Prop where
  runs : s'.runs = s.runs ++ calls
  log : s'.log = s.log ++ acts
  exactly : ∀ c, c ∈ calls ↔ c.1 = now ∧ s.Holds c.2.1 c.2.2 ∧ c.2.2.expiration_ ≤ now
  in_order : calls.Pairwise fun c d => c.2.1 ≠ d.2.1 ∧ c.2.2.expiration_ ≤ d.2.2.expiration_
  keeps : ∀ a t, s.Holds a t → now < t.expiration_ →
    (s'.Holds a t ↔ ¬ CancelledIn acts (t.active a))

/-- The calls of the first entries of a batch that began in `s₀`. -/
def callsOf (s₀ : TimerQueue) (now : Timestamp) (l : List Entry) :
    List (Timestamp × Addr × Timer) :=
  l.filterMap fun x => (s₀.heap (ofLex x).2).map fun t => (now, (ofLex x).2, t)

theorem callsOf_append (s₀ : TimerQueue) (now : Timestamp) (l m : List Entry) :
    s₀.callsOf now (l ++ m) = s₀.callsOf now l ++ s₀.callsOf now m :=
  List.filterMap_append ..

/-- What has become of the timers that were not due: the acts have cancelled and deleted them, or they
    stay. -/
def Keeps (s₀ : TimerQueue) (now : Timestamp) (s : TimerQueue) (acts : List (ℕ × Act)) : Prop :=
  ∀ a t, s₀.Holds a t → now < t.expiration_ →
    (CancelledIn acts (t.active a) ∧ t.active a ∈ s.deleted) ∨
      (¬ CancelledIn acts (t.active a) ∧ s.Holds a t)

/-- In the middle of a `handleRead` that began in `s₀`. -/
structure During (s₀ : TimerQueue) (now : Timestamp) (s : TimerQueue) : Prop where
  ledger : Ledger s (addresses (s₀.due now))
  alive : s.destroyed = false
  heap : ∀ a ∈ addresses (s₀.due now), s.heap a = s₀.heap a
  frame : ∃ ran, s.frame = some ⟨now, s₀.due now, ran⟩ ∧
    s.runs = s₀.runs ++ s₀.callsOf now ((s₀.due now).take ran)
  acts : ∃ acts, s.log = s₀.log ++ acts ∧ s₀.Keeps now s acts

section

variable {s₀ s s' : TimerQueue} {now : Timestamp}

/-- What becomes of the queued timers over a step. -/
def Stays (s s' : TimerQueue) (more : List (ℕ × Act)) : Prop :=
  ∀ a t, s.Holds a t → (CancelledIn more (t.active a) ∧ t.active a ∈ s'.deleted) ∨
    (¬ CancelledIn more (t.active a) ∧ s'.Holds a t)

theorem cancelledIn_append {acts more : List (ℕ × Act)} {i : ActiveTimer} :
    CancelledIn (acts ++ more) i ↔ CancelledIn acts i ∨ CancelledIn more i := by
  unfold CancelledIn
  simp only [List.mem_append, exists_or]

theorem deleted_of_log {more : List (ℕ × Act)} (h : s'.log = s.log ++ more) {i : ActiveTimer}
    (hi : i ∈ s.deleted) : i ∈ s'.deleted := by
  unfold deleted
  rw [h, List.filterMap_append]
  exact List.mem_append.2 (.inl hi)

theorem Keeps.append {acts more : List (ℕ × Act)} (h : s₀.Keeps now s acts)
    (hlog : s'.log = s.log ++ more) (hstays : s.Stays s' more) : s₀.Keeps now s' (acts ++ more) := by
  intro a t hx hnow
  rw [cancelledIn_append]
  rcases h a t hx hnow with ⟨hc, hdel⟩ | ⟨hc, hs⟩
  · exact .inl ⟨.inl hc, deleted_of_log hlog hdel⟩
  · rcases hstays a t hs with ⟨hm, hdel⟩ | ⟨hm, hs'⟩
    · exact .inl ⟨.inr hm, hdel⟩
    · exact .inr ⟨not_or.2 ⟨hc, hm⟩, hs'⟩

/-- A step of the callbacks leaves the batch alone. -/
theorem During.congr (D : During s₀ now s) (more : List (ℕ × Act))
    (L : Ledger s' (addresses (s₀.due now)))
    (halive : s'.destroyed = false) (hheap : ∀ a ∈ addresses (s₀.due now), s'.heap a = s.heap a)
    (hframe : s'.frame = s.frame) (hruns : s'.runs = s.runs)
    (hlog : s'.log = s.log ++ more) (hstays : s.Stays s' more) : During s₀ now s' := by
  obtain ⟨ran, hf, hr⟩ := D.frame
  obtain ⟨acts, hl, hk⟩ := D.acts
  refine ⟨L, halive, fun a ha => (hheap a ha).trans (D.heap a ha),
    ⟨ran, hframe.trans hf, hruns.trans hr⟩, acts ++ more, ?_, hk.append hlog hstays⟩
  rw [hlog, hl, List.append_assoc]

theorem During.step {e : Event} (G : Good s) (D : During s₀ now s) (he : e ≠ .handleReadEnd)
    (h : Does s e s') : During s₀ now s' := by
  have G' := h.good G D.alive
  obtain ⟨ran, hframe, hruns⟩ := D.frame
  have hbatch {u : TimerQueue} {r : ℕ} (hu : u.frame = some ⟨now, s₀.due now, r⟩) (Gu : Good u)
      (hd : u.destroyed = false) : Ledger u (addresses (s₀.due now)) := by
    have Lu := Gu.ledger hd
    rwa [batch_of_frame hu] at Lu
  cases h with
  | @newTimer a when interval others ha hmax =>
      have hother {b : Addr} {u : Timer} (hb : s.heap b = some u) :
          (s.newTimer a when interval others).heap b = s.heap b := by
        refine Function.update_of_ne ?_ ..
        rintro rfl
        rw [ha] at hb
        exact absurd hb (by simp)
      refine D.congr [] (hbatch hframe G' D.alive) D.alive (fun b hb => ?_) rfl rfl
        (List.append_nil _).symm fun b u hb =>
          .inr ⟨by simp [CancelledIn], (hother hb.1).trans hb.1, hb.2⟩
      obtain ⟨u, hu, -⟩ := D.ledger.held_live b hb
      exact hother hu
  | @addFirst a t hout hmem ha hfirst =>
      refine D.congr [(s.started, .added a t), (s.started, .resetTimerfd t.expiration_)]
        (hbatch hframe G' D.alive) D.alive (fun _ _ => rfl) rfl ?_ (List.append_assoc ..) fun b u hb =>
          .inr ⟨by simp [CancelledIn], hb.1, OrderedSet.mem_insert.2 (.inr hb.2)⟩
      rw [resetTimerfd, runs_emit]
      exact (List.append_nil _).trans ((runs_emit ..).trans (List.append_nil _))
  | @add a t hout hmem ha hfirst =>
      refine D.congr [(s.started, .added a t)] (hbatch hframe G' D.alive) D.alive (fun _ _ => rfl)
        rfl ?_ rfl fun b u hb =>
          .inr ⟨by simp [CancelledIn], hb.1, OrderedSet.mem_insert.2 (.inr hb.2)⟩
      exact (runs_emit ..).trans (List.append_nil _)
  | @erase a t hout ha hi =>
      -- A callback deletes a queued timer, so none of the batch.
      have hheld := D.ledger.not_mem_held ha hi
      refine D.congr [(s.started, .cancelled (t.active a)), (s.started, .deleted a t)]
        (hbatch hframe G' D.alive) D.alive (fun b hb => ?_) rfl ?_ (List.append_assoc ..)
        fun b u hb => ?_
      · refine Function.update_of_ne ?_ ..
        rintro rfl
        exact hheld hb
      · exact (runs_emit ..).trans ((List.append_nil _).trans
          ((runs_emit ..).trans (List.append_nil _)))
      · by_cases hba : b = a
        · subst hba
          obtain rfl : t = u := Option.some.inj (ha.symm.trans hb.1)
          refine .inl ⟨⟨s.started, by simp⟩, ?_⟩
          rw [show (s.erased b t).deleted = _ from deleted_emit ..]
          exact List.mem_append.2 (.inr List.mem_cons_self)
        · refine .inr ⟨?_, (Function.update_of_ne hba ..).trans hb.1,
            OrderedSet.mem_erase.2 ⟨?_, hb.2⟩⟩
          · simp [CancelledIn, Timer.active_inj, hba]
          · exact fun h => hba (Timer.entry_inj.1 h).2
  | @note timerId hout hi =>
      refine D.congr [(s.started, .cancelled timerId.active)] (hbatch hframe G' D.alive) D.alive
        (fun _ _ => rfl) rfl ?_ rfl fun b u hb => .inr ⟨?_, hb⟩
      · exact (runs_emit ..).trans (List.append_nil _)
      · -- What is queued is not what this cancel names.
        rintro ⟨k, hk⟩
        rw [List.mem_singleton, Prod.mk.injEq, Act.cancelled.injEq] at hk
        exact hi (hk.2 ▸ (D.ledger.entry_mem_iff hb.1).1 hb.2)
  | handleReadBegin hidle hE hL => exact absurd (hframe.symm.trans hidle) (by simp)
  | @runNext f x t hf hx ha =>
      obtain rfl : f = ⟨now, s₀.due now, ran⟩ := Option.some.inj (hf.symm.trans hframe)
      obtain ⟨hlt, hget⟩ := List.getElem?_eq_some_iff.1 hx
      obtain ⟨acts, hl, hk⟩ := D.acts
      have hmem : (ofLex x).2 ∈ addresses (s₀.due now) :=
        List.mem_map_of_mem (hget ▸ List.getElem_mem hlt)
      refine ⟨hbatch rfl G' D.alive, D.alive, D.heap, ⟨ran + 1, rfl, ?_⟩,
        acts ++ [(s.started, .called now (ofLex x).2 t)], ?_,
        hk.append rfl fun b u hb => .inr ⟨by simp [CancelledIn], hb⟩⟩
      · have hcall : s₀.callsOf now [x] = [(now, (ofLex x).2, t)] := by
          unfold callsOf
          rw [List.filterMap_cons, ← D.heap _ hmem, ha]
          rfl
        have htake : (s₀.due now).take (ran + 1) = (s₀.due now).take ran ++ [x] := by
          rw [← hget]
          exact (List.take_append_getElem hlt).symm
        rw [runs_emit]
        show s.runs ++ [(now, (ofLex x).2, t)] = _
        rw [hruns, htake, callsOf_append, hcall, List.append_assoc]
      · show s.log ++ _ = _
        rw [hl, List.append_assoc]
  | handleReadEnd hf hran hrun hL => exact absurd rfl he
  | destroy hidle hrun hL hs' => exact absurd (hframe.symm.trans hidle) (by simp)

/-- Where the batch begins. -/
theorem During.begin {expired : List Entry} (hd : s.destroyed = false)
    (hE : Expires (s.begun now) now expired s') (hL : Ledger s' (addresses expired)) : During s now
      { s' with callingExpiredTimers_ := true, frame := some ⟨now, expired, 0⟩ } := by
  have hheap : s'.heap = s.heap := by rw [hE.rest]; rfl
  have hlog : s'.log = s.log ++ [(s.started + 1, .readTimerfd now)] := by rw [hE.rest]; rfl
  have hdue : s.due now = expired := hE.expired_eq.symm
  refine ⟨?_, ?_, ?_, ⟨0, ?_, ?_⟩, [(s.started + 1, .readTimerfd now)], hlog, ?_⟩
  · rw [hdue]
    exact { hL with }
  · show s'.destroyed = false
    rw [hE.rest]
    exact hd
  · exact fun a _ => congrFun hheap a
  · rw [hdue]
  · show s'.log.filterMap _ = _
    rw [hlog, List.filterMap_append]
    rfl
  · intro a t hx hnow
    exact .inr ⟨by simp [CancelledIn], (congrFun hheap a).trans hx.1,
      (hE.timers_iff _).2 ⟨hx.2, hnow⟩⟩

/-- What `reset` leaves alone. -/
structure Resets (s : TimerQueue) (s' : TimerQueue) : Prop where
  runs : s'.runs = s.runs
  acts : ∃ more, s'.log = s.log ++ more ∧ ∀ i, ¬ CancelledIn more i
  stays : ∀ a t, s.Holds a t → s'.Holds a t

/-- A queued timer is not the one in hand. -/
theorem Ledger.holds_ne {held : List Addr} {a b : Addr} {t : Timer} (L : Ledger s (a :: held))
    (h : s.Holds b t) : b ≠ a := by
  rintro rfl
  exact L.not_mem_held h.1 ((L.entry_mem_iff h.1).1 h.2) List.mem_cons_self

theorem Ledger.resets {expired : List Entry} (L : Ledger s (addresses expired))
    (hrun : Run.run (resetTimer now) s expired = some s') : Resets s s' := by
  refine inv_run_resetTimer (I := fun u _ => Resets s u) ?_ ?_ L
    ⟨rfl, ⟨[], (List.append_nil _).symm, by simp [CancelledIn]⟩, fun a t h => h⟩ hrun
  · intro u a t held Lu Ru ht hrepeat _
    refine ⟨Ru.runs, Ru.acts, fun b v hb => ?_⟩
    have hub := Ru.stays b v hb
    exact ⟨(Function.update_of_ne (Lu.holds_ne hub) ..).trans hub.1,
      OrderedSet.mem_insert.2 (.inr hub.2)⟩
  · intro u a t held Lu Ru ht _
    obtain ⟨more, hmore, hnone⟩ := Ru.acts
    refine ⟨((runs_emit ..).trans (List.append_nil _)).trans Ru.runs,
      ⟨more ++ [(u.started, .deleted a t)], ?_, fun i => ?_⟩, fun b v hb => ?_⟩
    · show u.log ++ _ = _
      rw [hmore, List.append_assoc]
    · rw [cancelledIn_append]
      exact not_or.2 ⟨hnone i, by simp [CancelledIn]⟩
    · have hub := Ru.stays b v hb
      exact ⟨(Function.update_of_ne (Lu.holds_ne hub) ..).trans hub.1, hub.2⟩

/-- The calls of a whole batch are those of the timers that were due. -/
theorem mem_callsOf_due (L : Ledger s []) {c : Timestamp × Addr × Timer} :
    c ∈ s.callsOf now (s.due now) ↔
      c.1 = now ∧ s.Holds c.2.1 c.2.2 ∧ c.2.2.expiration_ ≤ now := by
  unfold callsOf due
  rw [List.mem_filterMap]
  constructor
  · rintro ⟨x, hx, hxc⟩
    obtain ⟨hx, hle⟩ := List.mem_filter.1 hx
    obtain ⟨a, t, ha, rfl, hi⟩ := L.entries x hx
    obtain ⟨u, hu, rfl⟩ := Option.map_eq_some_iff.1 hxc
    obtain rfl : t = u := Option.some.inj (ha.symm.trans hu)
    exact ⟨rfl, ⟨ha, hx⟩, of_decide_eq_true hle⟩
  · obtain ⟨now', a, t⟩ := c
    rintro ⟨rfl, ⟨ha, hx⟩, hle⟩
    refine ⟨t.entry a, List.mem_filter.2 ⟨hx, decide_eq_true hle⟩, ?_⟩
    show (s.heap a).map _ = _
    rw [ha]
    rfl

theorem callsOf_in_order (L : Ledger s []) : (s.callsOf now (s.due now)).Pairwise
    fun c d => c.2.1 ≠ d.2.1 ∧ c.2.2.expiration_ ≤ d.2.2.expiration_ := by
  have hsorted : (s.due now).Pairwise (· < ·) := s.timers_.sorted.sublist List.filter_sublist
  unfold callsOf
  rw [List.pairwise_filterMap]
  refine hsorted.imp_of_mem ?_
  intro x y hx hy hlt c hc d hd
  obtain ⟨a, t, ha, rfl, -⟩ := L.entries x (List.mem_of_mem_filter hx)
  obtain ⟨b, u, hb, rfl, -⟩ := L.entries y (List.mem_of_mem_filter hy)
  obtain ⟨t', ht', rfl⟩ := Option.map_eq_some_iff.1 hc
  obtain ⟨u', hu', rfl⟩ := Option.map_eq_some_iff.1 hd
  obtain rfl : t = t' := Option.some.inj (ha.symm.trans ht')
  obtain rfl : u = u' := Option.some.inj (hb.symm.trans hu')
  have hlex : t.expiration_ < u.expiration_ ∨ t.expiration_ = u.expiration_ ∧ a < b :=
    Prod.Lex.toLex_lt_toLex.1 hlt
  refine ⟨?_, ?_⟩
  · show a ≠ b
    rintro rfl
    obtain rfl : t = u := Option.some.inj (ha.symm.trans hb)
    rcases hlex with h | ⟨-, h⟩
    · exact lt_irrefl _ h
    · exact lt_irrefl _ h
  · rcases hlex with h | ⟨h, -⟩
    · exact h.le
    · exact h.le

/-- A whole `handleRead`, whatever its callbacks do. -/
theorem fires_of_run (G : Good s) {nested : List Event} (hnested : Event.handleReadEnd ∉ nested)
    (hrun : Run.run TimerQueue.step s (.handleReadBegin now :: (nested ++ [.handleReadEnd])) =
      some s') : ∃ calls acts, Fires s now s' calls acts := by
  obtain ⟨s₁, hbegin, hrest⟩ := Run.run_cons_eq_some.1 hrun
  obtain ⟨s₂, hcallbacks, hend⟩ := Run.run_append_eq_some.1 hrest
  rw [Run.run_singleton] at hend
  have hbegan : Ledger s [] ∧ During s now s₁ := by
    rcases G.step_cases hbegin with ⟨hd, -, hdoes⟩ | ⟨hd, -⟩
    · cases hdoes with
      | handleReadBegin hframe hE hL =>
          have L := G.ledger hd
          rw [batch_of_idle hframe] at L
          exact ⟨L, During.begin hd hE hL⟩
    · have he := (Run.restrict_eq_some.1 hbegin).1.2
      exact absurd (he.symm.trans hd) (by simp)
  obtain ⟨L, D₁⟩ := hbegan
  -- The callbacks: any events but the end of this `handleRead`.
  have hduring : Good s₂ ∧ During s now s₂ := by
    refine Run.inv_run_of (I := fun u => Good u ∧ During s now u)
      (A := fun e => e ≠ Event.handleReadEnd) ?_ (fun e he h => hnested (h ▸ he))
      ⟨G.step hbegin, D₁⟩ hcallbacks
    intro u e u' hne ⟨Gu, Du⟩ hu
    rcases Gu.step_cases hu with ⟨-, -, hdoes⟩ | ⟨hd, -⟩
    · exact ⟨Gu.step hu, Du.step Gu hne hdoes⟩
    · exact absurd (Du.alive.symm.trans hd) (by simp)
  obtain ⟨G₂, D₂⟩ := hduring
  obtain ⟨ran, hframe, hruns⟩ := D₂.frame
  obtain ⟨acts, hlog, hkeeps⟩ := D₂.acts
  rcases G₂.step_cases hend with ⟨-, -, hdoes⟩ | ⟨hd, -⟩
  · cases hdoes with
    | @handleReadEnd f s₃ hf hran hreset hL =>
        obtain rfl : f = ⟨now, s.due now, ran⟩ := Option.some.inj (hf.symm.trans hframe)
        obtain rfl : ran = (s.due now).length := hran
        rw [List.take_length] at hruns
        have hclosed : Ledger s₂.closed (addresses (s.due now)) := { D₂.ledger with }
        have R := hclosed.resets hreset
        obtain ⟨more, hmore, hnone⟩ := R.acts
        obtain ⟨last, hlast, hnolast⟩ : ∃ last, s₃.rearmed.log = s₃.log ++ last ∧
            s₃.rearmed.runs = s₃.runs ∧ ∀ i, ¬ CancelledIn last i := by
          rcases rearmed_cases s₃ with h | ⟨e, h⟩
          · rw [h]
            exact ⟨[], (List.append_nil _).symm, rfl, by simp [CancelledIn]⟩
          · rw [h]
            exact ⟨[(s₃.started, .resetTimerfd e)], rfl, (runs_emit ..).trans (List.append_nil _),
              by simp [CancelledIn]⟩
        have hlog' : s₃.rearmed.log = s₂.log ++ (more ++ last) := by
          rw [hlast, hmore, ← List.append_assoc]
          rfl
        have hstays : s₂.Stays s₃.rearmed (more ++ last) := by
          intro a t h
          rw [cancelledIn_append]
          refine .inr ⟨not_or.2 ⟨hnone _, hnolast.2 _⟩, ?_⟩
          rw [rearmed_rest]
          exact R.stays a t h
        have hkept := hkeeps.append hlog' hstays
        have L' := hL.rearmed
        refine ⟨_, acts ++ (more ++ last), ?_, ?_, fun c => mem_callsOf_due L, callsOf_in_order L,
          fun a t hx hnow => ?_⟩
        · exact hnolast.1.trans (R.runs.trans hruns)
        · rw [hlog', hlog, List.append_assoc]
        · rcases hkept a t hx hnow with ⟨hc, hdel⟩ | ⟨hc, hs⟩
          · refine ⟨fun h => absurd rfl ((L'.deleted_dead _ hdel).2 a t h.1), fun h => absurd hc h⟩
          · exact ⟨fun _ => hc, fun _ => hs⟩
  · exact absurd (D₂.alive.symm.trans hd) (by simp)

end

/-- **Firing law.** In every run: a timer added by a callback does not run in the same batch, a
    one-shot timer runs once at most, and a repeating one runs again only in a batch whose reading is
    its interval later; and every whole `handleRead` runs the timers that were due when it began, in
    order, and keeps the others but for those its callbacks cancel. -/
theorem firing_law {numCreated : ℤ} {es : List Event} {s : TimerQueue}
    (hrun : Run.run TimerQueue.step (new numCreated) es = some s) :
    Laws s ∧ ∀ now nested s', Event.handleReadEnd ∉ nested →
      Run.run TimerQueue.step s (.handleReadBegin now :: (nested ++ [.handleReadEnd])) = some s' →
      ∃ calls acts, Fires s now s' calls acts := by
  have T := (told_new numCreated).run hrun
  exact ⟨T.laws, fun now nested s' hnested hrun => fires_of_run T.good hnested hrun⟩

/-- A repeating timer has run once. When it is due again, so is another one, exactly at the reading, and
    a third is not; the first callback adds a timer that is overdue, which has to wait. -/
theorem firing_law_at_equality :
    let events : List Event := [.newTimer 8192 5 .second 0, .addTimerInLoop 8192, .handleReadBegin 5,
      .runNext, .handleReadEnd, .newTimer 4096 1000005 .zero 0, .addTimerInLoop 4096,
      .newTimer 12288 2000000 .zero 0, .addTimerInLoop 12288]
    let nested : List Event := [.runNext, .newTimer 16384 7 .zero 0, .addTimerInLoop 16384, .runNext]
    ∃ s s', Run.run TimerQueue.step (new 0) events = some s ∧
      Run.run TimerQueue.step s (.handleReadBegin 1000005 :: (nested ++ [.handleReadEnd])) = some s' ∧
      Laws s' ∧
      s'.runs.map (fun c => (c.1, c.2.1)) = [(5, 8192), (1000005, 4096), (1000005, 8192)] ∧
      ∃ calls acts, Fires s 1000005 s' calls acts := by
  intro events nested
  refine ⟨_, _, rfl, rfl, ?_, rfl, ?_⟩
  · exact (@firing_law 0 (events ++ .handleReadBegin 1000005 :: (nested ++ [.handleReadEnd])) _ rfl).1
  · exact (@firing_law 0 events _ rfl).2 1000005 nested _ (by simp [nested]) rfl

end TimerQueue

end WwjMuduo
