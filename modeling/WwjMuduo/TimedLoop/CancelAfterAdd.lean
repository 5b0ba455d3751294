import WwjMuduo.Lib.Causal
import WwjMuduo.TimedLoop

set_option autoImplicit false

/-! # A cancel after its add

The functors of other threads run in the order of their pushes, so a cancel that is queued finds its
timer added. The loop thread does not queue: a cancel that it makes runs at once, also while the
`addTimerInLoop` of another thread still waits, and is then dropped. -/

namespace WwjMuduo

namespace TimedLoop

variable {τ : Type*}

/-- What has run, and what waits. -/
def sequence (s : TimedLoop τ) : List TimerFunctor := s.loop.ran ++ s.loop.waiting

/-- A cancel needs the add of its timer. -/
def Needs (f g : TimerFunctor) : Prop := ∃ id, f = .cancelInLoop id ∧ g = .addTimerInLoop id

/-- Every `cancelInLoop` that the loop has executed, it has executed after the `addTimerInLoop` of that
    timer. -/
def CancelsFollowAdds (s : TimedLoop τ) : Prop :=
  ∀ pre timerId post, s.loop.ran = pre ++ .cancelInLoop timerId :: post →
    .addTimerInLoop timerId ∈ pre

/-- The loop thread does not cancel a timer whose `addTimerInLoop` waits. -/
def Settled (s : TimedLoop τ) : TimedEvent τ → Prop
  | .cancel none timerId => .addTimerInLoop timerId ∉ s.loop.waiting
  | _ => True

theorem cancelsFollowAdds_iff {s : TimedLoop τ} :
    s.CancelsFollowAdds ↔ Causal Needs [] s.loop.ran := by
  rw [Causal.iff_forall]
  constructor
  · rintro h pre f post hsplit g ⟨id, rfl, rfl⟩
    exact h pre id post hsplit
  · intro h pre id post hsplit
    exact h pre _ post hsplit _ ⟨id, rfl, rfl⟩

/-- Each timer is added once, those whose ids are out have been handed over, and a `cancelInLoop` that
    waits waits behind its `addTimerInLoop`. -/
structure OrderInv (s : TimedLoop τ) : Prop where
  drained : s.loop.Drained
  causal : Causal Needs [] s.sequence
  once : ∀ id, s.sequence.count (.addTimerInLoop id) ≤ 1
  submitted : ∀ t id, s.adding t = .submitted id → .addTimerInLoop id ∈ s.sequence
  returned : ∀ id ∈ s.returned, .addTimerInLoop id ∈ s.sequence
  made : ∀ t id, s.adding t = .made id →
    .addTimerInLoop id ∉ s.sequence ∧ ∀ u, s.adding u = .made id → u = t
  known : ∀ id, (.addTimerInLoop id ∈ s.sequence ∨ ∃ t, s.adding t = .made id) →
    id.sequence_ ≤ s.timerQueue_.s_numCreated_

theorem orderInv_new (numCreated : ℤ) : OrderInv (new numCreated : TimedLoop τ) where
  drained := Loop.drained_new
  causal := trivial
  once id := Nat.zero_le _
  submitted t id h := by simp [new] at h
  returned id h := by simp [new] at h
  made t id h := by simp [new] at h
  known id h := by simp [new, sequence, Loop.new, Loop.waiting] at h

variable {s s' : TimedLoop τ}

theorem OrderInv.cancelsFollowAdds (I : OrderInv s) : s.CancelsFollowAdds :=
  cancelsFollowAdds_iff.2 I.causal.of_append

/-- An added timer is no longer in the queue of functors. -/
theorem OrderInv.not_waiting (I : OrderInv s) {id : TimerId}
    (h : .addTimerInLoop id ∈ s.loop.ran) : .addTimerInLoop id ∉ s.loop.waiting := by
  intro hwaiting
  have hran := List.count_pos_iff.2 h
  have hwait := List.count_pos_iff.2 hwaiting
  have honce := I.once id
  rw [sequence, List.count_append] at honce
  omega

/-! ## One functor more -/

/-- The sequence with a functor put in, behind what it needs. -/
def Puts (f : TimerFunctor) (fs fs' : List TimerFunctor) : Prop :=
  ∃ l m, fs = l ++ m ∧ fs' = l ++ f :: m ∧ ∀ g, Needs f g → g ∈ l

section Puts

variable {f : TimerFunctor} {fs fs' : List TimerFunctor}

theorem Puts.mem (h : Puts f fs fs') {g : TimerFunctor} : g ∈ fs' ↔ g ∈ fs ∨ g = f := by
  obtain ⟨l, m, rfl, rfl, -⟩ := h
  simp only [List.mem_append, List.mem_cons]
  tauto

theorem Puts.count (h : Puts f fs fs') (g : TimerFunctor) :
    fs'.count g = fs.count g + if f = g then 1 else 0 := by
  obtain ⟨l, m, rfl, rfl, -⟩ := h
  rw [List.count_append, List.count_append, List.count_cons]
  simp only [beq_iff_eq]
  omega

theorem Puts.causal (h : Puts f fs fs') (hc : Causal Needs [] fs) : Causal Needs [] fs' := by
  obtain ⟨l, m, rfl, rfl, hneeds⟩ := h
  exact hc.insert hneeds

end Puts

variable [DecidableEq τ]

/-- A functor of a thread goes to the end of the sequence, or, on the loop thread, to the end of what
    has run. -/
theorem puts_runInLoop {loop : Loop TimerFunctor τ} (D : loop.Drained) {t : Option τ}
    {f : TimerFunctor} (hfree : loop.Free t)
    (hneeds : ∀ g, Needs f g → g ∈ loop.ran ∨ (t ≠ none ∧ g ∈ loop.waiting)) :
    Puts f (loop.ran ++ loop.waiting)
      ((loop.exec (.runInLoop t f)).ran ++ (loop.exec (.runInLoop t f)).waiting) := by
  cases t with
  | none =>
      refine ⟨loop.ran, loop.waiting, rfl, ?_, fun g hg => (hneeds g hg).resolve_right fun h => h.1 rfl⟩
      rw [Loop.ran_runInLoop, D.waiting_exec (e := .runInLoop none f) hfree (by simp)]
      simp [LoopEvent.pushes]
  | some t =>
      refine ⟨loop.ran ++ loop.waiting, [], (List.append_nil _).symm, ?_, fun g hg => ?_⟩
      · exact D.sequence hfree (by simp)
      · exact List.mem_append.2 ((hneeds g hg).imp_right And.right)

omit [DecidableEq τ] in
theorem numCreated_run {q q' : TimerQueue} {f : TimerFunctor} (h : f.run q = some q') :
    q'.s_numCreated_ = q.s_numCreated_ := by
  cases f with
  | addTimerInLoop timer => exact TimerQueue.numCreated_addTimerInLoop h
  | cancelInLoop timerId => exact TimerQueue.numCreated_cancelInLoop h
  | other =>
      obtain rfl := Option.some.inj h
      rfl

/-- The step leaves alone what the threads know of the timers. -/
structure Keeps (s s' : TimedLoop τ) : Prop where
  adding : s'.adding = s.adding
  returned : s'.returned = s.returned
  numCreated : s'.timerQueue_.s_numCreated_ = s.timerQueue_.s_numCreated_

theorem runInLoop_eq_some {t : Option τ} {f : TimerFunctor} (h : s.runInLoop t f = some s') :
    s'.loop = s.loop.exec (.runInLoop t f) ∧ Keeps s s' := by
  unfold runInLoop at h
  dsimp only at h
  split at h
  · obtain ⟨q, hq, rfl⟩ := Option.map_eq_some_iff.1 h
    exact ⟨rfl, rfl, rfl, numCreated_run hq⟩
  · obtain rfl := Option.some.inj h
    exact ⟨rfl, rfl, rfl, rfl⟩

theorem onLoop_eq_some {e : LoopEvent TimerFunctor τ} (h : s.onLoop e = some s') :
    s'.loop = s.loop.exec e ∧ Keeps s s' := by
  unfold onLoop at h
  dsimp only at h
  split at h
  · obtain ⟨q, hq, rfl⟩ := Option.map_eq_some_iff.1 h
    exact ⟨rfl, rfl, rfl, numCreated_run hq⟩
  · obtain rfl := Option.some.inj h
    exact ⟨rfl, rfl, rfl, rfl⟩

omit [DecidableEq τ] in
/-- With the same sequence, or one more functor that adds no timer. -/
theorem OrderInv.congr (I : OrderInv s) (hk : Keeps s s') (D : s'.loop.Drained)
    (hseq : s'.sequence = s.sequence ∨
      ∃ f, Puts f s.sequence s'.sequence ∧ ∀ id, f ≠ .addTimerInLoop id) : OrderInv s' := by
  obtain ⟨hadding, hreturned, hnum⟩ := hk
  have hadd : ∀ id, .addTimerInLoop id ∈ s'.sequence ↔ .addTimerInLoop id ∈ s.sequence := by
    intro id
    rcases hseq with h | ⟨f, hf, hne⟩
    · rw [h]
    · rw [hf.mem]
      exact or_iff_left (hne id).symm
  refine ⟨D, ?_, fun id => ?_, fun t id h => ?_, fun id h => ?_, fun t id h => ?_, fun id h => ?_⟩
  · rcases hseq with h | ⟨f, hf, -⟩
    · rw [h]
      exact I.causal
    · exact hf.causal I.causal
  · rcases hseq with h | ⟨f, hf, hne⟩
    · rw [h]
      exact I.once id
    · rw [hf.count, if_neg (hne id), Nat.add_zero]
      exact I.once id
  · rw [hadding] at h
    exact (hadd id).2 (I.submitted t id h)
  · rw [hreturned] at h
    exact (hadd id).2 (I.returned id h)
  · rw [hadding] at h
    rw [hadd, hadding]
    exact I.made t id h
  · rw [hadd, hadding] at h
    rw [hnum]
    exact I.known id h

/-! ## The steps of a thread -/

theorem setAdding_eq {t u : Option τ} {a b : Adding} (h : (s.setAdding t a).adding u = b) :
    (u = t ∧ a = b) ∨ (u ≠ t ∧ s.adding u = b) := by
  by_cases hut : u = t
  · subst hut
    have hself : (s.setAdding u a).adding u = a := Function.update_self ..
    exact .inl ⟨rfl, hself.symm.trans h⟩
  · have hother : (s.setAdding t a).adding u = s.adding u := Function.update_of_ne hut ..
    exact .inr ⟨hut, hother.symm.trans h⟩

/-- `new Timer` draws a number that no timer has. -/
theorem OrderInv.newTimer (I : OrderInv s) (t : Option τ) (a : Addr) (when : Timestamp)
    (interval : Interval) (others : ℕ) (h : s.exec (.newTimer t a when interval others) = some s') :
    OrderInv s' := by
  obtain rfl := Option.some.inj h
  let timer : TimerId := ⟨a, s.timerQueue_.s_numCreated_ + others + 1⟩
  have hfresh : ¬ (timer.sequence_ ≤ s.timerQueue_.s_numCreated_) := by
    show ¬ (s.timerQueue_.s_numCreated_ + others + 1 ≤ s.timerQueue_.s_numCreated_)
    omega
  refine ⟨I.drained, I.causal, I.once, fun u id h => ?_, I.returned, fun u id h => ?_,
    fun id h => ?_⟩
  · rcases setAdding_eq h with ⟨-, h⟩ | ⟨-, h⟩
    · exact absurd h (by simp)
    · exact I.submitted u id h
  · rcases setAdding_eq h with ⟨hut, h⟩ | ⟨hut, h⟩
    · obtain rfl : timer = id := Adding.made.inj h
      refine ⟨fun hmem => hfresh (I.known timer (.inl hmem)), fun v hv => ?_⟩
      rcases setAdding_eq hv with ⟨hvt, -⟩ | ⟨-, hv⟩
      · rw [hvt, hut]
      · exact absurd (I.known timer (.inr ⟨v, hv⟩)) hfresh
    · refine ⟨(I.made u id h).1, fun v hv => ?_⟩
      rcases setAdding_eq hv with ⟨-, hv⟩ | ⟨-, hv⟩
      · obtain rfl : timer = id := Adding.made.inj hv
        exact absurd (I.known timer (.inr ⟨u, h⟩)) hfresh
      · exact (I.made u id h).2 v hv
  · show id.sequence_ ≤ s.timerQueue_.s_numCreated_ + others + 1
    rcases h with h | ⟨u, h⟩
    · have hle := I.known id (.inl h)
      omega
    · rcases setAdding_eq h with ⟨-, h⟩ | ⟨-, h⟩
      · obtain rfl : timer = id := Adding.made.inj h
        exact le_refl _
      · have hle := I.known id (.inr ⟨u, h⟩)
        omega

/-- `runInLoop(addTimerInLoop)`: the timer of the thread, and only that, is added. -/
theorem OrderInv.addTimer (I : OrderInv s) {t : Option τ} (hfree : s.loop.Free t)
    (h : s.exec (.addTimer t) = some s') : OrderInv s' := by
  cases hadding : s.adding t with
  | no => simp [exec, hadding] at h
  | submitted id => simp [exec, hadding] at h
  | made timer =>
      simp only [exec, hadding] at h
      obtain ⟨s₁, hrun, rfl⟩ := Option.map_eq_some_iff.1 h
      obtain ⟨hloop, hk⟩ := runInLoop_eq_some hrun
      have hputs : Puts (.addTimerInLoop timer) s.sequence s₁.sequence := by
        unfold sequence
        rw [hloop]
        exact puts_runInLoop I.drained hfree fun g ⟨id, hid, _⟩ => absurd hid (by simp)
      have D : s₁.loop.Drained := by
        rw [hloop]
        exact I.drained.step (e := .runInLoop t (.addTimerInLoop timer))
          (Loop.step_eq_some.2 ⟨hfree, rfl⟩)
      obtain ⟨hnew, honly⟩ := I.made t timer hadding
      refine ⟨D, hputs.causal I.causal, fun id => ?_, fun u id h => ?_, fun id h => ?_,
        fun u id h => ?_, fun id h => ?_⟩
      · show s₁.sequence.count (.addTimerInLoop id) ≤ 1
        rw [hputs.count]
        split
        · next heq =>
            rw [← heq, List.count_eq_zero.2 hnew]
        · exact I.once id
      · refine hputs.mem.2 ?_
        rcases setAdding_eq h with ⟨-, h⟩ | ⟨-, h⟩
        · exact .inr (by rw [Adding.submitted.inj h])
        · rw [hk.adding] at h
          exact .inl (I.submitted u id h)
      · have h : id ∈ s₁.returned := h
        rw [hk.returned] at h
        exact hputs.mem.2 (.inl (I.returned id h))
      · rcases setAdding_eq h with ⟨-, h⟩ | ⟨hut, h⟩
        · exact absurd h (by simp)
        · rw [hk.adding] at h
          refine ⟨fun hmem => ?_, fun v hv => ?_⟩
          · rcases hputs.mem.1 hmem with hmem | hmem
            · exact (I.made u id h).1 hmem
            · rw [TimerFunctor.addTimerInLoop.inj hmem] at h
              exact hut (honly u h)
          · rcases setAdding_eq hv with ⟨-, hv⟩ | ⟨-, hv⟩
            · exact absurd hv (by simp)
            · rw [hk.adding] at hv
              exact (I.made u id h).2 v hv
      · show id.sequence_ ≤ s₁.timerQueue_.s_numCreated_
        rw [hk.numCreated]
        rcases h with h | ⟨u, h⟩
        · rcases hputs.mem.1 h with h | h
          · exact I.known id (.inl h)
          · obtain rfl := TimerFunctor.addTimerInLoop.inj h
            exact I.known id (.inr ⟨t, hadding⟩)
        · rcases setAdding_eq h with ⟨-, h⟩ | ⟨-, h⟩
          · exact absurd h (by simp)
          · rw [hk.adding] at h
            exact I.known id (.inr ⟨u, h⟩)

/-- The id goes out when its add has been handed over. -/
theorem OrderInv.returnId (I : OrderInv s) {t : Option τ} (h : s.exec (.returned t) = some s') :
    OrderInv s' := by
  cases hadding : s.adding t with
  | no => simp [exec, hadding] at h
  | made id => simp [exec, hadding] at h
  | submitted timer =>
      simp only [exec, hadding] at h
      split at h
      · obtain rfl := Option.some.inj h
        refine ⟨I.drained, I.causal, I.once, fun u id h => ?_, fun id h => ?_, fun u id h => ?_,
          fun id h => ?_⟩
        · rcases setAdding_eq h with ⟨-, h⟩ | ⟨-, h⟩
          · exact absurd h (by simp)
          · exact I.submitted u id h
        · rcases List.mem_append.1 h with h | h
          · exact I.returned id h
          · rw [List.mem_singleton.1 h]
            exact I.submitted t timer hadding
        · rcases setAdding_eq h with ⟨-, h⟩ | ⟨-, h⟩
          · exact absurd h (by simp)
          · refine ⟨(I.made u id h).1, fun v hv => ?_⟩
            rcases setAdding_eq hv with ⟨-, hv⟩ | ⟨-, hv⟩
            · exact absurd hv (by simp)
            · exact (I.made u id h).2 v hv
        · rcases h with h | ⟨u, h⟩
          · exact I.known id (.inl h)
          · rcases setAdding_eq h with ⟨-, h⟩ | ⟨-, h⟩
            · exact absurd h (by simp)
            · exact I.known id (.inr ⟨u, h⟩)
      · exact absurd h (by simp)

/-- A cancel is queued behind the add of its timer. At once, it comes behind if the timer is added. -/
theorem OrderInv.cancel (I : OrderInv s) {t : Option τ} {id : TimerId} (hfree : s.loop.Free t)
    (hid : id ∈ s.returned) (hadded : t = none → .addTimerInLoop id ∈ s.loop.ran)
    (h : s.exec (.cancel t id) = some s') : OrderInv s' := by
  obtain ⟨hloop, hk⟩ := runInLoop_eq_some h
  have hneeds : ∀ g, Needs (.cancelInLoop id) g → g ∈ s.loop.ran ∨ (t ≠ none ∧ g ∈ s.loop.waiting) := by
    rintro g ⟨id', hid', rfl⟩
    obtain rfl := TimerFunctor.cancelInLoop.inj hid'
    by_cases ht : t = none
    · exact .inl (hadded ht)
    · exact (List.mem_append.1 (I.returned id hid)).imp_right fun hw => ⟨ht, hw⟩
  have hputs : Puts (.cancelInLoop id) s.sequence s'.sequence := by
    unfold sequence
    rw [hloop]
    exact puts_runInLoop I.drained hfree hneeds
  have D : s'.loop.Drained := by
    rw [hloop]
    exact I.drained.step (e := .runInLoop t (.cancelInLoop id)) (Loop.step_eq_some.2 ⟨hfree, rfl⟩)
  exact I.congr hk D (.inr ⟨_, hputs, fun _ => by simp⟩)

/-- The other steps of the loop neither add nor cancel. -/
theorem OrderInv.on (I : OrderInv s) {e : LoopEvent TimerFunctor τ} (hadmits : s.Admits e)
    (he : s.loop.Enabled e) (h : s.exec (.on e) = some s') : OrderInv s' := by
  obtain ⟨hloop, hk⟩ := onLoop_eq_some h
  have D : s'.loop.Drained := by
    rw [hloop]
    exact I.drained.step (Loop.step_eq_some.2 ⟨he, rfl⟩)
  have hneeds : ∀ (l : List TimerFunctor) g, Needs .other g → g ∈ l :=
    fun l g ⟨id, hid, _⟩ => absurd hid (by simp)
  refine I.congr hk D ?_
  unfold sequence
  rw [hloop]
  cases e with
  | queueInLoop t f =>
      obtain ⟨rfl, -⟩ := hadmits
      have hseq := I.drained.sequence he (by simp)
      refine .inr ⟨.other, ⟨s.sequence, [], (List.append_nil _).symm, hseq, hneeds _⟩, by simp⟩
  | runInLoop t f =>
      obtain ⟨rfl, -⟩ := hadmits
      exact .inr ⟨.other, puts_runInLoop I.drained he fun g hg => .inl (hneeds _ g hg), by simp⟩
  | _ =>
      have hseq := I.drained.sequence he (by simp)
      exact .inl (hseq.trans (List.append_nil _))

/-! ## Runs -/

/-- **One step keeps the order, if what the loop thread cancels has been added.** -/
theorem OrderInv.step (I : OrderInv s) {e : TimedEvent τ} (hC : s.Settled e)
    (h : TimedLoop.step s e = some s') : OrderInv s' := by
  obtain ⟨he, h⟩ := Run.restrict_eq_some.1 h
  have hqueue : ∀ q : TimerQueue, q.s_numCreated_ = s.timerQueue_.s_numCreated_ →
      OrderInv (s.withQueue q) := fun q hq => I.congr ⟨rfl, rfl, hq⟩ I.drained (.inl rfl)
  cases e with
  | newTimer t a when interval others => exact I.newTimer t a when interval others h
  | addTimer t => exact I.addTimer he h
  | returned t => exact I.returnId h
  | cancel t id =>
      refine I.cancel he.1.2.1 he.2 (fun ht => ?_) h
      subst ht
      exact (List.mem_append.1 (I.returned id he.2)).resolve_right hC
  | on e => exact I.on he.1 he.2 h
  | handleReadBegin now =>
      obtain ⟨q, hq, rfl⟩ := Option.map_eq_some_iff.1 h
      exact hqueue q (TimerQueue.numCreated_handleReadBegin hq)
  | runNext =>
      obtain ⟨q, hq, rfl⟩ := Option.map_eq_some_iff.1 h
      exact hqueue q (TimerQueue.numCreated_runNext hq)
  | handleReadEnd =>
      obtain ⟨q, hq, rfl⟩ := Option.map_eq_some_iff.1 h
      exact hqueue q (TimerQueue.numCreated_handleReadEnd hq)

/-- A step breaks the order exactly if it is a cancel of the loop thread that finds the add waiting. -/
theorem cancelsFollowAdds_step_iff (I : OrderInv s) {e : TimedEvent τ}
    (h : TimedLoop.step s e = some s') : s'.CancelsFollowAdds ↔ s.Settled e := by
  constructor
  · intro hP
    cases e with
    | cancel t id =>
        cases t with
        | some t => trivial
        | none =>
            obtain ⟨-, hexec⟩ := Run.restrict_eq_some.1 h
            obtain ⟨hloop, -⟩ := runInLoop_eq_some (t := none) (f := .cancelInLoop id) hexec
            have hran : s'.loop.ran = s.loop.ran ++ .cancelInLoop id :: [] := by
              rw [hloop]
              exact Loop.ran_runInLoop ..
            exact I.not_waiting (hP s.loop.ran id [] hran)
    | _ => trivial
  · exact fun hC => (I.step hC h).cancelsFollowAdds

/-- **A cancel after its add.** In every state of a run each `cancelInLoop` that has been executed came
    after the `addTimerInLoop` of its timer, exactly if the loop thread never calls `cancel` while the
    `addTimerInLoop` of that timer waits to be called. -/
theorem cancel_follows_add_iff (numCreated : ℤ) (events : List (TimedEvent τ)) :
    Run.Along step CancelsFollowAdds (new numCreated : TimedLoop τ) events ↔
      Run.Meets step Settled (new numCreated : TimedLoop τ) events := by
  have hnew : OrderInv (new numCreated : TimedLoop τ) := orderInv_new numCreated
  rw [Run.along_iff_meets (I := OrderInv)
    (fun _ _ _ I _ h hP => I.step ((cancelsFollowAdds_step_iff I h).1 hP) h)
    (fun _ _ _ I _ h => cancelsFollowAdds_step_iff I h) hnew]
  exact and_iff_right hnew.cancelsFollowAdds

/-- A thread adds a timer and gets its id; the handler of a channel behind the wakeup channel cancels it
    at once; then the timer is added. -/
theorem cancel_overtakes_add :
    ∃ s, Run.run step (new 0 : TimedLoop Unit)
      [.on .loop, .on .clearQuit, .on .test, .newTimer (some ()) 4096 10 .zero 0, .addTimer (some ()),
        .on (.finish (some ())), .returned (some ()), .on (.poll true), .on .handleRead,
        .cancel none ⟨4096, 1⟩, .on .doPendingFunctors, .on .swap, .on .call] = some s ∧
      s.loop.ran = [.cancelInLoop ⟨4096, 1⟩, .addTimerInLoop ⟨4096, 1⟩] ∧
      TimerId.active ⟨4096, 1⟩ ∈ s.timerQueue_.activeTimers_ ∧ ¬s.CancelsFollowAdds := by
  refine ⟨_, rfl, rfl, List.mem_singleton.2 rfl, fun h => ?_⟩
  exact absurd (h [] ⟨4096, 1⟩ _ rfl) (by simp)

end TimedLoop

end WwjMuduo
