import WwjMuduo.TimerQueue.Arming
import WwjMuduo.TimerQueue.Cancel

set_option autoImplicit false

/-! # The effects of a step

What one step of the queue does to the timerfd, where the timers that live after it come from, and
what it writes in the log. -/

namespace WwjMuduo

/-! ## The timerfd -/

namespace Act

/-- The act leaves the timerfd alone. -/
def Silent : Act → Prop
  | .resetTimerfd _ => False
  | .readTimerfd _ => False
  | _ => True

theorem Silent.arms {act : Act} (h : act.Silent) (armed : Option Timestamp) :
    act.arms armed = armed := by
  cases act with
  | resetTimerfd expiration => exact h.elim
  | readTimerfd now => exact h.elim
  | _ => rfl

/-- A list of acts that leave the timerfd alone. -/
def AllSilent (acts : List Act) : Prop := ∀ act ∈ acts, act.Silent

theorem AllSilent.nil : AllSilent [] := fun _ h => absurd h List.not_mem_nil

theorem AllSilent.concat {acts : List Act} {act : Act} (hacts : AllSilent acts) (hact : act.Silent) :
    AllSilent (acts ++ [act]) := by
  intro b hb
  rcases List.mem_append.1 hb with hb | hb
  · exact hacts b hb
  · rw [List.mem_singleton.1 hb]
    exact hact

theorem AllSilent.foldl_arms {acts : List Act} (h : AllSilent acts) (armed : Option Timestamp) :
    acts.foldl (fun o act => act.arms o) armed = armed := by
  induction acts with
  | nil => rfl
  | cons act acts ih =>
      rw [List.foldl_cons, (h act List.mem_cons_self).arms]
      exact ih fun b hb => h b (List.mem_cons_of_mem act hb)

end Act

namespace TimerQueue

/-- No `handleRead` has begun in between. -/
structure Same (s s' : TimerQueue) : Prop where
  started : s'.started = s.started
  frame : ∀ f ∈ s'.frame, ∃ f₀ ∈ s.frame, f₀.now = f.now

theorem Same.of_eq {s s' : TimerQueue} (hstarted : s'.started = s.started)
    (hframe : s'.frame = s.frame) : Same s s' :=
  ⟨hstarted, fun f hf => ⟨f, hframe ▸ hf, rfl⟩⟩

/-- What a step does to the timerfd: nothing, or it begins a `handleRead` and reads it, or it sets it
    to the expiration of a timer that lives. -/
inductive Touches (s : TimerQueue) (e : Event) (s' : TimerQueue) : List Act → Prop where
  | nothing {acts : List Act} (hacts : Act.AllSilent acts) (hsame : Same s s') : Touches s e s' acts
  | read {now : Timestamp} {expired : List Entry} (he : e = .handleReadBegin now)
      (hstarted : s'.started = s.started + 1) (hframe : s'.frame = some ⟨now, expired, 0⟩) :
      Touches s e s' [.readTimerfd now]
  | set {acts : List Act} {a : Addr} {t : Timer} (hacts : Act.AllSilent acts) (hsame : Same s s')
      (ha : s'.heap a = some t) : Touches s e s' (acts ++ [.resetTimerfd t.expiration_])

/-- The acts that the log of a state has more than that of another. -/
def Extends (s s' : TimerQueue) (acts : List Act) : Prop :=
  ∃ more, s'.log = s.log ++ more ∧ more.map Prod.snd = acts

theorem Extends.refl (s : TimerQueue) : Extends s s [] := ⟨[], (List.append_nil _).symm, rfl⟩

theorem Extends.emit {s s' : TimerQueue} {acts : List Act} (h : Extends s s' acts) (act : Act) :
    Extends s (s'.emit act) (acts ++ [act]) := by
  obtain ⟨more, hlog, rfl⟩ := h
  refine ⟨more ++ [(s'.started, act)], ?_, List.map_append ..⟩
  show s'.log ++ [_] = _
  rw [hlog, List.append_assoc]

theorem Extends.acts_eq {s s' : TimerQueue} {acts : List Act} (h : Extends s s' acts) :
    (s'.log.drop s.log.length).map Prod.snd = acts := by
  obtain ⟨more, hlog, rfl⟩ := h
  rw [hlog, List.drop_left]

theorem Extends.armed_eq {s s' : TimerQueue} {acts : List Act} (h : Extends s s' acts) :
    s'.armed = acts.foldl (fun o act => act.arms o) s.armed := by
  obtain ⟨more, hlog, rfl⟩ := h
  unfold armed
  rw [hlog, List.foldl_append, List.foldl_map]

/-- The loop of `reset` deletes, and that is all the log has of it. -/
theorem extends_run_resetTimer {s s' : TimerQueue} {now : Timestamp} {expired : List Entry}
    (hrun : Run.run (resetTimer now) s expired = some s') :
    ∃ acts, Extends s s' acts ∧ Act.AllSilent acts := by
  refine Run.inv_run (I := fun u => ∃ acts, Extends s u acts ∧ Act.AllSilent acts) ?_
    ⟨[], .refl s, .nil⟩ hrun
  rintro u x u' ⟨acts, hext, hsilent⟩ hstep
  obtain ⟨t, ht, -⟩ := Option.map_eq_some_iff.1 hstep
  rw [resetTimer_eq ht, Option.some.injEq] at hstep
  rw [← hstep]
  split_ifs with h
  · exact ⟨acts, hext, hsilent⟩
  · exact ⟨_, hext.emit (.deleted (ofLex x).2 t), hsilent.concat trivial⟩

/-- So does the loop of the destructor. -/
theorem extends_run_deleteTimer {s s' : TimerQueue} {l : List Entry}
    (hrun : Run.run deleteTimer s l = some s') :
    ∃ acts, Extends s s' acts ∧ Act.AllSilent acts := by
  refine Run.inv_run (I := fun u => ∃ acts, Extends s u acts ∧ Act.AllSilent acts) ?_
    ⟨[], .refl s, .nil⟩ hrun
  rintro u x u' ⟨acts, hext, hsilent⟩ hstep
  obtain ⟨t, ht, rfl⟩ := Option.map_eq_some_iff.1 hstep
  exact ⟨_, hext.emit (.deleted (ofLex x).2 t), hsilent.concat trivial⟩

/-- **The timerfd, step by step.** -/
theorem Does.touches {s s' : TimerQueue} {e : Event} (h : Does s e s') :
    ∃ acts, Extends s s' acts ∧ Touches s e s' acts := by
  have hone {act : Act} (hact : act.Silent) : Act.AllSilent [act] := Act.AllSilent.nil.concat hact
  cases h with
  | newTimer => exact ⟨[], .refl s, .nothing .nil (.of_eq rfl rfl)⟩
  | @addFirst a t hout hmem ha hfirst =>
      refine ⟨_, ((Extends.refl s).emit (.added a t)).emit (.resetTimerfd t.expiration_), ?_⟩
      exact .set (hone (show Act.Silent (.added a t) from trivial)) (.of_eq rfl rfl) ha
  | @add a t hout hmem ha hfirst =>
      exact ⟨_, (Extends.refl s).emit (.added a t), .nothing (hone trivial) (.of_eq rfl rfl)⟩
  | @erase a t hout ha hi =>
      refine ⟨_, ((Extends.refl s).emit (.cancelled (t.active a))).emit (.deleted a t), ?_⟩
      have hcancelled := hone (show Act.Silent (.cancelled (t.active a)) from trivial)
      exact .nothing (hcancelled.concat trivial) (.of_eq rfl rfl)
  | @note timerId hout hi =>
      exact ⟨_, (Extends.refl s).emit (.cancelled timerId.active),
        .nothing (hone trivial) (.of_eq rfl rfl)⟩
  | @handleReadBegin now expired s₁ hframe hE hL =>
      have hstarted : s₁.started = s.started + 1 := by rw [hE.rest]; rfl
      refine ⟨_, ⟨[(s.started + 1, .readTimerfd now)], ?_, rfl⟩, .read rfl hstarted rfl⟩
      show s₁.log = _
      rw [hE.rest]
      rfl
  | @runNext f x t hframe hx ha =>
      refine ⟨_, (Extends.refl s).emit (.called f.now (ofLex x).2 t), .nothing (hone trivial) ?_⟩
      refine ⟨rfl, fun g hg => ⟨f, hframe, ?_⟩⟩
      rw [← Option.some.inj hg]
  | @handleReadEnd f s₁ hframe hran hrun hL =>
      obtain ⟨acts, hclosed, hsilent⟩ := extends_run_resetTimer hrun
      have hext : Extends s s₁ acts := hclosed
      obtain ⟨-, hframe₁, -, hstarted₁, -⟩ := run_resetTimer_rest hrun
      have hsame {u : TimerQueue} (hstarted : u.started = s₁.started) (hu : u.frame = s₁.frame) :
          Same s u := by
        refine ⟨hstarted.trans hstarted₁, fun g hg => ?_⟩
        rw [hu, hframe₁] at hg
        exact absurd hg (by simp [closed])
      unfold rearmed
      cases hfirst : s₁.timers_.begin? with
      | none => exact ⟨acts, hext, .nothing hsilent (hsame rfl rfl)⟩
      | some first =>
          obtain ⟨a, t, ha, rfl, -⟩ := hL.entries first (OrderedSet.begin?_eq_some hfirst).1
          simp only
          split_ifs
          · exact ⟨_, hext.emit (.resetTimerfd t.expiration_), .set hsilent (hsame rfl rfl) ha⟩
          · exact ⟨acts, hext, .nothing hsilent (hsame rfl rfl)⟩
  | @destroy s₁ hframe hrun hL hs₁ =>
      obtain ⟨acts, hext, hsilent⟩ := extends_run_deleteTimer hrun
      exact ⟨acts, hext, .nothing hsilent (.of_eq (by rw [hs₁]) (by rw [hs₁]))⟩

/-- Whatever the state, also of a queue that has been destroyed. -/
theorem Good.touches {s s' : TimerQueue} {e : Event} (G : Good s)
    (h : TimerQueue.step s e = some s') :
    ∃ acts, Extends s s' acts ∧ Touches s e s' acts := by
  rcases G.step_cases h with ⟨-, -, hdoes⟩ | ⟨-, a, when, interval, others, rfl⟩
  · exact hdoes.touches
  · exact ⟨[], .refl s, .nothing .nil (.of_eq rfl rfl)⟩

/-! ## The timers -/

/-- The timers `reset` leaves behind: as they were, or restarted. -/
theorem heap_run_resetTimer {s s' : TimerQueue} {now : Timestamp} {expired : List Entry}
    (L : Ledger s (addresses expired)) (hrun : Run.run (resetTimer now) s expired = some s')
    {a : Addr} {u : Timer} (hu : s'.heap a = some u) :
    ∃ t, s.heap a = some t ∧
      (u = t ∨ a ∈ addresses expired ∧ t.repeat_ = true ∧ u = t.restart now) := by
  let Known (v : TimerQueue) (held : List Addr) : Prop :=
    (∀ b ∈ held, v.heap b = s.heap b) ∧ (∀ b ∈ held, b ∈ addresses expired) ∧
      ∀ b w, v.heap b = some w → ∃ t, s.heap b = some t ∧
        (w = t ∨ b ∈ addresses expired ∧ t.repeat_ = true ∧ w = t.restart now)
  have hI : Known s' [] := by
    refine inv_run_resetTimer (I := Known) ?_ ?_ L
      ⟨fun _ _ => rfl, fun _ hb => hb, fun b w hw => ⟨w, hw, .inl rfl⟩⟩ hrun
    · rintro v b t held Lv ⟨hsame, hheld, hall⟩ ht hrepeat -
      have hnodup := (List.nodup_cons.1 Lv.held_nodup).1
      have ht₀ := (hsame b List.mem_cons_self).symm.trans ht
      refine ⟨fun c hc => ?_, fun c hc => hheld c (List.mem_cons_of_mem b hc), fun c w hw => ?_⟩
      · have hne : c ≠ b := fun h => hnodup (h ▸ hc)
        exact (Function.update_of_ne hne ..).trans (hsame c (List.mem_cons_of_mem b hc))
      · by_cases hcb : c = b
        · subst hcb
          have hself : (v.store c (t.restart now)).heap c = some (t.restart now) :=
            Function.update_self ..
          obtain rfl := Option.some.inj (hself.symm.trans hw)
          exact ⟨t, ht₀, .inr ⟨hheld c List.mem_cons_self, hrepeat, rfl⟩⟩
        · exact hall c w ((Function.update_of_ne hcb ..).symm.trans hw)
    · rintro v b t held Lv ⟨hsame, hheld, hall⟩ ht -
      have hnodup := (List.nodup_cons.1 Lv.held_nodup).1
      refine ⟨fun c hc => ?_, fun c hc => hheld c (List.mem_cons_of_mem b hc), fun c w hw => ?_⟩
      · have hne : c ≠ b := fun h => hnodup (h ▸ hc)
        exact (Function.update_of_ne hne ..).trans (hsame c (List.mem_cons_of_mem b hc))
      · by_cases hcb : c = b
        · subst hcb
          exact absurd ((Function.update_self ..).symm.trans hw) (by simp)
        · exact hall c w ((Function.update_of_ne hcb ..).symm.trans hw)
  exact hI.2.2 a u hu

/-- Where a timer that lives after a step comes from. -/
inductive Origin (s : TimerQueue) (a : Addr) (u : Timer) : Event → Prop where
  | kept {e : Event} (ha : s.heap a = some u) : Origin s a u e
  | made {when : Timestamp} {interval : Interval} {others : ℕ} (ha : s.heap a = none)
      (hu : u = Timer.new when interval (s.s_numCreated_ + others + 1)) :
      Origin s a u (.newTimer a when interval others)
  | restarted {f : HandleRead} {t : Timer} (hframe : s.frame = some f)
      (hbatch : a ∈ addresses f.expired) (ha : s.heap a = some t) (hrepeat : t.repeat_ = true)
      (hu : u = t.restart f.now) : Origin s a u .handleReadEnd

theorem origin_newTimer {s : TimerQueue} {a b : Addr} {u : Timer} {when : Timestamp}
    {interval : Interval} {others : ℕ} (ha : s.heap a = none)
    (hu : (s.newTimer a when interval others).heap b = some u) :
    Origin s b u (.newTimer a when interval others) := by
  by_cases hba : b = a
  · subst hba
    have hself : (s.newTimer b when interval others).heap b =
        some (Timer.new when interval (s.s_numCreated_ + others + 1)) := Function.update_self ..
    exact .made ha (Option.some.inj (hself.symm.trans hu)).symm
  · exact .kept ((Function.update_of_ne hba ..).symm.trans hu)

theorem Does.origin {s s' : TimerQueue} {e : Event} (G : Good s) (hd : s.destroyed = false)
    (h : Does s e s') {a : Addr} {u : Timer} (hu : s'.heap a = some u) : Origin s a u e := by
  have L := G.ledger hd
  cases h with
  | newTimer when interval others ha hmax => exact origin_newTimer ha hu
  | addFirst => exact .kept hu
  | add => exact .kept hu
  | @erase b t hout hb hi => exact .kept (heap_free (t := t) hu).2
  | note => exact .kept hu
  | @handleReadBegin now expired s₁ hframe hE hL =>
      refine .kept ?_
      have hheap : s₁.heap = s.heap := by rw [hE.rest]; rfl
      exact hheap ▸ hu
  | runNext => exact .kept hu
  | @handleReadEnd f s₁ hframe hran hrun hL =>
      rw [batch_of_frame hframe] at L
      rw [rearmed_rest] at hu
      have Lclosed : Ledger s.closed (addresses f.expired) := { L with }
      obtain ⟨t, ht, hor⟩ := heap_run_resetTimer Lclosed hrun hu
      rcases hor with rfl | ⟨hbatch, hrepeat, hrestart⟩
      · exact .kept ht
      · exact .restarted hframe hbatch ht hrepeat hrestart
  | @destroy s₁ hframe hrun hL hs₁ =>
      refine .kept (Run.inv_run (I := fun v => ∀ w, v.heap a = some w → s.heap a = some w) ?_
        (fun w hw => hw) hrun u hu)
      intro v x v' hv hstep w hw
      obtain ⟨t, ht, rfl⟩ := Option.map_eq_some_iff.1 hstep
      exact hv w (heap_free hw).2

/-- Whatever the state, also of a queue that has been destroyed. -/
theorem Good.origin {s s' : TimerQueue} {e : Event} (G : Good s)
    (h : TimerQueue.step s e = some s') {a : Addr} {u : Timer} (hu : s'.heap a = some u) :
    Origin s a u e := by
  rcases G.step_cases h with ⟨hd, -, hdoes⟩ | ⟨hd, -⟩
  · exact hdoes.origin G hd hu
  · obtain ⟨he, hexec⟩ := Run.restrict_eq_some.1 h
    rcases not_destroyed_of_enabled G he with hd' | ⟨b, when, interval, others, rfl⟩
    · exact absurd (hd'.symm.trans hd) (by simp)
    · rw [← Option.some.inj hexec] at hu
      exact origin_newTimer he.1 hu

/-! ## The log -/

/-- What a new entry of the log says of the state before. -/
def Recorded (s : TimerQueue) : ℕ × Act → Prop
  | (_, .added b u) => s.heap b = some u
  | (n, .called now b u) => n = s.started ∧ s.heap b = some u ∧
    ∃ f ∈ s.frame, now = f.now ∧ b ∈ addresses f.expired
  | _ => True

theorem recorded_emit {s s' : TimerQueue} {act : Act} (h : ∀ x ∈ s'.log, x ∈ s.log ∨ s.Recorded x)
    (hact : s.Recorded (s'.started, act)) : ∀ x ∈ (s'.emit act).log, x ∈ s.log ∨ s.Recorded x := by
  intro x hx
  rcases mem_log_emit.1 hx with hx | rfl
  · exact h x hx
  · exact .inr hact

theorem Does.recorded {s s' : TimerQueue} {e : Event} (h : Does s e s') :
    ∀ x ∈ s'.log, x ∈ s.log ∨ s.Recorded x := by
  have hself : ∀ x ∈ s.log, x ∈ s.log ∨ s.Recorded x := fun _ hx => .inl hx
  cases h with
  | newTimer => exact hself
  | addFirst hout hmem ha hfirst =>
      refine recorded_emit (recorded_emit ?_ ha) trivial
      exact hself
  | add hout hmem ha hfirst =>
      refine recorded_emit ?_ ha
      exact hself
  | @erase a t hout ha hi =>
      have hcancelled : ∀ x ∈ (s.emit (.cancelled (t.active a))).log, x ∈ s.log ∨ s.Recorded x :=
        recorded_emit hself trivial
      exact recorded_emit hcancelled trivial
  | note hout hi => exact recorded_emit hself trivial
  | @handleReadBegin now expired s₁ hframe hE hL =>
      have hlog : s₁.log = (s.begun now).log := by rw [hE.rest]
      have hbegun : ∀ x ∈ (s.begun now).log, x ∈ s.log ∨ s.Recorded x := by
        refine recorded_emit ?_ trivial
        exact hself
      exact fun x hx => hbegun x (hlog ▸ hx)
  | @runNext f x t hframe hx ha =>
      refine recorded_emit ?_ ⟨rfl, ha, f, hframe, rfl, ?_⟩
      · exact hself
      obtain ⟨hlt, hget⟩ := List.getElem?_eq_some_iff.1 hx
      exact List.mem_map_of_mem (hget ▸ List.getElem_mem hlt)
  | @handleReadEnd f s₁ hframe hran hrun hL =>
      have hloop : ∀ x ∈ s₁.log, x ∈ s.log ∨ s.Recorded x := by
        refine Run.inv_run (I := fun u => ∀ x ∈ u.log, x ∈ s.log ∨ s.Recorded x) ?_ hself hrun
        intro u x u' hu hstep
        obtain ⟨t, ht, -⟩ := Option.map_eq_some_iff.1 hstep
        rw [resetTimer_eq ht, Option.some.injEq] at hstep
        rw [← hstep]
        split_ifs
        · exact hu
        · exact recorded_emit hu trivial
      rcases rearmed_cases s₁ with h | ⟨e, h⟩
      · rw [h]
        exact hloop
      · rw [h]
        exact recorded_emit hloop trivial
  | @destroy s₁ hframe hrun hL hs₁ =>
      refine Run.inv_run (I := fun u => ∀ x ∈ u.log, x ∈ s.log ∨ s.Recorded x) ?_ hself hrun
      intro u x u' hu hstep
      obtain ⟨t, ht, rfl⟩ := Option.map_eq_some_iff.1 hstep
      exact recorded_emit hu trivial

/-- Whatever the state, also of a queue that has been destroyed. -/
theorem Good.recorded {s s' : TimerQueue} {e : Event} (G : Good s)
    (h : TimerQueue.step s e = some s') : ∀ x ∈ s'.log, x ∈ s.log ∨ s.Recorded x := by
  rcases G.step_cases h with ⟨-, -, hdoes⟩ | ⟨-, a, when, interval, others, rfl⟩
  · exact hdoes.recorded
  · exact fun x hx => .inl hx

end TimerQueue

end WwjMuduo
