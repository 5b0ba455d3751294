import Mathlib.Data.List.Nodup
import WwjMuduo.TimerQueue

set_option autoImplicit false

/-! # Who owns which timer

Between the queue's two sets, the batch being run and the functors still on their way, each living
`Timer` has one owner. `Ledger s held` says so in the middle of a function too: `held` are the timers
that are in neither set and that somebody still has to put back or delete. Taking a timer from a
functor or out of the sets adds it to `held`; `insert` and `delete` remove it. The functions of the
queue are made of these steps, and keep the ledger with what they hold. -/

namespace WwjMuduo

namespace Act

def added? : Act → Option ActiveTimer
  | .added a t => some (t.active a)
  | _ => none

def deleted? : Act → Option ActiveTimer
  | .deleted a t => some (t.active a)
  | _ => none

end Act

namespace TimerQueue

/-- The timers handed to `addTimerInLoop` so far. -/
def added (s : TimerQueue) : List ActiveTimer := s.log.filterMap fun x => x.2.added?

/-- The timers deleted so far. -/
def deleted (s : TimerQueue) : List ActiveTimer := s.log.filterMap fun x => x.2.deleted?

/-- The addresses in a list of entries. -/
def addresses (entries : List Entry) : List Addr := entries.map fun entry => (ofLex entry).2

/-- The timers of the batch being run. -/
def batch (s : TimerQueue) : List Addr :=
  match s.frame with
  | none => []
  | some f => addresses f.expired

theorem added_emit (s : TimerQueue) (act : Act) :
    (s.emit act).added = s.added ++ act.added?.toList := by
  unfold added emit
  rw [List.filterMap_append]
  cases h : act.added? <;> simp [h]

theorem deleted_emit (s : TimerQueue) (act : Act) :
    (s.emit act).deleted = s.deleted ++ act.deleted?.toList := by
  unfold deleted emit
  rw [List.filterMap_append]
  cases h : act.deleted? <;> simp [h]

/-- The books, with `held` still to be put back or deleted. -/
structure Ledger (s : TimerQueue) (held : List Addr) : Prop where
  entries : ∀ x ∈ s.timers_, ∃ a t, s.heap a = some t ∧ x = t.entry a ∧
    t.active a ∈ s.activeTimers_
  actives : ∀ i ∈ s.activeTimers_, ∃ a t, s.heap a = some t ∧ i = t.active a ∧
    t.entry a ∈ s.timers_
  held_live : ∀ a ∈ held, ∃ t, s.heap a = some t ∧ t.active a ∉ s.activeTimers_ ∧
    t.active a ∈ s.added
  held_nodup : held.Nodup
  flying : ∀ a ∈ s.inFlight, a ∉ held ∧ ∃ t, s.heap a = some t ∧ t.active a ∉ s.added
  flying_nodup : s.inFlight.Nodup
  bounds : ∀ a t, s.heap a = some t → a < UINTPTR_MAX ∧ t.sequence_ ≤ s.s_numCreated_
  known : ∀ i ∈ s.added, (ofLex i).2 ≤ s.s_numCreated_
  active_added : ∀ i ∈ s.activeTimers_, i ∈ s.added
  added_owned : ∀ i ∈ s.added, i ∈ s.activeTimers_ ∨ i ∈ s.deleted ∨
    ∃ a ∈ held, ∃ t, s.heap a = some t ∧ i = t.active a
  deleted_dead : ∀ i ∈ s.deleted, i ∈ s.added ∧ ∀ a t, s.heap a = some t → t.active a ≠ i
  deleted_nodup : s.deleted.Nodup

theorem ledger_new (numCreated : ℤ) : Ledger (new numCreated) [] where
  entries x hx := absurd hx (OrderedSet.not_mem_empty x)
  actives i hi := absurd hi (OrderedSet.not_mem_empty i)
  held_live a ha := absurd ha List.not_mem_nil
  held_nodup := List.nodup_nil
  flying a ha := absurd ha List.not_mem_nil
  flying_nodup := List.nodup_nil
  bounds a t h := absurd h (by simp [new])
  known i hi := absurd hi List.not_mem_nil
  active_added i hi := absurd hi (OrderedSet.not_mem_empty i)
  added_owned i hi := absurd hi List.not_mem_nil
  deleted_dead i hi := absurd hi List.not_mem_nil
  deleted_nodup := List.nodup_nil

namespace Ledger

variable {s : TimerQueue} {held : List Addr} {a : Addr} {t : Timer}

/-! ## The elementary steps -/

/-- A queued timer is not in other hands. -/
theorem not_mem_held (L : Ledger s held) (ha : s.heap a = some t)
    (hi : t.active a ∈ s.activeTimers_) : a ∉ held := by
  intro hmem
  obtain ⟨u, hu, hnot, -⟩ := L.held_live a hmem
  rw [ha, Option.some.injEq] at hu
  exact hnot (hu ▸ hi)

/-- A timer is in `timers_`, under its expiration, exactly if it is in `activeTimers_`. -/
theorem entry_mem_iff (L : Ledger s held) (ha : s.heap a = some t) :
    t.entry a ∈ s.timers_ ↔ t.active a ∈ s.activeTimers_ := by
  constructor
  · intro h
    obtain ⟨b, u, hb, heq, hi⟩ := L.entries _ h
    obtain ⟨-, rfl⟩ := Timer.entry_inj.1 heq
    rw [ha, Option.some.injEq] at hb
    exact hb ▸ hi
  · intro h
    obtain ⟨b, u, hb, heq, hx⟩ := L.actives _ h
    obtain ⟨rfl, -⟩ := Timer.active_inj.1 heq
    rw [ha, Option.some.injEq] at hb
    exact hb ▸ hx

/-- What neither adds nor deletes a timer keeps the books. -/
theorem emit (L : Ledger s held) {act : Act} (ha : act.added? = none) (hd : act.deleted? = none) :
    Ledger (s.emit act) held := by
  have hadded : (s.emit act).added = s.added := by rw [added_emit, ha]; exact List.append_nil _
  have hdeleted : (s.emit act).deleted = s.deleted := by
    rw [deleted_emit, hd]
    exact List.append_nil _
  refine { L with
    held_live := ?_, flying := ?_, known := ?_, active_added := ?_, added_owned := ?_
    deleted_dead := ?_, deleted_nodup := ?_ }
  all_goals first | rw [hadded, hdeleted] | rw [hadded] | rw [hdeleted]
  · exact L.held_live
  · exact L.flying
  · exact L.known
  · exact L.active_added
  · exact L.added_owned
  · exact L.deleted_dead
  · exact L.deleted_nodup

/-- `new` gives a timer nobody has, to a functor. -/
theorem newTimer (L : Ledger s held) (ha : s.heap a = none) (hmax : a < UINTPTR_MAX)
    (when : Timestamp) (interval : Interval) (others : ℕ) :
    Ledger (s.newTimer a when interval others) held := by
  let timer := Timer.new when interval (s.s_numCreated_ + others + 1)
  have hself : (s.newTimer a when interval others).heap a = some timer := Function.update_self ..
  have hother {b : Addr} {u : Timer} (hb : s.heap b = some u) :
      (s.newTimer a when interval others).heap b = some u := by
    have hba : b ≠ a := by
      rintro rfl
      rw [ha] at hb
      exact absurd hb (by simp)
    exact (Function.update_of_ne hba ..).trans hb
  have hback {b : Addr} {u : Timer} (hb : (s.newTimer a when interval others).heap b = some u) :
      (b = a ∧ u = timer) ∨ s.heap b = some u := by
    by_cases hba : b = a
    · subst hba
      rw [hself, Option.some.injEq] at hb
      exact .inl ⟨rfl, hb.symm⟩
    · exact .inr ((Function.update_of_ne hba ..).symm.trans hb)
  -- The address may be that of a deleted timer; the number tells the two apart.
  have hfresh : timer.active a ∉ s.added := by
    intro hmem
    have hle : s.s_numCreated_ + others + 1 ≤ s.s_numCreated_ := L.known _ hmem
    omega
  refine
    { entries := ?_, actives := ?_, held_live := ?_, held_nodup := L.held_nodup, flying := ?_
      flying_nodup := ?_, bounds := ?_, known := ?_, active_added := L.active_added
      added_owned := ?_, deleted_dead := ?_, deleted_nodup := L.deleted_nodup }
  · intro x hx
    obtain ⟨b, u, hb, h⟩ := L.entries x hx
    exact ⟨b, u, hother hb, h⟩
  · intro i hi
    obtain ⟨b, u, hb, h⟩ := L.actives i hi
    exact ⟨b, u, hother hb, h⟩
  · intro b hb
    obtain ⟨u, hu, h⟩ := L.held_live b hb
    exact ⟨u, hother hu, h⟩
  · intro b hb
    rcases List.mem_append.1 hb with hb | hb
    · obtain ⟨hheld, u, hu, h⟩ := L.flying b hb
      exact ⟨hheld, u, hother hu, h⟩
    · obtain rfl := List.mem_singleton.1 hb
      refine ⟨fun hheld => ?_, timer, hself, hfresh⟩
      obtain ⟨u, hu, -⟩ := L.held_live b hheld
      rw [ha] at hu
      exact absurd hu (by simp)
  · refine List.nodup_append.2 ⟨L.flying_nodup, List.nodup_singleton a, ?_⟩
    intro b hb c hc
    rw [List.mem_singleton.1 hc]
    rintro rfl
    obtain ⟨-, u, hu, -⟩ := L.flying b hb
    rw [ha] at hu
    exact absurd hu (by simp)
  · intro b u hb
    show b < UINTPTR_MAX ∧ u.sequence_ ≤ s.s_numCreated_ + others + 1
    rcases hback hb with ⟨rfl, rfl⟩ | hb
    · exact ⟨hmax, le_rfl⟩
    · obtain ⟨hlt, hle⟩ := L.bounds b u hb
      exact ⟨hlt, by omega⟩
  · intro i hi
    have hle := L.known i hi
    show (ofLex i).2 ≤ s.s_numCreated_ + others + 1
    omega
  · intro i hi
    rcases L.added_owned i hi with h | h | ⟨b, hb, u, hu, h⟩
    · exact .inl h
    · exact .inr (.inl h)
    · exact .inr (.inr ⟨b, hb, u, hother hu, h⟩)
  · intro i hi
    obtain ⟨hadded, hdead⟩ := L.deleted_dead i hi
    refine ⟨hadded, fun b u hb => ?_⟩
    rcases hback hb with ⟨rfl, rfl⟩ | hb
    · rintro rfl
      exact hfresh hadded
    · exact hdead b u hb

/-- `addTimerInLoop` takes a timer from its functor. -/
theorem take (L : Ledger s held) (hmem : a ∈ s.inFlight) (ha : s.heap a = some t) :
    Ledger ({ s with inFlight := s.inFlight.erase a }.emit (.added a t)) (a :: held) := by
  let s' := { s with inFlight := s.inFlight.erase a }.emit (.added a t)
  have hadded {i : ActiveTimer} : i ∈ s'.added ↔ i ∈ s.added ∨ i = t.active a := by
    rw [show s'.added = s.added ++ [t.active a] from added_emit .., List.mem_append,
      List.mem_singleton]
  have hdeleted : s'.deleted = s.deleted := (deleted_emit ..).trans (List.append_nil _)
  obtain ⟨hheld, u, hu, hnew⟩ := L.flying a hmem
  rw [ha, Option.some.injEq] at hu
  subst hu
  refine
    { entries := L.entries, actives := L.actives, held_live := ?_, held_nodup := ?_, flying := ?_
      flying_nodup := L.flying_nodup.erase a, bounds := L.bounds, known := ?_, active_added := ?_
      added_owned := ?_, deleted_dead := ?_, deleted_nodup := hdeleted ▸ L.deleted_nodup }
  · intro b hb
    rcases List.mem_cons.1 hb with rfl | hb
    · exact ⟨t, ha, fun hi => hnew (L.active_added _ hi), hadded.2 (.inr rfl)⟩
    · obtain ⟨u, hu, hnot, hin⟩ := L.held_live b hb
      exact ⟨u, hu, hnot, hadded.2 (.inl hin)⟩
  · exact List.nodup_cons.2 ⟨hheld, L.held_nodup⟩
  · intro b hb
    obtain ⟨hba, hb⟩ := L.flying_nodup.mem_erase_iff.1 hb
    obtain ⟨hbheld, u, hu, hnot⟩ := L.flying b hb
    refine ⟨List.not_mem_cons_of_ne_of_not_mem hba hbheld, u, hu, fun hin => ?_⟩
    rcases hadded.1 hin with hin | heq
    · exact hnot hin
    · exact hba (Timer.active_inj.1 heq).1
  · intro i hi
    rcases hadded.1 hi with hi | rfl
    · exact L.known i hi
    · exact (L.bounds a t ha).2
  · intro i hi
    exact hadded.2 (.inl (L.active_added i hi))
  · intro i hi
    rcases hadded.1 hi with hi | rfl
    · rcases L.added_owned i hi with h | h | ⟨b, hb, h⟩
      · exact .inl h
      · exact .inr (.inl (hdeleted ▸ h))
      · exact .inr (.inr ⟨b, List.mem_cons_of_mem a hb, h⟩)
    · exact .inr (.inr ⟨a, List.mem_cons_self, t, ha, rfl⟩)
  · intro i hi
    obtain ⟨hin, hdead⟩ := L.deleted_dead i (hdeleted ▸ hi)
    exact ⟨hadded.2 (.inl hin), hdead⟩

/-- `insert` puts a timer in hand into both sets. -/
theorem insert (L : Ledger s (a :: held)) (ha : s.heap a = some t) :
    Ledger (s.insert a t).2 held := by
  obtain ⟨hheld, hnodup⟩ := List.nodup_cons.1 L.held_nodup
  obtain ⟨u, hu, hnot, hin⟩ := L.held_live a List.mem_cons_self
  rw [ha, Option.some.injEq] at hu
  subst hu
  refine
    { entries := ?_, actives := ?_, held_live := ?_, held_nodup := hnodup, flying := ?_
      flying_nodup := L.flying_nodup, bounds := L.bounds, known := L.known, active_added := ?_
      added_owned := ?_, deleted_dead := L.deleted_dead, deleted_nodup := L.deleted_nodup }
  · intro x hx
    rcases OrderedSet.mem_insert.1 hx with rfl | hx
    · exact ⟨a, t, ha, rfl, OrderedSet.mem_insert.2 (.inl rfl)⟩
    · obtain ⟨b, u, hb, h, hi⟩ := L.entries x hx
      exact ⟨b, u, hb, h, OrderedSet.mem_insert.2 (.inr hi)⟩
  · intro i hi
    rcases OrderedSet.mem_insert.1 hi with rfl | hi
    · exact ⟨a, t, ha, rfl, OrderedSet.mem_insert.2 (.inl rfl)⟩
    · obtain ⟨b, u, hb, h, hx⟩ := L.actives i hi
      exact ⟨b, u, hb, h, OrderedSet.mem_insert.2 (.inr hx)⟩
  · intro b hb
    obtain ⟨u, hu, hbnot, hbin⟩ := L.held_live b (List.mem_cons_of_mem a hb)
    refine ⟨u, hu, fun hi => ?_, hbin⟩
    rcases OrderedSet.mem_insert.1 hi with heq | hi
    · obtain ⟨rfl, -⟩ := Timer.active_inj.1 heq
      exact hheld hb
    · exact hbnot hi
  · intro b hb
    obtain ⟨hbheld, h⟩ := L.flying b hb
    exact ⟨(List.ne_and_not_mem_of_not_mem_cons hbheld).2, h⟩
  · intro i hi
    rcases OrderedSet.mem_insert.1 hi with rfl | hi
    · exact hin
    · exact L.active_added i hi
  · intro i hi
    rcases L.added_owned i hi with h | h | ⟨b, hb, u, hu, rfl⟩
    · exact .inl (OrderedSet.mem_insert.2 (.inr h))
    · exact .inr (.inl h)
    · rcases List.mem_cons.1 hb with rfl | hb
      · rw [ha, Option.some.injEq] at hu
        exact .inl (OrderedSet.mem_insert.2 (.inl (by rw [hu])))
      · exact .inr (.inr ⟨b, hb, u, hu, rfl⟩)

/-- A timer in hand can be changed, its number apart. -/
theorem store (L : Ledger s (a :: held)) (ha : s.heap a = some t) (t' : Timer)
    (hseq : t'.sequence_ = t.sequence_) : Ledger (s.store a t') (a :: held) := by
  have hactive : t'.active a = t.active a := Timer.active_inj.2 ⟨rfl, hseq⟩
  have hself : (s.store a t').heap a = some t' := Function.update_self ..
  have hother {b : Addr} (hb : b ≠ a) : (s.store a t').heap b = s.heap b :=
    Function.update_of_ne hb ..
  -- Every timer of the old heap is in the new one under the same name, the one at `a` changed.
  have hname {b : Addr} {u : Timer} (hb : s.heap b = some u) :
      ∃ u', (s.store a t').heap b = some u' ∧ u'.active b = u.active b := by
    by_cases hba : b = a
    · subst hba
      rw [ha, Option.some.injEq] at hb
      exact ⟨t', hself, hb ▸ hactive⟩
    · exact ⟨u, (hother hba).trans hb, rfl⟩
  have hback {b : Addr} {u' : Timer} (hb : (s.store a t').heap b = some u') :
      ∃ u, s.heap b = some u ∧ u'.sequence_ = u.sequence_ := by
    by_cases hba : b = a
    · subst hba
      rw [hself, Option.some.injEq] at hb
      exact ⟨t, ha, hb ▸ hseq⟩
    · exact ⟨u', (hother hba).symm.trans hb, rfl⟩
  have hne {b : Addr} {u : Timer} (hb : s.heap b = some u)
      (hi : u.active b ∈ s.activeTimers_) : b ≠ a := by
    rintro rfl
    exact L.not_mem_held hb hi List.mem_cons_self
  refine
    { entries := ?_, actives := ?_, held_live := ?_, held_nodup := L.held_nodup, flying := ?_
      flying_nodup := L.flying_nodup, bounds := ?_, known := L.known
      active_added := L.active_added, added_owned := ?_, deleted_dead := ?_
      deleted_nodup := L.deleted_nodup }
  · intro x hx
    obtain ⟨b, u, hb, h, hi⟩ := L.entries x hx
    exact ⟨b, u, (hother (hne hb hi)).trans hb, h, hi⟩
  · intro i hi
    obtain ⟨b, u, hb, rfl, hx⟩ := L.actives i hi
    exact ⟨b, u, (hother (hne hb hi)).trans hb, rfl, hx⟩
  · intro b hb
    obtain ⟨u, hu, h⟩ := L.held_live b hb
    obtain ⟨u', hu', heq⟩ := hname hu
    exact ⟨u', hu', heq ▸ h⟩
  · intro b hb
    obtain ⟨hbheld, u, hu, h⟩ := L.flying b hb
    obtain ⟨u', hu', heq⟩ := hname hu
    exact ⟨hbheld, u', hu', heq ▸ h⟩
  · intro b u' hb
    obtain ⟨u, hu, hseq'⟩ := hback hb
    exact hseq' ▸ L.bounds b u hu
  · intro i hi
    rcases L.added_owned i hi with h | h | ⟨b, hb, u, hu, rfl⟩
    · exact .inl h
    · exact .inr (.inl h)
    · obtain ⟨u', hu', heq⟩ := hname hu
      exact .inr (.inr ⟨b, hb, u', hu', heq.symm⟩)
  · intro i hi
    obtain ⟨hin, hdead⟩ := L.deleted_dead i hi
    refine ⟨hin, fun b u' hb => ?_⟩
    obtain ⟨u, hu, hseq'⟩ := hback hb
    rw [Timer.active_inj.2 ⟨rfl, hseq'⟩]
    exact hdead b u hu

/-- `delete` of a timer in hand. -/
theorem free (L : Ledger s (a :: held)) (ha : s.heap a = some t) : Ledger (s.free a t) held := by
  obtain ⟨hheld, hnodup⟩ := List.nodup_cons.1 L.held_nodup
  obtain ⟨u, hu, hnot, hin⟩ := L.held_live a List.mem_cons_self
  rw [ha, Option.some.injEq] at hu
  subst hu
  have hadded : (s.free a t).added = s.added := (added_emit ..).trans (List.append_nil _)
  have hdeleted {i : ActiveTimer} : i ∈ (s.free a t).deleted ↔ i ∈ s.deleted ∨ i = t.active a := by
    rw [show (s.free a t).deleted = s.deleted ++ [t.active a] from deleted_emit .., List.mem_append,
      List.mem_singleton]
  have hother {b : Addr} (hb : b ≠ a) : (s.free a t).heap b = s.heap b :=
    Function.update_of_ne hb ..
  have hback {b : Addr} {u : Timer} (hb : (s.free a t).heap b = some u) :
      b ≠ a ∧ s.heap b = some u := by
    have hba : b ≠ a := by
      rintro rfl
      rw [show (s.free b t).heap b = none from Function.update_self ..] at hb
      exact absurd hb (by simp)
    exact ⟨hba, (hother hba).symm.trans hb⟩
  -- Neither a queued timer nor another one in hand is the one deleted.
  have hne {b : Addr} {u : Timer} (hb : s.heap b = some u)
      (hi : u.active b ∈ s.activeTimers_) : b ≠ a := by
    rintro rfl
    exact L.not_mem_held hb hi List.mem_cons_self
  have hneHeld {b : Addr} (hb : b ∈ held) : b ≠ a := fun h => hheld (h ▸ hb)
  refine
    { entries := ?_, actives := ?_, held_live := ?_, held_nodup := hnodup, flying := ?_
      flying_nodup := L.flying_nodup, bounds := ?_, known := ?_, active_added := ?_
      added_owned := ?_, deleted_dead := ?_, deleted_nodup := ?_ }
  · intro x hx
    obtain ⟨b, u, hb, h, hi⟩ := L.entries x hx
    exact ⟨b, u, (hother (hne hb hi)).trans hb, h, hi⟩
  · intro i hi
    obtain ⟨b, u, hb, rfl, hx⟩ := L.actives i hi
    exact ⟨b, u, (hother (hne hb hi)).trans hb, rfl, hx⟩
  · intro b hb
    rw [hadded]
    obtain ⟨u, hu, h⟩ := L.held_live b (List.mem_cons_of_mem a hb)
    exact ⟨u, (hother (hneHeld hb)).trans hu, h⟩
  · intro b hb
    rw [hadded]
    obtain ⟨hbheld, u, hu, h⟩ := L.flying b hb
    obtain ⟨hba, hbheld⟩ := List.ne_and_not_mem_of_not_mem_cons hbheld
    exact ⟨hbheld, u, (hother hba).trans hu, h⟩
  · intro b u hb
    exact L.bounds b u (hback hb).2
  · rw [hadded]
    exact L.known
  · rw [hadded]
    exact L.active_added
  · intro i hi
    rw [hadded] at hi
    rcases L.added_owned i hi with h | h | ⟨b, hb, u, hu, rfl⟩
    · exact .inl h
    · exact .inr (.inl (hdeleted.2 (.inl h)))
    · rcases List.mem_cons.1 hb with rfl | hb
      · rw [ha, Option.some.injEq] at hu
        exact .inr (.inl (hdeleted.2 (.inr (by rw [hu]))))
      · exact .inr (.inr ⟨b, hb, u, (hother (hneHeld hb)).trans hu, rfl⟩)
  · intro i hi
    rw [hadded]
    rcases hdeleted.1 hi with hi | rfl
    · obtain ⟨hiadded, hdead⟩ := L.deleted_dead i hi
      exact ⟨hiadded, fun b u hb => hdead b u (hback hb).2⟩
    · exact ⟨hin, fun b u hb heq => (hback hb).1 (Timer.active_inj.1 heq).1⟩
  · rw [show (s.free a t).deleted = s.deleted ++ [t.active a] from deleted_emit ..]
    refine List.nodup_append.2 ⟨L.deleted_nodup, List.nodup_singleton _, ?_⟩
    intro i hi j hj
    rw [List.mem_singleton.1 hj]
    exact fun heq => (L.deleted_dead i hi).2 a t ha heq.symm

/-- Timers are taken out of both sets. -/
theorem withdraw (L : Ledger s held) (l : List Entry) (timers : OrderedSet Entry)
    (active : OrderedSet ActiveTimer) (hl : l.Nodup) (hsub : ∀ x ∈ l, x ∈ s.timers_)
    (htimers : ∀ x, x ∈ timers ↔ x ∈ s.timers_ ∧ x ∉ l)
    (hactive : ∀ i ∈ active, i ∈ s.activeTimers_)
    (hiff : ∀ a t, s.heap a = some t →
      (t.active a ∈ active ↔ t.active a ∈ s.activeTimers_ ∧ t.entry a ∉ l)) :
    Ledger { s with timers_ := timers, activeTimers_ := active } (addresses l ++ held) := by
  -- The addresses taken out are those of living timers that were queued.
  have hmem {a : Addr} : a ∈ addresses l ↔
      ∃ t, s.heap a = some t ∧ t.active a ∈ s.activeTimers_ ∧ t.entry a ∈ l := by
    unfold addresses
    rw [List.mem_map]
    constructor
    · rintro ⟨x, hx, rfl⟩
      obtain ⟨a, t, ha, rfl, hi⟩ := L.entries x (hsub x hx)
      exact ⟨t, ha, hi, hx⟩
    · rintro ⟨t, ha, -, hx⟩
      exact ⟨t.entry a, hx, rfl⟩
  refine
    { entries := ?_, actives := ?_, held_live := ?_, held_nodup := ?_, flying := ?_
      flying_nodup := L.flying_nodup, bounds := L.bounds, known := L.known, active_added := ?_
      added_owned := ?_, deleted_dead := L.deleted_dead, deleted_nodup := L.deleted_nodup }
  · intro x hx
    obtain ⟨hx, hxl⟩ := (htimers x).1 hx
    obtain ⟨a, t, ha, rfl, hi⟩ := L.entries x hx
    exact ⟨a, t, ha, rfl, (hiff a t ha).2 ⟨hi, hxl⟩⟩
  · intro i hi
    obtain ⟨a, t, ha, rfl, hx⟩ := L.actives i (hactive i hi)
    exact ⟨a, t, ha, rfl, (htimers _).2 ⟨hx, ((hiff a t ha).1 hi).2⟩⟩
  · intro a ha
    rcases List.mem_append.1 ha with ha | ha
    · obtain ⟨t, ht, hi, hx⟩ := hmem.1 ha
      exact ⟨t, ht, fun h => ((hiff a t ht).1 h).2 hx, L.active_added _ hi⟩
    · obtain ⟨t, ht, hnot, hin⟩ := L.held_live a ha
      exact ⟨t, ht, fun h => hnot (hactive _ h), hin⟩
  · refine List.nodup_append.2 ⟨List.Nodup.map_on ?_ hl, L.held_nodup, ?_⟩
    · intro x hx y hy hxy
      obtain ⟨a, t, ha, rfl, -⟩ := L.entries x (hsub x hx)
      obtain ⟨b, u, hb, rfl, -⟩ := L.entries y (hsub y hy)
      obtain rfl : a = b := hxy
      rw [ha, Option.some.injEq] at hb
      rw [hb]
    · intro a ha b hb
      rintro rfl
      obtain ⟨t, ht, hi, -⟩ := hmem.1 ha
      exact L.not_mem_held ht hi hb
  · intro a ha
    obtain ⟨hheld, t, ht, hnot⟩ := L.flying a ha
    refine ⟨fun h => ?_, t, ht, hnot⟩
    rcases List.mem_append.1 h with h | h
    · obtain ⟨u, hu, hi, -⟩ := hmem.1 h
      rw [ht, Option.some.injEq] at hu
      exact hnot (hu ▸ L.active_added _ hi)
    · exact hheld h
  · intro i hi
    exact L.active_added i (hactive i hi)
  · intro i hi
    rcases L.added_owned i hi with h | h | ⟨b, hb, h⟩
    · obtain ⟨a, t, ha, rfl, -⟩ := L.actives i h
      by_cases hx : t.entry a ∈ l
      · exact .inr (.inr ⟨a, List.mem_append.2 (.inl (hmem.2 ⟨t, ha, h, hx⟩)), t, ha, rfl⟩)
      · exact .inl ((hiff a t ha).2 ⟨h, hx⟩)
    · exact .inr (.inl h)
    · exact .inr (.inr ⟨b, List.mem_append.2 (.inr hb), h⟩)

/-- A timer is taken out of both sets. -/
theorem erase (L : Ledger s held) (ha : s.heap a = some t) (hi : t.active a ∈ s.activeTimers_) :
    Ledger { s with
      timers_ := s.timers_.erase (t.entry a)
      activeTimers_ := s.activeTimers_.erase (t.active a) } (a :: held) := by
  refine L.withdraw [t.entry a] _ _ (List.nodup_singleton _) ?_ ?_ ?_ ?_
  · intro x hx
    rw [List.mem_singleton.1 hx]
    exact (L.entry_mem_iff ha).2 hi
  · intro x
    rw [OrderedSet.mem_erase, List.mem_singleton, and_comm]
  · intro i hi
    exact (OrderedSet.mem_erase.1 hi).2
  · intro b u hb
    rw [OrderedSet.mem_erase, List.mem_singleton, and_comm, Ne, Timer.active_inj, Timer.entry_inj]
    refine and_congr_right fun _ => not_congr ⟨?_, ?_⟩
    · rintro ⟨rfl, -⟩
      rw [ha, Option.some.injEq] at hb
      exact ⟨by rw [hb], rfl⟩
    · rintro ⟨-, rfl⟩
      rw [ha, Option.some.injEq] at hb
      exact ⟨rfl, by rw [hb]⟩

end Ledger

end TimerQueue

end WwjMuduo
