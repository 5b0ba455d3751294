import WwjMuduo.Poller.Lifetimes

set_option autoImplicit false

/-! # Updates of a removed channel

`removeChannel` takes a channel's entry and its place in the map, and leaves `index_` as it was. An
index that is not negative is how `updateChannel` knows a registered channel. So an update that comes
after the removal, as `sendInLoop` makes one when it runs after `connectDestroyed`, does not register
the channel: it goes to whatever is at the old index, past the end or another channel's entry.

The machine is the one of `Lifetimes`, without the owners' rule where the statement is about every
history, and with it where the entry that is hit has to be some registered channel's. -/

namespace WwjMuduo

variable {ι : Type*} [DecidableEq ι]

namespace Polling

/-! ## What a call can do, in any state -/

/-- An index past the end is undefined. -/
theorem updateChannel_outside {s : Polling ι} {c : ι} {i : ℕ} (h : (s.channel c).index_ = i)
    (hi : s.pollfds_[i]? = none) : s.updateChannel c = none := by
  rw [updateChannel, if_neg (by omega)]
  simp only [h, Int.toNat_natCast, hi]

/-- A channel without an index is put into the map; one with an index leaves map and channels as they
    are. -/
theorem updateChannel_eq_some {s s' : Polling ι} {c : ι} (h : s.updateChannel c = some s') :
    ((s.channel c).index_ < 0 ∧
      s'.channels_ = s.channels_.insert (s.channel c).fd_ c ∧
      s'.channel = Function.update s.channel c ((s.channel c).set_index s.pollfds_.length)) ∨
    (0 ≤ (s.channel c).index_ ∧ s'.channels_ = s.channels_ ∧ s'.channel = s.channel) := by
  by_cases hneg : (s.channel c).index_ < 0
  · rw [updateChannel_new hneg, Option.some.injEq] at h
    exact .inl ⟨hneg, by rw [← h], by rw [← h]⟩
  · have hi : (s.channel c).index_ = ((s.channel c).index_.toNat : ℕ) := by omega
    cases hpfd : s.pollfds_[(s.channel c).index_.toNat]? with
    | none =>
        rw [updateChannel_outside hi hpfd] at h
        exact absurd h (by simp)
    | some pfd =>
        rw [updateChannel_old hi hpfd, Option.some.injEq] at h
        exact .inr ⟨by omega, by rw [← h], by rw [← h]⟩

/-- A removal needs an index. It erases the descriptor, and gives its index to at most one other
    channel. -/
theorem removeChannel_eq_some {s s' : Polling ι} {c : ι} (h : s.removeChannel c = some s') :
    0 ≤ (s.channel c).index_ ∧ s'.channels_ = s.channels_.erase (s.channel c).fd_ ∧
      (s'.channel = s.channel ∨ ∃ d, s'.channel =
        Function.update s.channel d ((s.channel d).set_index (s.channel c).index_)) := by
  rw [removeChannel] at h
  by_cases hneg : (s.channel c).index_ < 0
  · rw [if_pos hneg] at h
    exact absurd h (by simp)
  · rw [if_neg hneg] at h
    simp only at h
    split at h
    · split at h
      · rw [Option.some.injEq] at h
        exact ⟨by omega, by rw [← h], .inl (by rw [← h])⟩
      · split at h
        · exact absurd h (by simp)
        · rename_i d hd
          rw [Option.some.injEq] at h
          exact ⟨by omega, by rw [← h], .inr ⟨d, by rw [← h]⟩⟩
    · exact absurd h (by simp)

end Polling

namespace Tracked

/-- The channels keep their descriptors. -/
def Fds (D : Descriptors ι) (s : Tracked ι) : Prop := ∀ c, (s.channel c).fd_ = D.fd c

/-- The channel has been removed: it still has an index, and the map does not have its descriptor. -/
structure Gone (D : Descriptors ι) (c : ι) (s : Tracked ι) : Prop where
  index : 0 ≤ (s.channel c).index_
  lookup : s.channels_.lookup (D.fd c) = none

variable {D : Descriptors ι} {s s' : Tracked ι} {c : ι}

omit [DecidableEq ι] in
theorem init_fds (D : Descriptors ι) : Fds D (init D) := fun _ => rfl

/-- Setting the events leaves descriptors and indices alone. -/
theorem setEvents_channel (s : Tracked ι) (c d : ι) (events : BitVec 32) :
    ((s.toPolling.setChannel c { s.channel c with events_ := events }).channel d).fd_ =
        (s.channel d).fd_ ∧
      ((s.toPolling.setChannel c { s.channel c with events_ := events }).channel d).index_ =
        (s.channel d).index_ := by
  by_cases hd : d = c
  · subst hd
    rw [Polling.setChannel_self]
    exact ⟨rfl, rfl⟩
  · rw [Polling.setChannel_of_ne _ _ hd]
    exact ⟨rfl, rfl⟩

/-- **What an update can do.** A channel without an index is put into the map; one with an index
    leaves the map and all indices as they are. -/
theorem update_eq_some {events : BitVec 32} (h : s.step (.update c events) = some s') :
    (∀ d, (s'.channel d).fd_ = (s.channel d).fd_) ∧
    s'.life = Function.update s.life c .registered ∧
    (((s.channel c).index_ < 0 ∧ s'.channels_ = s.channels_.insert (s.channel c).fd_ c ∧
        ∀ d, d ≠ c → (s'.channel d).index_ = (s.channel d).index_) ∨
      (0 ≤ (s.channel c).index_ ∧ s'.channels_ = s.channels_ ∧
        ∀ d, (s'.channel d).index_ = (s.channel d).index_)) := by
  obtain ⟨p, hp, rfl⟩ := Option.map_eq_some_iff.1 h
  have hset := fun d => setEvents_channel s c d events
  rcases Polling.updateChannel_eq_some hp with ⟨hneg, hmap, hchan⟩ | ⟨hpos, hmap, hchan⟩
  · rw [(hset c).2] at hneg
    rw [(hset c).1] at hmap
    refine ⟨fun d => ?_, rfl, .inl ⟨hneg, hmap, fun d hd => ?_⟩⟩
    · show (p.channel d).fd_ = _
      rw [hchan]
      by_cases hd : d = c
      · subst hd
        rw [Function.update_self]
        exact (hset d).1
      · rw [Function.update_of_ne hd]
        exact (hset d).1
    · show (p.channel d).index_ = _
      rw [hchan, Function.update_of_ne hd]
      exact (hset d).2
  · rw [(hset c).2] at hpos
    refine ⟨fun d => ?_, rfl, .inr ⟨hpos, hmap, fun d => ?_⟩⟩
    · show (p.channel d).fd_ = _
      rw [hchan]
      exact (hset d).1
    · show (p.channel d).index_ = _
      rw [hchan]
      exact (hset d).2

/-- **What a removal can do.** It needs an index, erases the descriptor, and the index of a channel
    stays or becomes the one of the channel that is removed. -/
theorem remove_eq_some (h : s.step (.remove c) = some s') :
    (∀ d, (s'.channel d).fd_ = (s.channel d).fd_) ∧
    s'.life = Function.update s.life c .removed ∧
    0 ≤ (s.channel c).index_ ∧ s'.channels_ = s.channels_.erase (s.channel c).fd_ ∧
    ∀ d, (s'.channel d).index_ = (s.channel d).index_ ∨
      (s'.channel d).index_ = (s.channel c).index_ := by
  obtain ⟨p, hp, rfl⟩ := Option.map_eq_some_iff.1 h
  obtain ⟨hpos, hmap, hsame | ⟨e, hmoved⟩⟩ := Polling.removeChannel_eq_some hp
  · refine ⟨fun d => ?_, rfl, hpos, hmap, fun d => .inl ?_⟩
    · show (p.channel d).fd_ = _
      rw [hsame]
    · show (p.channel d).index_ = _
      rw [hsame]
  · have hchan : ∀ d, (p.channel d).fd_ = (s.channel d).fd_ ∧
        ((p.channel d).index_ = (s.channel d).index_ ∨
          (p.channel d).index_ = (s.channel c).index_) := by
      intro d
      rw [hmoved]
      by_cases hd : d = e
      · subst hd
        rw [Function.update_self]
        exact ⟨rfl, .inr rfl⟩
      · rw [Function.update_of_ne hd]
        exact ⟨rfl, .inl rfl⟩
    exact ⟨fun d => (hchan d).1, rfl, hpos, hmap, fun d => (hchan d).2⟩

/-! ## A removed channel stays removed -/

theorem step_fds {call : Call ι} (hfd : Fds D s) (h : s.step call = some s') : Fds D s' := by
  intro d
  cases call with
  | update e events => rw [(update_eq_some h).1 d, hfd d]
  | remove e => rw [(remove_eq_some h).1 d, hfd d]

/-- Every call keeps it so: an update registers only channels without an index. -/
theorem Gone.step {call : Call ι} (G : Gone D c s) (hfd : Fds D s) (h : s.step call = some s') :
    Gone D c s' := by
  cases call with
  | update d events =>
      obtain ⟨-, -, ⟨hneg, hmap, hidx⟩ | ⟨-, hmap, hidx⟩⟩ := update_eq_some h
      · have hcd : c ≠ d := by
          rintro rfl
          exact absurd G.index (by omega)
        refine ⟨by rw [hidx c hcd]; exact G.index, ?_⟩
        rw [hmap, hfd d, Finmap.lookup_insert_of_ne _ fun e => hcd (D.injective e)]
        exact G.lookup
      · exact ⟨by rw [hidx c]; exact G.index, by rw [hmap]; exact G.lookup⟩
  | remove d =>
      obtain ⟨-, -, hpos, hmap, hidx⟩ := remove_eq_some h
      refine ⟨?_, ?_⟩
      · rcases hidx c with hsame | hmoved
        · rw [hsame]
          exact G.index
        · rw [hmoved]
          exact hpos
      · rw [hmap, hfd d]
        by_cases hcd : D.fd c = D.fd d
        · rw [hcd, Finmap.lookup_erase]
        · rw [Finmap.lookup_erase_ne hcd]
          exact G.lookup

/-- The removal makes it so. -/
theorem gone_of_remove (hfd : Fds D s) (h : s.step (.remove c) = some s') : Gone D c s' := by
  obtain ⟨-, -, hpos, hmap, hidx⟩ := remove_eq_some h
  refine ⟨?_, by rw [hmap, hfd c, Finmap.lookup_erase]⟩
  rcases hidx c with hsame | hmoved
  · rw [hsame]
    exact hpos
  · rw [hmoved]
    exact hpos

/-- After any history that has a removal of `c` in it, `c` is gone. -/
theorem gone_of_mem {calls : List (Call ι)} (h : Run.run step (init D) calls = some s)
    (hc : .remove c ∈ calls) : Gone D c s := by
  obtain ⟨before, after, rfl⟩ := List.append_of_mem hc
  obtain ⟨s₁, h₁, hrest⟩ := Run.run_append_eq_some.1 h
  obtain ⟨s₂, h₂, hafter⟩ := Run.run_cons_eq_some.1 hrest
  have hfd₁ : Fds D s₁ := Run.inv_run (fun _ _ _ => step_fds) (init_fds D) h₁
  have hgone : Fds D s₂ ∧ Gone D c s₂ := ⟨step_fds hfd₁ h₂, gone_of_remove hfd₁ h₂⟩
  have hkept : Fds D s ∧ Gone D c s :=
    Run.inv_run (I := fun t => Fds D t ∧ Gone D c t)
      (fun t call t' ht hstep => ⟨step_fds ht.1 hstep, ht.2.step ht.1 hstep⟩) hgone hafter
  exact hkept.2

/-! ## The late update -/

/-- What an update of a channel should bring about. -/
structure Registers (D : Descriptors ι) (s s' : Tracked ι) (c : ι) (events : BitVec 32) : Prop where
  frame : ∀ d, d ≠ c → s.life d = .registered → s'.entry d = s.entry d
  registered : s'.channels_.lookup (D.fd c) = some c
  entry : s'.entry c = some ⟨D.fd c, events.setWidth 16, 0⟩

/-- **No late update registers.** After any history with a removal of `c` in it, no update of `c` is
    defined, spares the entries of the other channels and leaves `c` registered. -/
theorem late_update_never_registers {calls : List (Call ι)}
    (h : Run.run step (init D) calls = some s) (hc : .remove c ∈ calls) (events : BitVec 32) :
    ¬ ∃ s', s.step (.update c events) = some s' ∧ Registers D s s' c events := by
  rintro ⟨s', hstep, R⟩
  have hfd : Fds D s := Run.inv_run (fun _ _ _ => step_fds) (init_fds D) h
  have G' : Gone D c s' := (gone_of_mem h hc).step hfd hstep
  have hlookup := R.registered
  rw [G'.lookup] at hlookup
  exact absurd hlookup (by simp)

/-- Two channels on descriptors 3 and 4. -/
def pair : Descriptors Bool where
  fd c := if c then 4 else 3
  nonneg c := by cases c <;> decide
  injective c d h := by cases c <;> cases d <;> first | rfl | exact absurd h (by decide)

/-- The calls in which the first of two channels is removed while the second stays. -/
def firstRemoved : List (Call Bool) :=
  [.update false Channel.kReadEvent, .update true Channel.kReadEvent, .remove false]

theorem late_update_never_registers_pair :
    ∃ s, Run.run step (init pair) firstRemoved = some s ∧
      ¬ ∃ s', s.step (.update false Channel.kWriteEvent) = some s' ∧
        Registers pair s s' false Channel.kWriteEvent :=
  ⟨_, rfl, late_update_never_registers (show Run.run step (init pair) firstRemoved = some _ from rfl)
    (List.mem_cons_of_mem _ (List.mem_cons_of_mem _ List.mem_cons_self)) _⟩

/-- The second channel, which waits for input, has its entry overwritten: it is now polled for
    output, and the first is not registered. -/
theorem late_update_overwrites :
    ∃ s s', Run.run step (init pair) firstRemoved = some s ∧
      s.step (.update false Channel.kWriteEvent) = some s' ∧
      s.entry true = some ⟨4, 3, 0⟩ ∧ s'.entry true = some ⟨4, 4, 0⟩ ∧
      s'.channels_.lookup (pair.fd false) = none :=
  ⟨_, _, rfl, rfl, rfl, rfl, rfl⟩

/-! ## What it hits

Under the owners' rule the entry at the old index is some registered channel's. -/

/-- The removed channels are gone. -/
structure RemovedGone (D : Descriptors ι) (s : Tracked ι) : Prop where
  fds : Fds D s
  gone : ∀ c, s.life c = .removed → Gone D c s

theorem RemovedGone.step {call : Call ι} (R : RemovedGone D s) (h : s.step call = some s') :
    RemovedGone D s' := by
  refine ⟨step_fds R.fds h, fun c hc => ?_⟩
  cases call with
  | update d events =>
      rw [(update_eq_some h).2.1] at hc
      have hcd : c ≠ d := by
        rintro rfl
        simp at hc
      rw [Function.update_of_ne hcd] at hc
      exact (R.gone c hc).step R.fds h
  | remove d =>
      rw [(remove_eq_some h).2.1] at hc
      by_cases hcd : c = d
      · subst hcd
        exact gone_of_remove R.fds h
      · rw [Function.update_of_ne hcd] at hc
        exact (R.gone c hc).step R.fds h

omit [DecidableEq ι] in
theorem init_removedGone (D : Descriptors ι) : RemovedGone D (init D) :=
  ⟨init_fds D, fun c hc => absurd hc (by simp [init])⟩

/-- **What a late update hits.** In every state of the owners' rule, an update of a removed channel
    is undefined, or overwrites the entry of one registered channel and no other: that entry then
    has the removed channel's events, and its own descriptor unless these are none. -/
theorem late_update_hits {calls : List (Call ι)}
    (h : Run.run (Run.restrict Allowed step) (init D) calls = some s) (hc : s.life c = .removed)
    (events : BitVec 32) :
    s.step (.update c events) = none ∨
    ∃ d s' pfd, s.life d = .registered ∧ s.step (.update c events) = some s' ∧
      s.entry d = some pfd ∧
      s'.entry d = some ⟨if events = Channel.kNoneEvent then ignoredFd (D.fd c) else pfd.fd,
        events.setWidth 16, 0⟩ ∧
      ∀ e, s.life e = .registered → e ≠ d → s'.entry e = s.entry e := by
  have I : Inv D s := Run.inv_run (fun _ _ _ => step_inv) (init_inv D) h
  have R : RemovedGone D s := Run.inv_run
    (fun _ _ _ hR hstep => hR.step (Run.restrict_eq_some.1 hstep).2) (init_removedGone D) h
  have hset := fun d => setEvents_channel s c d events
  let t := s.toPolling.setChannel c { s.channel c with events_ := events }
  have hpos := (R.gone c hc).index
  obtain ⟨i, hi⟩ : ∃ i : ℕ, (s.channel c).index_ = i := ⟨_, (Int.toNat_of_nonneg hpos).symm⟩
  have hti : (t.channel c).index_ = i := (hset c).2.trans hi
  cases hpfd : s.pollfds_[i]? with
  | none =>
      left
      rw [step, show t.updateChannel c = none from Polling.updateChannel_outside hti hpfd]
      rfl
  | some pfd =>
      right
      have hlt := (List.getElem?_eq_some_iff.1 hpfd).1
      -- the entry at the old index is that of the channel that has the slot now
      obtain ⟨d, hd, hdi⟩ := I.table.slot i hlt
      have htc : t.channel c = { s.channel c with events_ := events } :=
        s.toPolling.setChannel_self c _
      let p : Polling ι := { t with pollfds_ := t.pollfds_.set i ((t.channel c).pollfd
        (if (t.channel c).isNoneEvent then ignoredFd (t.channel c).fd_ else pfd.fd)) }
      have hp : t.updateChannel c = some p := Polling.updateChannel_old hti hpfd
      have hold : ∀ e (j : ℕ), (s.channel e).index_ = j → s.entry e = s.pollfds_[j]? :=
        fun e j he => Polling.entry_of_index he
      have hnew : ∀ e (j : ℕ), (s.channel e).index_ = j → p.entry e = p.pollfds_[j]? :=
        fun e j he => Polling.entry_of_index (s := p) ((hset e).2.trans he)
      refine ⟨d, { p with life := Function.update s.life c .registered }, pfd, hd,
        by rw [step, hp]; rfl, (hold d i hdi).trans hpfd, ?_, fun e he hne => ?_⟩
      · have hfd := R.fds c
        refine (hnew d i hdi).trans ?_
        rw [List.getElem?_set_self (by exact hlt), htc]
        simp [Channel.pollfd, Channel.isNoneEvent, hfd]
      · obtain ⟨j, hj, -⟩ := I.table.index e he
        have hji : i ≠ j := by
          rintro rfl
          exact hne (I.table.index_inj he hd (by rw [hj, hdi]))
        refine (hnew e j hj).trans ?_
        rw [List.getElem?_set_ne hji, hold e j hj]
        rfl

end Tracked

end WwjMuduo
