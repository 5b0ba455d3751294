import WwjMuduo.Poller.Lifetimes

set_option autoImplicit false

/-! # Entries that mirror the interest of their channels

The members of `Channel` that change the mask call `updateChannel`, and the entry should then say
what the channel wants: its events, and its descriptor exactly while it wants some. For an entry
already there `updateChannel` writes the ignored descriptor when the interest is gone, and never
writes the descriptor back; for a new entry it writes the descriptor without looking at the interest.
So the mirror breaks exactly at a call that gives interest back to a registered channel without any,
or that registers a channel without giving it interest. -/

namespace WwjMuduo

variable {ι : Type*} [DecidableEq ι]

/-- The members of `Channel` that end in `update()`. -/
inductive Interest where
  | enableReading
  | enableWriting
  | disableWriting
  | disableAll
  deriving DecidableEq

namespace Interest

/-- The change of the mask. -/
def apply : Interest → Channel → Channel
  | .enableReading => Channel.enableReading
  | .enableWriting => Channel.enableWriting
  | .disableWriting => Channel.disableWriting
  | .disableAll => Channel.disableAll

/-- The members that add interest. -/
def enables : Interest → Bool
  | .enableReading | .enableWriting => true
  | .disableWriting | .disableAll => false

@[simp]
theorem apply_fd (op : Interest) (c : Channel) : (op.apply c).fd_ = c.fd_ := by
  cases op <;> rfl

@[simp]
theorem apply_index (op : Interest) (c : Channel) : (op.apply c).index_ = c.index_ := by
  cases op <;> rfl

/-- From a channel without interest, exactly the enabling members lead to one with interest. -/
theorem isNoneEvent_apply_of_none {op : Interest} {c : Channel} (h : c.isNoneEvent = true) :
    (op.apply c).isNoneEvent = !op.enables := by
  cases op with
  | enableReading => exact c.isNoneEvent_enableReading
  | enableWriting => exact c.isNoneEvent_enableWriting
  | disableWriting => exact Channel.isNoneEvent_disableWriting_of_none h
  | disableAll => exact c.isNoneEvent_disableAll

end Interest

namespace Polling

/-- One call of a member of `Channel` on a channel of the loop. -/
def call (s : Polling ι) (e : ι × Interest) : Option (Polling ι) :=
  (s.setChannel e.1 (e.2.apply (s.channel e.1))).updateChannel e.1

/-- A channel finds its events in its entry, and its descriptor exactly while it has interest. -/
def MirrorsAt (s : Polling ι) (c : ι) : Prop :=
  ∃ pfd, s.pollfds_[(s.channel c).index_.toNat]? = some pfd ∧
    pfd.events = (s.channel c).events_.setWidth 16 ∧
    ((s.channel c).isNoneEvent = false → pfd.fd = (s.channel c).fd_) ∧
    (pfd.fd = -(s.channel c).fd_ - 1 ↔ (s.channel c).isNoneEvent = true)

/-- The entries mirror the interest of all registered channels. -/
def Mirrors (s : Polling ι) : Prop := ∀ c, 0 ≤ (s.channel c).index_ → s.MirrorsAt c

/-- The calls that keep the mirror: on a registered channel without interest, those that add none; on
    a channel not yet registered, those that add interest. -/
def KeepsMirror (s : Polling ι) (e : ι × Interest) : Prop :=
  (0 ≤ (s.channel e.1).index_ → (s.channel e.1).isNoneEvent = true → e.2.enables = false) ∧
    ((s.channel e.1).index_ < 0 → e.2.enables = true)

/-- The invariant of a poller from which nothing is removed. -/
structure Inv (D : Descriptors ι) (s : Polling ι) : Prop where
  table : s.IndexTable {c | 0 ≤ (s.channel c).index_}
  fd : ∀ c, (s.channel c).fd_ = D.fd c
  unregistered : ∀ c, (s.channel c).index_ < 0 → (s.channel c).isNoneEvent = true

omit [DecidableEq ι] in
theorem init_inv (D : Descriptors ι) : Inv D (init D.fd) := by
  have hempty : {c | 0 ≤ ((init D.fd).channel c).index_} = (∅ : Set ι) := by
    ext c
    simp [init, Channel.new]
  refine ⟨?_, fun c => rfl, fun c _ => Channel.isNoneEvent_new _⟩
  rw [hempty]
  exact ⟨by simp [init], fun c hc => absurd hc (Set.notMem_empty c),
    fun c hc => absurd hc (Set.notMem_empty c), fun fd c hc => absurd hc (by simp [init]),
    fun c hc => absurd hc (Set.notMem_empty c), fun i hi => absurd hi (by simp [init])⟩

/-! ## One call

`Called` collects what a call does to the channels and to the entries, whichever branch of
`updateChannel` it takes; the mirror of the next state is read off it. -/

/-- A call on `c` touches no other channel and no other entry. It gives `c` the new mask, an index, and
    an entry with the new events. The descriptor in that entry is the channel's own if the entry is
    new; in an old entry it is the ignored one if the interest is gone, and stays as it was if not. -/
structure Called (s : Polling ι) (c : ι) (op : Interest) (s' : Polling ι) : Prop where
  other : ∀ d, d ≠ c → s'.channel d = s.channel d ∧
    (0 ≤ (s.channel d).index_ → s'.entry d = s.entry d)
  index : 0 ≤ (s'.channel c).index_
  fd : (s'.channel c).fd_ = (s.channel c).fd_
  events : (s'.channel c).events_ = (op.apply (s.channel c)).events_
  entry : ∃ pfd, s'.entry c = some pfd ∧ pfd.events = (s'.channel c).events_.setWidth 16 ∧
    ((s.channel c).index_ < 0 → pfd.fd = (s.channel c).fd_) ∧
    ∀ old, s.entry c = some old → pfd.fd =
      if (op.apply (s.channel c)).isNoneEvent then ignoredFd (s.channel c).fd_ else old.fd

section Call

variable {D : Descriptors ι} {s : Polling ι} {c : ι} {op : Interest}

theorem setChannel_apply_fd (I : Inv D s) (d : ι) :
    ((s.setChannel c (op.apply (s.channel c))).channel d).fd_ = D.fd d := by
  by_cases hd : d = c
  · subst hd
    rw [setChannel_self, Interest.apply_fd]
    exact I.fd d
  · rw [setChannel_of_ne s _ hd]
    exact I.fd d

theorem setChannel_apply_index (d : ι) :
    ((s.setChannel c (op.apply (s.channel c))).channel d).index_ = (s.channel d).index_ := by
  by_cases hd : d = c
  · subst hd
    rw [setChannel_self, Interest.apply_index]
  · rw [setChannel_of_ne s _ hd]

theorem setChannel_apply_entry (d : ι) :
    (s.setChannel c (op.apply (s.channel c))).entry d = s.entry d := by
  unfold entry
  rw [setChannel_apply_index d]
  rfl

/-- A call on a registered channel rewrites its entry in place. -/
theorem called_old (I : Inv D s) (hreg : 0 ≤ (s.channel c).index_) :
    ∃ s', s.call (c, op) = some s' ∧ Inv D s' ∧ Called s c op s' := by
  let t := s.setChannel c (op.apply (s.channel c))
  have htc : t.channel c = op.apply (s.channel c) := s.setChannel_self c _
  have htne : ∀ d, d ≠ c → t.channel d = s.channel d := fun d hd => s.setChannel_of_ne _ hd
  have htfd : ∀ d, (t.channel d).fd_ = D.fd d := setChannel_apply_fd I
  have htidx : ∀ d, (t.channel d).index_ = (s.channel d).index_ := setChannel_apply_index
  have hT : t.IndexTable {d | 0 ≤ (s.channel d).index_} :=
    I.table.setChannel (op.apply_fd _) (op.apply_index _)
  obtain ⟨old, hold⟩ : ∃ old, s.entry c = some old := by
    obtain ⟨i, hi, old, hold, -⟩ := I.table.index c hreg
    exact ⟨old, (entry_of_index hi).trans hold⟩
  obtain ⟨p, hp, hpT, hpchan, -⟩ := hT.updateChannel_old hreg
  refine ⟨p, hp, ⟨?_, ?_, ?_⟩, ?_, ?_, ?_, ?_, ?_⟩
  · have hset : {d | 0 ≤ (p.channel d).index_} = {d | 0 ≤ (s.channel d).index_} := by
      ext d
      rw [Set.mem_ofPred_eq, hpchan, htidx d, Set.mem_ofPred_eq]
    rw [hset]
    exact hpT
  · intro d
    rw [hpchan, htfd d]
  · intro d hd
    rw [hpchan, htidx d] at hd
    have hdc : d ≠ c := fun e => absurd hreg (by rw [← e]; omega)
    rw [hpchan, htne d hdc]
    exact I.unregistered d hd
  · intro d hd
    refine ⟨by rw [hpchan, htne d hd], fun hdreg => ?_⟩
    rw [entry_updateChannel_of_ne hT hdreg hd (Or.inl hreg) hp, setChannel_apply_entry d]
  · rw [hpchan, htidx c]
    exact hreg
  · rw [hpchan, htfd c, I.fd c]
  · rw [hpchan, htc]
  · have hentry := entry_updateChannel_old ((setChannel_apply_entry c).trans hold) hp
    refine ⟨_, hentry, ?_, fun h => by omega, ?_⟩
    · rw [hpchan]
      rfl
    · intro old' hold'
      rw [hold, Option.some.injEq] at hold'
      subst hold'
      rw [htc]
      show (if _ then _ else _) = _
      rw [op.apply_fd]

/-- The first call on a channel registers it, with an entry at the end. -/
theorem called_new (I : Inv D s) (hreg : (s.channel c).index_ < 0) :
    ∃ s', s.call (c, op) = some s' ∧ Inv D s' ∧ Called s c op s' := by
  let t := s.setChannel c (op.apply (s.channel c))
  have htc : t.channel c = op.apply (s.channel c) := s.setChannel_self c _
  have htne : ∀ d, d ≠ c → t.channel d = s.channel d := fun d hd => s.setChannel_of_ne _ hd
  have htfd : ∀ d, (t.channel d).fd_ = D.fd d := setChannel_apply_fd I
  have hT : t.IndexTable {d | 0 ≤ (s.channel d).index_} :=
    I.table.setChannel (op.apply_fd _) (op.apply_index _)
  have hneg : (t.channel c).index_ < 0 := (setChannel_apply_index c).trans_lt hreg
  have hp := updateChannel_new hneg
  have hpT := hT.updateChannel_new hneg (by rw [htfd c]; exact D.nonneg c)
    (fun d hd => by
      rw [htfd d, htfd c]
      intro h
      rw [Set.mem_ofPred_eq, D.injective h] at hd
      omega) hp
  let upd := Function.update t.channel c ((t.channel c).set_index t.pollfds_.length)
  have hupdc : upd c = (op.apply (s.channel c)).set_index s.pollfds_.length := by
    show (Function.update t.channel c _) c = _
    rw [Function.update_self, htc]
    rfl
  have hupdne : ∀ d, d ≠ c → upd d = s.channel d := by
    intro d hd
    show (Function.update t.channel c _) d = _
    rw [Function.update_of_ne hd, htne d hd]
  refine ⟨_, hp, ⟨?_, ?_, ?_⟩, ?_, ?_, ?_, ?_, ?_⟩
  · have hset : {d | 0 ≤ (upd d).index_} = insert c {d | 0 ≤ (s.channel d).index_} := by
      ext d
      rw [Set.mem_ofPred_eq, Set.mem_insert_iff]
      by_cases hd : d = c
      · subst hd
        simp [hupdc, Channel.set_index]
      · simp [hupdne d hd, hd]
    show IndexTable _ {d | 0 ≤ (upd d).index_}
    rw [hset]
    exact hpT
  · intro d
    show (upd d).fd_ = D.fd d
    by_cases hd : d = c
    · subst hd
      rw [hupdc, ← htfd d, htc]
      rfl
    · rw [hupdne d hd, I.fd d]
  · intro d hd
    change (upd d).index_ < 0 at hd
    have hdc : d ≠ c := by
      intro e
      subst e
      rw [hupdc] at hd
      exact absurd hd (not_lt.2 (Int.natCast_nonneg _))
    show (upd d).isNoneEvent = true
    rw [hupdne d hdc] at hd ⊢
    exact I.unregistered d hd
  · intro d hd
    refine ⟨hupdne d hd, fun hdreg => ?_⟩
    rw [entry_updateChannel_of_ne hT hdreg hd (Or.inr hneg) hp, setChannel_apply_entry d]
  · show 0 ≤ (upd c).index_
    rw [hupdc]
    exact Int.natCast_nonneg _
  · show (upd c).fd_ = _
    rw [hupdc]
    exact op.apply_fd _
  · show (upd c).events_ = _
    rw [hupdc]
    rfl
  · refine ⟨_, entry_updateChannel_new hneg hp, ?_, ?_, ?_⟩
    · show (t.channel c).events_.setWidth 16 = (upd c).events_.setWidth 16
      rw [htc, hupdc]
      rfl
    · intro _
      show (t.channel c).fd_ = _
      rw [htfd c, I.fd c]
    · intro old hold
      unfold entry at hold
      rw [if_pos hreg] at hold
      exact absurd hold (by simp)

theorem called (I : Inv D s) (c : ι) (op : Interest) :
    ∃ s', s.call (c, op) = some s' ∧ Inv D s' ∧ Called s c op s' := by
  rcases lt_or_ge (s.channel c).index_ 0 with hreg | hreg
  · exact called_new I hreg
  · exact called_old I hreg

omit [DecidableEq ι] in
theorem mirrorsAt_iff_entry (hidx : 0 ≤ (s.channel c).index_) :
    s.MirrorsAt c ↔ ∃ pfd, s.entry c = some pfd ∧
      pfd.events = (s.channel c).events_.setWidth 16 ∧
      ((s.channel c).isNoneEvent = false → pfd.fd = (s.channel c).fd_) ∧
      (pfd.fd = -(s.channel c).fd_ - 1 ↔ (s.channel c).isNoneEvent = true) := by
  unfold MirrorsAt entry
  rw [if_neg (not_lt.2 hidx)]

omit [DecidableEq ι] in
/-- After a call the channel it was made on is mirrored exactly if the call keeps the mirror. -/
theorem mirrorsAt_call_iff {s' : Polling ι} (I : Inv D s) (hM : Mirrors s)
    (C : Called s c op s') : s'.MirrorsAt c ↔ s.KeepsMirror (c, op) := by
  obtain ⟨pfd, hpfd, hevents, hnew, hold⟩ := C.entry
  have hfd0 : 0 ≤ (s.channel c).fd_ := by
    rw [I.fd c]
    exact D.nonneg c
  have hnone : (s'.channel c).isNoneEvent = (op.apply (s.channel c)).isNoneEvent := by
    unfold Channel.isNoneEvent
    rw [C.events]
  rw [mirrorsAt_iff_entry C.index]
  simp only [hpfd, Option.some.injEq, exists_eq_left', hevents, true_and, C.fd, hnone]
  unfold KeepsMirror
  rcases lt_or_ge (s.channel c).index_ 0 with hreg | hreg
  · -- a new entry is watched, so the mirror holds exactly if the call gives interest
    rw [hnew hreg, Interest.isNoneEvent_apply_of_none (I.unregistered c hreg)]
    cases op.enables <;> simp <;> omega
  · -- a registered entry is only ever switched off: without interest it stays ignored
    obtain ⟨old, hent, -, hwatch, hignore⟩ := (mirrorsAt_iff_entry hreg).1 (hM c hreg)
    rw [hold old hent]
    by_cases hbefore : (s.channel c).isNoneEvent = true
    · rw [Interest.isNoneEvent_apply_of_none hbefore]
      have hign := hignore.2 hbefore
      unfold ignoredFd
      cases op.enables <;> simp [hbefore, hreg]
      omega
    · have hw := hwatch (by simpa using hbefore)
      cases hafter : (op.apply (s.channel c)).isNoneEvent <;>
        simp [hbefore, ignoredFd, hw] <;> omega

/-- One call keeps the mirror exactly if it meets `KeepsMirror`. -/
theorem mirrors_call_iff {s' : Polling ι} {e : ι × Interest} (I : Inv D s) (hM : Mirrors s)
    (h : s.call e = some s') : Mirrors s' ↔ s.KeepsMirror e := by
  obtain ⟨c, op⟩ := e
  obtain ⟨t, ht, -, C⟩ := called I c op
  rw [h, Option.some.injEq] at ht
  subst ht
  rw [← mirrorsAt_call_iff I hM C]
  refine ⟨fun hM' => hM' c C.index, fun hc d hd => ?_⟩
  by_cases hdc : d = c
  · subst hdc
    exact hc
  · obtain ⟨hchan, hent⟩ := C.other d hdc
    rw [hchan] at hd
    have hMd := (mirrorsAt_iff_entry hd).1 (hM d hd)
    rw [mirrorsAt_iff_entry (by rw [hchan]; exact hd), hchan, hent hd]
    exact hMd

end Call

/-! ## Whole runs -/

/-- Every sequence of calls is defined. -/
theorem run_call_defined (D : Descriptors ι) (calls : List (ι × Interest)) :
    ∃ s, Run.run call (init D.fd) calls = some s := by
  have h : ∀ s : Polling ι, Inv D s → ∃ s', Run.run call s calls = some s' := by
    induction calls with
    | nil => exact fun s _ => ⟨s, rfl⟩
    | cons e calls ih =>
        intro s I
        obtain ⟨t, ht, It, -⟩ := called I e.1 e.2
        obtain ⟨s', hs'⟩ := ih t It
        exact ⟨s', Run.run_cons_eq_some.2 ⟨t, ht, hs'⟩⟩
  exact h _ (init_inv D)

/-- **Entries mirror the interest** after every call of a sequence exactly if no call of the sequence
    gives interest back to a registered channel without any, and no channel is registered by a call
    that leaves it without interest. -/
theorem mirrors_along_iff (D : Descriptors ι) (calls : List (ι × Interest)) :
    Run.Along call Mirrors (init D.fd) calls ↔ Run.Meets call KeepsMirror (init D.fd) calls := by
  have hinit : Mirrors (init D.fd) := by
    intro c hc
    exact absurd hc (by simp [init, Channel.new])
  rw [Run.along_iff_meets (I := Inv D) ?_ (fun s e s' I hM h => mirrors_call_iff I hM h)
    (init_inv D), and_iff_right hinit]
  intro s e s' I _ h _
  obtain ⟨t, ht, It, -⟩ := called I e.1 e.2
  rw [show s.call e = some t from ht, Option.some.injEq] at h
  exact h ▸ It

/-- A channel that was disabled and then enabled again keeps an entry that is not polled. -/
theorem mirrors_fails_after_reenable :
    ∃ s, Run.run call (init fun _ : Unit => 5)
      [((), .enableReading), ((), .disableAll), ((), .enableReading)] = some s ∧
      (s.channel ()).isNoneEvent = false ∧
      s.pollfds_[(s.channel ()).index_.toNat]? = some ⟨-6, 3, 0⟩ ∧ ¬ s.Mirrors := by
  refine ⟨_, rfl, rfl, rfl, fun hM => ?_⟩
  obtain ⟨pfd, hpfd, -, hfd, -⟩ := hM () (by decide)
  have h5 : pfd.fd = 5 := hfd rfl
  rw [← Option.some.inj hpfd] at h5
  exact absurd h5 (by decide)

end Polling

end WwjMuduo
