import WwjMuduo.Poller.IndexTable

set_option autoImplicit false

/-! # Registration and removal over whole runs

The machine of this file is one loop's poller called in any order: `updateChannel` after any change
of a channel's events, and `removeChannel`. The owners keep one rule (`Call.Allowed`): a channel is
removed only while it is registered, and not used again after that. Under the rule the index table
holds in every state, and `removeChannel` takes out its own channel's entry and no other. -/

namespace WwjMuduo

variable {ι : Type*} [DecidableEq ι]

/-- The descriptors of a loop's channels: non-negative and pairwise distinct. -/
structure Descriptors (ι : Type*) where
  fd : ι → ℤ
  nonneg : ∀ c, 0 ≤ fd c
  injective : Function.Injective fd

/-- A channel's history at its poller. -/
inductive Life where
  | fresh
  | registered
  | removed
  deriving DecidableEq

/-- A poller, its channels, and what has happened to each of them. -/
structure Tracked (ι : Type*) extends Polling ι where
  life : ι → Life

/-- A call of the poller. `update` comes after the owner has set the events of the channel. -/
inductive Call (ι : Type*) where
  | update (c : ι) (events : BitVec 32)
  | remove (c : ι)

namespace Tracked

def init (D : Descriptors ι) : Tracked ι :=
  { Polling.init D.fd with life := fun _ => .fresh }

def step (s : Tracked ι) : Call ι → Option (Tracked ι)
  | .update c events =>
    ((s.toPolling.setChannel c { s.channel c with events_ := events }).updateChannel c).map
      fun p => { p with life := Function.update s.life c .registered }
  | .remove c =>
    (s.toPolling.removeChannel c).map
      fun p => { p with life := Function.update s.life c .removed }

/-- The owners' rule. -/
def Allowed (s : Tracked ι) : Call ι → Prop
  | .update c _ => s.life c ≠ .removed
  | .remove c => s.life c = .registered

instance (s : Tracked ι) (call : Call ι) : Decidable (s.Allowed call) := by
  cases call <;> unfold Allowed <;> infer_instance

/-- The registered channels. -/
def registered (s : Tracked ι) : Set ι := {c | s.life c = .registered}

/-- The invariant of the machine. -/
structure Inv (D : Descriptors ι) (s : Tracked ι) : Prop where
  table : s.toPolling.IndexTable s.registered
  fd : ∀ c, (s.channel c).fd_ = D.fd c
  fresh : ∀ c, s.life c = .fresh → (s.channel c).index_ < 0

omit [DecidableEq ι] in
theorem init_inv (D : Descriptors ι) : Inv D (init D) := by
  have hempty : (init D).registered = ∅ := by
    ext c
    simp [registered, init]
  refine ⟨?_, fun c => rfl, fun c _ => by simp [init, Polling.init, Channel.new]⟩
  rw [hempty]
  refine ⟨by simp [init, Polling.init], fun c hc => absurd hc (Set.notMem_empty c),
    fun c hc => absurd hc (Set.notMem_empty c), fun fd c hc => ?_,
    fun c hc => absurd hc (Set.notMem_empty c), fun i hi => ?_⟩
  · simp [init, Polling.init] at hc
  · simp [init, Polling.init] at hi

theorem registered_update (s : Tracked ι) (p : Polling ι) (c : ι) :
    ({ p with life := Function.update s.life c .registered } : Tracked ι).registered =
      insert c s.registered := by
  ext d
  by_cases hd : d = c
  · subst hd
    simp [registered]
  · simp [registered, hd]

theorem registered_remove (s : Tracked ι) (p : Polling ι) (c : ι) :
    ({ p with life := Function.update s.life c .removed } : Tracked ι).registered =
      s.registered \ {c} := by
  ext d
  by_cases hd : d = c
  · subst hd
    simp [registered]
  · simp [registered, hd]

/-- Under the rule an update is defined, and keeps the invariant. -/
theorem update_inv {D : Descriptors ι} {s : Tracked ι} (I : Inv D s) (c : ι) (events : BitVec 32)
    (hc : s.Allowed (.update c events)) :
    ∃ s', s.step (.update c events) = some s' ∧ Inv D s' := by
  let ch : Channel := { s.channel c with events_ := events }
  let t := s.toPolling.setChannel c ch
  have htc : t.channel c = ch := s.toPolling.setChannel_self c ch
  have htne : ∀ d, d ≠ c → t.channel d = s.channel d :=
    fun d hd => s.toPolling.setChannel_of_ne ch hd
  have hT : t.IndexTable s.registered := I.table.setChannel rfl rfl
  have htfd : ∀ d, (t.channel d).fd_ = D.fd d := by
    intro d
    by_cases hd : d = c
    · subst hd
      rw [htc]
      exact I.fd d
    · rw [htne d hd]
      exact I.fd d
  by_cases hreg : c ∈ s.registered
  · obtain ⟨p, hp, hpT, hpchan, -⟩ := hT.updateChannel_old hreg
    refine ⟨{ p with life := Function.update s.life c .registered },
      by rw [step, show t.updateChannel c = some p from hp]; rfl, ?_, ?_, ?_⟩
    · rw [registered_update, Set.insert_eq_of_mem hreg]
      exact hpT
    · intro d
      show (p.channel d).fd_ = D.fd d
      rw [hpchan, htfd d]
    · intro d hd
      have hdc : d ≠ c := by
        rintro rfl
        simp at hd
      simp only [Function.update_of_ne hdc] at hd
      show (p.channel d).index_ < 0
      rw [hpchan, htne d hdc]
      exact I.fresh d hd
  · have hlife : s.life c = .fresh := by
      cases h : s.life c with
      | fresh => rfl
      | registered => exact absurd h hreg
      | removed => exact absurd h hc
    have hidx : (t.channel c).index_ < 0 := by
      rw [htc]
      exact I.fresh c hlife
    have hp := Polling.updateChannel_new hidx
    have hpT := hT.updateChannel_new hidx (by rw [htfd c]; exact D.nonneg c)
      (fun d hd => by
        rw [htfd d, htfd c]
        intro h
        exact hreg (D.injective h ▸ hd)) hp
    refine ⟨_, by rw [step, show t.updateChannel c = _ from hp]; rfl, ?_, ?_, ?_⟩
    · rw [registered_update]
      exact hpT
    · intro d
      by_cases hd : d = c
      · subst hd
        show ((Function.update t.channel d _) d).fd_ = _
        rw [Function.update_self]
        exact htfd d
      · show ((Function.update t.channel c _) d).fd_ = _
        rw [Function.update_of_ne hd]
        exact htfd d
    · intro d hd
      have hdc : d ≠ c := by
        rintro rfl
        simp at hd
      simp only [Function.update_of_ne hdc] at hd
      show ((Function.update t.channel c _) d).index_ < 0
      rw [Function.update_of_ne hdc, htne d hdc]
      exact I.fresh d hd

/-- Under the rule a removal is defined, and keeps the invariant. -/
theorem remove_inv {D : Descriptors ι} {s : Tracked ι} (I : Inv D s) (c : ι)
    (hc : s.Allowed (.remove c)) :
    ∃ s', s.step (.remove c) = some s' ∧ Inv D s' := by
  obtain ⟨p, hp, hpT, -, -, -, hpch, hpsame⟩ := I.table.removeChannel (c := c) hc
  refine ⟨_, by rw [step, hp]; rfl, ?_, ?_, ?_⟩
  · rw [registered_remove]
    exact hpT
  · intro d
    show (p.channel d).fd_ = D.fd d
    rw [(hpch d).1, I.fd d]
  · intro d hd
    have hdc : d ≠ c := by
      rintro rfl
      simp at hd
    simp only [Function.update_of_ne hdc] at hd
    show (p.channel d).index_ < 0
    have hnotreg : d ∉ s.registered \ {c} := by
      intro h
      have hreg : s.life d = .registered := h.1
      rw [hd] at hreg
      exact Life.noConfusion hreg
    rw [hpsame d hnotreg]
    exact I.fresh d hd

/-- One call that respects the rule keeps the invariant. -/
theorem step_inv {D : Descriptors ι} {s s' : Tracked ι} {call : Call ι} (I : Inv D s)
    (h : Run.restrict Allowed step s call = some s') : Inv D s' := by
  obtain ⟨hallowed, hstep⟩ := Run.restrict_eq_some.1 h
  cases call with
  | update c events =>
      obtain ⟨t, ht, It⟩ := update_inv I c events hallowed
      rw [ht, Option.some.injEq] at hstep
      exact hstep ▸ It
  | remove c =>
      obtain ⟨t, ht, It⟩ := remove_inv I c hallowed
      rw [ht, Option.some.injEq] at hstep
      exact hstep ▸ It

/-! ## What holds in every state -/

/-- The index table of a state: sizes, map, indices and entries of the registered channels, and what
    a `removeChannel` does to the entries. `defined` says that no call that respects the rule indexes
    `pollfds_` out of range or follows a null pointer. -/
structure TableHolds (D : Descriptors ι) (s : Tracked ι) : Prop where
  sizes : s.pollfds_.length = s.channels_.keys.card
  entry : ∀ c, s.life c = .registered → s.channels_.lookup (D.fd c) = some c ∧
    0 ≤ (s.channel c).index_ ∧ (s.channel c).index_ < s.pollfds_.length ∧
    ∃ pfd, s.pollfds_[(s.channel c).index_.toNat]? = some pfd ∧
      (pfd.fd = D.fd c ∨ pfd.fd = -D.fd c - 1)
  distinct : ∀ c d, s.life c = .registered → s.life d = .registered → c ≠ d →
    (s.channel c).index_ ≠ (s.channel d).index_
  remove : ∀ c, s.life c = .registered → ∃ s', s.step (.remove c) = some s' ∧
    s'.pollfds_.Perm (s.pollfds_.eraseIdx (s.channel c).index_.toNat) ∧
    s'.channels_.lookup (D.fd c) = none ∧
    ∀ d, s.life d = .registered → d ≠ c → ∃ pfd pfd',
      s.pollfds_[(s.channel d).index_.toNat]? = some pfd ∧
      s'.pollfds_[(s'.channel d).index_.toNat]? = some pfd' ∧
      pfd'.fd = pfd.fd ∧ pfd'.events = pfd.events
  defined : ∀ call, s.Allowed call → (s.step call).isSome

theorem Inv.tableHolds {D : Descriptors ι} {s : Tracked ι} (I : Inv D s) : TableHolds D s := by
  have hget : ∀ t : Polling ι, ∀ reg, t.IndexTable reg → ∀ c ∈ reg,
      t.pollfds_[(t.channel c).index_.toNat]? = t.entry c := by
    intro t reg T c hc
    obtain ⟨i, hi, -⟩ := T.index c hc
    rw [Polling.entry_of_index hi, hi, Int.toNat_natCast]
  refine ⟨I.table.size_eq, ?_, ?_, ?_, ?_⟩
  · intro c hc
    obtain ⟨i, hi, pfd, hpfd, hfd⟩ := I.table.index c hc
    have hlt := (List.getElem?_eq_some_iff.1 hpfd).1
    refine ⟨?_, by omega, by omega, pfd, ?_, ?_⟩
    · rw [← I.fd c]
      exact I.table.lookup c hc
    · rw [hi, Int.toNat_natCast, hpfd]
    · rw [← I.fd c]
      exact hfd
  · intro c d hc hd hne h
    exact hne (I.table.index_inj hc hd h)
  · intro c hc
    obtain ⟨p, hp, hpT, hent, hperm, hmap, -⟩ := I.table.removeChannel (c := c) hc
    refine ⟨_, by rw [step, hp]; rfl, hperm, ?_, ?_⟩
    · show p.channels_.lookup (D.fd c) = none
      rw [hmap, I.fd c, Finmap.lookup_erase]
    · intro d hd hne
      obtain ⟨i, hi, pfd, hpfd, -⟩ := I.table.index d hd
      have hs : s.pollfds_[(s.channel d).index_.toNat]? = some pfd := by
        rw [hi, Int.toNat_natCast, hpfd]
      refine ⟨pfd, pfd, hs, ?_, rfl, rfl⟩
      show p.pollfds_[(p.channel d).index_.toNat]? = some pfd
      rw [hget p _ hpT d ⟨hd, hne⟩, hent d hd hne, ← hget s.toPolling _ I.table d hd, hs]
  · intro call hcall
    cases call with
    | update c events =>
        obtain ⟨t, ht, -⟩ := update_inv I c events hcall
        rw [ht]
        rfl
    | remove c =>
        obtain ⟨t, ht, -⟩ := remove_inv I c hcall
        rw [ht]
        rfl

/-- **Poller index table.** In every state of every sequence of `updateChannel` and `removeChannel`
    calls that respects the owners' rule, the index table holds. -/
theorem tableHolds_along (D : Descriptors ι) (calls : List (Call ι)) :
    Run.Along (Run.restrict Allowed step) (TableHolds D) (init D) calls :=
  Run.Along.of_inv (fun _ _ _ => step_inv) (fun _ => Inv.tableHolds) (init_inv D) calls

end Tracked

end WwjMuduo
