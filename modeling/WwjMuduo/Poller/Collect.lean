import WwjMuduo.Poller.Lifetimes

set_option autoImplicit false

/-! # Collecting the active channels

`::poll` writes `revents` into the entries and `fillActiveChannels` turns the entries into channels.
It counts down from the number of entries with events and stops at zero, and it follows what
`channels_.find` returns without a test.

The test in the loop is `revents > 0`, on a `short`: an entry is taken when its `revents`, read as a
signed number, is positive. `fill_eq` says what the loop computes once the countdown cannot run out
too early and no lookup fails; the index table then gives both, in every state that calls of the
poller and polls with any outcome lead to. -/

namespace WwjMuduo

variable {ι : Type*}

namespace Polling

@[simp]
theorem length_reported (s : Polling ι) (revents : ℕ → BitVec 16) :
    (s.reported revents).pollfds_.length = s.pollfds_.length := by
  simp [reported]

theorem getElem?_reported (s : Polling ι) (revents : ℕ → BitVec 16) (i : ℕ) :
    (s.reported revents).pollfds_[i]? =
      s.pollfds_[i]?.map fun pfd => { pfd with revents := revents i } := by
  simp [reported]

/-- The channel `fillActiveChannels` takes for an entry. -/
def taken (s : Polling ι) (pfd : PollFd) : Option ι :=
  if 0 < pfd.revents.toInt then s.channels_.lookup pfd.fd else none

/-- The channels `fillActiveChannels` takes for some entries. -/
def found (s : Polling ι) (pollfds : List PollFd) : List ι := pollfds.filterMap s.taken

theorem found_congr {s s' : Polling ι} (h : s'.toPoller = s.toPoller) (pollfds : List PollFd) :
    s'.found pollfds = s.found pollfds := by
  have htaken : s'.taken = s.taken := by
    funext pfd
    simp only [taken, h]
  rw [found, found, htaken]

theorem taken_eq_some {s : Polling ι} {pfd : PollFd} {c : ι} :
    s.taken pfd = some c ↔ 0 < pfd.revents.toInt ∧ s.channels_.lookup pfd.fd = some c := by
  rw [taken]
  split
  · next h => simp [h]
  · next h => simp [h]

theorem mem_found {s : Polling ι} {pollfds : List PollFd} {c : ι} :
    c ∈ s.found pollfds ↔
      ∃ pfd ∈ pollfds, 0 < pfd.revents.toInt ∧ s.channels_.lookup pfd.fd = some c := by
  simp only [found, List.mem_filterMap, taken_eq_some]

/-! ## What the index table says of the entries -/

namespace IndexTable

variable {s : Polling ι} {reg : Set ι}

/-- `::poll` writes `revents` only. -/
theorem reported (T : IndexTable s reg) (revents : ℕ → BitVec 16) :
    IndexTable (s.reported revents) reg := by
  refine ⟨by rw [length_reported]; exact T.size_eq, T.fd_nonneg, T.lookup, T.owner, ?_, ?_⟩
  · intro c hc
    obtain ⟨i, hi, pfd, hpfd, hfd⟩ := T.index c hc
    exact ⟨i, hi, { pfd with revents := revents i }, by rw [getElem?_reported, hpfd]; rfl, hfd⟩
  · intro i hi
    rw [length_reported] at hi
    exact T.slot i hi

/-- Each entry is that of a registered channel. -/
theorem owner_of_entry (T : IndexTable s reg) {i : ℕ} {pfd : PollFd}
    (h : s.pollfds_[i]? = some pfd) : ∃ c ∈ reg, (s.channel c).index_ = i ∧
      (pfd.fd = (s.channel c).fd_ ∨ pfd.fd = ignoredFd (s.channel c).fd_) := by
  obtain ⟨c, hc, hci⟩ := T.slot i (List.getElem?_eq_some_iff.1 h).1
  obtain ⟨j, hj, pfd', hpfd', hfd⟩ := T.index c hc
  obtain rfl : i = j := by omega
  rw [h] at hpfd'
  obtain rfl : pfd = pfd' := Option.some.inj hpfd'
  exact ⟨c, hc, hci, hfd⟩

/-- The channel the map has for an entry's descriptor is the one whose entry it is. -/
theorem index_of_lookup (T : IndexTable s reg) {i : ℕ} {pfd : PollFd} {c : ι}
    (h : s.pollfds_[i]? = some pfd) (hc : s.channels_.lookup pfd.fd = some c) :
    c ∈ reg ∧ (s.channel c).index_ = i := by
  obtain ⟨hreg, hfd⟩ := T.owner pfd.fd c hc
  obtain ⟨d, hd, hdi, hdfd⟩ := T.owner_of_entry h
  have hcfd := T.fd_nonneg c hreg
  have hnonneg := T.fd_nonneg d hd
  -- the descriptor is not an ignored one, since the map has it
  have hsame : (s.channel c).fd_ = (s.channel d).fd_ := by
    unfold ignoredFd at hdfd
    omega
  obtain rfl := T.fd_inj hreg hd hsame
  exact ⟨hreg, hdi⟩

/-- The map has a channel for every descriptor that is not an ignored one. -/
theorem lookup_of_entry (T : IndexTable s reg) {i : ℕ} {pfd : PollFd}
    (h : s.pollfds_[i]? = some pfd) (hfd : 0 ≤ pfd.fd) :
    ∃ c, s.channels_.lookup pfd.fd = some c := by
  obtain ⟨c, hc, -, hcfd⟩ := T.owner_of_entry h
  have hnonneg := T.fd_nonneg c hc
  have hwatched : pfd.fd = (s.channel c).fd_ := by
    unfold ignoredFd at hcfd
    omega
  exact ⟨c, by rw [hwatched]; exact T.lookup c hc⟩

/-- The channels found are in the order of their entries. -/
theorem found_pairwise (T : IndexTable s reg) :
    (s.found s.pollfds_).Pairwise fun c d => (s.channel c).index_ < (s.channel d).index_ := by
  rw [found, List.pairwise_filterMap, List.pairwise_iff_getElem]
  intro i j hi hj hij c hc d hd
  have hci := (T.index_of_lookup (List.getElem?_eq_getElem hi) (taken_eq_some.1 hc).2).2
  have hdj := (T.index_of_lookup (List.getElem?_eq_getElem hj) (taken_eq_some.1 hd).2).2
  omega

theorem found_nodup (T : IndexTable s reg) : (s.found s.pollfds_).Nodup :=
  T.found_pairwise.imp fun h e => by subst e; omega

theorem mem_found_iff (T : IndexTable s reg)
    (hlook : ∀ pfd ∈ s.pollfds_, 0 < pfd.revents.toInt → 0 ≤ pfd.fd) {c : ι} :
    c ∈ s.found s.pollfds_ ↔ c ∈ reg ∧ ∃ pfd, s.entry c = some pfd ∧ 0 < pfd.revents.toInt := by
  rw [mem_found]
  constructor
  · rintro ⟨pfd, hpfd, hpos, hc⟩
    obtain ⟨i, hi⟩ := List.mem_iff_getElem?.1 hpfd
    obtain ⟨hreg, hci⟩ := T.index_of_lookup hi hc
    exact ⟨hreg, pfd, by rw [entry_of_index hci, hi], hpos⟩
  · rintro ⟨hreg, pfd, hent, hpos⟩
    obtain ⟨i, hi, -⟩ := T.index c hreg
    rw [entry_of_index hi] at hent
    have hmem := List.mem_of_getElem? hent
    obtain ⟨d, hd⟩ := T.lookup_of_entry hent (hlook pfd hmem hpos)
    obtain ⟨hdreg, hdi⟩ := T.index_of_lookup hent hd
    obtain rfl := T.index_inj hdreg hreg (by rw [hdi, hi])
    exact ⟨pfd, hmem, hpos, hd⟩

end IndexTable

/-! ## The loop -/

variable [DecidableEq ι]

/-- The loop, when the countdown starts high enough and every lookup succeeds: it appends what it
    finds, and sets `revents_` of the channels it finds and of no other. -/
theorem fill_eq {s : Polling ι} {pollfds : List PollFd} {n : ℤ} (before : List ι)
    (hn : (pollfds.countP (fun pfd => decide (0 < pfd.revents.toInt)) : ℤ) ≤ n)
    (hlook : ∀ pfd ∈ pollfds, 0 < pfd.revents.toInt → ∃ c, s.channels_.lookup pfd.fd = some c)
    (honce : (s.found pollfds).Nodup) :
    ∃ p, s.fill pollfds n before = some (p, before ++ s.found pollfds) ∧
      p.toPoller = s.toPoller ∧ (∀ c, c ∉ s.found pollfds → p.channel c = s.channel c) ∧
      ∀ pfd ∈ pollfds, ∀ c, s.taken pfd = some c →
        p.channel c = (s.channel c).set_revents (pfd.revents.signExtend 32) := by
  induction pollfds generalizing s n before with
  | nil => exact ⟨s, by simp [fill, found], rfl, fun c _ => rfl, by simp⟩
  | cons pfd pollfds ih =>
      have hlook' : ∀ pfd' ∈ pollfds, 0 < pfd'.revents.toInt →
          ∃ c, s.channels_.lookup pfd'.fd = some c :=
        fun pfd' h => hlook pfd' (List.mem_cons_of_mem pfd h)
      by_cases hpos : 0 < pfd.revents.toInt
      · obtain ⟨c, hc⟩ := hlook pfd List.mem_cons_self hpos
        have htaken : s.taken pfd = some c := taken_eq_some.2 ⟨hpos, hc⟩
        have hcons : s.found (pfd :: pollfds) = c :: s.found pollfds := by
          simp [found, htaken]
        rw [hcons, List.nodup_cons] at honce
        rw [List.countP_cons_of_pos (by simpa using hpos)] at hn
        -- the rest of the loop runs with the channel's `revents_` set
        let t := s.setChannel c ((s.channel c).set_revents (pfd.revents.signExtend 32))
        have hfound : t.found pollfds = s.found pollfds := found_congr rfl pollfds
        obtain ⟨p, hp, hpoller, hother, hset⟩ := ih (s := t) (n := n - 1) (before ++ [c])
          (by push_cast at hn; omega) hlook' (by rw [hfound]; exact honce.2)
        rw [hfound] at hp hother
        refine ⟨p, ?_, hpoller, ?_, ?_⟩
        · rw [fill, if_pos (by push_cast at hn; omega), if_pos hpos, hc]
          simpa [hcons] using hp
        · intro d hd
          rw [hcons, List.mem_cons, not_or] at hd
          rw [hother d hd.2]
          exact s.setChannel_of_ne _ hd.1
        · intro pfd' hpfd' d hd
          rcases List.mem_cons.1 hpfd' with rfl | hpfd'
          · obtain rfl : c = d := Option.some.inj (htaken.symm.trans hd)
            rw [hother c honce.1]
            exact s.setChannel_self ..
          · have hdc : d ≠ c := by
              rintro rfl
              exact honce.1 (List.mem_filterMap.2 ⟨pfd', hpfd', hd⟩)
            rw [hset pfd' hpfd' d hd]
            have hsame : t.channel d = s.channel d := s.setChannel_of_ne _ hdc
            rw [hsame]
      · have htaken : s.taken pfd = none := by rw [taken, if_neg hpos]
        have hcons : s.found (pfd :: pollfds) = s.found pollfds := by
          simp [found, htaken]
        rw [hcons] at honce ⊢
        rw [List.countP_cons_of_neg (by simpa using hpos)] at hn
        have hset : ∀ p : Polling ι, (∀ pfd' ∈ pollfds, ∀ c, s.taken pfd' = some c →
              p.channel c = (s.channel c).set_revents (pfd'.revents.signExtend 32)) →
            ∀ pfd' ∈ pfd :: pollfds, ∀ c, s.taken pfd' = some c →
              p.channel c = (s.channel c).set_revents (pfd'.revents.signExtend 32) := by
          intro p hp pfd' hpfd' c hc
          rcases List.mem_cons.1 hpfd' with rfl | hpfd'
          · rw [htaken] at hc
            exact absurd hc (by simp)
          · exact hp pfd' hpfd' c hc
        obtain ⟨p, hp, hpoller, hother, hfound⟩ := ih before hn hlook' honce
        by_cases hn0 : 0 < n
        · refine ⟨p, ?_, hpoller, hother, hset p hfound⟩
          rw [fill, if_pos hn0, if_neg hpos, hp]
        · -- the countdown is over, and so are the entries to take
          have hnone : ∀ pfd' ∈ pollfds, s.taken pfd' = none := by
            have h0 : pollfds.countP (fun pfd => decide (0 < pfd.revents.toInt)) = 0 := by omega
            intro pfd' h
            have := List.countP_eq_zero.1 h0 pfd' h
            rw [taken, if_neg (by simpa using this)]
          have hempty : s.found pollfds = [] := List.filterMap_eq_nil_iff.2 hnone
          refine ⟨s, ?_, rfl, fun c _ => rfl, hset s fun pfd' h c hc => ?_⟩
          · rw [fill, if_neg hn0, hempty, List.append_nil]
          · rw [hnone pfd' h] at hc
            exact absurd hc (by simp)

theorem fill_of_nonpos {s : Polling ι} {n : ℤ} (hn : n ≤ 0) (pollfds : List PollFd)
    (before : List ι) : s.fill pollfds n before = some (s, before) := by
  cases pollfds with
  | nil => rfl
  | cons pfd pollfds => rw [fill, if_neg (by omega)]

/-- With no event there is nothing to fill in, so the test of `poll` makes no difference. -/
theorem poll_ready (s : Polling ι) (before : List ι) (revents : ℕ → BitVec 16) :
    s.poll before (.ready revents) =
      (s.reported revents).fillActiveChannels (s.reported revents).numEvents before := by
  rw [poll]
  split
  · rfl
  · next h => rw [fillActiveChannels, fill_of_nonpos (by simpa using h)]

/-- What `::poll` can store: nothing for the entries it ignores. -/
def Possible (s : Polling ι) (revents : ℕ → BitVec 16) : Prop :=
  ∀ i (h : i < s.pollfds_.length), s.pollfds_[i].fd < 0 → revents i = 0

instance (s : Polling ι) (revents : ℕ → BitVec 16) : Decidable (s.Possible revents) :=
  inferInstanceAs (Decidable (∀ i (h : i < s.pollfds_.length), s.pollfds_[i].fd < 0 → _))

/-- After an outcome of `::poll`, `fillActiveChannels` follows no null pointer, and appends `found`
    to `before` and leads to `p`: `found` are the registered channels whose entry has `revents` that
    pass the test, each once and in the order of the entries, and `p` differs in the `revents_` of
    those channels only. -/
structure Collected (test : BitVec 16 → Prop) (reg : Set ι) (s : Polling ι)
    (revents : ℕ → BitVec 16) (before : List ι) (p : Polling ι) (found : List ι) : Prop where
  result : (s.reported revents).fillActiveChannels (s.reported revents).numEvents before =
    some (p, before ++ found)
  mem_iff : ∀ c, c ∈ found ↔
    c ∈ reg ∧ ∃ pfd, (s.reported revents).entry c = some pfd ∧ test pfd.revents
  once : found.Nodup
  order : found.Pairwise fun c d => (s.channel c).index_ < (s.channel d).index_
  set : ∀ c ∈ found, ∃ pfd, (s.reported revents).entry c = some pfd ∧
    p.channel c = (s.channel c).set_revents (pfd.revents.signExtend 32)
  other : ∀ c, c ∉ found → p.channel c = s.channel c
  poller : p.toPoller = (s.reported revents).toPoller

/-- The index table makes collecting exact, for the test the code uses. -/
theorem IndexTable.collected {s : Polling ι} {reg : Set ι} (T : IndexTable s reg)
    {revents : ℕ → BitVec 16} (h : s.Possible revents) (before : List ι) :
    ∃ p found, Collected (fun r => 0 < r.toInt) reg s revents before p found := by
  let t := s.reported revents
  have hT : IndexTable t reg := T.reported revents
  -- an entry with positive `revents` is not one that `::poll` ignores
  have hfd : ∀ pfd ∈ t.pollfds_, 0 < pfd.revents.toInt → 0 ≤ pfd.fd := by
    intro pfd hpfd hpos
    obtain ⟨i, hi⟩ := List.mem_iff_getElem?.1 hpfd
    rw [getElem?_reported, Option.map_eq_some_iff] at hi
    obtain ⟨old, hold, rfl⟩ := hi
    by_contra hneg
    obtain ⟨hlt, rfl⟩ := List.getElem?_eq_some_iff.1 hold
    have hzero : revents i = 0 := h i hlt (not_le.1 hneg)
    simp [hzero] at hpos
  have hlook : ∀ pfd ∈ t.pollfds_, 0 < pfd.revents.toInt →
      ∃ c, t.channels_.lookup pfd.fd = some c := by
    intro pfd hpfd hpos
    obtain ⟨i, hi⟩ := List.mem_iff_getElem?.1 hpfd
    exact hT.lookup_of_entry hi (hfd pfd hpfd hpos)
  -- the countdown starts at the entries with any events, so it outlasts those with positive ones
  have hcount : (t.pollfds_.countP (fun pfd => decide (0 < pfd.revents.toInt)) : ℤ) ≤
      (t.numEvents : ℤ) := by
    have hmono : t.pollfds_.countP (fun pfd => decide (0 < pfd.revents.toInt)) ≤ t.numEvents := by
      refine List.countP_mono_left fun pfd _ hpos => ?_
      have hpos' : 0 < pfd.revents.toInt := by simpa using hpos
      have hne : pfd.revents ≠ 0 := fun e => by simp [e] at hpos'
      simpa using hne
    exact_mod_cast hmono
  obtain ⟨p, hp, hpoller, hother, hset⟩ := fill_eq before hcount hlook hT.found_nodup
  refine ⟨p, t.found t.pollfds_, hp, fun c => hT.mem_found_iff hfd, hT.found_nodup,
    hT.found_pairwise, ?_, hother, hpoller⟩
  intro c hc
  obtain ⟨pfd, hpfd, htaken⟩ := List.mem_filterMap.1 hc
  obtain ⟨i, hi⟩ := List.mem_iff_getElem?.1 hpfd
  obtain ⟨-, hci⟩ := hT.index_of_lookup hi (taken_eq_some.1 htaken).2
  exact ⟨pfd, by rw [entry_of_index hci]; exact hi, hset pfd hpfd c htaken⟩

namespace Collected

variable {test : BitVec 16 → Prop} {reg : Set ι} {s p : Polling ι} {revents : ℕ → BitVec 16}
  {before found : List ι}

/-- A poll changes nothing of a channel but its `revents_`. -/
theorem channel (h : Collected test reg s revents before p found) (c : ι) :
    (p.channel c).fd_ = (s.channel c).fd_ ∧ (p.channel c).index_ = (s.channel c).index_ := by
  by_cases hc : c ∈ found
  · obtain ⟨pfd, -, hset⟩ := h.set c hc
    simp [hset, Channel.set_revents]
  · simp [h.other c hc]

theorem table (h : Collected test reg s revents before p found) (T : IndexTable s reg) :
    IndexTable p reg :=
  (T.reported revents).congr h.poller fun c _ => h.channel c

end Collected

end Polling

/-! ## Polls among the other calls -/

/-- A call of the owners' or a poll of the loop. -/
inductive PollerEvent (ι : Type*) where
  | call (call : Call ι)
  | poll (outcome : PollOutcome)

namespace Tracked

variable [DecidableEq ι]

/-- The loop polls into an empty `activeChannels_`. -/
def eventStep (s : Tracked ι) : PollerEvent ι → Option (Tracked ι)
  | .call call => s.step call
  | .poll outcome => (s.toPolling.poll [] outcome).map fun r => { r.1 with life := s.life }

/-- The owners keep their rule, and `::poll` stores what it can. -/
def EventAllowed (s : Tracked ι) : PollerEvent ι → Prop
  | .call call => s.Allowed call
  | .poll (.ready revents) => s.Possible revents
  | .poll .err => True

instance (s : Tracked ι) (e : PollerEvent ι) : Decidable (s.EventAllowed e) := by
  cases e with
  | call call => unfold EventAllowed; infer_instance
  | poll outcome =>
      cases outcome with
      | ready revents => unfold EventAllowed; infer_instance
      | err => exact instDecidableTrue

theorem eventStep_inv {D : Descriptors ι} {s s' : Tracked ι} {e : PollerEvent ι} (I : Inv D s)
    (h : Run.restrict EventAllowed eventStep s e = some s') : Inv D s' := by
  obtain ⟨hallowed, hstep⟩ := Run.restrict_eq_some.1 h
  cases e with
  | call call => exact step_inv I (Run.restrict_eq_some.2 ⟨hallowed, hstep⟩)
  | poll outcome =>
      cases outcome with
      | ready revents =>
          obtain ⟨p, found, C⟩ := I.table.collected hallowed []
          rw [eventStep, Polling.poll_ready, C.result, Option.map_some, Option.some.injEq] at hstep
          subst hstep
          refine ⟨C.table I.table, fun c => (C.channel c).1.trans (I.fd c), fun c hc => ?_⟩
          show (p.channel c).index_ < 0
          rw [(C.channel c).2]
          exact I.fresh c hc
      | err =>
          rw [eventStep, Polling.poll, Option.map_some, Option.some.injEq] at hstep
          exact hstep ▸ I

/-- Collecting is exact for every outcome of `::poll` and every list to append to. -/
def CollectsBy (test : BitVec 16 → Prop) (s : Tracked ι) : Prop :=
  ∀ revents, s.Possible revents → ∀ before, ∃ p found,
    Polling.Collected test s.registered s.toPolling revents before p found

/-- **Exact collection.** In every state that calls of the poller and polls lead to, and for every
    outcome of the next `::poll`, `fillActiveChannels` collects the registered channels whose entry
    has positive `revents`. -/
theorem collects_along (D : Descriptors ι) (events : List (PollerEvent ι)) :
    Run.Along (Run.restrict EventAllowed eventStep) (CollectsBy fun r => 0 < r.toInt) (init D)
      events :=
  Run.Along.of_inv (fun _ _ _ => eventStep_inv) (fun _ I _ h before => I.table.collected h before)
    (init_inv D) events

/-- One channel, on descriptor 5. -/
def oneChannel : Descriptors Unit where
  fd _ := 5
  nonneg _ := by decide
  injective _ _ _ := rfl

/-- `revents` that are not zero but negative as a `short` are passed over. -/
theorem sign_bit_not_collected :
    ¬ Run.Along (Run.restrict EventAllowed eventStep) (CollectsBy fun r => r ≠ 0) (init oneChannel)
      [.call (.update () POLLIN)] := by
  intro h
  let s : Tracked Unit :=
    { pollfds_ := [{ fd := 5, events := 1, revents := 0 }]
      channels_ := (∅ : Finmap fun _ : ℤ => Unit).insert 5 ()
      channel := fun _ => { index_ := 0, fd_ := 5, events_ := POLLIN, revents_ := 0 }
      life := fun _ => .registered }
  have hstep : Run.restrict EventAllowed eventStep (init oneChannel) (.call (.update () POLLIN)) =
      some s := rfl
  have hs : CollectsBy (fun r => r ≠ 0) s := (h.2 s hstep).head
  obtain ⟨p, found, C⟩ := hs (fun _ => 0x8000) (by decide) []
  have hresult := C.result
  have hnone : (s.toPolling.reported fun _ => 0x8000).fillActiveChannels
      (s.toPolling.reported fun _ => 0x8000).numEvents [] =
      some (s.toPolling.reported fun _ => 0x8000, []) := rfl
  rw [hnone, List.nil_append, Option.some.injEq, Prod.mk.injEq] at hresult
  have hmem : () ∈ found :=
    (C.mem_iff ()).2 ⟨rfl, { fd := 5, events := 1, revents := 0x8000 }, rfl, by decide⟩
  rw [← hresult.2] at hmem
  exact absurd hmem (by simp)

end Tracked

end WwjMuduo
