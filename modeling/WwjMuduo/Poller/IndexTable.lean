import WwjMuduo.Poller

set_option autoImplicit false

/-! # The poller's index table

`IndexTable s reg` says that array, map and the index in each channel describe the same set `reg` of
registered channels. It is what keeps `channels_[..]` non-null and every index in range, and it is
kept by `updateChannel` and `removeChannel`, each of which leaves the entries of the other channels
as they are. -/

namespace WwjMuduo

variable {ι : Type*}

namespace Polling

/-- The entry a channel's index leads to. -/
def entry (s : Polling ι) (c : ι) : Option PollFd :=
  if (s.channel c).index_ < 0 then none else s.pollfds_[(s.channel c).index_.toNat]?

theorem entry_of_index {s : Polling ι} {c : ι} {i : ℕ} (h : (s.channel c).index_ = i) :
    s.entry c = s.pollfds_[i]? := by
  rw [entry, if_neg (by omega), h, Int.toNat_natCast]

/-- Array, map and indices agree on the registered channels `reg`. -/
structure IndexTable (s : Polling ι) (reg : Set ι) : Prop where
  size_eq : s.pollfds_.length = s.channels_.keys.card
  fd_nonneg : ∀ c ∈ reg, 0 ≤ (s.channel c).fd_
  lookup : ∀ c ∈ reg, s.channels_.lookup (s.channel c).fd_ = some c
  owner : ∀ fd c, s.channels_.lookup fd = some c → c ∈ reg ∧ (s.channel c).fd_ = fd
  index : ∀ c ∈ reg, ∃ i : ℕ, (s.channel c).index_ = i ∧ ∃ pfd, s.pollfds_[i]? = some pfd ∧
    (pfd.fd = (s.channel c).fd_ ∨ pfd.fd = ignoredFd (s.channel c).fd_)
  slot : ∀ i < s.pollfds_.length, ∃ c ∈ reg, (s.channel c).index_ = i

/-- The descriptor behind an entry, watched or ignored. -/
theorem decode_fd {fd x : ℤ} (hfd : 0 ≤ fd) (h : x = fd ∨ x = ignoredFd fd) :
    (if x < 0 then ignoredFd x else x) = fd := by
  unfold ignoredFd at *
  split_ifs <;> omega

theorem keys_insert_of_not_mem {fd : ℤ} {c : ι} {m : Finmap fun _ : ℤ => ι} (h : fd ∉ m) :
    (m.insert fd c).keys.card = m.keys.card + 1 := by
  have hkeys : (m.insert fd c).keys = Insert.insert fd m.keys := by
    ext x
    rw [Finmap.mem_keys, Finmap.mem_insert, Finset.mem_insert, Finmap.mem_keys]
  rw [hkeys, Finset.card_insert_of_notMem (by rwa [Finmap.mem_keys])]

namespace IndexTable

variable {s s' : Polling ι} {reg : Set ι} {c d : ι}

theorem fd_inj (T : IndexTable s reg) (hc : c ∈ reg) (hd : d ∈ reg)
    (h : (s.channel c).fd_ = (s.channel d).fd_) : c = d := by
  have hl := T.lookup c hc
  rw [h, T.lookup d hd] at hl
  exact (Option.some.inj hl).symm

/-- Distinct registered channels have distinct indices. -/
theorem index_inj (T : IndexTable s reg) (hc : c ∈ reg) (hd : d ∈ reg)
    (h : (s.channel c).index_ = (s.channel d).index_) : c = d := by
  obtain ⟨i, hi, pfd, hpfd, hcfd⟩ := T.index c hc
  obtain ⟨j, hj, pfd', hpfd', hdfd⟩ := T.index d hd
  obtain rfl : i = j := by omega
  rw [hpfd] at hpfd'
  obtain rfl : pfd = pfd' := Option.some.inj hpfd'
  have hcd := decode_fd (T.fd_nonneg c hc) hcfd
  rw [decode_fd (T.fd_nonneg d hd) hdfd] at hcd
  exact T.fd_inj hc hd hcd.symm

/-- The table depends only on the poller and on the descriptors and indices of its channels. -/
theorem congr (T : IndexTable s reg) (hpoller : s'.toPoller = s.toPoller)
    (hchannel : ∀ d ∈ reg, (s'.channel d).fd_ = (s.channel d).fd_ ∧
      (s'.channel d).index_ = (s.channel d).index_) : IndexTable s' reg := by
  have hpollfds : s'.pollfds_ = s.pollfds_ := by rw [hpoller]
  have hchannels : s'.channels_ = s.channels_ := by rw [hpoller]
  refine ⟨?_, ?_, ?_, ?_, ?_, ?_⟩
  · rw [hpollfds, hchannels]
    exact T.size_eq
  · intro d hd
    rw [(hchannel d hd).1]
    exact T.fd_nonneg d hd
  · intro d hd
    rw [(hchannel d hd).1, hchannels]
    exact T.lookup d hd
  · intro fd d hd
    rw [hchannels] at hd
    obtain ⟨hreg, hfd⟩ := T.owner fd d hd
    exact ⟨hreg, (hchannel d hreg).1.trans hfd⟩
  · intro d hd
    rw [(hchannel d hd).1, (hchannel d hd).2, hpollfds]
    exact T.index d hd
  · intro i hi
    rw [hpollfds] at hi
    obtain ⟨d, hd, hdi⟩ := T.slot i hi
    exact ⟨d, hd, (hchannel d hd).2.trans hdi⟩

variable [DecidableEq ι]

/-- The table does not depend on the event masks. -/
theorem setChannel (T : IndexTable s reg) {ch : Channel} (hfd : ch.fd_ = (s.channel c).fd_)
    (hidx : ch.index_ = (s.channel c).index_) : IndexTable (s.setChannel c ch) reg := by
  refine T.congr rfl fun d _ => ?_
  by_cases hd : d = c
  · subst hd
    rw [setChannel_self]
    exact ⟨hfd, hidx⟩
  · rw [setChannel_of_ne s ch hd]
    exact ⟨rfl, rfl⟩

/-! ## Registration and update -/

/-- A first `updateChannel` adds an entry at the end. -/
theorem updateChannel_new (T : IndexTable s reg) (hidx : (s.channel c).index_ < 0)
    (hfd : 0 ≤ (s.channel c).fd_) (hfresh : ∀ d ∈ reg, (s.channel d).fd_ ≠ (s.channel c).fd_)
    (h : s.updateChannel c = some s') : IndexTable s' (insert c reg) := by
  rw [Polling.updateChannel_new hidx, Option.some.injEq] at h
  subst h
  have hcreg : c ∉ reg := fun hc => hfresh c hc rfl
  -- the map has no entry for the descriptor, so it grows with the array
  have hfree : (s.channel c).fd_ ∉ s.channels_ := by
    intro hmem
    obtain ⟨d, hd⟩ := Finmap.mem_iff.1 hmem
    obtain ⟨hdreg, hdfd⟩ := T.owner _ d hd
    exact hfresh d hdreg hdfd
  let upd := Function.update s.channel c ((s.channel c).set_index s.pollfds_.length)
  have hfd' : ∀ d, (upd d).fd_ = (s.channel d).fd_ := by
    intro d
    by_cases hd : d = c
    · subst hd
      simp [upd, Channel.set_index]
    · simp [upd, Function.update_of_ne hd]
  have hself : (upd c).index_ = (s.pollfds_.length : ℕ) := by
    simp [upd, Channel.set_index]
  have hother : ∀ d ∈ reg, (upd d).index_ = (s.channel d).index_ := by
    intro d hd
    have hne : d ≠ c := fun e => hcreg (e ▸ hd)
    simp [upd, Function.update_of_ne hne]
  refine ⟨?_, ?_, ?_, ?_, ?_, ?_⟩
  · show (s.pollfds_ ++ [_]).length = _
    rw [List.length_append, keys_insert_of_not_mem hfree, T.size_eq]
    rfl
  · intro d hd
    show 0 ≤ (upd d).fd_
    rw [hfd' d]
    rcases Set.mem_insert_iff.1 hd with rfl | hd
    · exact hfd
    · exact T.fd_nonneg d hd
  · intro d hd
    show (s.channels_.insert (s.channel c).fd_ c).lookup (upd d).fd_ = some d
    rw [hfd' d]
    rcases Set.mem_insert_iff.1 hd with rfl | hd
    · exact Finmap.lookup_insert _
    · rw [Finmap.lookup_insert_of_ne _ (hfresh d hd)]
      exact T.lookup d hd
  · intro fd d hd
    show d ∈ insert c reg ∧ (upd d).fd_ = fd
    rw [hfd' d]
    by_cases hfdc : fd = (s.channel c).fd_
    · subst hfdc
      have hdc := hd
      rw [Finmap.lookup_insert, Option.some.injEq] at hdc
      subst hdc
      exact ⟨Set.mem_insert .., rfl⟩
    · rw [Finmap.lookup_insert_of_ne _ hfdc] at hd
      obtain ⟨hdreg, hdfd⟩ := T.owner fd d hd
      exact ⟨Set.mem_insert_of_mem _ hdreg, hdfd⟩
  · intro d hd
    show ∃ i : ℕ, (upd d).index_ = i ∧ ∃ pfd, (s.pollfds_ ++ [_])[i]? = some pfd ∧
      (pfd.fd = (upd d).fd_ ∨ pfd.fd = ignoredFd (upd d).fd_)
    rw [hfd' d]
    rcases Set.mem_insert_iff.1 hd with rfl | hd
    · exact ⟨_, hself, _, List.getElem?_concat_length, Or.inl rfl⟩
    · obtain ⟨i, hi, pfd, hpfd, hdfd⟩ := T.index d hd
      refine ⟨i, by rw [hother d hd, hi], pfd, ?_, hdfd⟩
      rw [List.getElem?_append_left (List.getElem?_eq_some_iff.1 hpfd).1, hpfd]
  · intro i hi
    show ∃ d ∈ insert c reg, (upd d).index_ = i
    simp only [List.length_append, List.length_singleton] at hi
    by_cases hlast : i = s.pollfds_.length
    · subst hlast
      exact ⟨c, Set.mem_insert .., hself⟩
    · obtain ⟨d, hd, hdi⟩ := T.slot i (by omega)
      exact ⟨d, Set.mem_insert_of_mem _ hd, by rw [hother d hd, hdi]⟩

/-- Updating a registered channel succeeds, and rewrites its own entry in place. -/
theorem updateChannel_old (T : IndexTable s reg) (hc : c ∈ reg) :
    ∃ s', s.updateChannel c = some s' ∧ IndexTable s' reg ∧ s'.channel = s.channel ∧
      s'.channels_ = s.channels_ := by
  obtain ⟨i, hi, pfd, hpfd, hfd⟩ := T.index c hc
  have hlt : i < s.pollfds_.length := (List.getElem?_eq_some_iff.1 hpfd).1
  refine ⟨_, Polling.updateChannel_old hi hpfd, ?_, rfl, rfl⟩
  refine ⟨?_, T.fd_nonneg, T.lookup, T.owner, ?_, ?_⟩
  · show (s.pollfds_.set i _).length = _
    rw [List.length_set, T.size_eq]
  · intro d hd
    by_cases hdc : d = c
    · subst hdc
      refine ⟨i, hi, _, List.getElem?_set_self hlt, ?_⟩
      show (if _ then _ else _) = _ ∨ (if _ then _ else _) = _
      split_ifs
      · exact Or.inr rfl
      · exact hfd
    · obtain ⟨j, hj, pfd', hpfd', hd'⟩ := T.index d hd
      have hij : i ≠ j := by
        intro e
        exact hdc (T.index_inj hd hc (by rw [hi, hj, e]))
      exact ⟨j, hj, pfd', by simpa [List.getElem?_set_ne hij] using hpfd', hd'⟩
  · intro j hj
    simp only [List.length_set] at hj
    exact T.slot j hj

end IndexTable

variable [DecidableEq ι]

/-- `updateChannel` leaves the entries of other channels alone. -/
theorem entry_updateChannel_of_ne {s s' : Polling ι} {reg : Set ι} {c d : ι} (T : IndexTable s reg)
    (hd : d ∈ reg) (hne : d ≠ c) (hc : c ∈ reg ∨ (s.channel c).index_ < 0)
    (h : s.updateChannel c = some s') : s'.entry d = s.entry d := by
  obtain ⟨j, hj, pfd', hpfd', -⟩ := T.index d hd
  rw [entry_of_index hj]
  rcases hc with hc | hidx
  · obtain ⟨i, hi, pfd, hpfd, -⟩ := T.index c hc
    rw [updateChannel_old hi hpfd, Option.some.injEq] at h
    subst h
    have hij : i ≠ j := fun e => hne (T.index_inj hd hc (by rw [hi, hj, e]))
    rw [← List.getElem?_set_ne hij]
    exact entry_of_index hj
  · rw [updateChannel_new hidx, Option.some.injEq] at h
    subst h
    have hj' : (Function.update s.channel c ((s.channel c).set_index s.pollfds_.length) d).index_ =
        (j : ℕ) := by rw [Function.update_of_ne hne, hj]
    rw [← List.getElem?_append_left (List.getElem?_eq_some_iff.1 hpfd').1]
    exact entry_of_index hj'

/-- The entry of a registered channel after its update. -/
theorem entry_updateChannel_old {s s' : Polling ι} {c : ι} {pfd : PollFd}
    (hpfd : s.entry c = some pfd) (h : s.updateChannel c = some s') :
    s'.entry c = some ((s.channel c).pollfd
      (if (s.channel c).isNoneEvent then ignoredFd (s.channel c).fd_ else pfd.fd)) := by
  have hidx : ¬ (s.channel c).index_ < 0 := by
    intro hneg
    rw [entry, if_pos hneg] at hpfd
    exact absurd hpfd (by simp)
  have hi : (s.channel c).index_ = ((s.channel c).index_.toNat : ℕ) := by omega
  rw [entry, if_neg hidx] at hpfd
  rw [updateChannel_old hi hpfd, Option.some.injEq] at h
  subst h
  have hentry (pollfds : List PollFd) : ({ s with pollfds_ := pollfds } : Polling ι).entry c =
      pollfds[(s.channel c).index_.toNat]? := entry_of_index hi
  exact (hentry _).trans (List.getElem?_set_self (List.getElem?_eq_some_iff.1 hpfd).1)

/-- The entry of a channel after its first update. -/
theorem entry_updateChannel_new {s s' : Polling ι} {c : ι} (hidx : (s.channel c).index_ < 0)
    (h : s.updateChannel c = some s') :
    s'.entry c = some ((s.channel c).pollfd (s.channel c).fd_) := by
  rw [updateChannel_new hidx, Option.some.injEq] at h
  subst h
  have hi : (Function.update s.channel c ((s.channel c).set_index s.pollfds_.length) c).index_ =
      (s.pollfds_.length : ℕ) := by
    rw [Function.update_self]
    rfl
  exact (entry_of_index hi).trans List.getElem?_concat_length

/-! ## Removal -/

omit [DecidableEq ι] in
theorem length_swapPop (l : List PollFd) (idx : ℕ) (pfd last : PollFd) :
    (swapPop l idx pfd last).length = l.length - 1 := by
  simp [swapPop]

omit [DecidableEq ι] in
theorem getElem?_swapPop {l : List PollFd} {idx k : ℕ} {pfd last : PollFd}
    (hidx : idx < l.length - 1) (hk : k < l.length - 1) :
    (swapPop l idx pfd last)[k]? = if k = idx then some last else l[k]? := by
  unfold swapPop
  rw [List.getElem?_dropLast, if_pos (by simpa using hk), List.getElem?_set_ne (by omega)]
  split_ifs with hki
  · subst hki
    exact List.getElem?_set_self (by omega)
  · exact List.getElem?_set_ne (Ne.symm hki)

omit [DecidableEq ι] in
/-- Swapping an entry to the end and popping it leaves the other entries, in another order. -/
theorem swapPop_perm {l : List PollFd} {idx : ℕ} {pfd last : PollFd}
    (hidx : idx < l.length - 1) (hlast : l.getLast? = some last) :
    (swapPop l idx pfd last).Perm (l.eraseIdx idx) := by
  obtain ⟨m, rfl⟩ := List.getLast?_eq_some_iff.1 hlast
  simp only [List.length_append, List.length_singleton, Nat.add_sub_cancel] at hidx
  have hswap : swapPop (m ++ [last]) idx pfd last = m.set idx last := by
    unfold swapPop
    rw [List.set_append_left _ _ hidx]
    simp
  have herase : (m ++ [last]).eraseIdx idx = m.eraseIdx idx ++ [last] :=
    List.eraseIdx_append_of_lt_length hidx _
  rw [hswap, herase, List.set_eq_take_append_cons_drop, if_pos hidx, List.eraseIdx_eq_take_drop_succ]
  rw [List.append_assoc]
  exact (List.perm_append_left_iff _).2 (List.perm_append_singleton _ _).symm

namespace IndexTable

variable {s s' : Polling ι} {reg : Set ι} {c d : ι}

omit [DecidableEq ι] in
/-- The table of a state in which `c` is gone and the entry of every other channel is where that
    channel's index says. -/
theorem removed (T : IndexTable s reg) (hc : c ∈ reg)
    (hmap : s'.channels_ = s.channels_.erase (s.channel c).fd_)
    (hlen : s'.pollfds_.length = s.pollfds_.length - 1)
    (hfd : ∀ d, (s'.channel d).fd_ = (s.channel d).fd_)
    (hent : ∀ d ∈ reg, d ≠ c → ∃ j : ℕ, (s'.channel d).index_ = j ∧ s'.pollfds_[j]? = s.entry d)
    (hslot : ∀ i < s'.pollfds_.length, ∃ d ∈ reg, d ≠ c ∧ (s'.channel d).index_ = i) :
    IndexTable s' (reg \ {c}) := by
  have hfdne : ∀ d ∈ reg, d ≠ c → (s.channel d).fd_ ≠ (s.channel c).fd_ :=
    fun d hd hne e => hne (T.fd_inj hd hc e)
  have hmem : (s.channel c).fd_ ∈ s.channels_.keys :=
    Finmap.mem_keys.2 (Finmap.mem_of_lookup_eq_some (T.lookup c hc))
  refine ⟨?_, ?_, ?_, ?_, ?_, ?_⟩
  · rw [hlen, hmap, Finmap.keys_erase, Finset.card_erase_of_mem hmem, T.size_eq]
  · intro d hd
    rw [hfd d]
    exact T.fd_nonneg d hd.1
  · intro d hd
    rw [hfd d, hmap, Finmap.lookup_erase_ne (hfdne d hd.1 hd.2)]
    exact T.lookup d hd.1
  · intro fd d hd
    rw [hmap] at hd
    by_cases hfdc : fd = (s.channel c).fd_
    · subst hfdc
      rw [Finmap.lookup_erase] at hd
      exact absurd hd (by simp)
    · rw [Finmap.lookup_erase_ne hfdc] at hd
      obtain ⟨hdreg, hdfd⟩ := T.owner fd d hd
      refine ⟨⟨hdreg, fun hdc => hfdc ?_⟩, by rw [hfd d, hdfd]⟩
      rw [← hdfd, Set.mem_singleton_iff.1 hdc]
  · intro d hd
    obtain ⟨j, hj, hjent⟩ := hent d hd.1 hd.2
    obtain ⟨i, hi, pfd, hpfd, hdfd⟩ := T.index d hd.1
    refine ⟨j, hj, pfd, ?_, by rw [hfd d]; exact hdfd⟩
    rw [hjent, entry_of_index hi, hpfd]
  · intro i hi
    obtain ⟨d, hd, hne, hdi⟩ := hslot i hi
    exact ⟨d, ⟨hd, hne⟩, hdi⟩

/-- What a removal of `c` leads to. -/
structure Drops (s : Polling ι) (reg : Set ι) (c : ι) (s' : Polling ι) : Prop where
  table : IndexTable s' (reg \ {c})
  entries : ∀ d ∈ reg, d ≠ c → s'.entry d = s.entry d
  perm : s'.pollfds_.Perm (s.pollfds_.eraseIdx (s.channel c).index_.toNat)
  channels_ : s'.channels_ = s.channels_.erase (s.channel c).fd_
  same : ∀ d, (s'.channel d).fd_ = (s.channel d).fd_ ∧ (s'.channel d).events_ = (s.channel d).events_
  frame : ∀ d, d ∉ reg \ {c} → s'.channel d = s.channel d

omit [DecidableEq ι] in
/-- Every other channel's entry is elsewhere in the array. -/
theorem other_index (T : IndexTable s reg) (hc : c ∈ reg) {i : ℕ} (hi : (s.channel c).index_ = i) :
    ∀ d ∈ reg, d ≠ c → ∃ j : ℕ, (s.channel d).index_ = j ∧ j < s.pollfds_.length ∧ j ≠ i := by
  intro d hd hne
  obtain ⟨j, hj, pfd', hpfd', -⟩ := T.index d hd
  refine ⟨j, hj, (List.getElem?_eq_some_iff.1 hpfd').1, fun e => hne ?_⟩
  exact T.index_inj hd hc (by rw [hi, hj, e])

/-- The last entry is popped. -/
theorem removeChannel_at_end (T : IndexTable s reg) (hc : c ∈ reg) {i : ℕ}
    (hi : (s.channel c).index_ = i) (hilt : i < s.pollfds_.length)
    (hlast : i = s.pollfds_.length - 1) : ∃ s', s.removeChannel c = some s' ∧ Drops s reg c s' := by
  have htoNat : (s.channel c).index_.toNat = i := by omega
  have hent : ∀ d ∈ reg, d ≠ c → ∃ j : ℕ, (s.channel d).index_ = j ∧
      s.pollfds_.dropLast[j]? = s.entry d := by
    intro d hd hne
    obtain ⟨j, hj, hjlt, hji⟩ := T.other_index hc hi d hd hne
    refine ⟨j, hj, ?_⟩
    rw [entry_of_index hj, List.getElem?_dropLast, if_pos (by omega)]
  refine ⟨_, removeChannel_last hi hilt hlast, ⟨?_, ?_, ?_, rfl, fun d => ⟨rfl, rfl⟩,
    fun d _ => rfl⟩⟩
  · refine T.removed hc rfl (by simp) (fun d => rfl) hent ?_
    intro j hj
    simp only [List.length_dropLast] at hj
    obtain ⟨d, hd, hdj⟩ := T.slot j (by omega)
    exact ⟨d, hd, fun e => by subst e; omega, hdj⟩
  · intro d hd hne
    obtain ⟨j, hj, hjent⟩ := hent d hd hne
    rw [← hjent]
    exact entry_of_index hj
  · rw [htoNat, List.dropLast_eq_eraseIdx (i := i) (by omega)]

/-- An entry in front of the last is swapped with it and popped; the index of the channel whose
    entry is moved follows. -/
theorem removeChannel_in_front (T : IndexTable s reg) (hc : c ∈ reg) {i : ℕ}
    (hi : (s.channel c).index_ = i) {pfd : PollFd} (hpfd : s.pollfds_[i]? = some pfd)
    (hlast : i ≠ s.pollfds_.length - 1) : ∃ s', s.removeChannel c = some s' ∧ Drops s reg c s' := by
  have hilt : i < s.pollfds_.length := (List.getElem?_eq_some_iff.1 hpfd).1
  have htoNat : (s.channel c).index_.toNat = i := by omega
  have hil : i < s.pollfds_.length - 1 := by omega
  obtain ⟨last, hlastEq⟩ : ∃ last, s.pollfds_.getLast? = some last :=
    ⟨_, List.getLast?_eq_some_getLast (List.ne_nil_of_length_pos (by omega))⟩
  -- the channel whose entry is moved
  obtain ⟨e, he, hei⟩ := T.slot (s.pollfds_.length - 1) (by omega)
  have hec : e ≠ c := by
    intro h
    subst h
    omega
  obtain ⟨j, hj, pfd', hpfd', hefd⟩ := T.index e he
  obtain rfl : j = s.pollfds_.length - 1 := by omega
  rw [← List.getLast?_eq_getElem?, hlastEq, Option.some.injEq] at hpfd'
  subst hpfd'
  -- its descriptor is read off the entry, and still leads to it in the map without `c`
  have hlook : (s.channels_.erase (s.channel c).fd_).lookup
      (if last.fd < 0 then ignoredFd last.fd else last.fd) = some e := by
    rw [decode_fd (T.fd_nonneg e he) hefd,
      Finmap.lookup_erase_ne (fun h => hec (T.fd_inj he hc h))]
    exact T.lookup e he
  let upd := Function.update s.channel e ((s.channel e).set_index i)
  have hself : (upd e).index_ = (i : ℕ) := by
    simp [upd, Channel.set_index]
  have hfd : ∀ d, (upd d).fd_ = (s.channel d).fd_ ∧ (upd d).events_ = (s.channel d).events_ := by
    intro d
    by_cases hd : d = e
    · subst hd
      simp [upd, Channel.set_index]
    · simp [upd, Function.update_of_ne hd]
  have hent : ∀ d ∈ reg, d ≠ c → ∃ k : ℕ, (upd d).index_ = k ∧
      (swapPop s.pollfds_ i pfd last)[k]? = s.entry d := by
    intro d hd hne
    by_cases hde : d = e
    · subst hde
      refine ⟨i, hself, ?_⟩
      rw [getElem?_swapPop hil hil, if_pos rfl, entry_of_index hj, ← List.getLast?_eq_getElem?,
        hlastEq]
    · obtain ⟨k, hk, hklt, hki⟩ := T.other_index hc hi d hd hne
      have hkl : k ≠ s.pollfds_.length - 1 := by
        intro h
        exact hde (T.index_inj hd he (by rw [hk, hj, h]))
      refine ⟨k, by simp [upd, Function.update_of_ne hde, hk], ?_⟩
      rw [getElem?_swapPop hil (by omega), if_neg hki, entry_of_index hk]
  refine ⟨_, removeChannel_swap hi hpfd hlastEq hlast hlook, ⟨?_, ?_, ?_, rfl, hfd, ?_⟩⟩
  · refine T.removed hc rfl (length_swapPop ..) (fun d => (hfd d).1) hent ?_
    intro k hk
    show ∃ d ∈ reg, d ≠ c ∧ (upd d).index_ = k
    simp only [length_swapPop] at hk
    by_cases hki : k = i
    · subst hki
      exact ⟨e, he, hec, hself⟩
    · obtain ⟨d, hd, hdk⟩ := T.slot k (by omega)
      have hde : d ≠ e := fun h => by subst h; omega
      refine ⟨d, hd, fun h => ?_, by simp [upd, Function.update_of_ne hde, hdk]⟩
      subst h
      omega
  · intro d hd hne
    obtain ⟨k, hk, hkent⟩ := hent d hd hne
    rw [← hkent]
    exact entry_of_index hk
  · rw [htoNat]
    exact swapPop_perm hil hlastEq
  · intro d hd
    have hde : d ≠ e := by
      intro h
      subst h
      exact hd ⟨he, hec⟩
    exact Function.update_of_ne hde _ _

/-- What `removeChannel` of a registered channel does: it succeeds, drops that channel's entry, and
    leaves every other entry where its channel's index leads. -/
theorem removeChannel (T : IndexTable s reg) (hc : c ∈ reg) :
    ∃ s', s.removeChannel c = some s' ∧ IndexTable s' (reg \ {c}) ∧
      (∀ d ∈ reg, d ≠ c → s'.entry d = s.entry d) ∧
      s'.pollfds_.Perm (s.pollfds_.eraseIdx (s.channel c).index_.toNat) ∧
      s'.channels_ = s.channels_.erase (s.channel c).fd_ ∧
      (∀ d, (s'.channel d).fd_ = (s.channel d).fd_ ∧
        (s'.channel d).events_ = (s.channel d).events_) ∧
      (∀ d, d ∉ reg \ {c} → s'.channel d = s.channel d) := by
  obtain ⟨i, hi, pfd, hpfd, -⟩ := T.index c hc
  have hilt : i < s.pollfds_.length := (List.getElem?_eq_some_iff.1 hpfd).1
  have hdrops : ∃ s', s.removeChannel c = some s' ∧ Drops s reg c s' := by
    by_cases hlast : i = s.pollfds_.length - 1
    · exact T.removeChannel_at_end hc hi hilt hlast
    · exact T.removeChannel_in_front hc hi hpfd hlast
  obtain ⟨s', hs', D⟩ := hdrops
  exact ⟨s', hs', D.table, D.entries, D.perm, D.channels_, D.same, D.frame⟩

end IndexTable

end Polling

end WwjMuduo
